import ApiModel.Proofs.Yaml.BlockScanning
import ApiModel.Proofs.Yaml.Rereading
import ApiModel.Proofs.Yaml.Values

namespace ApiModel.Plain

open Yaml

mutual

def tree : Plain → Yaml.Tree
  | null => .scalar none .null "null"
  | bool b => .scalar none .bool (if b then "true" else "false" : String)
  | text s => .scalar none .str s
  | list items => .seq none .seq (trees items)
  | record fields => .map none .map (fieldTrees fields)

def trees : List Plain → List Yaml.Tree
  | [] => []
  | p :: r => p.tree :: trees r

def fieldTrees : List (String × Plain) → List (Yaml.Tree × Yaml.Tree)
  | [] => []
  | (name, p) :: r => (.scalar none .str name, p.tree) :: fieldTrees r

end

variable {known : Yaml.Tree.Shorthands} {ending : Fault} {fuel : Nat} {r r' : List Token} {p : Plain}
  {item : Yaml.Tree} {k h i : Nat}

theorem nextIn_entryEnds (p : Plain) (h i : Nat) (r : List Token) :
    Yaml.Tree.nextIn Yaml.Tree.entryEnds (p.blockTokens h i ++ r) = false := by
  cases p with
  | null | bool | text => rfl
  | list items =>
    cases items with
    | nil => rfl
    | cons q items =>
      rw [blockTokens]
      split <;> rfl
  | record fields => cases fields <;> rfl

theorem nextIn_blockEntry (p : Plain) (k : Nat) (r : List Token) :
    Yaml.Tree.nextIn [.blockEntry] (p.blockTokens k k ++ r) = false := by
  cases p with
  | null | bool | text => rfl
  | list items =>
    cases items with
    | nil => rfl
    | cons q items =>
      rw [blockTokens, if_pos rfl]
      rfl
  | record fields => cases fields <;> rfl

theorem nextIn_of_subset {choices ends : List Token} {ts : List Token}
    (none : ∀ t ∈ choices, t ∈ ends) (out : Yaml.Tree.nextIn ends ts = false) :
    Yaml.Tree.nextIn choices ts = false := by
  cases ts with
  | nil => rfl
  | cons t ts =>
    rw [Yaml.Tree.nextIn, List.contains_eq_mem, decide_eq_false_iff_not] at out ⊢
    exact fun mem => out (none t mem)

theorem nextIn_append {a b : List Token} {ts : List Token} (left : Yaml.Tree.nextIn a ts = false)
    (right : Yaml.Tree.nextIn b ts = false) : Yaml.Tree.nextIn (a ++ b) ts = false := by
  cases ts with
  | nil => rfl
  | cons t ts =>
    rw [Yaml.Tree.nextIn, List.contains_eq_mem, decide_eq_false_iff_not] at left right ⊢
    exact fun mem => (List.mem_append.1 mem).elim left right

theorem blockTokens_length_pos (p : Plain) (h i : Nat) : 0 < (p.blockTokens h i).length := by
  cases p with
  | null | bool | text => exact Nat.succ_pos _
  | list items =>
    cases items with
    | nil => exact Nat.succ_pos _
    | cons q items =>
      rw [blockTokens]
      split <;> exact Nat.succ_pos _
  | record fields => cases fields <;> exact Nat.succ_pos _

theorem node_record (indentless : Bool) (ts : List Token) :
    Yaml.Tree.node known ending (fuel + 1) true indentless (.blockMappingStart :: ts) =
      (Yaml.Tree.blockEntries known ending fuel ts).map fun (es, r) => (.map none .map es, r) := by
  cases indentless <;> rfl

theorem node_list (indentless : Bool) (ts : List Token) :
    Yaml.Tree.node known ending (fuel + 1) true indentless (.blockSequenceStart :: ts) =
      (Yaml.Tree.blockItems known ending fuel ts).map fun (items, r) =>
        (.seq none .seq items, r) := by
  cases indentless <;> rfl

theorem node_hyphens (ts : List Token) :
    Yaml.Tree.node known ending (fuel + 1) true true (.blockEntry :: ts) =
      (Yaml.Tree.indentlessItems known ending fuel (.blockEntry :: ts)).map fun (items, r) =>
        (.seq none .seq items, r) := by
  rfl

theorem blockItems_item (read : Yaml.Tree.node known ending fuel true false
      (p.blockTokens k k ++ r') = .ok (item, r)) :
    Yaml.Tree.blockItems known ending (fuel + 1) (.blockEntry :: (p.blockTokens k k ++ r')) =
      (Yaml.Tree.blockItems known ending fuel r).map fun (items, r) => (item :: items, r) := by
  have some_ : Yaml.Tree.nextIn [.blockEntry, .blockEnd] (p.blockTokens k k ++ r') = false :=
    nextIn_append (nextIn_blockEntry p k r') (nextIn_of_subset (by decide) (nextIn_entryEnds p k k r'))
  rw [Yaml.Tree.blockItems, Yaml.Tree.orEmpty, some_, if_neg Bool.false_ne_true, read]
  rfl

theorem indentlessItems_item (read : Yaml.Tree.node known ending fuel true false
      (p.blockTokens k k ++ r') = .ok (item, r)) :
    Yaml.Tree.indentlessItems known ending (fuel + 1) (.blockEntry :: (p.blockTokens k k ++ r')) =
      (Yaml.Tree.indentlessItems known ending fuel r).map fun (items, r) => (item :: items, r) := by
  have some_ : Yaml.Tree.nextIn (.blockEntry :: Yaml.Tree.entryEnds) (p.blockTokens k k ++ r') =
      false :=
    nextIn_append (nextIn_blockEntry p k r') (nextIn_entryEnds p k k r')
  rw [Yaml.Tree.indentlessItems, Yaml.Tree.orEmpty, some_, if_neg Bool.false_ne_true, read]
  rfl

theorem indentlessItems_end (behind : Yaml.Tree.nextIn [.blockEntry] r = false) :
    Yaml.Tree.indentlessItems known ending (fuel + 1) r = .ok ([], r) := by
  cases r with
  | nil => rfl
  | cons t r => cases t <;> first | rfl | contradiction

theorem blockEntries_field {name : String} (spelled : Tag.ofSpelling name.toList = .str)
    (read : Yaml.Tree.node known ending (fuel + 1) true true (p.blockTokens h i ++ r') = .ok (item, r)) :
    Yaml.Tree.blockEntries known ending (fuel + 2)
        (.key :: .scalar name true :: .value :: (p.blockTokens h i ++ r')) =
      (Yaml.Tree.blockEntries known ending (fuel + 1) r).map fun (entries, r) =>
        ((.scalar none .str name, item) :: entries, r) := by
  have key : Yaml.Tree.orEmpty Yaml.Tree.entryEnds (Yaml.Tree.node known ending (fuel + 1) true true)
      (.scalar name true :: .value :: (p.blockTokens h i ++ r')) =
        .ok (.scalar none .str name, .value :: (p.blockTokens h i ++ r')) := by
    have out : Yaml.Tree.nextIn Yaml.Tree.entryEnds
        (.scalar name true :: .value :: (p.blockTokens h i ++ r')) = false := rfl
    rw [Yaml.Tree.orEmpty, out, if_neg Bool.false_ne_true, node_scalar, if_pos rfl, Tag.ofText_coe, spelled]
  rw [Yaml.Tree.blockEntries, key]
  change (Yaml.Tree.afterColon _ _ (.value :: _)).bind _ = _
  rw [Yaml.Tree.afterColon, nextIn_entryEnds, if_neg Bool.false_ne_true, read]
  rfl

theorem node_text (s : Str) (indentless : Bool) :
    Yaml.Tree.node known ending (fuel + 1) true indentless ((text s).blockTokens h i ++ r) =
      .ok (((text s).reread h i).tree, r) := by
  rw [blockTokens, List.cons_append, node_scalar, reread, tree]
  cases plain : isPlain s with
  | false => rfl
  | true =>
    obtain ⟨cs, chars, plain⟩ := exists_of_isPlain plain
    obtain ⟨-, spelled, -⟩ := isPlainRun_of_isPlainText plain
    simp only [Yaml.reread, chars, plain, if_true, Tag.ofText, Option.map_some, Option.getD_some, spelled]
    rfl

mutual

theorem composes (p : Plain) (named : p.Named) {fuel : Nat} {h i : Nat} {indentless : Bool}
    {r : List Token} (room : 2 * (p.blockTokens h i).length ≤ fuel)
    (fits : h = i ∨ indentless = true ∧ Yaml.Tree.nextIn [.blockEntry] r = false) :
    Yaml.Tree.node known ending fuel true indentless (p.blockTokens h i ++ r) =
      .ok ((p.reread h i).tree, r) := by
  obtain ⟨fuel, rfl⟩ : ∃ n, fuel = n + 1 :=
    ⟨fuel - 1, by have := blockTokens_length_pos p h i; omega⟩
  cases p with
  | null => rfl
  | bool b => cases b <;> rfl
  | text s => exact node_text s indentless
  | list items =>
    cases named with | list _ all
    cases items with
    | nil =>
      obtain ⟨fuel, rfl⟩ : ∃ n, fuel = n + 1 := ⟨fuel - 1, by
        simp only [blockTokens, List.length_cons, List.length_nil] at room
        omega⟩
      rfl
    | cons q items =>
      rw [blockTokens] at room ⊢
      split
      · rename_i same
        rw [if_pos same] at room
        simp only [List.length_append, List.length_cons, List.length_nil] at room
        have read : Yaml.Tree.blockItems known ending fuel (hyphenTokens h (q :: items) ++ .blockEnd :: r) =
            .ok (trees (rereadItems h (q :: items)), r) := composes_items (q :: items) all (by omega)
        rw [List.append_assoc, List.cons_append, node_list, List.singleton_append, read]
        rfl
      · -- no word ends this list, so what follows must not look like one more hyphen
        rename_i other
        rw [if_neg other] at room
        obtain ⟨rfl, behind⟩ := fits.resolve_left other
        have some_ : 0 < fuel := by
          rw [hyphenTokens, List.length_cons] at room
          omega
        have read : Yaml.Tree.indentlessItems known ending fuel (hyphenTokens h (q :: items) ++ r) =
            .ok (trees (rereadItems h (q :: items)), r) :=
          composes_hyphens (q :: items) all (by omega) some_ behind
        rw [hyphenTokens, List.cons_append] at read ⊢
        rw [node_hyphens, read]
        rfl
  | record fields =>
    cases named with | record _ names all
    cases fields with
    | nil =>
      obtain ⟨fuel, rfl⟩ : ∃ n, fuel = n + 1 := ⟨fuel - 1, by
        simp only [blockTokens, List.length_cons, List.length_nil] at room
        omega⟩
      rfl
    | cons f fields =>
      rw [blockTokens] at room ⊢
      simp only [List.length_append, List.length_cons, List.length_nil] at room
      have read : Yaml.Tree.blockEntries known ending fuel (keyTokens i (f :: fields) ++ .blockEnd :: r) =
          .ok (fieldTrees (rereadFields i (f :: fields)), r) :=
        composes_fields (f :: fields) names all (by omega)
      rw [List.append_assoc, List.cons_append, node_record, List.singleton_append, read]
      rfl

theorem composes_items (items : List Plain) (all : ∀ p ∈ items, p.Named) {fuel : Nat} {k : Nat}
    {r : List Token} (room : 2 * (hyphenTokens k items).length + 1 ≤ fuel) :
    Yaml.Tree.blockItems known ending fuel (hyphenTokens k items ++ .blockEnd :: r) =
      .ok (trees (rereadItems k items), r) := by
  obtain ⟨fuel, rfl⟩ : ∃ n, fuel = n + 1 := ⟨fuel - 1, by omega⟩
  cases items with
  | nil => rfl
  | cons p items =>
    obtain ⟨named, all⟩ := List.forall_mem_cons.1 all
    rw [hyphenTokens] at room ⊢
    simp only [List.length_append, List.length_cons] at room
    have first : Yaml.Tree.node known ending fuel true false (p.blockTokens (k + 2) (k + 2) ++
        (hyphenTokens k items ++ .blockEnd :: r)) = .ok ((p.reread (k + 2) (k + 2)).tree, _) :=
      composes p named (by omega) (.inl rfl)
    have others : Yaml.Tree.blockItems known ending fuel (hyphenTokens k items ++ .blockEnd :: r) =
        .ok (trees (rereadItems k items), r) := composes_items items all (by omega)
    rw [List.cons_append, List.append_assoc, blockItems_item first, others]
    rfl

theorem composes_hyphens (items : List Plain) (all : ∀ p ∈ items, p.Named) {fuel : Nat} {k : Nat}
    {r : List Token} (room : 2 * (hyphenTokens k items).length ≤ fuel + 1) (some : 0 < fuel)
    (behind : Yaml.Tree.nextIn [.blockEntry] r = false) :
    Yaml.Tree.indentlessItems known ending fuel (hyphenTokens k items ++ r) =
      .ok (trees (rereadItems k items), r) := by
  obtain ⟨fuel, rfl⟩ : ∃ n, fuel = n + 1 := ⟨fuel - 1, by omega⟩
  cases items with
  | nil => exact indentlessItems_end behind
  | cons p items =>
    obtain ⟨named, all⟩ := List.forall_mem_cons.1 all
    rw [hyphenTokens] at room ⊢
    simp only [List.length_append, List.length_cons] at room
    have length := blockTokens_length_pos p (k + 2) (k + 2)
    have first : Yaml.Tree.node known ending fuel true false (p.blockTokens (k + 2) (k + 2) ++
        (hyphenTokens k items ++ r)) = .ok ((p.reread (k + 2) (k + 2)).tree, _) :=
      composes p named (by omega) (.inl rfl)
    have others : Yaml.Tree.indentlessItems known ending fuel (hyphenTokens k items ++ r) =
        .ok (trees (rereadItems k items), r) :=
      composes_hyphens items all (by omega) (by omega) behind
    rw [List.cons_append, List.append_assoc, indentlessItems_item first, others]
    rfl

theorem composes_fields (fields : List (String × Plain)) (names : ∀ f ∈ fields, isName f.1 = true)
    (all : ∀ f ∈ fields, f.2.Named) {fuel : Nat} {k : Nat} {r : List Token}
    (room : 2 * (keyTokens k fields).length + 1 ≤ fuel) :
    Yaml.Tree.blockEntries known ending fuel (keyTokens k fields ++ .blockEnd :: r) =
      .ok (fieldTrees (rereadFields k fields), r) := by
  cases fields with
  | nil =>
    obtain ⟨fuel, rfl⟩ : ∃ n, fuel = n + 1 := ⟨fuel - 1, by omega⟩
    rfl
  | cons f fields =>
    obtain ⟨name, p⟩ := f
    obtain ⟨name_, names⟩ := List.forall_mem_cons.1 names
    obtain ⟨named, all⟩ := List.forall_mem_cons.1 all
    obtain ⟨-, -, -, spelled⟩ := (isName_iff name).1 name_
    rw [keyTokens] at room ⊢
    simp only [List.length_append, List.length_cons] at room
    obtain ⟨fuel, rfl⟩ : ∃ n, fuel = n + 2 := ⟨fuel - 2, by omega⟩
    have behind : Yaml.Tree.nextIn [.blockEntry] (keyTokens k fields ++ .blockEnd :: r) = false := by
      cases fields <;> rfl
    have first : Yaml.Tree.node known ending (fuel + 1) true true (p.blockTokens k (k + 2) ++
        (keyTokens k fields ++ .blockEnd :: r)) = .ok ((p.reread k (k + 2)).tree, _) :=
      composes p named (by omega) (.inr ⟨rfl, behind⟩)
    have others : Yaml.Tree.blockEntries known ending (fuel + 1) (keyTokens k fields ++ .blockEnd :: r) =
        .ok (fieldTrees (rereadFields k fields), r) := composes_fields fields names all (by omega)
    simp only [List.cons_append, List.append_assoc]
    rw [blockEntries_field spelled first, others]
    rfl

end

mutual

theorem blockTokens_nameless (p : Plain) (h i : Nat) : (p.blockTokens h i).all isNameless = true := by
  cases p with
  | null | bool | text => rfl
  | list items =>
    have inner := hyphenTokens_nameless items h
    cases items with
    | nil => rfl
    | cons q items =>
      rw [blockTokens]
      split
      · rw [List.all_append, List.all_cons, inner]
        rfl
      · exact inner
  | record fields =>
    have inner := keyTokens_nameless fields i
    cases fields with
    | nil => rfl
    | cons f fields =>
      rw [blockTokens, List.all_append, List.all_cons, inner]
      rfl

theorem hyphenTokens_nameless (items : List Plain) (k : Nat) :
    (hyphenTokens k items).all isNameless = true := by
  cases items with
  | nil => rfl
  | cons p items =>
    rw [hyphenTokens, List.all_cons, List.all_append, blockTokens_nameless p, hyphenTokens_nameless items]
    rfl

theorem keyTokens_nameless (fields : List (String × Plain)) (k : Nat) :
    (keyTokens k fields).all isNameless = true := by
  cases fields with
  | nil => rfl
  | cons f fields =>
    obtain ⟨name, p⟩ := f
    rw [keyTokens, List.all_cons, List.all_cons, List.all_cons, List.all_append,
      blockTokens_nameless p, keyTokens_nameless fields]
    rfl

end

theorem ofTokens_record {f : String × Plain} {fields : List (String × Plain)}
    (named : (record (f :: fields)).Named) :
    Yaml.Tree.ofTokens ⟨(record (f :: fields)).blockTokens 0 0, none⟩ =
      .ok ((record (f :: fields)).reread 0 0).tree := by
  have nameless : Tokens.checkNames ⟨(record (f :: fields)).blockTokens 0 0, none⟩ =
      ⟨(record (f :: fields)).blockTokens 0 0, none⟩ := by
    rw [Tokens.checkNames, cutAtBadName_nameless (blockTokens_nameless _ 0 0)]
  have room : 2 * ((record (f :: fields)).blockTokens 0 0).length ≤
      Yaml.Tree.fuelFor ((record (f :: fields)).blockTokens 0 0) := by
    rw [Yaml.Tree.fuelFor]
    omega
  have read : Yaml.Tree.node Yaml.Tree.defaultShorthands .malformed
      (Yaml.Tree.fuelFor ((record (f :: fields)).blockTokens 0 0)) true false
      ((record (f :: fields)).blockTokens 0 0 ++ []) = .ok (((record (f :: fields)).reread 0 0).tree, []) :=
    composes _ named room (.inl rfl)
  rw [List.append_nil] at read
  rw [Yaml.Tree.ofTokens, nameless]
  change (Yaml.Tree.node Yaml.Tree.defaultShorthands .malformed _ true false _).bind _ = _
  rw [read]
  rfl

end ApiModel.Plain
