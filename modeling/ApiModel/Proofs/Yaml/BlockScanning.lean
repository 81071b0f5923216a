import ApiModel.Proofs.Yaml.BlockWords
import ApiModel.Yaml.Writing

namespace ApiModel.Plain

open Yaml
open Yaml.Scan (entered opening)

mutual

/-- The words of data whose texts and records go on at column `inner` and whose lists have their hyphens
    at column `hyphens`. A list whose hyphens stand below the name of its field opens no block. -/
def blockTokens (hyphens inner : Nat) : Plain → List Token
  | null => [.scalar "null" true]
  | bool b => [.scalar (if b then "true" else "false" : String) true]
  | text s => [.scalar (Yaml.reread inner s) (isPlain s)]
  | list [] => [.flowSequenceStart, .flowSequenceEnd]
  | list (p :: r) =>
    if hyphens = inner then .blockSequenceStart :: hyphenTokens hyphens (p :: r) ++ [.blockEnd]
    else hyphenTokens hyphens (p :: r)
  | record [] => [.flowMappingStart, .flowMappingEnd]
  | record (f :: r) => .blockMappingStart :: keyTokens inner (f :: r) ++ [.blockEnd]

def hyphenTokens (column : Nat) : List Plain → List Token
  | [] => []
  | p :: r => .blockEntry :: (p.blockTokens (column + 2) (column + 2) ++ hyphenTokens column r)

def keyTokens (column : Nat) : List (String × Plain) → List Token
  | [] => []
  | (name, p) :: r => .key :: .scalar name true :: .value ::
      (p.blockTokens column (column + 2) ++ keyTokens column r)

end

inductive Named : Plain → Prop
  | null : Named .null
  | bool (b : Bool) : Named (.bool b)
  | text (s : Str) : Named (.text s)
  | list (items : List Plain) (all : ∀ p ∈ items, Named p) : Named (.list items)
  | record (fields : List (String × Plain)) (names : ∀ f ∈ fields, isName f.1 = true)
      (all : ∀ f ∈ fields, Named f.2) : Named (.record fields)

variable {size : Nat} {p : Plain} {s : Scan} {outer : List Int} {indent : Int}
  {k column j : Nat} {r : List Char}

def FieldScans (size : Nat) (p : Plain) : Prop :=
  ∀ {s : Scan} {outer : List Int} {k column j : Nat} {r : List Char},
    s.Within size ((k : Int) :: outer) →
    s.cursor.rest = p.fieldYaml k column ++ (newLine j ++ r) → k ≤ s.cursor.column →
    k + 1 ≤ column → StartsLine r → j ≤ k → -1 ∈ outer →
    ∃ u, s.Tells size ((k : Int) :: outer) (p.blockTokens k (k + 2)) u ∧ u.Faces j r ∧ u.Allows

def ItemScans (size : Nat) (p : Plain) : Prop :=
  ∀ {s : Scan} {outer : List Int} {k j : Nat} {r : List Char},
    s.Within size ((k : Int) :: outer) →
    s.cursor.rest = p.itemYaml k ++ (newLine j ++ r) → s.cursor.column = k + 1 →
    s.keyAllowed = true → StartsLine r → j ≤ k → -1 ∈ outer →
    ∃ u, s.Tells size ((k : Int) :: outer) (p.blockTokens (k + 2) (k + 2)) u ∧ u.Faces j r ∧ u.Allows

theorem exists_entered (column : Nat) (bottom : -1 ∈ indent :: outer) :
    ∃ outer', entered column indent outer = (column : Int) :: outer' ∧ -1 ∈ outer' := by
  rw [entered]
  split
  · rename_i same
    refine ⟨outer, by rw [same], (List.mem_cons.1 bottom).resolve_left fun below => ?_⟩
    omega
  · exact ⟨indent :: outer, rfl, bottom⟩

theorem entered_same (outer : List Int) : entered column column outer = (column : Int) :: outer :=
  if_pos rfl

theorem opening_same (start : Token) : opening start column column = [] := if_pos rfl

theorem fieldYaml_gap (p : Plain) (k column : Nat) (r : List Char) :
    endsWord (p.fieldYaml k column ++ r).head? = true := by
  cases p with
  | null | text => rfl
  | bool b => cases b <;> rfl
  | list items => cases items <;> rfl
  | record fields => cases fields <;> rfl

theorem itemYaml_space (p : Plain) (k : Nat) : ∃ cs, p.itemYaml k = ' ' :: cs := by
  cases p with
  | null | text => exact ⟨_, rfl⟩
  | bool b => cases b <;> exact ⟨_, rfl⟩
  | list items => cases items <;> exact ⟨_, rfl⟩
  | record fields => cases fields <;> exact ⟨_, rfl⟩

theorem fieldsYaml_cons (k : Nat) (name : String) (p : Plain) (fields : List (String × Plain)) :
    fieldsYaml k ((name, p) :: fields) =
      name.toList ++ ':' :: (p.fieldYaml k (k + name.length + 1) ++
        if fields = [] then [] else newLine k ++ fieldsYaml k fields) := by
  cases fields with
  | nil => simp [fieldsYaml]
  | cons f fields => simp [fieldsYaml]

theorem itemsYaml_cons (k : Nat) (p : Plain) (items : List Plain) :
    itemsYaml k (p :: items) =
      '-' :: (p.itemYaml k ++ if items = [] then [] else newLine k ++ itemsYaml k items) := by
  cases items with
  | nil => simp [itemsYaml]
  | cons q items => simp [itemsYaml]

theorem startsLine_fields {f : String × Plain} (fields : List (String × Plain))
    (name : isName f.1 = true) : StartsLine (fieldsYaml k (f :: fields) ++ r) := by
  obtain ⟨⟨x, cs, chars, lower⟩, -⟩ := (isName_iff f.1).1 name
  intro y head
  rw [fieldsYaml_cons, chars] at head
  cases head
  exact .inl lower

theorem startsLine_items (items : List Plain) : StartsLine (itemsYaml k (p :: items) ++ r) := by
  obtain ⟨cs, space⟩ := itemYaml_space p k
  intro y head
  rw [itemsYaml_cons, space] at head ⊢
  cases head
  exact .inr ⟨rfl, rfl⟩

theorem tells_field {name : String} (name_ : isName name = true) (scans : FieldScans size p)
    (within : s.Within size (indent :: outer))
    (faces : s.Faces k (name.toList ++ ':' :: (p.fieldYaml k (k + name.length + 1) ++ (newLine j ++ r))))
    (allows : s.Allows) (inside : indent ≤ k) (starts : StartsLine r) (back : j ≤ k)
    (bottom : -1 ∈ indent :: outer) :
    ∃ u, s.Tells size (entered k indent outer) (opening .blockMappingStart k indent ++
        .key :: .scalar name true :: .value :: p.blockTokens k (k + 2)) u ∧ u.Faces j r ∧ u.Allows := by
  obtain ⟨outer', blocks, bottom'⟩ := exists_entered k bottom
  obtain ⟨t, key, behind, column_, -⟩ := Scan.tells_key within faces allows inside name_ (fieldYaml_gap ..)
  rw [blocks] at key ⊢
  obtain ⟨u, value, facing, allows'⟩ := scans key.within behind (by omega) (by omega) starts back bottom'
  have tells := key.trans value
  rw [List.append_assoc] at tells
  exact ⟨u, tells, facing, allows'⟩

theorem tells_fields {f : String × Plain} {fields : List (String × Plain)}
    (names : ∀ g ∈ f :: fields, isName g.1 = true)
    (each : ∀ g ∈ f :: fields, FieldScans size g.2)
    (within : s.Within size (indent :: outer))
    (faces : s.Faces k (fieldsYaml k (f :: fields) ++ (newLine j ++ r))) (allows : s.Allows)
    (inside : indent ≤ k) (starts : StartsLine r) (back : j ≤ k) (bottom : -1 ∈ indent :: outer) :
    ∃ u, s.Tells size (entered k indent outer)
        (opening .blockMappingStart k indent ++ keyTokens k (f :: fields)) u ∧
      u.Faces j r ∧ u.Allows := by
  -- the first field enters the block, so the others find it open
  induction fields generalizing f s indent outer with
  | nil =>
    obtain ⟨name, p⟩ := f
    have name_ : isName name = true := names (name, p) (List.mem_cons_self ..)
    have scans : FieldScans size p := each (name, p) (List.mem_cons_self ..)
    rw [fieldsYaml_cons, if_pos rfl, List.append_nil, List.append_assoc, List.cons_append] at faces
    rw [keyTokens, keyTokens, List.append_nil]
    exact tells_field name_ scans within faces allows inside starts back bottom
  | cons g fields ih =>
    obtain ⟨name, p⟩ := f
    have name_ : isName name = true := names (name, p) (List.mem_cons_self ..)
    have scans : FieldScans size p := each (name, p) (List.mem_cons_self ..)
    have names' := (List.forall_mem_cons.1 names).2
    have each' := (List.forall_mem_cons.1 each).2
    rw [fieldsYaml_cons, if_neg (List.cons_ne_nil g fields), List.append_assoc, List.cons_append,
      List.append_assoc, List.append_assoc] at faces
    obtain ⟨outer', blocks, bottom'⟩ := exists_entered k bottom
    have next : StartsLine (fieldsYaml k (g :: fields) ++ (newLine j ++ r)) :=
      startsLine_fields fields (names' g (List.mem_cons_self ..))
    obtain ⟨t, first, facing, allows'⟩ := tells_field name_ scans within faces allows inside next
      (Nat.le_refl k) bottom
    rw [blocks] at first ⊢
    obtain ⟨u, others, facing', allows''⟩ := ih names' each' first.within facing allows'
      (Int.le_refl _) (List.mem_cons_of_mem _ bottom')
    rw [entered_same, opening_same, List.nil_append] at others
    have tells := first.trans others
    rw [List.append_assoc] at tells
    exact ⟨u, tells, facing', allows''⟩

theorem tells_item (scans : ItemScans size p) (within : s.Within size (indent :: outer))
    (faces : s.Faces k ('-' :: (p.itemYaml k ++ (newLine j ++ r)))) (allows : s.Allows)
    (inside : indent ≤ k) (starts : StartsLine r) (back : j ≤ k) (bottom : -1 ∈ indent :: outer) :
    ∃ u, s.Tells size (entered k indent outer) (opening .blockSequenceStart k indent ++
        .blockEntry :: p.blockTokens (k + 2) (k + 2)) u ∧ u.Faces j r ∧ u.Allows := by
  obtain ⟨outer', blocks, bottom'⟩ := exists_entered k bottom
  obtain ⟨cs, space⟩ := itemYaml_space p k
  have text : p.itemYaml k ++ (newLine j ++ r) = ' ' :: (cs ++ (newLine j ++ r)) := by
    rw [space, List.cons_append]
  rw [text] at faces
  obtain ⟨t, hyphen, behind, column_, allowed⟩ := Scan.tells_hyphen within faces allows inside
  rw [blocks] at hyphen ⊢
  rw [← text] at behind
  obtain ⟨u, value, facing, allows'⟩ := scans hyphen.within behind column_ allowed starts back bottom'
  have tells := hyphen.trans value
  rw [List.append_assoc] at tells
  exact ⟨u, tells, facing, allows'⟩

theorem tells_items {items : List Plain} (each : ∀ q ∈ p :: items, ItemScans size q)
    (within : s.Within size (indent :: outer))
    (faces : s.Faces k (itemsYaml k (p :: items) ++ (newLine j ++ r))) (allows : s.Allows)
    (inside : indent ≤ k) (starts : StartsLine r) (back : j ≤ k) (bottom : -1 ∈ indent :: outer) :
    ∃ u, s.Tells size (entered k indent outer)
        (opening .blockSequenceStart k indent ++ hyphenTokens k (p :: items)) u ∧
      u.Faces j r ∧ u.Allows := by
  -- the first hyphen enters the block, so the others find it open
  induction items generalizing p s indent outer with
  | nil =>
    have scans : ItemScans size p := each p (List.mem_cons_self ..)
    rw [itemsYaml_cons, if_pos rfl, List.append_nil, List.cons_append] at faces
    rw [hyphenTokens, hyphenTokens, List.append_nil]
    exact tells_item scans within faces allows inside starts back bottom
  | cons q items ih =>
    have scans : ItemScans size p := each p (List.mem_cons_self ..)
    have each' := (List.forall_mem_cons.1 each).2
    rw [itemsYaml_cons, if_neg (List.cons_ne_nil q items), List.cons_append, List.append_assoc,
      List.append_assoc] at faces
    obtain ⟨outer', blocks, bottom'⟩ := exists_entered k bottom
    obtain ⟨t, first, facing, allows'⟩ := tells_item scans within faces allows inside
      (startsLine_items items) (Nat.le_refl k) bottom
    rw [blocks] at first ⊢
    obtain ⟨u, others, facing', allows''⟩ := ih each' first.within facing allows'
      (Int.le_refl _) (List.mem_cons_of_mem _ bottom')
    rw [entered_same, opening_same, List.nil_append] at others
    have tells := first.trans others
    rw [List.append_assoc] at tells
    exact ⟨u, tells, facing', allows''⟩

theorem tells_record {f : String × Plain} {fields : List (String × Plain)}
    (names : ∀ g ∈ f :: fields, isName g.1 = true)
    (each : ∀ g ∈ f :: fields, FieldScans size g.2)
    (within : s.Within size (indent :: outer))
    (faces : s.Faces column (fieldsYaml column (f :: fields) ++ (newLine j ++ r)))
    (allows : s.Allows) (inside : indent < column) (starts : StartsLine r) (left : j < column)
    (bottom : -1 ∈ indent :: outer) :
    ∃ u, s.Tells size (indent :: outer)
        (.blockMappingStart :: keyTokens column (f :: fields) ++ [.blockEnd]) u ∧
      u.Faces j r ∧ u.Allows := by
  obtain ⟨u, tells, facing, allows'⟩ := tells_fields names each within faces allows
    (Int.le_of_lt inside) starts (Nat.le_of_lt left) bottom
  have opens : indent ≠ column := Int.ne_of_lt inside
  rw [entered, if_neg opens, opening, if_neg opens] at tells
  exact ⟨u.closed, tells.close facing (by omega) bottom, facing.closed, allows'.closed⟩

theorem tells_list {items : List Plain} (each : ∀ q ∈ p :: items, ItemScans size q)
    (within : s.Within size (indent :: outer))
    (faces : s.Faces column (itemsYaml column (p :: items) ++ (newLine j ++ r)))
    (allows : s.Allows) (inside : indent < column) (starts : StartsLine r) (left : j < column)
    (bottom : -1 ∈ indent :: outer) :
    ∃ u, s.Tells size (indent :: outer)
        (.blockSequenceStart :: hyphenTokens column (p :: items) ++ [.blockEnd]) u ∧
      u.Faces j r ∧ u.Allows := by
  obtain ⟨u, tells, facing, allows'⟩ := tells_items each within faces allows
    (Int.le_of_lt inside) starts (Nat.le_of_lt left) bottom
  have opens : indent ≠ column := Int.ne_of_lt inside
  rw [entered, if_neg opens, opening, if_neg opens] at tells
  exact ⟨u.closed, tells.close facing (by omega) bottom, facing.closed, allows'.closed⟩

theorem scans_bare {w : List Char} (word : w = "null".toList ∨ w = "true".toList ∨ w = "false".toList)
    (field : ∀ k column, p.fieldYaml k column = ' ' :: w) (item : ∀ k, p.itemYaml k = ' ' :: w)
    (tokens : ∀ h i, p.blockTokens h i = [.scalar (String.ofList w : String) true]) :
    FieldScans size p ∧ ItemScans size p := by
  constructor
  · intro s outer k column j r within at_ right _ starts back _
    rw [field] at at_
    rw [tokens]
    exact Scan.tells_bare word within at_ starts back right
  · intro s outer k j r within at_ column_ _ starts back _
    rw [item] at at_
    rw [tokens]
    exact Scan.tells_bare word within at_ starts back (by omega)

theorem scans_brackets {a b : Char} {first last : Token}
    (brackets : a = '[' ∧ b = ']' ∧ first = .flowSequenceStart ∧ last = .flowSequenceEnd ∨
      a = '\x7b' ∧ b = '\x7d' ∧ first = .flowMappingStart ∧ last = .flowMappingEnd)
    (field : ∀ k column, p.fieldYaml k column = [' ', a, b]) (item : ∀ k, p.itemYaml k = [' ', a, b])
    (tokens : ∀ h i, p.blockTokens h i = [first, last]) : FieldScans size p ∧ ItemScans size p := by
  constructor
  · intro s outer k column j r within at_ right _ starts _ _
    rw [field] at at_
    rw [tokens]
    exact Scan.tells_brackets brackets within at_ starts right
  · intro s outer k j r within at_ column_ _ starts _ _
    rw [item] at at_
    rw [tokens]
    exact Scan.tells_brackets brackets within at_ starts (by omega)

theorem scans_text (text_ : Str) : FieldScans size (text text_) ∧ ItemScans size (text text_) := by
  constructor
  · intro s outer k column j r within at_ right far starts back _
    exact Scan.tells_text within at_ starts back (by omega) (by omega) right
  · intro s outer k j r within at_ column_ _ starts back _
    exact Scan.tells_text within at_ starts back (by omega) (by omega) (by omega)

theorem scans_list {items : List Plain} (each : ∀ q ∈ p :: items, ItemScans size q) :
    FieldScans size (list (p :: items)) ∧ ItemScans size (list (p :: items)) := by
  constructor
  · intro s outer k column j r within at_ _ _ starts back bottom
    rw [fieldYaml, List.append_assoc] at at_
    obtain ⟨faces, allows⟩ := Scan.faces_newLine at_ (startsLine_items items)
    have tells := tells_items each within faces allows (Int.le_refl _) starts back
      (List.mem_cons_of_mem _ bottom)
    rw [entered_same, opening_same] at tells
    rw [blockTokens, if_neg (by omega)]
    exact tells
  · intro s outer k j r within at_ column_ allowed starts back bottom
    rw [itemYaml, List.cons_append] at at_
    have next : StartsLine (itemsYaml (k + 2) (p :: items) ++ (newLine j ++ r)) := startsLine_items items
    have faces := Scan.faces_behindSpace at_ next.solid next.startsWord
    rw [column_] at faces
    rw [blockTokens, if_pos rfl]
    exact tells_list each within faces (.inl allowed) (by omega) starts (by omega)
      (List.mem_cons_of_mem _ bottom)

theorem scans_record {f : String × Plain} {fields : List (String × Plain)}
    (names : ∀ g ∈ f :: fields, isName g.1 = true) (each : ∀ g ∈ f :: fields, FieldScans size g.2) :
    FieldScans size (record (f :: fields)) ∧ ItemScans size (record (f :: fields)) := by
  have name_ := names f (List.mem_cons_self ..)
  constructor
  · intro s outer k column j r within at_ _ _ starts back bottom
    rw [fieldYaml, List.append_assoc] at at_
    obtain ⟨faces, allows⟩ := Scan.faces_newLine at_ (startsLine_fields fields name_)
    exact tells_record names each within faces allows (by omega) starts (by omega)
      (List.mem_cons_of_mem _ bottom)
  · intro s outer k j r within at_ column_ allowed starts back bottom
    rw [itemYaml, List.cons_append] at at_
    have next : StartsLine (fieldsYaml (k + 2) (f :: fields) ++ (newLine j ++ r)) :=
      startsLine_fields fields name_
    have faces := Scan.faces_behindSpace at_ next.solid next.startsWord
    rw [column_] at faces
    exact tells_record names each within faces (.inl allowed) (by omega) starts (by omega)
      (List.mem_cons_of_mem _ bottom)

theorem Named.scans (named : p.Named) : FieldScans size p ∧ ItemScans size p := by
  induction named with
  | null => exact scans_bare (.inl rfl) (fun _ _ => rfl) (fun _ => rfl) (fun _ _ => rfl)
  | bool b =>
    cases b with
    | true => exact scans_bare (.inr (.inl rfl)) (fun _ _ => rfl) (fun _ => rfl) (fun _ _ => rfl)
    | false => exact scans_bare (.inr (.inr rfl)) (fun _ _ => rfl) (fun _ => rfl) (fun _ _ => rfl)
  | text s => exact scans_text s
  | list items _ ih =>
    cases items with
    | nil =>
      exact scans_brackets (.inl ⟨rfl, rfl, rfl, rfl⟩) (fun _ _ => rfl) (fun _ => rfl) (fun _ _ => rfl)
    | cons p items => exact scans_list fun q mem => (ih q mem).2
  | record fields names _ ih =>
    cases fields with
    | nil =>
      exact scans_brackets (.inr ⟨rfl, rfl, rfl, rfl⟩) (fun _ _ => rfl) (fun _ => rfl) (fun _ _ => rfl)
    | cons f fields => exact scans_record names fun g mem => (ih g mem).1

theorem ofText_fields {f : String × Plain} {fields : List (String × Plain)}
    (names : ∀ g ∈ f :: fields, isName g.1 = true) (each : ∀ g ∈ f :: fields, g.2.Named) :
    Tokens.ofText (fieldsYaml 0 (f :: fields) ++ ['\n']) =
      ⟨(record (f :: fields)).blockTokens 0 0, none⟩ := by
  generalize chars : fieldsYaml 0 (f :: fields) ++ ['\n'] = cs
  have chars' : fieldsYaml 0 (f :: fields) ++ (newLine 0 ++ []) = cs := chars
  let start : Scan := .ofText cs
  have within : start.Within (cs.length + 1) [-1] :=
    ⟨rfl, rfl, fun _ mem => (List.not_mem_nil mem).elim, rfl, Nat.lt_succ_self _⟩
  have starts : StartsLine (fieldsYaml 0 (f :: fields) ++ (newLine 0 ++ [])) :=
    startsLine_fields fields (names f (List.mem_cons_self ..))
  have faces : start.Faces 0 (fieldsYaml 0 (f :: fields) ++ (newLine 0 ++ [])) :=
    Scan.faces_here chars'.symm starts
  obtain ⟨u, tells, facing, -⟩ := tells_fields names (fun g mem => (each g mem).scans.1) within faces
    (.inl rfl) (by decide) (fun _ nothing => nomatch nothing) (Nat.le_refl 0) (List.mem_singleton.2 rfl)
  obtain ⟨fuel, room, same⟩ := tells.leads (cs.length + 1) (Nat.lt_succ_self _)
  have last := Scan.run_closing tells.within facing room
  rw [Tokens.ofText, same (congrArg Tokens.fault last), last, tells.words]
  simp [start, Scan.ofText, blockTokens, opening]

end ApiModel.Plain
