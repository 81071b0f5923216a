import ApiModel.Plain.Json
import ApiModel.Proofs.Json.Writable
import ApiModel.Proofs.Json.Writing
import Mathlib.Data.List.Forall2

namespace ApiModel

open Json

namespace Plain

inductive Distinct : Plain → Prop
  | null : Distinct .null
  | bool (b : Bool) : Distinct (.bool b)
  | text (s : Str) : Distinct (.text s)
  | list (items : List Plain) (all : ∀ p ∈ items, Distinct p) : Distinct (.list items)
  | record (fields : List (String × Plain)) (nodup : (fields.map Prod.fst).Nodup)
      (all : ∀ f ∈ fields, Distinct f.2) : Distinct (.record fields)

mutual

/-- Some text in it has a half of a pair. -/
def hasHalf : Plain → Bool
  | null | bool _ => false
  | text s => s.hasHalf
  | list items => haveHalf items
  | record fields => fieldsHaveHalf fields

def haveHalf : List Plain → Bool
  | [] => false
  | p :: r => p.hasHalf || haveHalf r

def fieldsHaveHalf : List (String × Plain) → Bool
  | [] => false
  | (_, p) :: r => p.hasHalf || fieldsHaveHalf r

end

theorem haveHalf_eq_false_iff {items : List Plain} :
    haveHalf items = false ↔ ∀ p ∈ items, p.hasHalf = false := by
  induction items with
  | nil => simp [haveHalf]
  | cons p items ih => rw [haveHalf, Bool.or_eq_false_iff, ih, List.forall_mem_cons]

theorem fieldsHaveHalf_eq_false_iff {fields : List (String × Plain)} :
    fieldsHaveHalf fields = false ↔ ∀ f ∈ fields, f.2.hasHalf = false := by
  induction fields with
  | nil => simp [fieldsHaveHalf]
  | cons f fields ih => rw [fieldsHaveHalf, Bool.or_eq_false_iff, ih, List.forall_mem_cons]

theorem toValues_eq (items : List Plain) : toValues items = items.map toValue := by
  induction items with
  | nil => rfl
  | cons p items ih => rw [toValues, ih, List.map_cons]

theorem toEntries_eq (fields : List (String × Plain)) :
    toEntries fields = Entries.ofFields (fields.map fun f => ((f.1 : Str), f.2.toValue)) := by
  induction fields with
  | nil => rfl
  | cons f fields ih => rw [toEntries, ih, List.map_cons, Entries.ofFields_cons]

def lineBlanks (level : Nat) : Blanks :=
  ⟨'\n' :: List.replicate (2 * level) ' ', by
    intro c mem
    rcases List.mem_cons.1 mem with rfl | mem
    · rfl
    · rw [List.eq_of_mem_replicate mem]
      rfl⟩

def gapBlanks : Blanks := ⟨[' '], by simp [isBlank]⟩

theorem indentedItems_eq (level : Nat) (items : List Plain) :
    indentedItems level items = items.map (indented level) := by
  induction items with
  | nil => rfl
  | cons p items ih => rw [indentedItems, ih, List.map_cons]

theorem indentedFields_eq (level : Nat) (fields : List (String × Plain)) :
    indentedFields level fields =
      fields.map fun f => quoteText f.1 ++ .char ':' :: .char ' ' :: f.2.indented level := by
  induction fields with
  | nil => rfl
  | cons f fields ih => rw [indentedFields, ih, List.map_cons]

theorem quoteText_coe (s : String) : quoteText s = (quote s.toList).map .char := by
  have letters (cs : List Char) : (cs.map Letter.char).flatMap encodeLetter =
      (cs.flatMap encodeChar).map .char := by
    rw [List.flatMap_map, List.map_flatMap]
    rfl
  rw [quoteText, Str.toList_coe, letters, quote]
  simp

/-- What stands between brackets on lines of their own. -/
def linesOf (level : Nat) (items : List (List Char)) : List Char :=
  (lineBlanks (level + 1)).chars ++ (',' :: (lineBlanks (level + 1)).chars).intercalate items ++
    (lineBlanks level).chars

theorem lineAt_eq (level : Nat) : lineAt level = (lineBlanks level).chars.map .char := by
  simp [lineAt, lineBlanks]

theorem map_intercalate (sep : List Char) (items : List (List Char)) :
    (sep.intercalate items).map Letter.char =
      (sep.map .char).intercalate (items.map (List.map .char)) := by
  induction items with
  | nil => rfl
  | cons item items ih =>
    cases items with
    | nil => simp [List.intercalate]
    | cons next items =>
      rw [intercalate_cons_cons, List.map_append, List.map_append, ih]
      exact (intercalate_cons_cons ..).symm

theorem block_map (level : Nat) (left right : Char) {items : List (List Char)} (some_ : items ≠ []) :
    block level left (items.map (List.map .char)) right =
      (left :: linesOf level items ++ [right]).map .char := by
  have between : (.char ',' :: lineAt (level + 1)).intercalate (items.map (List.map .char)) =
      ((',' :: (lineBlanks (level + 1)).chars).intercalate items).map .char := by
    rw [map_intercalate, List.map_cons, lineAt_eq]
  rw [block, if_neg (by simpa using some_), between, lineAt_eq, lineAt_eq, linesOf]
  simp

theorem exists_spelled {α : Type} {write : α → List Letter} {Spelled : List Char → α → Prop}
    {items : List α} (each : ∀ a ∈ items, ∃ cs, write a = cs.map .char ∧ Spelled cs a) :
    ∃ css, items.map write = css.map (List.map .char) ∧ List.Forall₂ Spelled css items := by
  induction items with
  | nil => exact ⟨[], rfl, .nil⟩
  | cons a items ih =>
    obtain ⟨⟨cs, first, spelled⟩, each⟩ := List.forall_mem_cons.1 each
    obtain ⟨css, rest, all⟩ := ih each
    exact ⟨cs :: css, by rw [List.map_cons, first, rest, List.map_cons], .cons spelled all⟩

theorem nodup_keys {fields : List (String × Plain)} (nodup : (fields.map Prod.fst).Nodup) :
    (fields.map fun f => (f.1 : Str)).Nodup := by
  have same : (fields.map fun f => (f.1 : Str)) = (fields.map Prod.fst).map Str.ofString := by
    rw [List.map_map]
    rfl
  rw [same]
  exact List.pairwise_map.2 (nodup.imp fun differ same => differ (Str.coe_inj.1 same))

theorem spells_indented {p : Plain} (distinct : p.Distinct) (whole : p.hasHalf = false) (level : Nat) :
    ∃ cs, p.indented level = cs.map .char ∧ Spells cs p.toValue := by
  induction distinct generalizing level with
  | null => exact ⟨_, rfl, spells_null⟩
  | bool b => exact ⟨_, by cases b <;> rfl, spells_bool b⟩
  | text s =>
    obtain ⟨a, rfl⟩ := Str.hasHalf_eq_false_iff.1 whole
    exact ⟨_, quoteText_coe a, spells_text a⟩
  | list items all ih =>
    have whole_ := haveHalf_eq_false_iff.1 whole
    rw [indented, toValue, indentedItems_eq, toValues_eq]
    obtain ⟨css, written, spelled⟩ := exists_spelled fun q mem => ih q mem (whole_ q mem) (level + 1)
    rw [written]
    cases items with
    | nil =>
      cases spelled
      exact ⟨_, rfl, spells_emptyList⟩
    | cons p items =>
      have some_ : css ≠ [] := by
        rintro rfl
        cases spelled
      refine ⟨_, block_map level '[' ']' some_,
        spells_list (lineBlanks (level + 1)) (lineBlanks level) ?_ some_⟩
      rwa [List.forall₂_map_right_iff]
  | record fields nodup all ih =>
    have whole_ := fieldsHaveHalf_eq_false_iff.1 whole
    rw [indented, toValue, indentedFields_eq, toEntries_eq]
    have each (g : String × Plain) (mem : g ∈ fields) : ∃ cs,
        quoteText g.1 ++ .char ':' :: .char ' ' :: g.2.indented (level + 1) = cs.map .char ∧
          SpellsMember gapBlanks cs (g.1, g.2.toValue) := by
      obtain ⟨cs, written, spelled⟩ := ih g mem (whole_ g mem) (level + 1)
      refine ⟨quote g.1.toList ++ ':' :: ' ' :: cs, ?_, g.1, cs, rfl, rfl, spelled⟩
      rw [quoteText_coe, written]
      simp
    obtain ⟨css, written, spelled⟩ := exists_spelled each
    rw [written]
    cases fields with
    | nil =>
      cases spelled
      exact ⟨_, rfl, spells_emptyObject⟩
    | cons f fields =>
      have some_ : css ≠ [] := by
        rintro rfl
        cases spelled
      refine ⟨_, block_map level '\x7b' '\x7d' some_, spells_object (lineBlanks (level + 1)) gapBlanks
        (lineBlanks level) ?_ some_ ?_⟩
      · rwa [List.forall₂_map_right_iff]
      · rw [List.map_map]
        exact nodup_keys nodup

mutual

theorem hasLong_toValue (p : Plain) : p.toValue.hasLong = false := by
  cases p with
  | null | bool b | text s => rfl
  | list items => exact haveLong_toValues items
  | record fields => exact entriesHaveLong_toEntries fields

theorem haveLong_toValues (items : List Plain) : Value.haveLong (toValues items) = false := by
  cases items with
  | nil => rfl
  | cons p items => rw [toValues, Value.haveLong, hasLong_toValue p, haveLong_toValues items]; rfl

theorem entriesHaveLong_toEntries (fields : List (String × Plain)) :
    Value.entriesHaveLong (toEntries fields) = false := by
  cases fields with
  | nil => rfl
  | cons f fields =>
    rw [toEntries, Value.entriesHaveLong, hasLong_toValue f.2, entriesHaveLong_toEntries fields]
    rfl

end

theorem toJson_spells {p : Plain} (distinct : p.Distinct) (whole : p.hasHalf = false) :
    ∃ text : String, p.toJson = text ∧ Json.read text = some p.toValue ∧
      ∃ t : Whole, t.chars = text.toList ∧ t.body.value .json = p.toValue := by
  let lineEnd : Blanks := ⟨['\n'], by simp [isBlank]⟩
  obtain ⟨cs, written, spelled⟩ := spells_indented distinct whole 0
  have same : (String.ofList (cs ++ ['\n'])).toList = Blanks.none.chars ++ cs ++ lineEnd.chars :=
    String.toList_ofList
  obtain ⟨reads, whole_⟩ := spelled.whole .none lineEnd same
  refine ⟨_, ?_, reads (hasLong_toValue p), whole_⟩
  apply Str.ext
  rw [toJson, written, Str.toList_coe, String.toList_ofList, List.map_append]
  rfl

end Plain

namespace Value

theorem dumpsIn_ok {outer : List Nat} {items : List Value}
    (each : ∀ v ∈ items, ∃ cs, v.dumpIn outer = .ok cs ∧ Spells cs v) :
    ∃ css, dumpsIn outer items = .ok css ∧ List.Forall₂ Spells css items := by
  induction items with
  | nil => exact ⟨[], rfl, .nil⟩
  | cons v items ih =>
    obtain ⟨⟨cs, first, spells⟩, each⟩ := List.forall_mem_cons.1 each
    obtain ⟨css, rest, all⟩ := ih each
    exact ⟨cs :: css, by rw [dumpsIn, first, rest]; rfl, .cons spells all⟩

theorem dumpEntriesIn_ok {outer : List Nat} {fields : List (Str × Value)}
    (each : ∀ f ∈ fields, f.1.hasHalf = false ∧ ∃ cs, f.2.dumpIn outer = .ok cs ∧ Spells cs f.2) :
    ∃ css, dumpEntriesIn outer (Entries.ofFields fields) = .ok css ∧
      List.Forall₂ (SpellsMember .none) css fields := by
  induction fields with
  | nil => exact ⟨[], rfl, .nil⟩
  | cons f fields ih =>
    obtain ⟨⟨whole, cs, first, spells⟩, each⟩ := List.forall_mem_cons.1 each
    obtain ⟨css, rest, all⟩ := ih each
    obtain ⟨name, same⟩ := Str.hasHalf_eq_false_iff.1 whole
    have key : (Scalar.str f.1).dumpKey = .ok name.toList := by
      rw [Scalar.dumpKey, same, Str.encode_coe]
      rfl
    refine ⟨member name.toList cs :: css, ?_, .cons ⟨name, cs, same, rfl, spells⟩ all⟩
    rw [Entries.ofFields_cons, dumpEntriesIn, key, first, rest]
    rfl

theorem bracketed_eq (left right : Char) (css : List (List Char)) :
    bracketed left css right = left :: Blanks.none.chars ++
      (',' :: Blanks.none.chars).intercalate css ++ Blanks.none.chars ++ [right] := by
  simp [bracketed, Blanks.none]

theorem dumpIn_spells {v : Value} (json : v.IsJson fun _ => False) (outer : List Nat)
    (writable : v.WritableIn outer) : ∃ cs, v.dumpIn outer = .ok cs ∧ Spells cs v := by
  induction json with
  | null => exact ⟨_, rfl, spells_null⟩
  | bool b => exact ⟨_, rfl, spells_bool b⟩
  | int n => exact ⟨_, rfl, spells_int n⟩
  | float x allowed => exact allowed.elim
  | str s =>
    obtain ⟨a, rfl⟩ := Str.hasHalf_eq_false_iff.1 (writableIn_scalar.1 writable)
    exact ⟨_, by rw [dumpIn, Scalar.dump, Str.encode_coe]; rfl, spells_text a⟩
  | list items all ih =>
    obtain ⟨css, dumped, spells⟩ := dumpsIn_ok fun u mem => ih u mem (writableIn_list.1 writable u mem)
    refine ⟨bracketed '[' css ']', by rw [dumpIn, dumped]; rfl, ?_⟩
    cases spells with
    | nil => exact spells_emptyList
    | cons first rest =>
      rw [bracketed_eq]
      exact spells_list .none .none (.cons first rest) (by simp)
  | map fields nodup all ih =>
    have parts := writableIn_map.1 writable
    have each (f : Str × Value) (mem : f ∈ fields) :
        f.1.hasHalf = false ∧ ∃ cs, f.2.dumpIn outer = .ok cs ∧ Spells cs f.2 := by
      obtain ⟨key, value⟩ := parts _ (List.mem_map_of_mem mem)
      exact ⟨key.1, ih f mem value⟩
    obtain ⟨css, dumped, spells⟩ := dumpEntriesIn_ok each
    refine ⟨bracketed '\x7b' css '\x7d', by rw [dumpIn, dumped]; rfl, ?_⟩
    cases spells with
    | nil => exact spells_emptyObject
    | cons first rest =>
      rw [bracketed_eq]
      exact spells_object .none .none .none (.cons first rest) (by simp) nodup

/-- The compact text of a value without floating-point numbers and halves of pairs is JSON text of the
    value, and reads as the value unless a number in it is too long. -/
theorem read_dump {v : Value} (json : v.IsJson fun _ => False) (writable : v.Writable) :
    ∃ cs, v.dump = .ok cs ∧ (v.hasLong = false → read (String.ofList cs) = some v) ∧
      ∃ t : Whole, t.chars = cs ∧ t.body.value .json = v := by
  obtain ⟨cs, dumped, spells⟩ := dumpIn_spells json [] (writableIn_nil_iff.2 writable)
  have same : (String.ofList cs).toList = Blanks.none.chars ++ cs ++ Blanks.none.chars := by
    rw [String.toList_ofList]
    exact (List.append_nil _).symm
  obtain ⟨reads, spelled⟩ := spells.whole .none .none same
  rw [String.toList_ofList] at spelled
  exact ⟨cs, dumped, reads, spelled⟩

end Value

end ApiModel
