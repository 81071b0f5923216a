import ApiModel.Proofs.Json.Data
import ApiModel.Proofs.Reading.Field
import ApiModel.Proofs.Swagger.Grammar
import ApiModel.Proofs.Swagger.SchemaFields
import ApiModel.Swagger.Loading
import Mathlib.Data.Set.List

namespace ApiModel

open Checked

variable {α : Type} {floats : Binary64 → Prop} {fields : List (Str × Value)} {v : Value}
  {rooms : NodeKind → Nat} {kind : NodeKind}

namespace Entries

theorem field?_map_snd (m : Entries) (names : List String) :
    (field? m names).map Prod.snd = names.findSome? fun name : String => get? m name := by
  induction names with
  | nil => rfl
  | cons name names ih =>
    rw [field?, List.findSome?_cons]
    cases get? m name with
    | none => exact ih
    | some v => rfl

theorem mem_of_get? {key : Str} (found : get? (ofFields fields) key = some v) :
    (key, v) ∈ fields := by
  rw [get?_ofFields, Option.map_eq_some_iff] at found
  obtain ⟨f, found, rfl⟩ := found
  have same := List.find?_some found
  rw [decide_eq_true_eq] at same
  exact same ▸ List.mem_of_find?_eq_some found

theorem mem_ofFields {key : Str} : (.str key, v) ∈ ofFields fields ↔ (key, v) ∈ fields := by
  simp [ofFields]

end Entries

namespace FieldRule

theorem mem_of_given {f : FieldRule} (given : f.given? (Entries.ofFields fields) = some v) :
    ∃ key, (key, v) ∈ fields := by
  obtain ⟨name, -, found⟩ := List.exists_of_findSome?_eq_some given
  exact ⟨name, Entries.mem_of_get? found⟩

/-- A field is read exactly where it fits, if its reader takes just the values of its shape. -/
theorem succeeds_read {f : FieldRule} {absent : Checked α} {reader : Value → Checked α}
    (without : absent.Succeeds ↔ f.required = false)
    (each : ∀ e ∈ fields, ((reader e.2).Succeeds ↔ f.shape.Fits rooms e.2)) :
    (Entries.read (Entries.ofFields fields) f.names absent reader).Succeeds ↔
      f.Fits rooms (Entries.ofFields fields) := by
  have given := Entries.field?_map_snd (Entries.ofFields fields) f.names
  rw [Entries.read, Fits]
  cases found : Entries.field? (Entries.ofFields fields) f.names with
  | none =>
    rw [found] at given
    have none_ : f.given? (Entries.ofFields fields) = none := given.symm
    simp [without, none_]
  | some e =>
    rw [found] at given
    have some_ : f.given? (Entries.ofFields fields) = some e.2 := given.symm
    obtain ⟨key, mem⟩ := mem_of_given some_
    simpa [some_] using each _ mem

end FieldRule

namespace Value

theorem isNull_iff : v.isNull = true ↔ v = .null := by
  unfold isNull
  split
  · exact iff_of_true rfl rfl
  · rename_i other
    exact iff_of_false Bool.false_ne_true fun same => other same

theorem all_str_iff {items : List Value} :
    (∀ v ∈ items, ∃ s, v = .str s) ↔ ∃ ss : List Str, items = ss.map .str := by
  have range := congrArg (items ∈ ·) (Set.range_list_map Value.str)
  exact Iff.comm.1 (by simpa [eq_comm] using range)

theorem succeeds_readText_iff (json : v.IsJson floats) : v.readText.Succeeds ↔ ∃ s, v = .str s := by
  cases json <;> simp [Value.readText, Scalar.readText, Value.str]

theorem succeeds_readText (json : v.IsJson floats) : v.readText.Succeeds ↔ Shape.text.Fits rooms v :=
  (succeeds_readText_iff json).trans Shape.fits_text_iff.symm

theorem any_toList_iff {words : List String} {w : List Char} :
    (words.any fun x => x.toList = w) = true ↔ w ∈ words.map String.toList := by
  simp only [List.any_eq_true, decide_eq_true_eq, List.mem_map]

theorem succeeds_wordTruth (word : List Char) : (Scalar.wordTruth word).Succeeds ↔
    word.map Char.toLower ∈ truthWords.map String.toList := by
  simp only [Scalar.wordTruth, any_toList_iff, truthWords, List.map_append, List.mem_append]
  split_ifs with isFalse isTrue
  · exact iff_of_true (succeeds_ok _) (.inl isFalse)
  · exact iff_of_true (succeeds_ok _) (.inr isTrue)
  · exact iff_of_false (not_succeeds_fail _) (not_or.2 ⟨isFalse, isTrue⟩)

theorem succeeds_numberTruth (n : Int) : (Scalar.numberTruth n).Succeeds ↔ n = 0 ∨ n = 1 := by
  unfold Scalar.numberTruth
  split_ifs <;> simp_all

theorem succeeds_readBool (json : v.IsJson floats) :
    v.readBool.Succeeds ↔ Shape.truth.Fits rooms v := by
  rw [Shape.fits_truth_iff]
  cases json with
  | null =>
    refine iff_of_false (not_succeeds_fail _) ?_
    rintro ⟨⟩
  | bool b => exact iff_of_true (succeeds_ok b) (.bool b)
  | int n =>
    refine (succeeds_numberTruth n).trans ⟨.int n, ?_⟩
    rintro ⟨⟩
    assumption
  | float x allowed =>
    rw [Value.readBool, Scalar.readBool]
    cases whole : x.toInt? with
    | some n =>
      have binary_iff : (if n = -Scalar.wordBound then .fail .notBool
          else Scalar.numberTruth n).Succeeds ↔ n = 0 ∨ n = 1 := by
        split
        · rename_i least
          exact iff_of_false (not_succeeds_fail _) (by rw [Scalar.wordBound] at least; omega)
        · exact succeeds_numberTruth n
      refine binary_iff.trans ⟨.float x n whole, ?_⟩
      rintro ⟨⟩
      simp_all
    | none =>
      refine iff_of_false (not_succeeds_fail _) ?_
      rintro ⟨⟩
      simp_all
  | str s =>
    rw [Value.readBool, Scalar.readBool, isTruth_str_iff]
    cases whole : s.chars? with
    | some cs =>
      obtain rfl := Str.chars?_eq_some_iff.1 whole
      refine (succeeds_wordTruth cs).trans ⟨fun known => ⟨_, rfl, ?_⟩, ?_⟩
      · rwa [String.toList_ofList]
      · rintro ⟨word, same, known⟩
        rwa [← Str.coe_inj.1 same, String.toList_ofList] at known
    | none =>
      refine iff_of_false (not_succeeds_fail _) ?_
      rintro ⟨word, rfl, -⟩
      simp at whole
  | list items all | map fields nodup all =>
    refine iff_of_false (not_succeeds_fail _) ?_
    rintro ⟨⟩

theorem succeeds_items {items : List Value} (all : ∀ u ∈ items, u.IsJson floats) :
    (Checked.indexed 0 (items.map readText)).Succeeds ↔ ∃ ss : List Str, items = ss.map .str := by
  rw [succeeds_indexed, List.forall_mem_map, ← all_str_iff]
  exact forall₂_congr fun u mem => succeeds_readText_iff (all u mem)

theorem succeeds_readTexts (json : v.IsJson floats) :
    (v.readList readText).Succeeds ↔ Shape.texts.Fits rooms v := by
  rw [Shape.fits_texts_iff]
  cases json with
  | list items all =>
    refine (succeeds_items all).trans (exists_congr fun ss => ?_)
    rw [Value.list.injEq]
  | null | bool b | int n | float x allowed | str s | map fields nodup all =>
    refine iff_of_false (not_succeeds_fail _) ?_
    rintro ⟨_, ⟨⟩⟩

theorem succeeds_readLooseTexts (json : v.IsJson floats) :
    (v.readLoose readText).Succeeds ↔ Shape.looseTexts.Fits rooms v := by
  have single : v.isNull = false → v.list? = none →
      ((v.readLoose readText).Succeeds ↔ ∃ s, v = .str s) := by
    intro some_ noList
    rw [readLoose, some_, noList, ← succeeds_readText_iff json]
    simp
  rw [Shape.fits_looseTexts_iff]
  cases json with
  | null => exact iff_of_true (succeeds_ok _) (.inl rfl)
  | list items all =>
    refine (succeeds_items all).trans ?_
    simp [Value.null, Value.str]
  | str s => exact iff_of_true ((single rfl rfl).2 ⟨s, rfl⟩) (.inr (.inl ⟨s, rfl⟩))
  | bool b | int n | float x allowed =>
    exact iff_of_false (mt (single rfl rfl).1 (by simp [Value.str])) (by simp [Value.null, Value.str])
  | map fields nodup all =>
    exact iff_of_false (mt (single rfl rfl).1 (by simp [Value.str])) (by simp [Value.null, Value.str])

section Nodes

variable {reader : Value → Checked α}

theorem succeeds_readNode (reads : (reader v).Succeeds ↔ IsNode (rooms kind) kind v) :
    (reader v).Succeeds ↔ (Shape.node kind).Fits rooms v := by
  rw [Shape.fits_node_iff, reads]

theorem succeeds_readOptional (reads : (reader v).Succeeds ↔ IsNode (rooms kind) kind v) :
    (v.readOptional reader).Succeeds ↔ (Shape.optional kind).Fits rooms v := by
  rw [Shape.fits_optional_iff, readOptional]
  split
  · rename_i null
    exact iff_of_true (succeeds_ok _) (.inl (isNull_iff.1 null))
  · rename_i some_
    rw [succeeds_map, reads, or_iff_right (mt isNull_iff.2 some_)]

theorem succeeds_readList (json : v.IsJson floats)
    (reads : ∀ u, u.IsJson floats → ((reader u).Succeeds ↔ IsNode (rooms kind) kind u)) :
    (v.readList reader).Succeeds ↔ (Shape.nodes kind).Fits rooms v := by
  rw [Shape.fits_nodes_iff]
  cases json with
  | list items all =>
    have read : (Value.list items).readList reader = Checked.indexed 0 (items.map reader) := rfl
    have each : (∀ u ∈ items, (reader u).Succeeds) ↔ ∀ u ∈ items, IsNode (rooms kind) kind u :=
      forall₂_congr fun u mem => reads u (all u mem)
    rw [read, succeeds_indexed, List.forall_mem_map, each]
    simp
  | null | bool b | int n | float x allowed | str s | map fields nodup all =>
    refine iff_of_false (not_succeeds_fail _) ?_
    rintro ⟨_, ⟨⟩, -⟩

theorem succeeds_readTable : (Entries.readTable reader (Entries.ofFields fields)).Succeeds ↔
    ∀ f ∈ fields, (reader f.2).Succeeds := by
  rw [Entries.readTable, succeeds_map, succeeds_all, List.forall_mem_map, Entries.ofFields,
    List.forall_mem_map]
  exact forall₂_congr fun f _ => by simp [Entries.readEntry, Scalar.readText]

theorem forall_mem_ofFields {p : Str → Value → Prop} :
    (∀ key u, (.str key, u) ∈ Entries.ofFields fields → p key u) ↔ ∀ f ∈ fields, p f.1 f.2 := by
  simp [Entries.mem_ofFields]

theorem succeeds_readNodesOrNull (json : v.IsJson floats)
    (reads : ∀ u, u.IsJson floats → ((reader u).Succeeds ↔ IsNode (rooms kind) kind u)) :
    (v.readNodesOrNull reader).Succeeds ↔ (Shape.table kind).Fits rooms v := by
  rw [Shape.fits_table_iff]
  cases json with
  | null => exact iff_of_true (succeeds_ok _) (.inl rfl)
  | map fields nodup all =>
    have read : (Value.map (Entries.ofFields fields)).readNodesOrNull reader =
      Entries.readTable reader (Entries.ofFields fields) := rfl
    have each : (∀ f ∈ fields, (reader f.2).Succeeds) ↔ ∀ f ∈ fields, IsNode (rooms kind) kind f.2 :=
      forall₂_congr fun f mem => reads f.2 (all f mem)
    rw [read, succeeds_readTable, each]
    simp [Value.null, forall_mem_ofFields]
  | bool b | int n | float x allowed | str s | list items all =>
    exact iff_of_false (not_succeeds_fail _) (by simp [Value.null])

theorem dropExtensions_ofFields (nodup : (fields.map Prod.fst).Nodup) :
    Entries.dropExtensions (Entries.ofFields fields) =
      Entries.ofFields (fields.filter fun f => !f.1.startsWith "x-") := by
  have kept : ((Entries.ofFields fields).map fun e => (e.1.text, e.2)).filterMap
      (fun e => if e.1.startsWith "x-" then none else some (Scalar.str e.1, e.2)) =
      Entries.ofFields (fields.filter fun f => !f.1.startsWith "x-") := by
    induction fields with
    | nil => rfl
    | cons f fields ih =>
      have rest := ih (List.nodup_cons.1 nodup).2
      have name : (Scalar.str f.1).text = f.1 := rfl
      rw [Entries.ofFields_cons, List.map_cons, List.filterMap_cons, rest, name, List.filter_cons]
      cases f.1.startsWith "x-" <;> rfl
  rw [Entries.dropExtensions, kept, Entries.ofList_of_nodup]
  exact nodup.sublist (List.filter_sublist.map _)

theorem readNodesWithoutExtensions_ofFields :
    (Value.map (Entries.ofFields fields)).readNodesWithoutExtensions reader =
      Entries.readTable reader (Entries.dropExtensions (Entries.ofFields fields)) := by
  rw [readNodesWithoutExtensions, entries?_map]
  dsimp only
  rw [Entries.hasLongKey_ofFields, if_neg Bool.false_ne_true]

theorem succeeds_readNodesWithoutExtensions (json : v.IsJson floats)
    (reads : ∀ u, u.IsJson floats → ((reader u).Succeeds ↔ IsNode (rooms kind) kind u)) :
    (v.readNodesWithoutExtensions reader).Succeeds ↔ (Shape.tableBesideExtensions kind).Fits rooms v := by
  rw [Shape.fits_tableBesideExtensions_iff]
  cases json with
  | map fields nodup all =>
    have each : (∀ f ∈ fields, ¬f.1.startsWith "x-" → (reader f.2).Succeeds) ↔
        ∀ f ∈ fields, ¬f.1.startsWith "x-" → IsNode (rooms kind) kind f.2 :=
      forall₂_congr fun f mem => imp_congr_right fun _ => reads f.2 (all f mem)
    rw [readNodesWithoutExtensions_ofFields, dropExtensions_ofFields nodup, succeeds_readTable]
    simp only [List.mem_filter, Bool.not_eq_true', and_imp, ← Bool.not_eq_true]
    rw [each]
    simp [forall_mem_ofFields]
  | null | bool b | int n | float x allowed | str s | list items all =>
    exact iff_of_false (not_succeeds_fail _) (by simp)

end Nodes

end Value

theorem Entries.succeeds_readExtras (names : List (List String)) :
    (readExtras (ofFields fields) names).Succeeds := by
  rw [readExtras, succeeds_all, List.forall_mem_map]
  intro e mem
  obtain ⟨f, -, rfl⟩ := List.mem_map.1 (List.mem_filter.1 mem).1
  exact succeeds_ok _

theorem FieldRule.succeeds_optional {shape : Shape} {reader : Value → Checked α}
    (each : ∀ f ∈ fields, ((reader f.2).Succeeds ↔ shape.Fits rooms f.2)) (names : List String) (absent : α) :
    (Entries.read (Entries.ofFields fields) names (.ok absent) reader).Succeeds ↔
      FieldRule.Fits rooms ⟨names, shape, false⟩ (Entries.ofFields fields) :=
  succeeds_read (f := ⟨names, shape, false⟩) (iff_of_true (succeeds_ok absent) rfl) each

theorem FieldRule.succeeds_require {shape : Shape} {reader : Value → Checked α}
    (each : ∀ f ∈ fields, ((reader f.2).Succeeds ↔ shape.Fits rooms f.2)) (name : String) :
    (Entries.require (Entries.ofFields fields) name reader).Succeeds ↔
      FieldRule.Fits rooms ⟨[name], shape, true⟩ (Entries.ofFields fields) :=
  succeeds_read (f := ⟨[name], shape, true⟩) (iff_of_false (not_succeeds_bad _ _) Bool.true_eq_false.mp) each

end ApiModel
