import ApiModel.Proofs.Json.Data
import ApiModel.Proofs.Reading.Field
import ApiModel.Swagger.Writing
import Mathlib.Data.List.Nodup

namespace ApiModel

/-- A field of a node as it is written, with the further names under which it would be read. -/
structure Slot where
  name : String
  others : List String
  isDefault : Bool
  value : Value

namespace Slot

def names (s : Slot) : List String := s.name :: s.others

def isWritten (full : Bool) (s : Slot) : Bool := full || !s.isDefault

end Slot

def slotFields (full : Bool) (slots : List Slot) : List (Str × Value) :=
  (slots.filter (Slot.isWritten full)).map fun s => (s.name, s.value)

def nodeEntries (full : Bool) (slots : List Slot) (extras : List (Str × Value)) : Entries :=
  Entries.ofFields (slotFields full slots ++ extras)

/-- What no field took stands under other names than the fields, and also under other names than their
    further ones if fields are left out. -/
structure Fresh (full : Bool) (slots : List Slot) (extras : List (Str × Value)) : Prop where
  whole : ∀ e ∈ extras, e.1.hasHalf = false
  names : (slots.flatMap Slot.names).Nodup
  nodup : (extras.map Prod.fst).Nodup
  apart : ∀ s ∈ slots, (s.name : Str) ∉ extras.map Prod.fst
  further : full = true ∨ ∀ s ∈ slots, ∀ o ∈ s.others, (o : Str) ∉ extras.map Prod.fst

variable {full : Bool} {slots : List Slot} {extras : List (Str × Value)} {s : Slot}

namespace Entries

theorem get?_eq_none {fields : List (Str × Value)} {key : Str}
    (fresh : key ∉ fields.map Prod.fst) : get? (ofFields fields) key = none := by
  rw [get?_ofFields, Option.map_eq_none_iff, List.find?_eq_none]
  intro f mem same
  exact fresh (List.mem_map.2 ⟨f, mem, of_decide_eq_true same⟩)

theorem get?_of_mem {fields : List (Str × Value)} {key : Str} {v : Value}
    (nodup : (fields.map Prod.fst).Nodup) (mem : (key, v) ∈ fields) :
    get? (ofFields fields) key = some v := by
  induction fields with
  | nil => contradiction
  | cons f fields ih =>
    rw [List.map_cons, List.nodup_cons] at nodup
    rw [ofFields_cons, get?_cons]
    rcases List.mem_cons.1 mem with rfl | mem
    · rw [if_pos rfl]
    · rw [if_neg, ih nodup.2 mem]
      rintro rfl
      exact nodup.1 (List.mem_map.2 ⟨_, mem, rfl⟩)

end Entries

namespace Entries

def taken (m : Entries) (names : List (List String)) : List String :=
  names.filterMap fun names => (field? m names).map (·.1)

theorem extras_ofFields (fields : List (Str × Value)) (names : List (List String)) :
    Entries.extras (ofFields fields) names =
      ofFields (fields.filter fun f => f.1 ∉ (taken (ofFields fields) names).map Str.ofString) := by
  have same (f : Str × Value) : (!(taken (ofFields fields) names).any fun name =>
      decide (Scalar.str f.1 = .str name)) =
        decide (f.1 ∉ (taken (ofFields fields) names).map Str.ofString) := by
    rw [decide_not, List.any_eq]
    congr 1
    simp [eq_comm]
  simp only [← same]
  exact List.filter_map

theorem readExtras_eq {m : Entries} {names : List (List String)} {fields : List (Str × Value)}
    (kept : Entries.extras m names = ofFields fields) : readExtras m names = .ok fields := by
  rw [readExtras, kept]
  clear kept
  induction fields with
  | nil => rfl
  | cons f fields ih =>
    rw [ofFields_cons, List.map_cons, Checked.all, ih]
    rfl

end Entries

namespace Fresh

theorem hasTornKey (fresh : Fresh full slots extras) :
    (nodeEntries full slots extras).hasTornKey = false := by
  rw [nodeEntries, Entries.hasTornKey_ofFields_iff, List.forall_mem_append]
  refine ⟨fun f mem => ?_, fresh.whole⟩
  obtain ⟨s, -, rfl⟩ := List.mem_map.1 mem
  exact Str.hasHalf_coe s.name

theorem nodup_names (fresh : Fresh full slots extras) : (slots.map fun s => (s.name : Str)).Nodup := by
  have names := fresh.names
  clear fresh
  induction slots with
  | nil => exact List.nodup_nil
  | cons s slots ih =>
    rw [List.flatMap_cons, List.nodup_append] at names
    rw [List.map_cons, List.nodup_cons]
    refine ⟨fun mem => ?_, ih names.2.1⟩
    obtain ⟨t, mem, same⟩ := List.mem_map.1 mem
    have inside : s.name ∈ slots.flatMap Slot.names :=
      List.mem_flatMap.2 ⟨t, mem, Str.coe_inj.1 same ▸ List.mem_cons_self ..⟩
    exact names.2.2 s.name (List.mem_cons_self ..) s.name inside rfl

theorem name_ne_other (fresh : Fresh full slots extras) {t : Slot} (mem : s ∈ slots) (memT : t ∈ slots)
    {o : String} (other : o ∈ s.others) : t.name ≠ o := by
  have names := fresh.names
  rintro rfl
  clear fresh
  induction slots with
  | nil => contradiction
  | cons u slots ih =>
    rw [List.flatMap_cons, List.nodup_append] at names
    have inside {x : Slot} (mem : x ∈ slots) {a : String} (name : a ∈ x.names) :
        a ∈ slots.flatMap Slot.names := List.mem_flatMap.2 ⟨x, mem, name⟩
    rcases List.mem_cons.1 mem with rfl | behind <;> rcases List.mem_cons.1 memT with rfl | behindT
    · exact (List.nodup_cons.1 names.1).1 other
    · exact names.2.2 t.name (List.mem_cons_of_mem _ other) t.name
        (inside behindT (List.mem_cons_self ..)) rfl
    · exact names.2.2 t.name (List.mem_cons_self ..) t.name
        (inside behind (List.mem_cons_of_mem _ other)) rfl
    · exact ih behind behindT names.2.1

theorem nodup_keys (fresh : Fresh full slots extras) :
    ((slotFields full slots ++ extras).map Prod.fst).Nodup := by
  have slotKeys : (slotFields full slots).map Prod.fst =
      (slots.filter (Slot.isWritten full)).map fun s => (s.name : Str) := List.map_map ..
  rw [List.map_append, slotKeys, List.nodup_append]
  refine ⟨fresh.nodup_names.sublist (List.filter_sublist.map _), fresh.nodup, ?_⟩
  rintro _ key _ extra rfl
  obtain ⟨s, written, rfl⟩ := List.mem_map.1 key
  exact fresh.apart s (List.mem_filter.1 written).1 extra

theorem get?_name (fresh : Fresh full slots extras) (mem : s ∈ slots) :
    Entries.get? (nodeEntries full slots extras) s.name =
      if s.isWritten full then some s.value else none := by
  split
  · rename_i written
    refine Entries.get?_of_mem fresh.nodup_keys (List.mem_append_left _ ?_)
    exact List.mem_map.2 ⟨s, List.mem_filter.2 ⟨mem, written⟩, rfl⟩
  · rename_i unwritten
    refine Entries.get?_eq_none ?_
    rw [List.map_append, List.mem_append, not_or]
    refine ⟨fun key => ?_, fresh.apart s mem⟩
    obtain ⟨_, field, same⟩ := List.mem_map.1 key
    obtain ⟨t, written, rfl⟩ := List.mem_map.1 field
    have inside := List.mem_filter.1 written
    have same : t = s := List.inj_on_of_nodup_map fresh.nodup_names inside.1 mem same
    exact unwritten (same ▸ inside.2)

theorem field?_names (fresh : Fresh full slots extras) (mem : s ∈ slots) :
    Entries.field? (nodeEntries full slots extras) s.names =
      if s.isWritten full then some (s.name, s.value) else none := by
  rw [Slot.names, Entries.field?, fresh.get?_name mem]
  split_ifs with unwritten
  · rfl
  · have brief : full ≠ true := fun full => unwritten (by rw [Slot.isWritten, full, Bool.true_or])
    have absent (o : String) (other : o ∈ s.others) :
        Entries.get? (nodeEntries full slots extras) o = none := by
      refine Entries.get?_eq_none ?_
      rw [List.map_append, List.mem_append, not_or]
      refine ⟨fun key => ?_, fresh.further.resolve_left brief s mem o other⟩
      obtain ⟨_, field, same⟩ := List.mem_map.1 key
      obtain ⟨t, written, rfl⟩ := List.mem_map.1 field
      exact fresh.name_ne_other mem (List.mem_filter.1 written).1 other (Str.coe_inj.1 same)
    generalize s.others = others at absent
    induction others with
    | nil => rfl
    | cons o others ih =>
      rw [Entries.field?, absent o (List.mem_cons_self ..)]
      exact ih fun o other => absent o (List.mem_cons_of_mem _ other)

section Reading

variable {α : Type} {name : String} {others : List String} {v : Value} {reader : Value → Checked α}

/-- A field is read as what it was written from, if its value is and its default is what it is when it
    is absent. -/
theorem read_slot (fresh : Fresh full slots extras) {isDefault : Bool}
    (mem : ⟨name, others, isDefault, v⟩ ∈ slots) {absent : Checked α} {a : α} (reads : reader v = .ok a)
    (default : isDefault = true → absent = .ok a) :
    Entries.read (nodeEntries full slots extras) (name :: others) absent reader = .ok a := by
  have field := fresh.field?_names mem
  rw [Slot.names] at field
  rw [Entries.read, field]
  split_ifs with written
  · simp only [reads, Checked.under_ok]
  · refine default ?_
    simp only [Slot.isWritten, Bool.or_eq_true, Bool.not_eq_true', not_or, Bool.not_eq_false] at written
    exact written.2

theorem readText_slot (fresh : Fresh full slots extras) {s : Str}
    (mem : ⟨name, others, s.isEmpty, .str s⟩ ∈ slots) :
    Entries.readText (nodeEntries full slots extras) (name :: others) = .ok s := by
  refine fresh.read_slot mem (Value.readText_str s) fun empty => ?_
  rw [Str.isEmpty_iff.1 empty]

theorem require_slot (fresh : Fresh full slots extras) {a : α} (mem : ⟨name, [], false, v⟩ ∈ slots)
    (reads : reader v = .ok a) :
    Entries.require (nodeEntries full slots extras) name reader = .ok a :=
  fresh.read_slot mem reads nofun

theorem readList_slot {reader : Value → Checked (List α)} (fresh : Fresh full slots extras) {as : List α}
    (mem : ⟨name, others, as.isEmpty, v⟩ ∈ slots) (reads : reader v = .ok as) :
    Entries.read (nodeEntries full slots extras) (name :: others) (.ok []) reader = .ok as := by
  refine fresh.read_slot mem reads fun empty => ?_
  rw [List.isEmpty_iff.1 empty]

theorem readOption_slot {reader : Value → Checked (Option α)} (fresh : Fresh full slots extras)
    {o : Option α} (mem : ⟨name, others, o.isNone, v⟩ ∈ slots)
    (reads : reader v = .ok o) :
    Entries.read (nodeEntries full slots extras) (name :: others) (.ok none) reader = .ok o := by
  refine fresh.read_slot mem reads fun none_ => ?_
  rw [Option.isNone_iff_eq_none.1 none_]

theorem readFlag_slot (fresh : Fresh full slots extras) {b : Bool}
    (mem : ⟨name, others, !b, .bool b⟩ ∈ slots) :
    Entries.read (nodeEntries full slots extras) (name :: others) (.ok false) Value.readBool = .ok b := by
  refine fresh.read_slot mem (Value.readBool_bool b) fun unset => ?_
  rw [Bool.not_eq_true'] at unset
  rw [unset]

theorem readTable_slot {reader : Value → Checked (Table α)} (fresh : Fresh full slots extras)
    {t : Table α} (mem : ⟨name, others, t.size = 0, v⟩ ∈ slots) (reads : reader v = .ok t) :
    Entries.read (nodeEntries full slots extras) (name :: others) (.ok .empty) reader = .ok t := by
  refine fresh.read_slot mem reads fun size => ?_
  have empty : t.entries = [] := List.eq_nil_of_length_eq_zero (of_decide_eq_true size)
  exact congrArg Checked.ok (Table.ext_entries empty.symm)

end Reading

theorem readExtras_slots (fresh : Fresh full slots extras) :
    Entries.readExtras (nodeEntries full slots extras) (slots.map Slot.names) = .ok extras := by
  have taken : ((slots.map Slot.names).filterMap fun names =>
      (Entries.field? (nodeEntries full slots extras) names).map (·.1)).map Str.ofString =
      (slotFields full slots).map Prod.fst := by
    have each : ∀ s ∈ slots, (Entries.field? (nodeEntries full slots extras) s.names).map (·.1) =
        if s.isWritten full then some s.name else none := by
      intro s mem
      rw [fresh.field?_names mem]
      split <;> rfl
    generalize nodeEntries full slots extras = m at each
    clear fresh
    induction slots with
    | nil => rfl
    | cons s slots ih =>
      obtain ⟨first, each⟩ := List.forall_mem_cons.1 each
      specialize ih each
      rw [List.map_cons, List.filterMap_cons, first]
      rw [slotFields] at ih ⊢
      rw [List.filter_cons]
      split <;> simp_all
  have apart := (List.nodup_append.1 (List.map_append .. ▸ fresh.nodup_keys)).2.2
  refine Entries.readExtras_eq ?_
  have written : (Entries.taken (Entries.ofFields (slotFields full slots ++ extras))
      (slots.map Slot.names)).map Str.ofString = (slotFields full slots).map Prod.fst := taken
  rw [nodeEntries, Entries.extras_ofFields, written, List.filter_append,
    List.filter_eq_nil_iff.2, List.filter_eq_self.2, List.nil_append]
  · intro f mem
    simp only [decide_eq_true_eq]
    exact fun name => apart _ name _ (List.mem_map.2 ⟨f, mem, rfl⟩) rfl
  · intro f mem
    simp only [decide_eq_true_eq, not_not]
    exact List.mem_map.2 ⟨f, mem, rfl⟩

theorem isJson {floats : Binary64 → Prop} (fresh : Fresh full slots extras)
    (values : ∀ s ∈ slots, s.value.IsJson floats) (others : ∀ e ∈ extras, e.2.IsJson floats) :
    (Value.map (nodeEntries full slots extras)).IsJson floats := by
  refine .map _ fresh.nodup_keys fun f mem => ?_
  rcases List.mem_append.1 mem with field | extra
  · obtain ⟨s, written, rfl⟩ := List.mem_map.1 field
    exact values s (List.mem_filter.1 written).1
  · exact others f extra

end Fresh

end ApiModel
