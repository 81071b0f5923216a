import ApiModel.Proofs.Json.Writable
import ApiModel.Proofs.Swagger.NodeFields
import ApiModel.Proofs.Swagger.Schemas

namespace ApiModel

open Value

namespace Schema

theorem sizeOf_item_lt {s t : Schema} (mem : t ∈ s.items) : sizeOf t < sizeOf s := by
  have inside := List.sizeOf_lt_of_mem mem
  cases s
  simp only [Schema.mk.sizeOf_spec] at inside ⊢
  omega

theorem sizeOf_property_lt {s : Schema} {p : Str × Schema} (mem : p ∈ s.properties) :
    sizeOf p.2 < sizeOf s := by
  have inside := List.sizeOf_lt_of_mem mem
  cases s
  cases p
  simp only [Schema.mk.sizeOf_spec, Prod.mk.sizeOf_spec] at inside ⊢
  omega

theorem sizeOf_additional_lt {s t : Schema} (given : s.additional = .schema t) :
    sizeOf t < sizeOf s := by
  cases s
  cases given
  simp only [Schema.mk.sizeOf_spec, Additional.schema.sizeOf_spec]
  omega

/-- What holds of a schema if it holds of the schemas right inside it holds of every schema. -/
theorem induct {motive : Schema → Prop}
    (step : ∀ s, (∀ t ∈ s.items, motive t) → (∀ p ∈ s.properties, motive p.2) →
      (∀ t, s.additional = .schema t → motive t) → motive s) (s : Schema) : motive s :=
  step s (fun t mem => have := sizeOf_item_lt mem; induct step t)
    (fun p mem => have := sizeOf_property_lt mem; induct step p.2)
    (fun t given => have := sizeOf_additional_lt given; induct step t)
termination_by sizeOf s

theorem Holds.trans {s t u : Schema} (first : s.Holds t) (second : t.Holds u) : s.Holds u := by
  induction first with
  | self => exact second
  | item mem _ ih => exact .item mem (ih second)
  | property mem _ ih => exact .property mem (ih second)
  | additional given _ ih => exact .additional given (ih second)

end Schema

namespace Value

theorem writable_str_iff {s : Str} : (Value.str s).Writable ↔ s.hasHalf = false := by
  rw [← writableIn_nil_iff]
  exact writableIn_scalar

theorem writable_list_iff {items : List Value} :
    (Value.list items).Writable ↔ ∀ u ∈ items, u.Writable := by
  simp only [← writableIn_nil_iff, writableIn_list]

theorem writable_ofFields_iff {fields : List (Str × Value)} :
    (Value.map (Entries.ofFields fields)).Writable ↔
      ∀ f ∈ fields, f.1.hasHalf = false ∧ f.2.Writable := by
  have key (s : Str) : (Scalar.str s).IsKey ↔ s.hasHalf = false := and_iff_left rfl
  simp only [← writableIn_nil_iff, writableIn_map, Entries.ofFields, List.forall_mem_map, key]

theorem writable_null : Value.null.Writable := writableIn_nil_iff.1 (writableIn_scalar.2 trivial)

theorem writable_bool (b : Bool) : (Value.bool b).Writable :=
  writableIn_nil_iff.1 (writableIn_scalar.2 trivial)

end Value

variable {full : Bool} {slots : List Slot} {extras : List (Str × Value)}

def WritableFields (fields : List (Str × Value)) : Prop :=
  ∀ f ∈ fields, f.1.hasHalf = false ∧ f.2.Writable

/-- A node has a text exactly if its fields and what no field took have one: it does not matter which
    fields are left out as defaults, as every default has a text. -/
theorem writable_node_iff (defaults : ∀ s ∈ slots, s.isDefault = true → s.value.Writable) :
    (Value.map (nodeEntries full slots extras)).Writable ↔
      (∀ s ∈ slots, s.value.Writable) ∧ WritableFields extras := by
  rw [nodeEntries, writable_ofFields_iff, List.forall_mem_append]
  refine and_congr_left fun _ => ?_
  simp only [slotFields, List.forall_mem_map, List.mem_filter, and_imp, Str.hasHalf_coe, true_and]
  constructor
  · intro written s mem
    by_cases default : s.isDefault = true
    · exact defaults s mem default
    · exact written s mem (by simp [Slot.isWritten, default])
  · exact fun all s mem _ => all s mem

theorem writable_of_isEmpty {s : Str} (empty : s.isEmpty = true) : (Value.str s).Writable := by
  rw [Str.isEmpty_iff.1 empty, writable_str_iff, Str.hasHalf_coe]

namespace Schema

variable {s : Schema}

def texts (s : Schema) : List Str := s.ref :: s.format :: s.description :: s.type

theorem writable_additional_iff (a : Additional Schema) :
    ((additionalToValue? full a).getD .null).Writable ↔
      ∀ t, a = .schema t → (t.toValue full).Writable := by
  cases a with
  | absent => exact iff_of_true writable_null (by simp)
  | flag b => exact iff_of_true (writable_bool b) (by simp)
  | schema t => simp [additionalToValue?]

theorem writable_default_slot : ∀ slot ∈ s.slots full, slot.isDefault = true → slot.value.Writable := by
  simp only [slots, List.forall_mem_cons, List.not_mem_nil, false_implies, implies_true, and_true]
  refine ⟨writable_of_isEmpty, fun none_ => ?_, writable_of_isEmpty, writable_of_isEmpty, fun none_ => ?_,
    fun none_ => ?_, fun none_ => ?_⟩
  · rw [List.isEmpty_iff.1 none_]
    exact writable_list_iff.2 (List.forall_mem_nil _)
  · rw [List.isEmpty_iff.1 none_]
    exact writable_list_iff.2 (List.forall_mem_nil _)
  · rw [List.isEmpty_iff.1 none_]
    exact writable_ofFields_iff.2 (List.forall_mem_nil _)
  · rw [Option.isNone_iff_eq_none.1 none_]
    exact writable_null

theorem writable_toValue_iff : (s.toValue full).Writable ↔
    ((∀ t ∈ s.texts, t.hasHalf = false) ∧ (∀ t ∈ s.items, (t.toValue full).Writable) ∧
      (∀ p ∈ s.properties, p.1.hasHalf = false ∧ (p.2.toValue full).Writable) ∧
      ∀ t, s.additional = .schema t → (t.toValue full).Writable) ∧ WritableFields s.extras := by
  rw [toValue_eq, writable_node_iff writable_default_slot]
  refine and_congr_left fun _ => ?_
  simp only [slots, texts, List.forall_mem_cons, List.not_mem_nil, false_implies, implies_true, and_true,
    writable_str_iff, writable_list_iff, writable_ofFields_iff, List.forall_mem_map,
    writable_additional_iff]
  tauto

end Schema

namespace Parameter

variable {p : Parameter}

def texts (p : Parameter) : List Str := [p.ref, p.name, p.location, p.description, p.type, p.format]

theorem writable_toValue_iff : (p.toValue full).Writable ↔
    ((∀ t ∈ p.texts, t.hasHalf = false) ∧ ∀ s, p.schema = some s → (s.toValue full).Writable) ∧
      WritableFields p.extras := by
  have schema : ((p.schema.map (Schema.toValue full)).getD .null).Writable ↔
      ∀ s, p.schema = some s → (s.toValue full).Writable := by
    cases p.schema with
    | none => exact iff_of_true writable_null (by simp)
    | some s => simp
  have defaults : ∀ slot ∈ p.slots full, slot.isDefault = true → slot.value.Writable := by
    simp only [slots, List.forall_mem_cons, List.not_mem_nil, false_implies, implies_true, and_true]
    refine ⟨writable_of_isEmpty, writable_of_isEmpty, writable_of_isEmpty, writable_of_isEmpty,
      fun _ => writable_bool _, writable_of_isEmpty, writable_of_isEmpty, fun none_ => ?_⟩
    rw [Option.isNone_iff_eq_none.1 none_]
    exact writable_null
  rw [toValue_eq, writable_node_iff defaults]
  refine and_congr_left fun _ => ?_
  simp only [slots, texts, List.forall_mem_cons, List.not_mem_nil, false_implies, implies_true, and_true,
    writable_str_iff, writable_bool, true_and, schema]
  tauto

end Parameter

/-- A node of some depth, given as a value, has a text: everything in it can be written, and not too much
    stands inside each other. -/
structure Prints (depth : Nat) (v : Value) : Prop where
  writable : v.Writable
  depth : depth ≤ nestingLimit

theorem dumpText_ok_iff {depth : Nat} {v : Value} :
    (∃ text, dumpText depth v = .ok text) ↔ Prints depth v := by
  have parts : Prints depth v ↔ v.Writable ∧ depth ≤ nestingLimit :=
    ⟨fun prints => ⟨prints.writable, prints.depth⟩, fun parts => ⟨parts.1, parts.2⟩⟩
  rw [parts, ← Value.dump_ok_iff]
  simp only [dumpText, bind_ok_iff]
  constructor
  · rintro ⟨text, cs, dumped, limited⟩
    split at limited
    · contradiction
    · exact ⟨⟨cs, dumped⟩, by omega⟩
  · rintro ⟨⟨cs, dumped⟩, few⟩
    exact ⟨_, cs, dumped, if_neg (by omega)⟩

def Schema.Prints (s : Schema) : Prop := ApiModel.Prints (s.depth false) (s.toValue false)

def Parameter.Prints (p : Parameter) : Prop := ApiModel.Prints (p.depth false) (p.toValue false)

theorem Schema.dump_ok_iff (s : Schema) : (∃ text, s.dump = .ok text) ↔ s.Prints := dumpText_ok_iff

theorem Parameter.dump_ok_iff (p : Parameter) : (∃ text, p.dump = .ok text) ↔ p.Prints := dumpText_ok_iff

end ApiModel
