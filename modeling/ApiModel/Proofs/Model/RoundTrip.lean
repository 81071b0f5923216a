import ApiModel.Model.Reading
import ApiModel.Model.Render
import ApiModel.Proofs.Json.Printing
import ApiModel.Proofs.Reading.Field

namespace ApiModel

open Plain

namespace TypeRef

theorem one_le_depth (r : TypeRef) : 1 ≤ r.depth := by
  cases r <;> simp [depth]

theorem isWord_str (s : Str) (word : String) : (Value.str s).isWord word = decide (s = word) := rfl

section

attribute [local simp] isWord_str toValue toEntries Entries.require_eq Entries.read_one

theorem readNamed_toValue (name : Str) : readNamed (namedPlain name).toValue = .ok name := by
  simp [namedPlain, readNamed, Value.readWord]

attribute [local simp] readNamed_toValue TypeRef.toPlain readIn ofEntries byVariant

theorem readIn_toPlain {room : Nat} {r : TypeRef} (fits : r.depth ≤ room) :
    readIn room r.toPlain.toValue = .ok r := by
  induction r generalizing room with
  | primitive name | unsupported raw => simp
  | named name => simp [namedPlain]
  | array item => simp
  | map value =>
    have optional : Value.readOptional readNamed ((value.map namedPlain).getD .null).toValue = .ok value := by
      cases value with
      | none => rfl
      | some name => exact congrArg (Checked.map some) (readNamed_toValue name)
    simp [optional]
  | pointer target ih =>
    rw [depth] at fits
    have more := target.one_le_depth
    have inner : readIn (room - 1) target.toPlain.toValue = .ok target := ih (by omega)
    have roomy : ¬room ≤ 1 := by omega
    simp [readTarget, inner, roomy]

end

theorem isNull_toPlain (r : TypeRef) : r.toPlain.toValue.isNull = false := by
  cases r <;> rfl

theorem readOptional_toPlain {r : Option TypeRef} (fits : ∀ a ∈ r.toList, a.depth ≤ nestingLimit) :
    Value.readOptional read (optionToPlain r).toValue = .ok r := by
  cases r with
  | none => rfl
  | some r =>
    rw [optionToPlain, Option.map_some, Option.getD_some, Value.readOptional, isNull_toPlain, read,
      readIn_toPlain (fits r (List.mem_singleton_self r))]
    rfl

theorem distinct_namedPlain (name : Str) : (namedPlain name).Distinct :=
  .record _ (by simp) (by simp [Distinct.text])

theorem distinct_toPlain (r : TypeRef) : r.toPlain.Distinct := by
  induction r with
  | primitive name => exact .record _ (by simp) (by simp [Distinct.text])
  | named name => exact distinct_namedPlain name
  | array item => exact .record _ (by simp) (by simp [Distinct.text, distinct_namedPlain])
  | map value =>
    cases value with
    | none => exact .record _ (by simp) (by simp [Distinct.text, Distinct.null])
    | some value => exact .record _ (by simp) (by simp [Distinct.text, distinct_namedPlain])
  | pointer target ih => exact .record _ (by simp) (by simp [Distinct.text, ih])
  | unsupported raw => exact .record _ (by simp) (by simp [Distinct.text])

theorem distinct_optionToPlain (r : Option TypeRef) : (optionToPlain r).Distinct := by
  cases r with
  | none => exact .null
  | some r => exact distinct_toPlain r

end TypeRef

theorem Plain.distinct_ofText? (s : Option String) : (ofText? s).Distinct := by
  cases s with
  | none => exact .null
  | some s => exact .text s

theorem Position.readOptional_word (p : Option Position) :
    Value.readOptional read (ofText? (p.map word)).toValue = .ok p := by
  cases p with
  | none => rfl
  | some p => cases p <;> rfl

theorem Kind.readOptional_word (k : Option Kind) :
    Value.readOptional read (ofText? (k.map word)).toValue = .ok k := by
  cases k with
  | none => rfl
  | some k => cases k <;> rfl

theorem readTuple_written {α : Type} {read : Value → Checked α} {write : α → Plain} {items : List α}
    (each : ∀ a ∈ items, read (write a).toValue = .ok a) :
    Value.readTuple read (Plain.list (items.map write)).toValue = .ok items := by
  rw [toValue, toValues_eq, List.map_map]
  exact Checked.indexed_written each 0

attribute [local simp] toValue toEntries Value.readPart Entries.require_eq Entries.read_one
  Entries.readText_one

def Field.refs (f : Field) : List TypeRef := f.type :: f.valueType.toList

theorem Field.read_toPlain {f : Field} (fits : ∀ r ∈ f.refs, r.depth ≤ nestingLimit) :
    read f.toPlain.toValue = .ok f := by
  obtain ⟨first, others⟩ := List.forall_mem_cons.1 fits
  have type : TypeRef.read f.type.toPlain.toValue = .ok f.type := TypeRef.readIn_toPlain first
  have valueType := TypeRef.readOptional_toPlain others
  have position := Position.readOptional_word f.position
  simp [Field.toPlain, Field.read, Field.ofEntries, type, valueType, position]

theorem CompositeType.read_toPlain {t : CompositeType} (fits : ∀ r ∈ t.refs, r.depth ≤ nestingLimit) :
    read t.toPlain.toValue = .ok t := by
  obtain ⟨inFields, inValues⟩ := List.forall_mem_append.1 fits
  have kind := Kind.readOptional_word t.kind
  have fields := readTuple_written fun f mem => Field.read_toPlain (List.forall_mem_flatMap.1 inFields f mem)
  have mapValueType := TypeRef.readOptional_toPlain inValues
  rw [toValue] at fields
  simp [CompositeType.toPlain, CompositeType.read, CompositeType.ofEntries, kind, fields, mapValueType]

theorem Method.read_toPlain (m : Method) : read m.toPlain.toValue = .ok m := by
  simp [Method.toPlain, Method.read, Method.ofEntries]

theorem Model.isDeep_eq_false_iff {m : Model} :
    m.isDeep = false ↔ ∀ t ∈ m.types, ∀ r ∈ t.refs, r.depth ≤ nestingLimit := by
  simp [isDeep]

theorem Model.read_toPlain {m : Model} (flat : m.isDeep = false) : read m.toPlain.toValue = .ok m := by
  have types := readTuple_written fun t mem => CompositeType.read_toPlain (isDeep_eq_false_iff.1 flat t mem)
  have methods := readTuple_written fun (f : Method) (_ : f ∈ m.methods) => f.read_toPlain
  rw [toValue] at types methods
  simp [Model.toPlain, Model.parts, Model.read, Model.ofEntries, types, methods]

theorem Field.distinct_toPlain (f : Field) : f.toPlain.Distinct :=
  .record _ (by simp) (by simp [Distinct.text, Distinct.bool, distinct_ofText?,
    TypeRef.distinct_toPlain, TypeRef.distinct_optionToPlain])

theorem CompositeType.distinct_toPlain (t : CompositeType) : t.toPlain.Distinct := by
  have fields : (Plain.list (t.fields.map Field.toPlain)).Distinct :=
    .list _ (List.forall_mem_map.2 fun f _ => f.distinct_toPlain)
  exact .record _ (by simp) (by simp [Distinct.text, distinct_ofText?, fields,
    TypeRef.distinct_optionToPlain])

theorem Method.distinct_toPlain (m : Method) : m.toPlain.Distinct :=
  .record _ (by simp) (by simp [Distinct.text])

theorem Model.distinct_toPlain (m : Model) : m.toPlain.Distinct := by
  have types : (Plain.list (m.types.map CompositeType.toPlain)).Distinct :=
    .list _ (List.forall_mem_map.2 fun t _ => t.distinct_toPlain)
  have methods : (Plain.list (m.methods.map Method.toPlain)).Distinct :=
    .list _ (List.forall_mem_map.2 fun f _ => f.distinct_toPlain)
  exact .record _ (by simp [Model.parts]) (by simp [Model.parts, Distinct.text, types, methods])

theorem Model.render_eq_none_iff {m : Model} {format : FileFormat} :
    m.render format = none ↔ m.isDeep = true := by
  rw [render]
  split <;> simp [*]

theorem Model.render_eq_some_iff {m : Model} {format : FileFormat} {text : Str} :
    m.render format = some text ↔ m.isDeep = false ∧ m.text format = text := by
  rw [render]
  split <;> simp [*]

def pointers : Nat → TypeRef
  | 0 => .primitive "string"
  | n + 1 => .pointer (pointers n)

def pointingModel (n : Nat) : Model :=
  ⟨"Chain", [{ name := "Link", fields := [{ name := "next", type := pointers n }] }], []⟩

end ApiModel
