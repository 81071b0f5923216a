import ApiModel.Proofs.Model.RoundTrip
import ApiModel.Proofs.Yaml.BlockReading

namespace ApiModel

open Plain Yaml

theorem isName_partNames : ∀ name ∈ ["name", "types", "methods", "operation", "path", "http_method",
    "description", "parameters_type_name", "responses_type_name", "kind", "fields", "map_value_type",
    "type", "value_type", "format", "position", "serialize", "variant", "item", "value", "target",
    "raw"], isName name = true := by
  decide

attribute [local simp] Named.null Named.bool Named.text isName_partNames

namespace TypeRef

theorem named_namedPlain (name : Str) : (namedPlain name).Named :=
  .record _ (by simp) (by simp)

theorem named_toPlain (r : TypeRef) : r.toPlain.Named := by
  induction r with
  | primitive name => exact .record _ (by simp) (by simp)
  | named name => exact named_namedPlain name
  | array item => exact .record _ (by simp) (by simp [named_namedPlain])
  | map value =>
    cases value with
    | none => exact .record _ (by simp) (by simp)
    | some value => exact .record _ (by simp) (by simp [named_namedPlain])
  | pointer target ih => exact .record _ (by simp) (by simp [ih])
  | unsupported raw => exact .record _ (by simp) (by simp)

theorem named_optionToPlain (r : Option TypeRef) : (optionToPlain r).Named := by
  cases r with
  | none => exact .null
  | some r => exact named_toPlain r

end TypeRef

theorem Plain.named_ofText? (s : Option String) : (ofText? s).Named := by
  cases s with
  | none => exact .null
  | some s => exact .text s

theorem Field.named_toPlain (f : Field) : f.toPlain.Named :=
  .record _ (by simp) (by simp [named_ofText?, TypeRef.named_toPlain, TypeRef.named_optionToPlain])

theorem CompositeType.named_toPlain (t : CompositeType) : t.toPlain.Named := by
  have fields : (Plain.list (t.fields.map Field.toPlain)).Named :=
    .list _ (List.forall_mem_map.2 fun f _ => f.named_toPlain)
  exact .record _ (by simp) (by simp [named_ofText?, fields, TypeRef.named_optionToPlain])

theorem Method.named_toPlain (m : Method) : m.toPlain.Named := .record _ (by simp) (by simp)

theorem Model.named_toPlain (m : Model) : m.toPlain.Named := by
  have types : (Plain.list (m.types.map CompositeType.toPlain)).Named :=
    .list _ (List.forall_mem_map.2 fun t _ => t.named_toPlain)
  have methods : (Plain.list (m.methods.map Method.toPlain)).Named :=
    .list _ (List.forall_mem_map.2 fun f _ => f.named_toPlain)
  exact .record _ (by simp [Model.parts]) (by simp [Model.parts, types, methods])

def Model.yaml (m : Model) : String := recordToYaml m.parts

theorem Model.read_yaml (m : Model) :
    Yaml.read m.yaml.toList = .ok (m.toPlain.reread 0 0).toValue :=
  read_recordToYaml m.named_toPlain m.distinct_toPlain

theorem Model.read_yaml_eq_iff (m : Model) :
    Yaml.read m.yaml.toList = .ok m.toPlain.toValue ↔ Kept (m.toPlain.texts 0 0) := by
  rw [m.read_yaml, Except.ok.injEq, reread_toValue_iff]

/-- A model has a YAML file unless too many references stand inside each other in it. The file is text
    without halves of pairs, whatever the model holds; it reads as the data of the model, with the keys in
    their order, exactly if every text in the model is kept, and as the reread data in any case. -/
theorem Model.yaml_file_decodes_iff (m : Model) :
    (m.render .yaml = none ↔ m.isDeep = true) ∧
      ∀ text, m.render .yaml = some text → ∃ file : String, text = file ∧
        Yaml.read file.toList = .ok (m.toPlain.reread 0 0).toValue ∧
          (Yaml.read file.toList = .ok m.toPlain.toValue ↔ Kept (m.toPlain.texts 0 0)) ∧
          Model.read m.toPlain.toValue = .ok m := by
  refine ⟨render_eq_none_iff, fun text rendered => ?_⟩
  obtain ⟨flat, rfl⟩ := render_eq_some_iff.1 rendered
  exact ⟨m.yaml, rfl, m.read_yaml, m.read_yaml_eq_iff, read_toPlain flat⟩

def nextLineModel : Model := ⟨"a\x85b", [], []⟩

theorem render_nextLineModel : nextLineModel.render .yaml = some (nextLineModel.yaml : Str) :=
  Model.render_eq_some_iff.2 ⟨rfl, rfl⟩

theorem nextLineModel_decoded_iff : ∃ file : String, nextLineModel.render .yaml = some (file : Str) ∧
    (Yaml.read file.toList = .ok nextLineModel.toPlain.toValue ↔
      Kept (nextLineModel.toPlain.texts 0 0)) ∧
    Model.read nextLineModel.toPlain.toValue = .ok nextLineModel := by
  obtain ⟨file, same, -, decoded, reads⟩ := nextLineModel.yaml_file_decodes_iff.2 _ render_nextLineModel
  exact ⟨file, render_nextLineModel.trans (congrArg some same), decoded, reads⟩

theorem nextLineModel_not_decoded : ∃ file : String, nextLineModel.render .yaml = some (file : Str) ∧
    Yaml.read file.toList = .ok (Model.toPlain { nextLineModel with name := "a b" }).toValue ∧
      Yaml.read file.toList ≠ .ok nextLineModel.toPlain.toValue := by
  refine ⟨_, render_nextLineModel, ?_, ?_⟩
  · rw [nextLineModel.read_yaml]
    rfl
  · rw [Ne, nextLineModel.read_yaml_eq_iff]
    decide

end ApiModel
