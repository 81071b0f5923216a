import ApiModel.Proofs.Building.Fields
import ApiModel.Proofs.Building.Inference

namespace ApiModel

def TypeRef.pointers : TypeRef → Nat
  | pointer target => target.pointers + 1
  | primitive _ | named _ | array _ | map _ | unsupported _ => 0

/-- A struct is what has fields, and a map is what has a target: another type by its name. -/
structure CompositeType.WellFormed (t : CompositeType) : Prop where
  struct_iff : t.kind = some .struct ↔ t.fields ≠ []
  map_iff : t.kind = some .map ↔ t.mapValueType ≠ none
  map : t.kind = some .map → t.fields = [] ∧ ∃ name, t.mapValueType = some (.named name)

namespace Field

structure OfProperty (f : Field) : Prop where
  serialize : f.serialize = true
  position : f.position = none
  valueType : f.valueType = none
  format : f.format = ""
  pointers : f.type.pointers = 0

structure OfParameter (f : Field) : Prop where
  serialize : f.serialize = true
  position : f.position ≠ none
  valueType : f.valueType = none
  format : f.format ≠ "" → f.position = some .path
  pointers : f.type.pointers = 0

structure OfResponse (f : Field) : Prop where
  serialize : f.serialize = false
  position : f.position = none
  format : f.format = ""
  pointer : ∃ target, f.valueType = some target ∧ f.type = .pointer target ∧ target.pointers = 0

end Field

def Role.Allows : Role → Field → Prop
  | parameters => Field.OfParameter
  | responses => Field.OfResponse

namespace Schema

variable {s : Schema}

theorem pointers_of_typeRef {r : TypeRef} (built : s.typeRef.result = .ok r) : r.pointers = 0 := by
  rcases typeRef_cases built with ⟨-, maps⟩ | ⟨-, raw, -, rfl⟩
  · cases maps <;> rfl
  · rfl

theorem ofProperty_of_propertyField {property : Str} {f : Field}
    (built : (propertyField property s).result = .ok f) : f.OfProperty := by
  obtain ⟨type, read, returned⟩ := Traced.result_bind_eq_ok.1 built
  cases returned
  exact ⟨rfl, rfl, rfl, rfl, pointers_of_typeRef read⟩

theorem wellFormed_of_definitionType {name : Str} {t : CompositeType}
    (built : (s.definitionType name).result = .ok t) : t.WellFormed ∧ ∀ f ∈ t.fields, f.OfProperty := by
  obtain ⟨fields, each, rfl⟩ := definitionType_eq_ok_iff.1 built
  constructor
  · cases fields with
    | nil => cases s.additionalRef? <;> constructor <;> simp
    | cons f fields => constructor <;> simp
  · intro f mem
    obtain ⟨p, -, made⟩ := exists_of_forall₂ each f mem
    exact ofProperty_of_propertyField made

end Schema

theorem Parameter.ofParameter_of_toField {p : Parameter} {position : Position} {f : Field}
    (built : (p.toField position).result = .ok f) : f.OfParameter := by
  obtain ⟨type, read, returned⟩ := Traced.result_bind_eq_ok.1 built
  cases returned
  have pointers : type.pointers = 0 := by
    unfold typeRef at read
    split at read
    · exact Schema.pointers_of_typeRef read
    · obtain ⟨raw, -, returned⟩ := Traced.result_bind_eq_ok.1 read
      cases returned
      rfl
    · cases read
      rfl
  refine ⟨rfl, nofun, rfl, fun filled => ?_, pointers⟩
  by_contra other
  exact filled (if_neg fun path => other (congrArg some path))

theorem Response.ofResponse_of_toField {code : Str} {s : Schema} {f : Field}
    (built : (toField code s).result = .ok f) : f.OfResponse := by
  obtain ⟨type, read, returned⟩ := Traced.result_bind_eq_ok.1 built
  cases returned
  exact ⟨rfl, rfl, rfl, type, rfl, rfl, Schema.pointers_of_typeRef read⟩

theorem wellFormed_of_structOf? {name description : Str} {fields : List Field} {t : CompositeType}
    (made : structOf? name description fields = some t) : t.WellFormed ∧ t.fields = fields := by
  obtain ⟨some_, rfl⟩ := structOf?_eq_some_iff.1 made
  refine ⟨⟨?_, ?_, ?_⟩, rfl⟩
  · simpa using some_
  · simp
  · simp

theorem Operation.wellFormed_of_typeIn {o : Operation} {role : Role} {method : Str} {t : CompositeType}
    (built : o.typeIn role method = .ok (some t)) : t.WellFormed ∧ ∀ f ∈ t.fields, role.Allows f := by
  cases role with
  | parameters =>
    obtain ⟨fields, read, made⟩ := typeIn_parameters_iff.1 built
    obtain ⟨wellFormed, rfl⟩ := wellFormed_of_structOf? made.symm
    refine ⟨wellFormed, fun f mem => ?_⟩
    obtain ⟨e, -, field⟩ := exists_of_forall₂ (Parameter.toFields_eq_ok_iff.1 read).2 f mem
    exact Parameter.ofParameter_of_toField field
  | responses =>
    obtain ⟨fields, read, made⟩ := typeIn_responses_iff.1 built
    obtain ⟨wellFormed, rfl⟩ := wellFormed_of_structOf? made.symm
    refine ⟨wellFormed, fun f mem => ?_⟩
    obtain ⟨e, -, field⟩ := exists_of_forall₂ (Response.toFields_eq_ok_iff.1 read) f mem
    exact Response.ofResponse_of_toField field

namespace Document

variable {d : Document} {m : Model}

/-- Each type of a model is that of a definition or one that an operation brings in for its method. -/
theorem source_of_type (built : d.toModel.result = .ok m) : ∀ t ∈ m.types,
    (∃ e ∈ d.definitions.entries, (e.2.definitionType e.1).result = .ok t) ∨
      ∃ op ∈ d.operations, ∃ method ∈ m.methods, method.origin = Operation.origin op ∧
        ∃ role, op.2.2.typeIn role method.name = .ok (some t) := by
  obtain ⟨definitions, cs, after, types, run, rfl⟩ := toModel_eq_ok_iff.1 built
  obtain ⟨-, allTypes, methods, -⟩ := run.result
  intro t type
  have listed : t ∈ definitions ++ cs.flatMap Contribution.types := allTypes ▸ type
  rcases List.mem_append.1 listed with old | new
  · exact .inl (exists_of_forall₂ (mapM_eq_ok_iff.1 types) t old)
  · obtain ⟨c, inside, new⟩ := List.mem_flatMap.1 new
    obtain ⟨path, verb, o, op, made⟩ := run.exists_operation c inside
    obtain ⟨role, part⟩ := Contribution.mem_types.1 new
    have method : c.method ∈ after.methods := by
      rw [methods]
      exact List.mem_append_right _ (List.mem_map_of_mem inside)
    exact .inr ⟨_, op, _, method, made.origin, role, part ▸ made.part role⟩

/-- The types of a model are well formed, and their fields are what their origin says: those of definitions
    are not sent anywhere, those of parameters have a position and only in paths a format, and those of
    responses are pointers to their values. There is no other pointer in the model. -/
theorem toModel_types_wellFormed (d : Document) (m : Model) (built : d.toModel.result = .ok m) :
    ∀ t ∈ m.types, t.WellFormed ∧
      ((∃ e ∈ d.definitions.entries, (e.2.definitionType e.1).result = .ok t ∧
          ∀ f ∈ t.fields, f.OfProperty) ∨
        ∃ op ∈ d.operations, ∃ method ∈ m.methods, method.origin = Operation.origin op ∧
          ∃ role, op.2.2.typeIn role method.name = .ok (some t) ∧ ∀ f ∈ t.fields, role.Allows f) := by
  intro t type
  rcases source_of_type built t type with ⟨e, entry, made⟩ | ⟨op, mem, method, listed, origin, role, made⟩
  · obtain ⟨wellFormed, fields⟩ := Schema.wellFormed_of_definitionType made
    exact ⟨wellFormed, .inl ⟨e, entry, made, fields⟩⟩
  · obtain ⟨wellFormed, fields⟩ := Operation.wellFormed_of_typeIn made
    exact ⟨wellFormed, .inr ⟨op, mem, method, listed, origin, role, made, fields⟩⟩

def petReference : Schema := ⟨"#/definitions/Pet", [], "", "", [], [], .absent, []⟩

/-- A definition with properties beside further ones, one with further ones only and one with neither, and
    an operation with a body, a path parameter and a response. -/
def allShapes : Document where
  swagger := defaultVersion
  info := ⟨"Pets", "", "", []⟩
  paths := .ofList [("/pets/\x7bid\x7d", {
    ref := ""
    get := none
    put := some {
      operationId := "put", summary := "", description := "", tags := []
      parameters := [⟨"", "pet", "body", "", true, "", "", some petReference, []⟩,
        ⟨"", "id", "path", "", true, "integer", "int64", none, []⟩,
        ⟨"", "tag", "query", "", false, "string", "byte", none, []⟩]
      responses := .ofList [("200", ⟨"", "", some petReference, []⟩), ("404", ⟨"", "", none, []⟩)]
      extras := [] }
    post := none, delete := none, options := none, head := none, patch := none
    parameters := []
    extras := [] })]
  definitions := .ofList [
    ("Pet", ⟨"", ["object"], "", "", [], [("id", ⟨"", ["integer"], "int32", "", [], [], .absent, []⟩)],
      .schema petReference, []⟩),
    ("Pets", ⟨"", ["object"], "", "", [], [], .schema petReference, []⟩),
    ("Any", ⟨"", [], "", "", [], [], .flag true, []⟩)]
  extras := []

theorem allShapes_wellFormed :
    ∃ m, allShapes.toModel.result = .ok m ∧
      m.types.map (fun t => (t.name, t.kind, t.fields.map (·.name))) =
        ([("Pet", some .struct, ["id"]), ("Pets", some .map, []), ("Any", none, []),
          ("putParameters", some .struct, ["pet", "id", "tag"]), ("putResponses", some .struct, ["200"])] :
            List (Str × Option Kind × List Str)) ∧
      ∀ t ∈ m.types, t.WellFormed ∧
        ((∃ e ∈ allShapes.definitions.entries, (e.2.definitionType e.1).result = .ok t ∧
            ∀ f ∈ t.fields, f.OfProperty) ∨
          ∃ op ∈ allShapes.operations, ∃ method ∈ m.methods, method.origin = Operation.origin op ∧
            ∃ role, op.2.2.typeIn role method.name = .ok (some t) ∧ ∀ f ∈ t.fields, role.Allows f) :=
  ⟨_, rfl, rfl, toModel_types_wellFormed allShapes _ rfl⟩

end Document

end ApiModel
