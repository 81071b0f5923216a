import ApiModel.Proofs.Building.Run

namespace ApiModel

/-- The types that an operation brings in for a method of the given name: parameters, then responses. -/
def Operation.typesFor (o : Operation) (method : Str) : Except DumpFault (List CompositeType) := do
  let parameters ← o.typeIn .parameters method
  let responses ← o.typeIn .responses method
  return parameters.toList ++ responses.toList

/-- The types that a document gives when its operations become methods of the given names. -/
def Document.typesFor (d : Document) (methods : List Str) :
    Except DumpFault (List CompositeType) := do
  let definitions ← d.definitionTypes
  let synthesized ← (d.operations.zip methods).mapM fun e => e.1.2.2.typesFor e.2
  return definitions ++ synthesized.flatten

def Document.Translates (d : Document) : Prop :=
  (∃ definitions, d.definitionTypes = .ok definitions) ∧
    ∀ op ∈ d.operations, ∀ role method, ∃ made, op.2.2.typeIn role method = .ok made

theorem Parameter.toFields_result (a b : Str) (ps : List Parameter) :
    (toFields a ps).result = (toFields b ps).result := by
  induction ps with
  | nil => rfl
  | cons p ps ih =>
    unfold toFields
    cases p.fieldPosition? <;> simp only [Traced.result_bind, Traced.result_note, ih]

theorem Response.toFields_result (a b : Str) (rs : List (Str × Response)) :
    (toFields a rs).result = (toFields b rs).result := by
  induction rs with
  | nil => rfl
  | cons r rs ih =>
    unfold toFields
    cases r.2.fieldSchema? <;> simp only [Traced.result_bind, Traced.result_note, ih]

theorem Operation.typeIn_of_other {o : Operation} {role : Role} {a : Str} {t : Option CompositeType}
    (built : o.typeIn role a = .ok t) (b : Str) : ∃ made, o.typeIn role b = .ok made := by
  cases role with
  | parameters =>
    obtain ⟨fields, read, -⟩ := Traced.result_bind_eq_ok.1 built
    have other := (Parameter.toFields_result (parametersTypeName b) _ _).trans read
    exact ⟨_, Traced.result_bind_eq_ok.2 ⟨fields, other, rfl⟩⟩
  | responses =>
    obtain ⟨fields, read, -⟩ := Traced.result_bind_eq_ok.1 built
    have other := (Response.toFields_result (responsesTypeName b) _ _).trans read
    exact ⟨_, Traced.result_bind_eq_ok.2 ⟨fields, other, rfl⟩⟩

theorem Contribution.Of.types_eq {path verb : Str} {o : Operation} {c : Contribution}
    (made : c.Of path verb o) : o.typesFor c.method.name = .ok c.types := by
  rw [Operation.typesFor, made.part .parameters, made.part .responses]
  rfl

namespace Builder

theorem Run.synthesized {b after : Builder} {operations : List (Str × String × Operation)}
    {cs : List Contribution} (run : Run b operations cs after) :
    (operations.zip (cs.map (·.method.name))).mapM (fun e => e.1.2.2.typesFor e.2) =
      .ok (cs.map Contribution.types) := by
  rw [mapM_eq_ok_iff]
  induction run with
  | done b => exact .nil
  | step made named rest ih => exact .cons made.types_eq ih

theorem Run.translates {b after : Builder} {operations : List (Str × String × Operation)}
    {cs : List Contribution} (run : Run b operations cs after) :
    ∀ op ∈ operations, ∀ role method, ∃ made, op.2.2.typeIn role method = .ok made := by
  induction run with
  | done b => exact fun op mem => absurd mem List.not_mem_nil
  | step made named rest ih =>
    refine List.forall_mem_cons.2 ⟨fun role method => ?_, ih⟩
    exact Operation.typeIn_of_other (made.part role) method

theorem exists_run {operations : List (Str × String × Operation)}
    (translates : ∀ op ∈ operations, ∀ role method, ∃ made, op.2.2.typeIn role method = .ok made)
    (b : Builder) : ∃ cs after, Run b operations cs after := by
  induction operations generalizing b with
  | nil => exact ⟨[], b, .done b⟩
  | cons op operations ih =>
    obtain ⟨path, verb, o⟩ := op
    obtain ⟨first, others⟩ := List.forall_mem_cons.1 translates
    let name := b.uniqueName (baseName o.operationId verb path)
    obtain ⟨parameters, hp⟩ := first .parameters name
    obtain ⟨responses, hr⟩ := first .responses name
    let method : Method := {
      name
      operation := o.operationId
      path
      httpMethod := verb
      description := o.description
      parametersTypeName := nameOf? parameters
      responsesTypeName := nameOf? responses }
    let c : Contribution := ⟨method, parameters, responses⟩
    have made : c.Of path verb o := by
      refine ⟨rfl, fun role => ?_⟩
      cases role with
      | parameters => exact hp
      | responses => exact hr
    obtain ⟨cs, after, rest⟩ := ih others (b.collect c)
    exact ⟨c :: cs, after, .step made rfl rest⟩

end Builder

namespace Document

theorem toModel_succeeds_iff (d : Document) : (∃ m, d.toModel.result = .ok m) ↔ d.Translates := by
  constructor
  · rintro ⟨m, built⟩
    obtain ⟨definitions, cs, after, types, run, -⟩ := toModel_eq_ok_iff.1 built
    exact ⟨⟨definitions, types⟩, run.translates⟩
  · rintro ⟨⟨definitions, types⟩, translates⟩
    obtain ⟨cs, after, run⟩ := Builder.exists_run translates (.ofTypes d.info.title definitions)
    exact ⟨after.build, toModel_eq_ok_iff.2 ⟨definitions, cs, after, types, run, rfl⟩⟩

/-- There is a model if everything translates. It has one method for each modelled operation and the types
    of definitions and operations, all in document order. -/
theorem toModel_document_order (d : Document) :
    ((∃ m, d.toModel.result = .ok m) ↔ d.Translates) ∧
    ∀ m, d.toModel.result = .ok m →
      m.name = d.info.title ∧
      m.methods.map Method.origin = d.operations.map Operation.origin ∧
      d.typesFor (m.methods.map (·.name)) = .ok m.types := by
  refine ⟨toModel_succeeds_iff d, fun m built => ?_⟩
  obtain ⟨definitions, cs, after, types, run, rfl⟩ := toModel_eq_ok_iff.1 built
  obtain ⟨name, allTypes, methods, _⟩ := run.result
  have listed : after.methods = cs.map Contribution.method := by
    simpa [Builder.ofTypes] using methods
  refine ⟨name, ?_, ?_⟩
  · have origins := run.origins
    simp only [Builder.build, listed, List.map_map]
    exact origins
  · have synthesized := run.synthesized
    simp only [Builder.build, listed, List.map_map, typesFor, types]
    simp only [Bind.bind, Except.bind, Function.comp_def, synthesized, allTypes, Builder.ofTypes,
      List.flatMap]
    rfl

theorem colliding_document_order :
    ∃ m, colliding.toModel.result = .ok m ∧
      m.methods.map (·.name) = ["list", "list_3", "delete_pets"] ∧
      m.name = "Pets" ∧
      m.methods.map Method.origin =
        ([("/pets", "GET", "list", ""), ("/pets", "POST", "list", ""), ("/pets", "DELETE", "", "")] :
          List (Str × Str × Str × Str)) ∧
      colliding.typesFor ["list", "list_3", "delete_pets"] = .ok m.types :=
  ⟨_, rfl, rfl, (toModel_document_order colliding).2 _ rfl⟩

end Document

end ApiModel
