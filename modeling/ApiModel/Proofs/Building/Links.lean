import ApiModel.Proofs.Building.UniqueNames

namespace ApiModel

theorem find?_of_nodup {α : Type} {key : α → Str} {xs : List α} (nodup : (xs.map key).Nodup)
    {x : α} (mem : x ∈ xs) : xs.find? (fun y => key y = key x) = some x := by
  induction xs with
  | nil => contradiction
  | cons y xs ih =>
    obtain ⟨fresh, rest⟩ := List.nodup_cons.1 nodup
    rcases List.mem_cons.1 mem with rfl | later
    · simp
    · have differs : key y ≠ key x := fun same => fresh (same ▸ List.mem_map_of_mem later)
      rw [List.find?_cons_of_neg (by simpa using differs)]
      exact ih rest later

def Method.link (m : Method) : Role → Str
  | .parameters => m.parametersTypeName
  | .responses => m.responsesTypeName

def Method.links (m : Method) : List Str :=
  [m.parametersTypeName, m.responsesTypeName].filter (· ≠ "")

/-- A link to what an operation brings in: to exactly that type, or to none where its name would lead
    nowhere either. -/
def Model.Resolves (m : Model) (made : Option CompositeType) (typeName link : Str) : Prop :=
  match made with
  | some t => link = typeName ∧ m.typeNamed link = some t
  | none => link = "" ∧ m.typeNamed typeName = none

namespace Contribution

variable {path verb : Str} {o : Operation} {c : Contribution}

theorem Of.link_eq (made : c.Of path verb o) (role : Role) :
    c.method.link role = Builder.nameOf? (c.part role) := by
  cases role <;> rw [Method.link, made.method, Contribution.part]

theorem Of.links_eq (made : c.Of path verb o) : c.method.links = c.types.map (·.name) := by
  have link (role : Role) :
      [c.method.link role].filter (· ≠ ("" : Str)) = (c.part role).toList.map (·.name) := by
    rw [made.link_eq role]
    cases part : c.part role with
    | none => simp [Builder.nameOf?]
    | some t => simp [Builder.nameOf?, made.part_name _ part, Role.typeName_ne_empty]
  have parameters := link .parameters
  have responses := link .responses
  simp only [Method.link, Contribution.part] at parameters responses
  rw [types, List.map_append, ← parameters, ← responses, Method.links, ← List.filter_append]
  rfl

end Contribution

namespace Builder

/-- The name of a type that did not come with its method stays without a type: whatever is added later
    has another method's name. -/
theorem Run.unclaimed {b after : Builder} {operations : List (Str × String × Operation)}
    {cs : List Contribution} (run : Run b operations cs after) {role : Role} {name : Str}
    (taken : name ∈ b.taken) (absent : role.typeName name ∉ b.types.map (·.name)) :
    role.typeName name ∉ after.types.map (·.name) := by
  induction run with
  | done b => exact absent
  | @step b after path verb o c operations more made named rest ih =>
    refine ih (by simp [taken]) ?_
    rw [collect_types, List.map_append, List.mem_append, not_or]
    -- a type under this name would belong to a method of this name, which is taken
    refine ⟨absent, fun added => ?_⟩
    obtain ⟨t, mem, same⟩ := List.mem_map.1 added
    obtain ⟨other, part⟩ := Contribution.mem_types.1 mem
    rw [made.part_name _ part] at same
    have own : c.method.name = name := (Role.typeName_inj same).2
    have fresh := uniqueName_free b (baseName o.operationId verb path) c.method.name
      (by rw [← named]; simp [derivedNames])
    exact fresh (own ▸ taken)

theorem Run.resolves {b after : Builder} {operations : List (Str × String × Operation)}
    {cs : List Contribution} (run : Run b operations cs after) (sound : b.Sound) :
    List.Forall₂ (fun (op : Str × String × Operation) (method : Method) =>
      method.origin = Operation.origin op ∧ ∀ role, ∃ made,
        op.2.2.typeIn role method.name = .ok made ∧
        after.build.Resolves made (role.typeName method.name) (method.link role))
      operations (cs.map (·.method)) := by
  induction run with
  | done b => exact .nil
  | @step b after path verb o c operations more made named rest ih =>
    have soundNext := sound.collect made named
    refine .cons ⟨made.origin, fun role => ⟨c.part role, made.part role, ?_⟩⟩ (ih soundNext)
    have free := uniqueName_free b (baseName o.operationId verb path)
    rw [← named] at free
    rw [made.link_eq role]
    cases part : c.part role with
    | some t =>
      have name := made.part_name _ part
      have mem : t ∈ after.types := by
        rw [rest.result.2.1, collect_types]
        exact List.mem_append_left _ (List.mem_append_right _ (Contribution.mem_types.2 ⟨role, part⟩))
      have nodup := (List.nodup_append.1 (rest.sound soundNext).names_nodup).1
      exact ⟨name, find?_of_nodup nodup mem⟩
    | none =>
      refine ⟨rfl, List.find?_eq_none.2 fun t mem => ?_⟩
      have unclaimed : role.typeName c.method.name ∉ after.types.map (·.name) := by
        refine rest.unclaimed (by simp [Contribution.names]) ?_
        rw [collect_types, List.map_append, List.mem_append, not_or]
        -- no earlier type has the name, and the other type of this method has another role
        refine ⟨fun old => free _ (role.typeName_mem_derivedNames _) (sound.type_taken old), ?_⟩
        intro added
        obtain ⟨u, memU, same⟩ := List.mem_map.1 added
        obtain ⟨other, partU⟩ := Contribution.mem_types.1 memU
        rw [made.part_name _ partU] at same
        rw [(Role.typeName_inj same).1, part] at partU
        contradiction
      have differs : t.name ≠ role.typeName c.method.name := fun same =>
        unclaimed (same ▸ List.mem_map_of_mem mem)
      simpa using differs

theorem Run.links_eq {b after : Builder} {operations : List (Str × String × Operation)}
    {cs : List Contribution} (run : Run b operations cs after) :
    (cs.map (·.method)).flatMap Method.links = (cs.flatMap Contribution.types).map (·.name) := by
  induction run with
  | done b => rfl
  | step made named rest ih =>
    rw [List.map_cons, List.flatMap_cons, List.flatMap_cons, List.map_append, made.links_eq, ih]

end Builder

namespace Document

/-- Each method of a model is found under its name, and each of its links finds the type that its
    operation brings in. Taken together the links name every type beyond the definitions, each once, and
    none of them names a definition. -/
theorem toModel_links_resolve (d : Document) (m : Model) (built : d.toModel.result = .ok m) :
    (∀ method ∈ m.methods, m.methodNamed method.name = some method) ∧
    List.Forall₂ (fun (op : Str × String × Operation) (method : Method) =>
        method.origin = Operation.origin op ∧ ∀ role, ∃ made,
          op.2.2.typeIn role method.name = .ok made ∧
          m.Resolves made (role.typeName method.name) (method.link role))
      d.operations m.methods ∧
    m.methods.flatMap Method.links = (m.types.drop d.definitions.size).map (·.name) ∧
    (m.methods.flatMap Method.links).Nodup ∧
    ∀ link ∈ m.methods.flatMap Method.links, link ∉ d.definitions.entries.map Prod.fst := by
  obtain ⟨definitions, cs, after, types, run, rfl⟩ := toModel_eq_ok_iff.1 built
  have start : (Builder.ofTypes d.info.title definitions).Sound :=
    Builder.ofTypes_sound (definitionTypes_nodup types)
  obtain ⟨_, allTypes, methods, _⟩ := run.result
  have listed : after.methods = cs.map (·.method) := by simpa [Builder.ofTypes] using methods
  have names := (run.sound start).names_nodup
  have size : definitions.length = d.definitions.size := by
    have lengths := congrArg List.length (definitionTypes_names types)
    simpa [Table.size] using lengths
  have synthesized : after.types.drop d.definitions.size = cs.flatMap Contribution.types := by
    rw [allTypes, ← size]
    exact List.drop_left
  have links : after.methods.flatMap Method.links =
      (after.types.drop d.definitions.size).map (·.name) := by
    rw [listed, synthesized]
    exact run.links_eq
  have split : (d.definitions.entries.map Prod.fst ++ after.methods.flatMap Method.links).Nodup := by
    rw [links, synthesized, ← definitionTypes_names types, ← List.map_append]
    exact allTypes ▸ (List.nodup_append.1 names).1
  obtain ⟨_, nodup, apart⟩ := List.nodup_append.1 split
  have resolves := run.resolves start
  rw [← listed] at resolves
  refine ⟨fun method mem => ?_, resolves, links, nodup, fun link mem old => apart link old link mem rfl⟩
  exact find?_of_nodup (List.nodup_append.1 names).2.1 mem

theorem colliding_links_resolve :
    ∃ m, colliding.toModel.result = .ok m ∧
      m.methods.flatMap Method.links = [("listParameters" : Str), "listResponses"] ∧
      (m.types.drop 1).map (·.name) = [("listParameters" : Str), "listResponses"] ∧
      (∀ method ∈ m.methods, m.methodNamed method.name = some method) ∧
      ∀ link ∈ m.methods.flatMap Method.links, link ∉ [("list_2Responses" : Str)] := by
  obtain ⟨methods, _, _, _, apart⟩ := toModel_links_resolve colliding _ rfl
  exact ⟨_, rfl, rfl, rfl, methods, apart⟩

end Document

end ApiModel
