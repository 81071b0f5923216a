import ApiModel.Proofs.Building.Run

namespace ApiModel

theorem Contribution.Of.names_sublist {path verb : Str} {o : Operation} {c : Contribution}
    (made : c.Of path verb o) :
    c.names.Sublist [parametersTypeName c.method.name, responsesTypeName c.method.name, c.method.name] := by
  have parameters : (c.parameters.toList.map (·.name)).Sublist [parametersTypeName c.method.name] := by
    cases part : c.parameters with
    | none => simp
    | some t => simp [made.part_name .parameters part, Role.typeName]
  have responses : (c.responses.toList.map (·.name)).Sublist [responsesTypeName c.method.name] := by
    cases part : c.responses with
    | none => simp
    | some t => simp [made.part_name .responses part, Role.typeName]
  rw [names, types, List.map_append]
  exact (parameters.append responses).append (.refl _)

theorem derivedNames_nodup (name : Str) :
    [parametersTypeName name, responsesTypeName name, name].Nodup := by
  have parameters := Role.typeName_ne_self .parameters name
  have responses := Role.typeName_ne_self .responses name
  have roles : Role.parameters.typeName name ≠ Role.responses.typeName name := fun same =>
    absurd (Role.typeName_inj same).1 (by decide)
  simp only [Role.typeName] at parameters responses roles
  simp [parameters, responses, roles]

theorem Contribution.Of.names_derived {path verb : Str} {o : Operation} {c : Contribution}
    (made : c.Of path verb o) : ∀ s ∈ c.names, s ∈ derivedNames c.method.name := by
  intro s mem
  have listed := made.names_sublist.subset mem
  simp only [List.mem_cons, List.not_mem_nil, or_false] at listed
  rw [mem_derivedNames]
  rcases listed with h | h | h
  · exact .inr (.inl h)
  · exact .inr (.inr h)
  · exact .inl h

namespace Builder

/-- The taken names are those of the types and the methods, and none of them is there twice. -/
structure Sound (b : Builder) : Prop where
  taken : (b.types.map (·.name) ++ b.methods.map (·.name)).Perm b.taken
  nodup : b.taken.Nodup

theorem Sound.names_nodup {b : Builder} (sound : b.Sound) :
    (b.types.map (·.name) ++ b.methods.map (·.name)).Nodup :=
  sound.taken.nodup_iff.2 sound.nodup

theorem Sound.type_taken {b : Builder} (sound : b.Sound) {s : Str}
    (mem : s ∈ b.types.map (·.name)) : s ∈ b.taken :=
  sound.taken.subset (List.mem_append_left _ mem)

theorem ofTypes_sound {name : Str} {types : List CompositeType}
    (nodup : (types.map (·.name)).Nodup) : (ofTypes name types).Sound :=
  ⟨by simp [ofTypes], nodup⟩

theorem Sound.collect {b : Builder} (sound : b.Sound) {path verb : Str} {o : Operation}
    {c : Contribution} (made : c.Of path verb o)
    (named : c.method.name = b.uniqueName (baseName o.operationId verb path)) :
    (b.collect c).Sound := by
  have fresh : ∀ s ∈ c.names, s ∉ b.taken := fun s mem =>
    uniqueName_free b _ s (named ▸ made.names_derived s mem)
  constructor
  · rw [collect_types, collect_methods, collect_taken, Contribution.names, List.map_append,
      List.map_append, List.map_singleton, ← List.append_assoc, ← List.append_assoc]
    refine List.Perm.append_right _ ?_
    rw [List.append_assoc]
    exact (List.perm_append_comm.append_left _).trans
      (List.append_assoc .. ▸ sound.taken.append_right _)
  · rw [collect_taken, List.nodup_append]
    refine ⟨sound.nodup, made.names_sublist.nodup (derivedNames_nodup _), ?_⟩
    intro s old t new same
    exact fresh t new (same ▸ old)

theorem Run.sound {b after : Builder} {operations : List (Str × String × Operation)}
    {cs : List Contribution} (run : Run b operations cs after) (sound : b.Sound) : after.Sound := by
  induction run with
  | done b => exact sound
  | step made named rest ih => exact ih (sound.collect made named)

end Builder

namespace Document

theorem definitionTypes_nodup {d : Document} {definitions : List CompositeType}
    (types : d.definitionTypes = .ok definitions) : (definitions.map (·.name)).Nodup := by
  rw [definitionTypes_names types]
  exact d.definitions.nodup

/-- No two types of a model share a name, no two methods do, and no method has the name of a type. -/
theorem toModel_names_nodup (d : Document) (m : Model) (built : d.toModel.result = .ok m) :
    (m.types.map (·.name) ++ m.methods.map (·.name)).Nodup := by
  obtain ⟨definitions, cs, after, types, run, rfl⟩ := toModel_eq_ok_iff.1 built
  exact (run.sound (Builder.ofTypes_sound (definitionTypes_nodup types))).names_nodup

theorem colliding_names_nodup :
    ∃ m, colliding.toModel.result = .ok m ∧
      m.types.map (·.name) ++ m.methods.map (·.name) =
        ["list_2Responses", "listParameters", "listResponses", "list", "list_3", "delete_pets"] ∧
      (m.types.map (·.name) ++ m.methods.map (·.name)).Nodup :=
  ⟨_, rfl, rfl, toModel_names_nodup colliding _ rfl⟩

end Document

end ApiModel
