import ApiModel.Proofs.Building.Run

namespace ApiModel

theorem exists_of_forall₂ {α β : Type} {r : α → β → Prop} {xs : List α} {ys : List β}
    (each : List.Forall₂ r xs ys) : ∀ y ∈ ys, ∃ x ∈ xs, r x y := by
  induction each with
  | nil => exact fun _ mem => nomatch mem
  | cons first rest ih =>
    refine List.forall_mem_cons.2 ⟨⟨_, List.mem_cons_self .., first⟩, fun y mem => ?_⟩
    obtain ⟨x, inside, related⟩ := ih y mem
    exact ⟨x, List.mem_cons_of_mem _ inside, related⟩

theorem exists_forall₂_iff {α β : Type} {r : α → β → Prop} {xs : List α} :
    (∃ ys, List.Forall₂ r xs ys) ↔ ∀ x ∈ xs, ∃ y, r x y := by
  induction xs with
  | nil => exact iff_of_true ⟨[], .nil⟩ (List.forall_mem_nil _)
  | cons x xs ih =>
    rw [List.forall_mem_cons, ← ih]
    constructor
    · rintro ⟨_, each⟩
      cases each with
      | cons first rest => exact ⟨⟨_, first⟩, _, rest⟩
    · rintro ⟨⟨y, first⟩, ys, rest⟩
      exact ⟨y :: ys, .cons first rest⟩

theorem Traced.result_mapM {α β : Type} (f : α → Traced β) (xs : List α) :
    (xs.mapM f).result = xs.mapM fun x => (f x).result := by
  induction xs with
  | nil => rfl
  | cons x xs ih => simp only [List.mapM_cons, result_bind, ih, result_pure]; rfl

namespace Schema

def propertyField (property : Str) (s : Schema) : Traced Field := do
  let type ← s.typeRef
  return { name := property, type, serialize := true }

theorem definitionType_eq_ok_iff {name : Str} {s : Schema} {t : CompositeType} :
    (s.definitionType name).result = .ok t ↔
      ∃ fields, List.Forall₂ (fun p f => (propertyField p.1 p.2).result = .ok f) s.properties fields ∧
        t = {
          name
          description := "implements the service definition of " ++ name
          kind := if !fields.isEmpty then some .struct
            else (if fields.isEmpty then s.additionalRef? else none).map fun _ => .map
          fields
          mapValueType := (if fields.isEmpty then s.additionalRef? else none).map fun ref =>
            .named (nameForRef ref) } := by
  rw [definitionType, Traced.result_bind_eq_ok]
  refine exists_congr fun fields => and_congr ?_ ?_
  · rw [Traced.result_mapM, mapM_eq_ok_iff]
    rfl
  · rw [Traced.result_pure, Except.ok.injEq, eq_comm]

end Schema

namespace Parameter

def placed (ps : List Parameter) : List (Parameter × Position) :=
  ps.filterMap fun p => p.fieldPosition?.map (p, ·)

theorem mem_placed {ps : List Parameter} {p : Parameter} {position : Position} :
    (p, position) ∈ placed ps ↔ p ∈ ps ∧ p.fieldPosition? = some position := by
  simp only [placed, List.mem_filterMap, Option.map_eq_some_iff, Prod.mk.injEq]
  constructor
  · rintro ⟨q, mem, _, found, rfl, rfl⟩
    exact ⟨mem, found⟩
  · rintro ⟨mem, found⟩
    exact ⟨p, mem, position, found, rfl, rfl⟩

theorem toFields_eq_ok_iff {typeName : Str} {ps : List Parameter} {fields : List Field} :
    (toFields typeName ps).result = .ok fields ↔
      (∀ p ∈ ps, p.fieldPosition? = none → ∃ raw, p.dump = .ok raw) ∧
        List.Forall₂ (fun e f => (e.1.toField e.2).result = .ok f) (placed ps) fields := by
  induction ps generalizing fields with
  | nil =>
    simp only [toFields, Traced.result_pure, Except.ok.injEq, placed, List.filterMap_nil,
      List.forall₂_nil_left_iff, List.not_mem_nil, false_implies, implies_true, true_and, eq_comm]
  | cons p ps ih =>
    rw [List.forall_mem_cons]
    cases found : p.fieldPosition? with
    | some position =>
      have first : placed (p :: ps) = (p, position) :: placed ps := by simp [placed, found]
      simp only [toFields, found, Traced.result_bind_eq_ok, Traced.result_pure, Except.ok.injEq, ih,
        first, List.forall₂_cons_left_iff, reduceCtorEq, false_implies, true_and]
      constructor
      · rintro ⟨f, made, rest, ⟨dumps, others⟩, rfl⟩
        exact ⟨dumps, f, rest, made, others, rfl⟩
      · rintro ⟨dumps, f, rest, made, others, rfl⟩
        exact ⟨f, made, rest, ⟨dumps, others⟩, rfl⟩
    | none =>
      have first : placed (p :: ps) = placed ps := by simp [placed, found]
      simp only [toFields, found, Traced.result_bind_eq_ok, Traced.result_ofExcept, Traced.result_note,
        ih, first, true_implies]
      constructor
      · rintro ⟨raw, dumped, _, _, dumps, others⟩
        exact ⟨⟨⟨raw, dumped⟩, dumps⟩, others⟩
      · rintro ⟨⟨⟨raw, dumped⟩, dumps⟩, others⟩
        exact ⟨raw, dumped, (), trivial, dumps, others⟩

end Parameter

namespace Response

theorem schema_of_field {r : Response} {s : Schema} (found : r.fieldSchema? = some s) :
    r.schema = some s := by
  unfold fieldSchema? at found
  split at found
  · exact (Option.filter_eq_some_iff.1 found).1
  · contradiction

def carried (rs : List (Str × Response)) : List (Str × Schema) :=
  rs.filterMap fun r => r.2.fieldSchema?.map (r.1, ·)

theorem mem_carried {rs : List (Str × Response)} {code : Str} {s : Schema} :
    (code, s) ∈ carried rs ↔ ∃ r, (code, r) ∈ rs ∧ r.fieldSchema? = some s := by
  simp only [carried, List.mem_filterMap, Option.map_eq_some_iff, Prod.mk.injEq]
  constructor
  · rintro ⟨⟨_, r⟩, mem, _, found, rfl, rfl⟩
    exact ⟨r, mem, found⟩
  · rintro ⟨r, mem, found⟩
    exact ⟨(code, r), mem, s, found, rfl, rfl⟩

theorem toFields_eq_ok_iff {typeName : Str} {rs : List (Str × Response)} {fields : List Field} :
    (toFields typeName rs).result = .ok fields ↔
      List.Forall₂ (fun e f => (toField e.1 e.2).result = .ok f) (carried rs) fields := by
  induction rs generalizing fields with
  | nil =>
    simp only [toFields, Traced.result_pure, Except.ok.injEq, carried, List.filterMap_nil,
      List.forall₂_nil_left_iff, eq_comm]
  | cons r rs ih =>
    obtain ⟨code, r⟩ := r
    cases found : r.fieldSchema? with
    | some s =>
      have first : carried ((code, r) :: rs) = (code, s) :: carried rs := by simp [carried, found]
      simp only [toFields, found, Traced.result_bind_eq_ok, Traced.result_pure, Except.ok.injEq, ih,
        first, List.forall₂_cons_left_iff]
      constructor
      · rintro ⟨f, made, rest, others, rfl⟩
        exact ⟨f, rest, made, others, rfl⟩
      · rintro ⟨f, rest, made, others, rfl⟩
        exact ⟨f, made, rest, others, rfl⟩
    | none =>
      have first : carried ((code, r) :: rs) = carried rs := by simp [carried, found]
      simp only [toFields, found, Traced.result_bind_eq_ok, Traced.result_note, ih, first, true_and,
        exists_const]

end Response

/-- The type that an operation brings in is the struct of the fields of its parameters or responses. -/
theorem Operation.typeIn_parameters_iff {o : Operation} {method : Str} {made : Option CompositeType} :
    o.typeIn .parameters method = .ok made ↔
      ∃ fields, (Parameter.toFields (parametersTypeName method) o.parameters).result = .ok fields ∧
        made = structOf? (parametersTypeName method)
          (parametersTypeName method ++ " holds parameters to " ++ method) fields := by
  rw [typeIn, parametersType, Traced.result_bind_eq_ok]
  exact exists_congr fun fields => and_congr Iff.rfl (by
    rw [Traced.result_pure, Except.ok.injEq, eq_comm])

theorem Operation.typeIn_responses_iff {o : Operation} {method : Str} {made : Option CompositeType} :
    o.typeIn .responses method = .ok made ↔
      ∃ fields, (Response.toFields (responsesTypeName method) o.responses.entries).result = .ok fields ∧
        made = structOf? (responsesTypeName method)
          (responsesTypeName method ++ " holds responses of " ++ method) fields := by
  rw [typeIn, responsesType, Traced.result_bind_eq_ok]
  exact exists_congr fun fields => and_congr Iff.rfl (by
    rw [Traced.result_pure, Except.ok.injEq, eq_comm])

theorem structOf?_eq_some_iff {name description : Str} {fields : List Field} {t : CompositeType} :
    structOf? name description fields = some t ↔
      fields ≠ [] ∧ t = { name, description, kind := some .struct, fields } := by
  unfold structOf?
  cases fields with
  | nil => simp
  | cons f fields => simp [eq_comm]

end ApiModel
