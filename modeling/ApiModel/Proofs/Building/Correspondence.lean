import ApiModel.Proofs.Building.Totality

namespace ApiModel

/-- There is one field for each part, in the order of the parts, or no type if there is no part. -/
structure Corresponds {α : Type} (gives : α → Field → Prop) (parts : List α)
    (made : Option CompositeType) : Prop where
  none_iff : made = none ↔ parts = []
  fields : ∀ t, made = some t → List.Forall₂ gives parts t.fields

theorem corresponds_structOf? {α : Type} {gives : α → Field → Prop} {parts : List α} {fields : List Field}
    (each : List.Forall₂ gives parts fields) (name description : Str) :
    Corresponds gives parts (structOf? name description fields) where
  none_iff := by
    rw [structOf?]
    cases each with
    | nil => exact iff_of_true rfl rfl
    | cons => exact iff_of_false nofun nofun
  fields := by
    intro t made
    obtain ⟨-, rfl⟩ := structOf?_eq_some_iff.1 made
    exact each

theorem forall₂_filterMap_iff {α β γ : Type} {select : α → Option β} {keep : α → Bool} {r : β → γ → Prop}
    {gives : α → γ → Prop} (kept : ∀ a, keep a = (select a).isSome)
    (each : ∀ a b, select a = some b → ∀ c, r b c ↔ gives a c) {parts : List α} {cs : List γ} :
    List.Forall₂ r (parts.filterMap select) cs ↔ List.Forall₂ gives (parts.filter keep) cs := by
  induction parts generalizing cs with
  | nil => rw [List.filterMap_nil, List.filter_nil, List.forall₂_nil_left_iff, List.forall₂_nil_left_iff]
  | cons a parts ih =>
    cases found : select a with
    | none => rw [List.filterMap_cons_none found, List.filter_cons_of_neg (by simp [kept, found]), ih]
    | some b =>
      rw [List.filterMap_cons_some found, List.filter_cons_of_pos (by simp [kept, found])]
      simp only [List.forall₂_cons_left_iff, each a b found, ih]

def Schema.Gives (property : Str × Schema) (f : Field) : Prop :=
  ∃ type, property.2.typeRef.result = .ok type ∧ f = { name := property.1, type, serialize := true }

theorem Schema.propertyField_eq_ok_iff {name : Str} {s : Schema} {f : Field} :
    (propertyField name s).result = .ok f ↔ Gives (name, s) f := by
  rw [propertyField, Traced.result_bind_eq_ok]
  simp only [Traced.result_pure, Except.ok.injEq, Gives, eq_comm (a := f)]

theorem Schema.forall₂_of_definitionType {name : Str} {s : Schema} {t : CompositeType}
    (built : (s.definitionType name).result = .ok t) : List.Forall₂ Gives s.properties t.fields := by
  obtain ⟨fields, each, rfl⟩ := definitionType_eq_ok_iff.1 built
  exact each.imp fun _ _ made => propertyField_eq_ok_iff.1 made

namespace Parameter

def knownLocations : List (Str × Position) :=
  [("body", .body), ("header", .header), ("query", .query), ("path", .path), ("formData", .formData)]

def isSent (p : Parameter) : Bool := p.ref.isEmpty && knownLocations.any (·.1 = p.location)

inductive HasType (p : Parameter) : Position → TypeRef → Prop
  | schema {s : Schema} {type : TypeRef} (given : p.schema = some s) (found : s.typeRef.result = .ok type) :
      HasType p .body type
  | text {raw : String} (none_ : p.schema = none) (written : p.dump = .ok raw) :
      HasType p .body (.unsupported raw)
  | declared {position : Position} (elsewhere : position ≠ .body) : HasType p position (.primitive p.type)

def Gives (p : Parameter) (f : Field) : Prop :=
  ∃ position type, (p.location, position) ∈ knownLocations ∧ p.HasType position type ∧
    f = {
      name := p.name
      type
      format := if position = .path then p.format else ""
      position := some position
      serialize := true }

variable {p : Parameter} {ps : List Parameter} {position : Position} {f : Field}

theorem position?_eq_some_iff : p.position? = some position ↔ (p.location, position) ∈ knownLocations := by
  unfold position?
  split_ifs with body header query path formData
  · simp [knownLocations, body, eq_comm]
  · simp [knownLocations, header, eq_comm]
  · simp [knownLocations, query, eq_comm]
  · simp [knownLocations, path, eq_comm]
  · simp [knownLocations, formData, eq_comm]
  · simp [knownLocations, body, header, query, path, formData]

theorem fieldPosition?_eq_some_iff : p.fieldPosition? = some position ↔
    p.ref = "" ∧ (p.location, position) ∈ knownLocations := by
  rw [fieldPosition?, ← position?_eq_some_iff]
  rw [← Str.isEmpty_iff]
  cases p.ref.isEmpty <;> simp

theorem isSent_eq (p : Parameter) : p.isSent = p.fieldPosition?.isSome := by
  rw [Bool.eq_iff_iff, Option.isSome_iff_exists]
  simp only [fieldPosition?_eq_some_iff, exists_and_left]
  rw [isSent, Bool.and_eq_true, Str.isEmpty_iff, List.any_eq_true]
  apply and_congr_right
  intro _
  constructor
  · rintro ⟨⟨location, position⟩, known, same⟩
    exact ⟨position, of_decide_eq_true same ▸ known⟩
  · rintro ⟨position, known⟩
    exact ⟨_, known, decide_eq_true rfl⟩

theorem typeRef_eq_ok_iff {type : TypeRef} :
    (p.typeRef position).result = .ok type ↔ p.HasType position type := by
  constructor
  · intro built
    unfold typeRef at built
    split at built
    · rename_i s given
      exact .schema given built
    · rename_i none_
      obtain ⟨raw, written, returned⟩ := Traced.result_bind_eq_ok.1 built
      cases returned
      exact .text none_ written
    · rename_i noSchema noText
      cases built
      apply HasType.declared
      rintro rfl
      cases schema : p.schema with
      | none => exact noText rfl schema
      | some s => exact noSchema s rfl schema
  · intro type
    cases type with
    | schema given found =>
      unfold typeRef
      rw [given]
      exact found
    | text none_ written =>
      unfold typeRef
      rw [none_]
      exact Traced.result_bind_eq_ok.2 ⟨_, written, rfl⟩
    | declared elsewhere =>
      cases position with
      | body => contradiction
      | header | query | path | formData => rfl

theorem toField_eq_ok_iff (found : p.fieldPosition? = some position) :
    (p.toField position).result = .ok f ↔ p.Gives f := by
  have known := (fieldPosition?_eq_some_iff.1 found).2
  rw [toField, Traced.result_bind_eq_ok]
  simp only [typeRef_eq_ok_iff, Traced.result_pure, Except.ok.injEq]
  constructor
  · rintro ⟨type, hasType, rfl⟩
    exact ⟨position, type, known, hasType, rfl⟩
  · rintro ⟨other, type, listed, hasType, rfl⟩
    have same : other = position :=
      Option.some.inj ((position?_eq_some_iff.2 listed).symm.trans (position?_eq_some_iff.2 known))
    subst same
    exact ⟨type, hasType, rfl⟩

theorem forall₂_placed_iff {fields : List Field} :
    List.Forall₂ (fun e f => (e.1.toField e.2).result = .ok f) (placed ps) fields ↔
      List.Forall₂ Gives (ps.filter isSent) fields := by
  apply forall₂_filterMap_iff
  · intro p
    rw [isSent_eq, Option.isSome_map]
  · intro p e selected f
    obtain ⟨position, found, rfl⟩ := Option.map_eq_some_iff.1 selected
    exact toField_eq_ok_iff found

theorem result_toFields_filter {typeName : Str}
    (texts : ∀ p ∈ ps, p.isSent = false → ∃ raw, p.dump = .ok raw) :
    (toFields typeName ps).result = (toFields typeName (ps.filter isSent)).result := by
  induction ps with
  | nil => rfl
  | cons p ps ih =>
    obtain ⟨text, others⟩ := List.forall_mem_cons.1 texts
    have sent := p.isSent_eq
    cases found : p.fieldPosition? with
    | none =>
      rw [found, Option.isSome_none] at sent
      obtain ⟨raw, written⟩ := text sent
      rw [List.filter_cons_of_neg (by simp [sent]), ← ih others, toFields, found]
      simp only [Traced.result_bind, Traced.result_ofExcept, Traced.result_note, written]
      rfl
    | some position =>
      rw [found, Option.isSome_some] at sent
      rw [List.filter_cons_of_pos sent, toFields, toFields, found]
      simp only [Traced.result_bind, ih others]

end Parameter

theorem parametersType_eq_ok_iff {method : Str} {ps : List Parameter} {made : Option CompositeType} :
    (parametersType method ps).result = .ok made ↔
      (∀ p ∈ ps, p.isSent = false → ∃ raw, p.dump = .ok raw) ∧
        ∃ fields, List.Forall₂ Parameter.Gives (ps.filter Parameter.isSent) fields ∧
          made = structOf? (parametersTypeName method)
            (parametersTypeName method ++ " holds parameters to " ++ method) fields := by
  rw [parametersType, Traced.result_bind_eq_ok]
  simp only [Parameter.toFields_eq_ok_iff, Parameter.forall₂_placed_iff, Parameter.isSent_eq,
    Option.isSome_eq_false_iff, Option.isNone_iff_eq_none, Traced.result_pure, Except.ok.injEq, and_assoc,
    exists_and_left, eq_comm (a := made)]

theorem result_parametersType_filter {method : Str} {ps : List Parameter}
    (texts : ∀ p ∈ ps, p.isSent = false → ∃ raw, p.dump = .ok raw) :
    (parametersType method ps).result = (parametersType method (ps.filter Parameter.isSent)).result := by
  simp only [parametersType, Traced.result_bind, Parameter.result_toFields_filter texts]

namespace Response

def isShown (r : Response) : Bool := r.ref.isEmpty && r.schema.any fun s => s.type ≠ [("file" : Str)]

/-- The field of a response has its code as a name, and is a pointer to the type of its schema. -/
def Gives (r : Str × Response) (f : Field) : Prop :=
  ∃ s type, r.2.schema = some s ∧ s.typeRef.result = .ok type ∧
    f = { name := r.1, type := .pointer type, valueType := some type }

variable {r : Response} {rs : List (Str × Response)}

theorem isShown_eq (r : Response) : r.isShown = r.fieldSchema?.isSome := by
  rw [isShown, fieldSchema?]
  cases r.ref.isEmpty with
  | false => rfl
  | true => cases r.schema with
    | none => rfl
    | some s => by_cases file : s.type = [("file" : Str)] <;> simp [file, Schema.isOnly, Option.filter]

theorem toField_eq_ok_iff {code : Str} {s : Schema} {f : Field} (found : r.fieldSchema? = some s) :
    (toField code s).result = .ok f ↔ Gives (code, r) f := by
  have schema := schema_of_field found
  rw [toField, Traced.result_bind_eq_ok]
  simp [Gives, schema, eq_comm (a := f)]

theorem forall₂_carried_iff {fields : List Field} :
    List.Forall₂ (fun e f => (toField e.1 e.2).result = .ok f) (carried rs) fields ↔
      List.Forall₂ Gives (rs.filter (·.2.isShown)) fields := by
  apply forall₂_filterMap_iff
  · intro e
    rw [isShown_eq, Option.isSome_map]
  · intro e _ selected f
    obtain ⟨s, found, rfl⟩ := Option.map_eq_some_iff.1 selected
    exact toField_eq_ok_iff found

theorem result_toFields_filter {typeName : Str} :
    (toFields typeName rs).result = (toFields typeName (rs.filter (·.2.isShown))).result := by
  induction rs with
  | nil => rfl
  | cons e rs ih =>
    obtain ⟨code, r⟩ := e
    have shown := r.isShown_eq
    cases found : r.fieldSchema? with
    | none =>
      rw [found, Option.isSome_none] at shown
      rw [List.filter_cons_of_neg (by simp [shown]), ← ih, toFields, found]
      simp only [Traced.result_bind, Traced.result_note]
      rfl
    | some s =>
      rw [found, Option.isSome_some] at shown
      rw [List.filter_cons_of_pos (by simp [shown]), toFields, toFields, found]
      simp only [Traced.result_bind, ih]

end Response

theorem responsesType_eq_ok_iff {method : Str} {rs : Table Response} {made : Option CompositeType} :
    (responsesType method rs).result = .ok made ↔
      ∃ fields, List.Forall₂ Response.Gives (rs.entries.filter (·.2.isShown)) fields ∧
        made = structOf? (responsesTypeName method)
          (responsesTypeName method ++ " holds responses of " ++ method) fields := by
  rw [responsesType, Traced.result_bind_eq_ok]
  simp only [Response.toFields_eq_ok_iff, Response.forall₂_carried_iff, Traced.result_pure, Except.ok.injEq,
    eq_comm (a := made)]

theorem result_responsesType_filter {method : Str} {rs rs' : Table Response}
    (same : rs.entries.filter (·.2.isShown) = rs'.entries.filter (·.2.isShown)) :
    (responsesType method rs).result = (responsesType method rs').result := by
  simp only [responsesType, Traced.result_bind]
  rw [Response.result_toFields_filter, same, ← Response.result_toFields_filter]

theorem Response.names_eq {parts : List (Str × Response)} {fields : List Field}
    (each : List.Forall₂ Gives parts fields) : fields.map (·.name) = parts.map Prod.fst := by
  induction each with
  | nil => rfl
  | cons first _ ih =>
    obtain ⟨s, type, -, -, rfl⟩ := first
    rw [List.map_cons, List.map_cons, ih]

structure DefinitionFields (name : Str) (s : Schema) : Prop where
  exists_iff : (∃ t, (s.definitionType name).result = .ok t) ↔
    ∀ property ∈ s.properties, ∀ x, property.2.Shows x → x.Prints
  each : ∀ t, (s.definitionType name).result = .ok t → List.Forall₂ Schema.Gives s.properties t.fields

/-- The type of parameters has a field for each that is sent somewhere, and the others have no part in it. -/
structure ParameterFields (method : Str) (ps : List Parameter) : Prop where
  exists_iff : (∃ made, (parametersType method ps).result = .ok made) ↔
    ∀ p ∈ ps, ∀ x, p.Shows x → x.Prints
  each : ∀ made, (parametersType method ps).result = .ok made →
    Corresponds Parameter.Gives (ps.filter Parameter.isSent) made
  others : ∀ qs, ps.filter Parameter.isSent = qs.filter Parameter.isSent →
    (∀ p ∈ ps ++ qs, p.isSent = false → ∃ raw, p.dump = .ok raw) →
      (parametersType method ps).result = (parametersType method qs).result

/-- The type of responses has a field for each with a schema that is no file, under its own code, and the
    others have no part in it. -/
structure ResponseFields (method : Str) (rs : Table Response) : Prop where
  exists_iff : (∃ made, (responsesType method rs).result = .ok made) ↔
    ∀ e ∈ rs.entries, ∀ x, e.2.Shows x → x.Prints
  each : ∀ made, (responsesType method rs).result = .ok made →
    Corresponds Response.Gives (rs.entries.filter (·.2.isShown)) made
  distinct : ∀ t, (responsesType method rs).result = .ok (some t) → (t.fields.map (·.name)).Nodup
  others : ∀ rs', rs.entries.filter (·.2.isShown) = rs'.entries.filter (·.2.isShown) →
    (responsesType method rs).result = (responsesType method rs').result

theorem parameterFields (method : Str) (ps : List Parameter) : ParameterFields method ps where
  exists_iff := parametersType_ok_iff
  each := by
    intro made built
    obtain ⟨-, fields, each, rfl⟩ := parametersType_eq_ok_iff.1 built
    exact corresponds_structOf? each _ _
  others := by
    intro qs same texts
    obtain ⟨left, right⟩ := List.forall_mem_append.1 texts
    rw [result_parametersType_filter left, same, ← result_parametersType_filter right]

theorem responseFields (method : Str) (rs : Table Response) : ResponseFields method rs where
  exists_iff := responsesType_ok_iff
  each := by
    intro made built
    obtain ⟨fields, each, rfl⟩ := responsesType_eq_ok_iff.1 built
    exact corresponds_structOf? each _ _
  distinct := by
    intro t built
    obtain ⟨fields, each, made⟩ := responsesType_eq_ok_iff.1 built
    obtain ⟨-, rfl⟩ := structOf?_eq_some_iff.1 made.symm
    rw [Response.names_eq each]
    exact rs.nodup.sublist (List.filter_sublist.map Prod.fst)
  others := fun _ same => result_responsesType_filter same

/-- An operation with a parameter of an unknown location, next to which there are bytes, and one in the
    query. -/
def cookieBesideFile : List UInt8 := Text.encodeUtf8 (
  "swagger: '2.0'\ninfo: \x7btitle: x\x7d\npaths: \x7b/p: \x7bget: \x7bparameters: ".toList ++
    "[\x7bname: a, in: cookie, x: !!binary /w==\x7d, ".toList ++
    "\x7bname: limit, in: query, type: integer\x7d]\x7d\x7d\x7d\n".toList)

end ApiModel
