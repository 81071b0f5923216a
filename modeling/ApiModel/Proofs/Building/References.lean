import ApiModel.Proofs.Building.Fields
import ApiModel.Proofs.Building.Inference
import ApiModel.Proofs.Building.Links
import ApiModel.Proofs.Swagger.Schemas

namespace ApiModel

def TypeRef.names : TypeRef → List Str
  | named name => [name]
  | array item => [item]
  | map value => value.toList
  | pointer target => target.names
  | primitive _ | unsupported _ => []

def Field.names (f : Field) : List Str :=
  f.type.names ++ (f.valueType.map TypeRef.names).getD []

def CompositeType.names (t : CompositeType) : List Str :=
  t.fields.flatMap Field.names ++ (t.mapValueType.map TypeRef.names).getD []

def Model.references (m : Model) : List Str := m.types.flatMap CompositeType.names

def Schema.PointsTo (s : Schema) (name : Str) : Prop :=
  ∃ t, s.Holds t ∧ t.ref ≠ "" ∧ nameForRef t.ref = name

namespace Schema

variable {s t : Schema} {name : Str}

theorem PointsTo.of_ref (given : s.ref ≠ "") : s.PointsTo (nameForRef s.ref) := ⟨s, .self s, given, rfl⟩

theorem PointsTo.additional (a : s.additional = .schema t) (given : t.ref ≠ "") :
    s.PointsTo (nameForRef t.ref) :=
  ⟨t, .additional a (.self t), given, rfl⟩

theorem PointsTo.property (mem : (name, t) ∈ s.properties) {target : Str}
    (points : t.PointsTo target) : s.PointsTo target := by
  obtain ⟨u, below, given, same⟩ := points
  exact ⟨u, .property mem below, given, same⟩

theorem MapsTo.pointsTo {r : TypeRef} (maps : s.MapsTo r) : ∀ target ∈ r.names, s.PointsTo target := by
  cases maps with
  | reference given => exact List.forall_mem_singleton.2 (.of_ref given)
  | primitive | anything => exact List.forall_mem_nil _
  | array item only given =>
    refine List.forall_mem_singleton.2 ⟨item, .item ?_ (.self item), given, rfl⟩
    rw [only]
    exact List.mem_singleton.2 rfl
  | table a additional given => exact List.forall_mem_singleton.2 (.additional additional given)

theorem pointsTo_of_typeRef {r : TypeRef} (built : s.typeRef.result = .ok r) :
    ∀ target ∈ r.names, s.PointsTo target := by
  rcases typeRef_cases built with ⟨-, maps⟩ | ⟨-, raw, -, rfl⟩
  · exact maps.pointsTo
  · exact List.forall_mem_nil _

theorem pointsTo_of_definitionType {type : CompositeType}
    (built : (s.definitionType name).result = .ok type) : ∀ target ∈ type.names, s.PointsTo target := by
  obtain ⟨fields, each, rfl⟩ := definitionType_eq_ok_iff.1 built
  intro target mem
  rcases List.mem_append.1 mem with mem | mem
  · obtain ⟨f, inside, mem⟩ := List.mem_flatMap.1 mem
    obtain ⟨p, property, made⟩ := exists_of_forall₂ each f inside
    obtain ⟨type, read, returned⟩ := Traced.result_bind_eq_ok.1 made
    cases returned
    exact .property property (pointsTo_of_typeRef read target (by simpa [Field.names] using mem))
  · dsimp only at mem
    split at mem
    · cases found : s.additionalRef? with
      | none => simp [found] at mem
      | some ref =>
        obtain ⟨a, additional, given, rfl⟩ := additionalRef?_eq_some_iff.1 found
        have same : target = nameForRef a.ref := by simpa [found, TypeRef.names] using mem
        exact same ▸ .additional additional given
    · simp at mem

end Schema

namespace Parameter

theorem location_of_body {p : Parameter} (found : p.fieldPosition? = some .body) :
    p.location = "body" := by
  by_contra other
  grind [fieldPosition?, position?]

theorem pointsTo_of_toField {p : Parameter} {position : Position} {f : Field}
    (found : p.fieldPosition? = some position) (built : (p.toField position).result = .ok f) :
    ∀ target ∈ f.names, ∃ s, p.location = "body" ∧ p.schema = some s ∧ s.PointsTo target := by
  obtain ⟨type, read, returned⟩ := Traced.result_bind_eq_ok.1 built
  cases returned
  intro target mem
  replace mem : target ∈ type.names := by simpa [Field.names] using mem
  unfold typeRef at read
  split at read
  · rename_i s schema
    exact ⟨s, location_of_body found, schema, Schema.pointsTo_of_typeRef read target mem⟩
  · obtain ⟨raw, -, returned⟩ := Traced.result_bind_eq_ok.1 read
    cases returned
    contradiction
  · cases read
    contradiction

end Parameter

namespace Response

theorem pointsTo_of_toField {code : Str} {s : Schema} {f : Field}
    (built : (toField code s).result = .ok f) : ∀ target ∈ f.names, s.PointsTo target := by
  obtain ⟨type, read, returned⟩ := Traced.result_bind_eq_ok.1 built
  cases returned
  intro target mem
  have mem : target ∈ type.names := by simpa [Field.names, TypeRef.names] using mem
  exact Schema.pointsTo_of_typeRef read target mem

end Response

theorem names_of_structOf? {name description : Str} {fields : List Field} {t : CompositeType}
    (made : structOf? name description fields = some t) : t.names = fields.flatMap Field.names := by
  obtain ⟨-, rfl⟩ := structOf?_eq_some_iff.1 made
  exact List.append_nil _

namespace Document

variable {d : Document}

def PointsTo (d : Document) (name : Str) : Prop :=
  ∃ s, d.HasSchema s ∧ s.ref ≠ "" ∧ nameForRef s.ref = name

theorem Describes.pointsTo {s : Schema} (described : d.Describes s) {target : Str}
    (points : s.PointsTo target) : d.PointsTo target := by
  obtain ⟨t, below, given, same⟩ := points
  exact ⟨t, ⟨s, described, below⟩, given, same⟩

theorem pointsTo_of_typeIn {path : Str} {verb : String} {o : Operation} (op : (path, verb, o) ∈ d.operations)
    {role : Role} {method : Str} {t : CompositeType} (built : o.typeIn role method = .ok (some t)) :
    ∀ target ∈ t.names, d.PointsTo target := by
  intro target mem
  cases role with
  | parameters =>
    obtain ⟨fields, read, made⟩ := Operation.typeIn_parameters_iff.1 built
    rw [names_of_structOf? made.symm] at mem
    obtain ⟨f, inside, mem⟩ := List.mem_flatMap.1 mem
    obtain ⟨e, placed, field⟩ := exists_of_forall₂ (Parameter.toFields_eq_ok_iff.1 read).2 f inside
    obtain ⟨member, found⟩ := Parameter.mem_placed.1 placed
    obtain ⟨s, body, schema, points⟩ := Parameter.pointsTo_of_toField found field target mem
    exact (Describes.body op member body schema).pointsTo points
  | responses =>
    obtain ⟨fields, read, made⟩ := Operation.typeIn_responses_iff.1 built
    rw [names_of_structOf? made.symm] at mem
    obtain ⟨f, inside, mem⟩ := List.mem_flatMap.1 mem
    obtain ⟨e, carried, field⟩ := exists_of_forall₂ (Response.toFields_eq_ok_iff.1 read) f inside
    obtain ⟨r, member, found⟩ := Response.mem_carried.1 carried
    have points := Response.pointsTo_of_toField field target mem
    exact (Describes.response op member (Response.schema_of_field found)).pointsTo points

end Document

namespace Builder

variable {b after : Builder} {operations : List (Str × String × Operation)} {cs : List Contribution}

/-- No method of a run is given a name that was taken before, nor one whose types would have such a
    name. -/
theorem Run.fresh (run : Run b operations cs after) :
    ∀ c ∈ cs, ∀ s ∈ derivedNames c.method.name, s ∉ b.taken := by
  induction run with
  | done b => exact fun _ mem => nomatch mem
  | step made named rest ih =>
    refine List.forall_mem_cons.2 ⟨fun s mem => ?_, fun c mem s derived old => ?_⟩
    · exact uniqueName_free _ _ s (named ▸ mem)
    · exact ih c mem s derived (by rw [collect_taken]; exact List.mem_append_left _ old)

end Builder

theorem nameForRef_of_noSlash {folder name : Str} (slash : folder.toList.getLast? = some (.char '/'))
    (noSlash : .char '/' ∉ name.toList) : nameForRef (folder ++ name) = name := by
  have others : ∀ l ∈ name.toList.reverse, decide (l ≠ .char '/') = true := by
    intro l mem
    exact decide_eq_true fun same => noSlash (same ▸ List.mem_reverse.1 mem)
  have stop : (folder.toList.reverse).takeWhile (· ≠ .char '/') = [] := by
    rw [← List.head?_reverse] at slash
    obtain ⟨rest, reversed⟩ := List.head?_eq_some_iff.1 slash
    rw [reversed]
    rfl
  rw [nameForRef, Str.toList_append, List.reverse_append, List.takeWhile_append_of_pos others, stop,
    List.append_nil, List.reverse_reverse]

namespace Document

variable {d : Document} {m : Model}

theorem pointsTo_of_references (built : d.toModel.result = .ok m) :
    ∀ name ∈ m.references, d.PointsTo name := by
  obtain ⟨definitions, cs, after, types, run, rfl⟩ := toModel_eq_ok_iff.1 built
  intro name mem
  obtain ⟨t, type, mem⟩ := List.mem_flatMap.1 mem
  have all : t ∈ definitions ++ cs.flatMap Contribution.types := run.result.2.1 ▸ type
  rcases List.mem_append.1 all with old | new
  · obtain ⟨⟨key, s⟩, entry, made⟩ := exists_of_forall₂ (mapM_eq_ok_iff.1 types) t old
    exact (Describes.definition entry).pointsTo (Schema.pointsTo_of_definitionType made name mem)
  · obtain ⟨c, inside, new⟩ := List.mem_flatMap.1 new
    obtain ⟨path, verb, o, op, made⟩ := run.exists_operation c inside
    obtain ⟨role, part⟩ := Contribution.mem_types.1 new
    exact pointsTo_of_typeIn op (part ▸ made.part role) name mem

/-- Each reference leads to a definition: it is the path of the definitions and the name of one of them,
    which has no slash. -/
def ReferencesDefinitions (d : Document) : Prop :=
  ∀ s, d.HasSchema s → s.ref ≠ "" → ∃ name ∈ d.definitions.entries.map Prod.fst,
    .char '/' ∉ name.toList ∧ s.ref = "#/definitions/" ++ name

/-- If all references of a document lead to its definitions, each name that its model refers to finds
    the type of the definition at which the reference points. That is never a type which an operation
    brings in, nor has such a type this name. -/
theorem toModel_references_closed (d : Document) (closed : d.ReferencesDefinitions) (m : Model)
    (built : d.toModel.result = .ok m) :
    ∀ name ∈ m.references, ∃ s definition t,
      (d.HasSchema s ∧ s.ref = "#/definitions/" ++ name) ∧
      ((name, definition) ∈ d.definitions.entries ∧ (definition.definitionType name).result = .ok t) ∧
      m.typeNamed name = some t ∧
      ∀ method ∈ m.methods, ∀ role : Role, name ≠ role.typeName method.name := by
  intro target mem
  obtain ⟨s, has, given, ends⟩ := pointsTo_of_references built target mem
  obtain ⟨name, known, noSlash, same⟩ := closed s has given
  obtain ⟨definitions, cs, after, types, run, rfl⟩ := toModel_eq_ok_iff.1 built
  obtain ⟨_, allTypes, methods, _⟩ := run.result
  have pointed : name = target := by
    rw [← ends, same, nameForRef_of_noSlash (by decide) noSlash]
  subst pointed
  obtain ⟨⟨_, definition⟩, entry, rfl⟩ := List.mem_map.1 known
  -- the type of the definition is among those of the model, in which each name is found once
  obtain ⟨t, old, made⟩ : ∃ t ∈ definitions, (definition.definitionType _).result = .ok t :=
    exists_of_forall₂ (mapM_eq_ok_iff.1 types).flip _ entry
  have name := Schema.definitionType_name made
  have type : t ∈ after.types := by
    rw [allTypes]
    exact List.mem_append_left _ old
  have sound := run.sound (Builder.ofTypes_sound (definitionTypes_nodup types))
  have found := find?_of_nodup (List.nodup_append.1 sound.names_nodup).1 type
  rw [name] at found
  refine ⟨s, definition, t, ⟨has, same⟩, ⟨entry, made⟩, found, fun method mem role same => ?_⟩
  obtain ⟨c, inside, rfl⟩ : ∃ c ∈ cs, c.method = method := by
    simpa [Builder.build, methods, Builder.ofTypes] using mem
  refine run.fresh c inside _ (role.typeName_mem_derivedNames _) ?_
  rw [← same, Builder.ofTypes, definitionTypes_names types]
  exact known

/-- A definition that refers to itself, under the name that the type of an operation's responses would
    have, and an operation whose response is a list of it. -/
def linked : Document where
  swagger := defaultVersion
  info := ⟨"Pages", "", "", []⟩
  paths := .ofList [("/pages", {
    ref := ""
    get := some {
      operationId := "list", summary := "", description := "", tags := [], parameters := []
      responses := .ofList [("200", ⟨"", "", some ⟨"", ["array"], "", "",
        [⟨"#/definitions/listResponses", [], "", "", [], [], .absent, []⟩], [], .absent, []⟩, []⟩)]
      extras := [] }
    put := none, post := none, delete := none, options := none, head := none, patch := none
    parameters := []
    extras := [] })]
  definitions := .ofList [("listResponses", ⟨"", ["object"], "", "", [],
    [("next", ⟨"#/definitions/listResponses", [], "", "", [], [], .absent, []⟩)], .absent, []⟩)]
  extras := []

theorem linked_referencesDefinitions : linked.ReferencesDefinitions := by
  have leaf {s : Schema} (inside : Schema.Holds
      ⟨"#/definitions/listResponses", [], "", "", [], [], .absent, []⟩ s) :
      ∃ name ∈ linked.definitions.entries.map Prod.fst,
        .char '/' ∉ name.toList ∧ s.ref = "#/definitions/" ++ name := by
    cases inside with
    | self => exact ⟨"listResponses", by decide +kernel, by decide, rfl⟩
    | item mem | property mem => cases mem
    | additional given => cases given
  rintro s ⟨root, described, inside⟩ given
  cases described with
  | definition mem =>
    cases List.mem_singleton.1 mem
    cases inside with
    | self => contradiction
    | item mem => cases mem
    | property mem below =>
      cases List.mem_singleton.1 mem
      exact leaf below
    | additional given => cases given
  | body op mem =>
    cases List.mem_singleton.1 op
    cases mem
  | response op mem schema =>
    cases List.mem_singleton.1 op
    cases List.mem_singleton.1 mem
    cases schema
    cases inside with
    | self => contradiction
    | item mem below =>
      cases List.mem_singleton.1 mem
      exact leaf below
    | property mem => cases mem
    | additional given => cases given

theorem linked_references_closed :
    linked.ReferencesDefinitions ∧ ∃ m, linked.toModel.result = .ok m ∧
      m.references = [("listResponses" : Str), "listResponses", "listResponses"] ∧
      m.types.map (·.name) = [("listResponses" : Str), "list_2Responses"] ∧
      ∀ name ∈ m.references, ∃ s definition t,
        (linked.HasSchema s ∧ s.ref = "#/definitions/" ++ name) ∧
        ((name, definition) ∈ linked.definitions.entries ∧
          (definition.definitionType name).result = .ok t) ∧
        m.typeNamed name = some t ∧
        ∀ method ∈ m.methods, ∀ role : Role, name ≠ role.typeName method.name :=
  ⟨linked_referencesDefinitions, _, rfl, rfl, rfl,
    toModel_references_closed linked linked_referencesDefinitions _ rfl⟩

end Document

end ApiModel
