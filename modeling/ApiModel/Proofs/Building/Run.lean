import ApiModel.Proofs.Building.FreshName
import Mathlib.Data.List.Forall2

namespace ApiModel

theorem mapM_eq_ok_iff {α β ε : Type} {f : α → Except ε β} {xs : List α} {ys : List β} :
    xs.mapM f = .ok ys ↔ List.Forall₂ (fun x y => f x = .ok y) xs ys := by
  induction xs generalizing ys with
  | nil =>
    constructor
    · intro success
      cases success
      exact .nil
    · rintro ⟨⟩
      rfl
  | cons x xs ih =>
    rw [List.mapM_cons, List.forall₂_cons_left_iff]
    cases first : f x with
    | error e => simp [Bind.bind, Except.bind]
    | ok y =>
      cases rest : xs.mapM f with
      | error e => simp [Bind.bind, Except.bind, ← ih, rest]
      | ok zs => simp [Bind.bind, Except.bind, Pure.pure, Except.pure, ← ih, rest, eq_comm]

structure Contribution where
  method : Method
  parameters : Option CompositeType
  responses : Option CompositeType

/-- What a method says of the operation that it stands for: path, verb, name and description. -/
def Method.origin (m : Method) : Str × Str × Str × Str :=
  (m.path, m.httpMethod, m.operation, m.description)

def Operation.origin : Str × String × Operation → Str × Str × Str × Str
  | (path, verb, o) => (path, verb, o.operationId, o.description)

def Operation.typeIn (o : Operation) (role : Role) (method : Str) :
    Except DumpFault (Option CompositeType) :=
  match role with
  | .parameters => (parametersType method o.parameters).result
  | .responses => (responsesType method o.responses).result

namespace Contribution

def part (c : Contribution) : Role → Option CompositeType
  | .parameters => c.parameters
  | .responses => c.responses

def types (c : Contribution) : List CompositeType := c.parameters.toList ++ c.responses.toList

def names (c : Contribution) : List Str := c.types.map (·.name) ++ [c.method.name]

/-- The contribution is that of an operation at a path and verb, under the name of its method. -/
structure Of (path verb : Str) (o : Operation) (c : Contribution) : Prop where
  method : c.method = {
    name := c.method.name
    operation := o.operationId
    path
    httpMethod := verb
    description := o.description
    parametersTypeName := Builder.nameOf? c.parameters
    responsesTypeName := Builder.nameOf? c.responses }
  part : ∀ role, o.typeIn role c.method.name = .ok (c.part role)

theorem Of.origin {path : Str} {verb : String} {o : Operation} {c : Contribution}
    (made : c.Of path verb o) : c.method.origin = Operation.origin (path, verb, o) := by
  rw [Method.origin, made.method, Operation.origin]

theorem mem_types {c : Contribution} {t : CompositeType} :
    t ∈ c.types ↔ ∃ role, c.part role = some t := by
  simp only [types, List.mem_append, Option.mem_toList]
  constructor
  · rintro (parameters | responses)
    · exact ⟨.parameters, parameters⟩
    · exact ⟨.responses, responses⟩
  · rintro ⟨role, part⟩
    cases role
    · exact .inl part
    · exact .inr part

end Contribution

theorem Schema.definitionType_name {name : Str} {s : Schema} {t : CompositeType}
    (built : (s.definitionType name).result = .ok t) : t.name = name := by
  obtain ⟨fields, _, rest⟩ := Traced.result_bind_eq_ok.1 built
  simp only [Traced.result_pure, Except.ok.injEq] at rest
  rw [← rest]

theorem structOf?_name {name description : Str} {fields : List Field} {t : CompositeType}
    (built : structOf? name description fields = some t) : t.name = name := by
  unfold structOf? at built
  split at built
  · contradiction
  · rw [← Option.some.inj built]

theorem Operation.typeIn_name {o : Operation} {role : Role} {method : Str} {t : CompositeType}
    (built : o.typeIn role method = .ok (some t)) : t.name = role.typeName method := by
  cases role
  · obtain ⟨fields, _, rest⟩ := Traced.result_bind_eq_ok.1 built
    exact structOf?_name (Except.ok.inj rest)
  · obtain ⟨fields, _, rest⟩ := Traced.result_bind_eq_ok.1 built
    exact structOf?_name (Except.ok.inj rest)

theorem Contribution.Of.part_name {path verb : Str} {o : Operation} {c : Contribution}
    (made : c.Of path verb o) (role : Role) {t : CompositeType} (part : c.part role = some t) :
    t.name = role.typeName c.method.name :=
  Operation.typeIn_name (part ▸ made.part role)

def Document.definitionTypes (d : Document) : Except DumpFault (List CompositeType) :=
  d.definitions.entries.mapM fun e => (e.2.definitionType e.1).result

namespace Builder

def collect (b : Builder) (c : Contribution) : Builder :=
  ((b.addType? c.parameters).addType? c.responses).addMethod c.method

def ofTypes (name : Str) (types : List CompositeType) : Builder :=
  ⟨name, types, [], types.map (·.name)⟩

theorem addType?_eq (b : Builder) (t : Option CompositeType) :
    b.addType? t =
      { b with types := b.types ++ t.toList, taken := b.taken ++ t.toList.map (·.name) } := by
  cases t <;> simp [addType?, addType]

@[simp] theorem collect_name (b : Builder) (c : Contribution) : (b.collect c).name = b.name := by
  simp [collect, addType?_eq, addMethod]

@[simp] theorem collect_types (b : Builder) (c : Contribution) :
    (b.collect c).types = b.types ++ c.types := by
  simp [collect, addType?_eq, addMethod, Contribution.types]

@[simp] theorem collect_methods (b : Builder) (c : Contribution) :
    (b.collect c).methods = b.methods ++ [c.method] := by
  simp [collect, addType?_eq, addMethod]

@[simp] theorem collect_taken (b : Builder) (c : Contribution) :
    (b.collect c).taken = b.taken ++ c.names := by
  simp [collect, addType?_eq, addMethod, Contribution.names, Contribution.types]

/-- An operation is added exactly as its contribution under the unique name is collected. -/
theorem addOperation_eq_ok {b : Builder} {o : Operation} {verb path : Str}
    {added : Builder × Method} :
    (b.addOperation o verb path).result = .ok added ↔
      ∃ c : Contribution, c.Of path verb o ∧
        c.method.name = b.uniqueName (baseName o.operationId verb path) ∧
        added = (b.collect c, c.method) := by
  constructor
  · intro built
    obtain ⟨parameters, hp, rest⟩ := Traced.result_bind_eq_ok.1 built
    obtain ⟨responses, hr, rest⟩ := Traced.result_bind_eq_ok.1 rest
    refine ⟨⟨_, parameters, responses⟩, ⟨rfl, ?_⟩, rfl, (Except.ok.inj rest).symm⟩
    rintro (_ | _)
    · exact hp
    · exact hr
  · rintro ⟨⟨method, parameters, responses⟩, ⟨made, part⟩, named, rfl⟩
    dsimp only at made part named
    refine Traced.result_bind_eq_ok.2 ⟨parameters, named ▸ part .parameters, ?_⟩
    refine Traced.result_bind_eq_ok.2 ⟨responses, named ▸ part .responses, ?_⟩
    rw [made, named]
    rfl

inductive Run : Builder → List (Str × String × Operation) → List Contribution → Builder → Prop
  | done (b : Builder) : Run b [] [] b
  | step {b after : Builder} {path : Str} {verb : String} {o : Operation} {c : Contribution}
      {operations : List (Str × String × Operation)} {more : List Contribution}
      (made : c.Of path verb o)
      (named : c.method.name = b.uniqueName (baseName o.operationId verb path))
      (rest : Run (b.collect c) operations more after) :
      Run b ((path, verb, o) :: operations) (c :: more) after

theorem Run.append {b between after : Builder} {first second : List (Str × String × Operation)}
    {cs more : List Contribution} (left : Run b first cs between)
    (right : Run between second more after) : Run b (first ++ second) (cs ++ more) after := by
  induction left with
  | done b => exact right
  | step made named rest ih => exact .step made named (ih right)

theorem Run.split {b after : Builder} {first second : List (Str × String × Operation)}
    {cs : List Contribution} (run : Run b (first ++ second) cs after) :
    ∃ left right between, cs = left ++ right ∧ Run b first left between ∧
      Run between second right after := by
  induction first generalizing b cs with
  | nil => exact ⟨[], cs, b, rfl, .done b, run⟩
  | cons op first ih =>
    cases run with
    | step made named rest =>
      obtain ⟨left, right, between, rfl, runLeft, runRight⟩ := ih rest
      exact ⟨_ :: left, right, between, rfl, .step made named runLeft, runRight⟩

theorem Run.result {b after : Builder} {operations : List (Str × String × Operation)}
    {cs : List Contribution} (run : Run b operations cs after) :
    after.name = b.name ∧ after.types = b.types ++ cs.flatMap Contribution.types ∧
      after.methods = b.methods ++ cs.map Contribution.method ∧
      after.taken = b.taken ++ cs.flatMap Contribution.names := by
  induction run with
  | done b => simp
  | step made named rest ih =>
    obtain ⟨name, types, methods, taken⟩ := ih
    refine ⟨name.trans (collect_name ..), types.trans ?_, methods.trans ?_, taken.trans ?_⟩
    · simp
    · simp
    · simp

theorem Run.origins {b after : Builder} {operations : List (Str × String × Operation)}
    {cs : List Contribution} (run : Run b operations cs after) :
    cs.map (·.method.origin) = operations.map Operation.origin := by
  induction run with
  | done b => rfl
  | step made named rest ih => rw [List.map_cons, List.map_cons, made.origin, ih]

theorem Run.exists_operation {b after : Builder} {operations : List (Str × String × Operation)}
    {cs : List Contribution} (run : Run b operations cs after) :
    ∀ c ∈ cs, ∃ path verb o, (path, verb, o) ∈ operations ∧ c.Of path verb o := by
  induction run with
  | done b => exact fun _ mem => nomatch mem
  | @step b after path verb o c operations more made named rest ih =>
    refine List.forall_mem_cons.2 ⟨⟨path, verb, o, List.mem_cons_self .., made⟩, fun c mem => ?_⟩
    obtain ⟨path, verb, o, op, made⟩ := ih c mem
    exact ⟨path, verb, o, List.mem_cons_of_mem _ op, made⟩

end Builder

namespace Document

open Builder

theorem addOperations_eq_ok {path : Str} {operations : List (String × Operation)}
    {b after : Builder} :
    (addOperations path b operations).result = .ok after ↔
      ∃ cs, Run b (operations.map (path, ·)) cs after := by
  induction operations generalizing b with
  | nil =>
    constructor
    · intro built
      exact ⟨[], Except.ok.inj built ▸ .done b⟩
    · rintro ⟨_, run⟩
      cases run
      rfl
  | cons op operations ih =>
    obtain ⟨verb, o⟩ := op
    constructor
    · intro built
      obtain ⟨added, first, rest⟩ := Traced.result_bind_eq_ok.1 built
      obtain ⟨c, made, named, rfl⟩ := addOperation_eq_ok.1 first
      obtain ⟨cs, run⟩ := ih.1 rest
      exact ⟨c :: cs, .step made named run⟩
    · rintro ⟨_, run⟩
      cases run with
      | step made named rest =>
        refine Traced.result_bind_eq_ok.2 ⟨_, addOperation_eq_ok.2 ⟨_, made, named, rfl⟩, ?_⟩
        exact ih.2 ⟨_, rest⟩

theorem noteLeftOut_result (path : Str) (verbs : List String) :
    (noteLeftOut path verbs).result = .ok () := by
  induction verbs with
  | nil => rfl
  | cons verb verbs ih => exact Traced.result_bind_eq_ok.2 ⟨(), rfl, ih⟩

theorem addPaths_eq_ok {paths : List (Str × PathItem)} {b after : Builder} :
    (addPaths b paths).result = .ok after ↔
      ∃ cs, Run b (paths.flatMap fun (path, item) => item.modelled.map (path, ·)) cs after := by
  induction paths generalizing b with
  | nil =>
    constructor
    · intro built
      exact ⟨[], Except.ok.inj built ▸ .done b⟩
    · rintro ⟨_, run⟩
      cases run
      rfl
  | cons entry paths ih =>
    obtain ⟨path, item⟩ := entry
    constructor
    · intro built
      obtain ⟨between, first, rest⟩ := Traced.result_bind_eq_ok.1 built
      obtain ⟨_, _, rest⟩ := Traced.result_bind_eq_ok.1 rest
      obtain ⟨cs, run⟩ := addOperations_eq_ok.1 first
      obtain ⟨more, runs⟩ := ih.1 rest
      exact ⟨cs ++ more, run.append runs⟩
    · rintro ⟨cs, run⟩
      obtain ⟨left, right, between, _, runLeft, runRight⟩ := Run.split run
      refine Traced.result_bind_eq_ok.2 ⟨between, addOperations_eq_ok.2 ⟨left, runLeft⟩, ?_⟩
      exact Traced.result_bind_eq_ok.2 ⟨(), noteLeftOut_result .., ih.2 ⟨right, runRight⟩⟩

theorem addDefinitions_result (b : Builder) (definitions : List (Str × Schema)) :
    (addDefinitions b definitions).result =
      (definitions.mapM fun e => (e.2.definitionType e.1).result) >>= fun types =>
        .ok { b with types := b.types ++ types, taken := b.taken ++ types.map (·.name) } := by
  induction definitions generalizing b with
  | nil => simp [addDefinitions]
  | cons entry definitions ih =>
    obtain ⟨name, s⟩ := entry
    simp only [addDefinitions, Traced.result_bind, ih, List.mapM_cons, bind_assoc, pure_bind]
    congr 1
    funext t
    simp [addType]

/-- A document has a model exactly when its operations can be collected, in document order, on top of
    the types of its definitions. -/
theorem toModel_eq_ok_iff {d : Document} {m : Model} :
    d.toModel.result = .ok m ↔
      ∃ definitions cs after, d.definitionTypes = .ok definitions ∧
        Run (.ofTypes d.info.title definitions) d.operations cs after ∧ m = after.build := by
  have start : (addDefinitions (.empty d.info.title) d.definitions.entries).result =
      d.definitionTypes >>= fun types => .ok (.ofTypes d.info.title types) := by
    rw [addDefinitions_result]
    simp [definitionTypes, empty, ofTypes]
  constructor
  · intro built
    obtain ⟨b, first, continued⟩ := Traced.result_bind_eq_ok.1 built
    obtain ⟨after, second, noted⟩ := Traced.result_bind_eq_ok.1 continued
    obtain ⟨_, _, returned⟩ := Traced.result_bind_eq_ok.1 noted
    rw [start] at first
    cases types : d.definitionTypes with
    | error e => simp [types, Bind.bind, Except.bind] at first
    | ok definitions =>
      simp only [types, Bind.bind, Except.bind, Except.ok.injEq] at first
      subst first
      obtain ⟨cs, run⟩ := addPaths_eq_ok.1 second
      exact ⟨definitions, cs, after, rfl, run, (Except.ok.inj returned).symm⟩
  · rintro ⟨definitions, cs, after, types, run, rfl⟩
    refine Traced.result_bind_eq_ok.2 ⟨.ofTypes d.info.title definitions, ?_, ?_⟩
    · rw [start, types]
      rfl
    · exact Traced.result_bind_eq_ok.2 ⟨after, addPaths_eq_ok.2 ⟨cs, run⟩, rfl⟩

theorem definitionTypes_names {d : Document} {definitions : List CompositeType}
    (types : d.definitionTypes = .ok definitions) :
    definitions.map (·.name) = d.definitions.entries.map Prod.fst := by
  replace types := mapM_eq_ok_iff.1 types
  generalize d.definitions.entries = entries at types ⊢
  induction types with
  | nil => rfl
  | cons first rest ih =>
    rw [List.map_cons, List.map_cons, Schema.definitionType_name first, ih]

theorem drop_definitionTypes {d : Document} {definitions : List CompositeType}
    (types : d.definitionTypes = .ok definitions) {title : Str} {after : Builder}
    {operations : List (Str × String × Operation)} {cs : List Contribution}
    (run : Run (.ofTypes title definitions) operations cs after) :
    after.types.drop d.definitions.size = cs.flatMap Contribution.types := by
  have size : d.definitions.size = definitions.length := by
    simpa [Table.size] using congrArg List.length (definitionTypes_names types).symm
  rw [run.result.2.1, size]
  exact List.drop_left

/-- Two operations share a name, the first suffix for the second is taken by a definition, and the
    third operation has no name. -/
def colliding : Document where
  swagger := defaultVersion
  info := ⟨"Pets", "", "", []⟩
  paths := .ofList [("/pets", {
    ref := ""
    get := some {
      operationId := "list", summary := "", description := "", tags := []
      parameters := [⟨"", "limit", "query", "", false, "integer", "", none, []⟩]
      responses := .ofList [("200", ⟨"", "",
        some ⟨"", ["string"], "", "", [], [], .absent, []⟩, []⟩)]
      extras := [] }
    put := none
    post := some ⟨"list", "", "", [], [], .empty, []⟩
    delete := some ⟨"", "", "", [], [], .empty, []⟩
    options := none, head := none, patch := none
    parameters := []
    extras := [] })]
  definitions := .ofList [("list_2Responses", ⟨"", ["object"], "", "", [], [], .absent, []⟩)]
  extras := []

end Document

end ApiModel
