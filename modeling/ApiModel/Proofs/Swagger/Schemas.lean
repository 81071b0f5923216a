import ApiModel.Building.Builder

namespace ApiModel

/-- A schema holds itself and what its items, its properties and its further properties hold. -/
inductive Schema.Holds : Schema → Schema → Prop
  | self (s : Schema) : Holds s s
  | item {s t u : Schema} (mem : t ∈ s.items) (below : Holds t u) : Holds s u
  | property {s t u : Schema} {name : Str} (mem : (name, t) ∈ s.properties) (below : Holds t u) :
      Holds s u
  | additional {s t u : Schema} (given : s.additional = .schema t) (below : Holds t u) : Holds s u

/-- A schema that stands for a definition, for the body of a modelled operation or for one of its
    responses. -/
inductive Document.Describes (d : Document) : Schema → Prop
  | definition {name : Str} {s : Schema} (mem : (name, s) ∈ d.definitions.entries) : Describes d s
  | body {path : Str} {verb : String} {o : Operation} {p : Parameter} {s : Schema}
      (operation : (path, verb, o) ∈ d.operations) (mem : p ∈ o.parameters)
      (body : p.location = "body") (schema : p.schema = some s) : Describes d s
  | response {path : Str} {verb : String} {o : Operation} {code : Str} {r : Response} {s : Schema}
      (operation : (path, verb, o) ∈ d.operations) (mem : (code, r) ∈ o.responses.entries)
      (schema : r.schema = some s) : Describes d s

def Document.HasSchema (d : Document) (t : Schema) : Prop := ∃ s, d.Describes s ∧ s.Holds t

def PathItem.operations (item : PathItem) : List Operation :=
  [item.get, item.put, item.post, item.delete, item.options, item.head, item.patch].filterMap id

namespace Document

variable {d : Document}

def HasOperation (d : Document) (o : Operation) : Prop := ∃ e ∈ d.paths.entries, o ∈ e.2.operations

inductive HasParameters (d : Document) : List Parameter → Prop
  | operation {o : Operation} (has : d.HasOperation o) : HasParameters d o.parameters
  | path {path : Str} {item : PathItem} (mem : (path, item) ∈ d.paths.entries) :
      HasParameters d item.parameters

inductive Contains (d : Document) (t : Schema) : Prop
  | definition {name : Str} {s : Schema} (mem : (name, s) ∈ d.definitions.entries) (holds : s.Holds t)
  | parameter {ps : List Parameter} {p : Parameter} {s : Schema} (has : d.HasParameters ps) (mem : p ∈ ps)
      (schema : p.schema = some s) (holds : s.Holds t)
  | response {o : Operation} {code : Str} {r : Response} {s : Schema} (has : d.HasOperation o)
      (mem : (code, r) ∈ o.responses.entries) (schema : r.schema = some s) (holds : s.Holds t)

theorem hasOperation_of_mem {path : Str} {verb : String} {o : Operation}
    (mem : (path, verb, o) ∈ d.operations) :
    d.HasOperation o := by
  obtain ⟨e, entry, op⟩ := List.mem_flatMap.1 mem
  obtain ⟨⟨verb, o⟩, modelled, same⟩ := List.mem_map.1 op
  cases same
  refine ⟨e, entry, ?_⟩
  simp only [PathItem.modelled, PathItem.operations, List.mem_filterMap, List.mem_cons,
    List.not_mem_nil, or_false, Option.map_eq_some_iff, Prod.mk.injEq, id] at modelled ⊢
  obtain ⟨⟨name, verbs⟩, listed, _, given, -, rfl⟩ := modelled
  refine ⟨verbs, ?_, given⟩
  rcases listed with listed | listed | listed | listed <;> cases listed <;> simp

end Document

end ApiModel
