import ApiModel.Proofs.Building.Totality
import ApiModel.Proofs.Swagger.Core

namespace ApiModel

namespace Parameter

theorem fieldPosition?_of_reference {p : Parameter} (reference : p.ref.isEmpty = false) :
    p.fieldPosition? = none := by
  rw [fieldPosition?, reference]
  exact if_neg Bool.false_ne_true

theorem placed_core (ps : List Parameter) : placed (ps.map core) = placed ps := by
  rw [placed, placed, List.filterMap_map]
  refine List.filterMap_congr fun p _ => ?_
  rw [Function.comp_apply, core]
  split_ifs with named
  · rfl
  · have left : p.fieldPosition? = none := fieldPosition?_of_reference (Bool.eq_false_iff.2 named)
    rw [left]
    rfl

theorem toFields_core {typeName : Str} {ps : List Parameter} {fields : List Field}
    (made : (toFields typeName ps).result = .ok fields) :
    (toFields typeName (ps.map core)).result = .ok fields := by
  obtain ⟨dumps, placed_⟩ := toFields_eq_ok_iff.1 made
  refine toFields_eq_ok_iff.2 ⟨List.forall_mem_map.2 fun p mem left => ?_, placed_core ps ▸ placed_⟩
  -- a parameter that is left out is written for the record, and so is what stands for it in the core
  rw [core] at left ⊢
  split_ifs at left ⊢ with named
  · exact dumps p mem left
  · exact ⟨_, rfl⟩

end Parameter

namespace Response

theorem fieldSchema?_core (r : Response) : r.core.fieldSchema? = r.fieldSchema? := by
  rw [core]
  split_ifs with named
  · rw [fieldSchema?, fieldSchema?, named]
    rfl
  · rw [fieldSchema?, fieldSchema?, if_neg named]
    rfl

theorem carried_core (rs : List (Str × Response)) :
    carried (rs.map fun e => (e.1, e.2.core)) = carried rs := by
  rw [carried, carried, List.filterMap_map]
  refine List.filterMap_congr fun r _ => ?_
  rw [Function.comp_apply, fieldSchema?_core]

end Response

theorem Operation.typeIn_core {o : Operation} {role : Role} {method : Str} {t : Option CompositeType}
    (made : o.typeIn role method = .ok t) : o.core.typeIn role method = .ok t := by
  cases role with
  | parameters =>
    obtain ⟨fields, made, same⟩ := typeIn_parameters_iff.1 made
    exact typeIn_parameters_iff.2 ⟨fields, Parameter.toFields_core made, same⟩
  | responses =>
    obtain ⟨fields, made, same⟩ := typeIn_responses_iff.1 made
    refine typeIn_responses_iff.2 ⟨fields, Response.toFields_eq_ok_iff.2 ?_, same⟩
    exact (Response.carried_core o.responses.entries).symm ▸ Response.toFields_eq_ok_iff.1 made

theorem Contribution.Of.core {path verb : Str} {o : Operation} {c : Contribution}
    (made : c.Of path verb o) : c.Of path verb o.core :=
  ⟨made.method, fun role => Operation.typeIn_core (made.part role)⟩

theorem Builder.Run.core {b after : Builder} {operations : List (Str × String × Operation)}
    {cs : List Contribution} (run : Run b operations cs after) :
    Run b (operations.map fun op => (op.1, op.2.1, op.2.2.core)) cs after := by
  induction run with
  | done b => exact .done b
  | step made named _ ih => exact .step made.core named ih

theorem PathItem.modelled_core (p : PathItem) :
    p.core.modelled = p.modelled.map fun op => (op.1, op.2.core) := by
  have verbs : [("GET", p.core.get), ("POST", p.core.post), ("PUT", p.core.put), ("DELETE", p.core.delete)] =
      [("GET", p.get), ("POST", p.post), ("PUT", p.put), ("DELETE", p.delete)].map fun e =>
        (e.1, e.2.map Operation.core) := rfl
  rw [modelled, verbs, List.filterMap_map, modelled, List.map_filterMap]
  refine List.filterMap_congr fun e _ => ?_
  rw [Function.comp_apply, Option.map_map]
  exact Option.map_map ..

namespace Document

variable {d d' : Document} {v v' : Value}

theorem operations_core (d : Document) :
    d.core.operations = d.operations.map fun op => (op.1, op.2.1, op.2.2.core) := by
  simp only [operations, core, Table.map, List.flatMap_map, List.map_flatMap, PathItem.modelled_core,
    List.map_map]
  rfl

theorem toModel_core {m : Model} (built : d.toModel.result = .ok m) : d.core.toModel.result = .ok m := by
  obtain ⟨definitions, cs, after, types, run, rfl⟩ := toModel_eq_ok_iff.1 built
  exact toModel_eq_ok_iff.2 ⟨definitions, cs, after, types, d.operations_core ▸ run.core, rfl⟩

def ReferencesPrint (d : Document) : Prop :=
  ∀ op ∈ d.operations, ∀ p ∈ op.2.2.parameters, p.ref ≠ "" → p.Prints

theorem Shows.core_or {x : Shown} (shows_ : d.Shows x) : d.core.Shows x ∨
    ∃ op ∈ d.operations, ∃ p ∈ op.2.2.parameters, p.ref ≠ "" ∧ x = .parameter p := by
  rcases shows_ with definition | ⟨op, mem, shows_⟩
  · exact .inl (.inl definition)
  · have inCore : (op.1, op.2.1, op.2.2.core) ∈ d.core.operations := by
      rw [operations_core]
      exact List.mem_map_of_mem mem
    rcases shows_ with ⟨p, listed, shows_⟩ | ⟨e, listed, s, found, shows_⟩
    · by_cases named : p.ref = ""
      · have same : p.core = p := if_pos (Str.isEmpty_iff.2 named)
        exact .inl (.inr ⟨_, inCore, .inl ⟨p, List.mem_map.2 ⟨p, listed, same⟩, shows_⟩⟩)
      · have left : p.fieldPosition? = none :=
          Parameter.fieldPosition?_of_reference (Str.isEmpty_eq_false_iff.2 named)
        rw [Parameter.Shows, left] at shows_
        exact .inr ⟨op, mem, p, listed, named, shows_⟩
    · refine .inl (.inr ⟨_, inCore, .inr ⟨(e.1, e.2.core), List.mem_map_of_mem listed, s, ?_, shows_⟩⟩)
      rw [Response.fieldSchema?_core, found]

/-- A document has the model of its core exactly if what the core left out of its parameters has a text. -/
theorem toModel_iff_of_core {m : Model} (built : d.core.toModel.result = .ok m) :
    d.toModel.result = .ok m ↔ d.ReferencesPrint := by
  constructor
  · intro whole op mem p listed named
    have left : p.fieldPosition? = none :=
      Parameter.fieldPosition?_of_reference (Str.isEmpty_eq_false_iff.2 named)
    have shows_ : p.Shows (.parameter p) := by rw [Parameter.Shows, left]
    exact toModel_ok_iff.1 ⟨m, whole⟩ _ (.inr ⟨op, mem, .inl ⟨p, listed, shows_⟩⟩)
  · intro references
    have all : ∀ x, d.Shows x → x.Prints := by
      intro x shows_
      rcases shows_.core_or with inCore | ⟨op, mem, p, listed, named, rfl⟩
      · exact toModel_ok_iff.1 ⟨m, built⟩ x inCore
      · exact references op mem p listed named
    obtain ⟨m', whole⟩ := toModel_ok_iff.2 all
    rw [whole, ← toModel_core whole, built]

theorem exists_model_of_shallow (shallow : v.Shallow) (reads : ofValue v = .ok d) :
    ∃ m, d.toModel.result = .ok m :=
  toModel_ok_iff.2 fun _ shows_ => shows_.anywhere.prints reads shallow

def listing (parameter : List (Str × Value)) : Value := .object
  [("operationId", .str ("list" : Str)), ("parameters", .list [.object parameter])]

def listingAt (info verbs parameter : List (Str × Value)) : Value := .object
  [("info", .object (("title", .str ("Pets" : Str)) :: info)),
    ("paths", .object [("/pets", .object (("get", listing parameter) :: verbs))])]

def limited : Value := listingAt [] [] [("$ref", .str "#/parameters/limit")]

def paged : Value := listingAt [("version", .int 2)] [("head", .object []), ("x-note", .null)]
  [("ref", .str "#/parameters/page"), ("required", .bool true)]

def nestedBeside : Value :=
  listingAt [] [] [("$ref", .str "#/parameters/limit"), ("x", .nestedLists 255)]

end Document

end ApiModel
