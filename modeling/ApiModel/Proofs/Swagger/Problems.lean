import Mathlib.Data.List.Nodup
import ApiModel.Proofs.Swagger.Acceptance
import ApiModel.Proofs.Swagger.NodeFields
import ApiModel.Proofs.Swagger.SchemaRoom

namespace ApiModel

open Checked

def Problem.IsAt (p : Problem) (place : List String) : Prop := place <+: p.path

namespace Document

inductive Part
  | paths
  | definitions
  deriving DecidableEq

namespace Part

def name : Part → String
  | paths => "paths"
  | definitions => "definitions"

def reads : Part → Str → Bool
  | paths, key => !key.startsWith "x-"
  | definitions, _ => true

/-- The problems of a value on its own, read as what the part holds, where so many schemas may stand inside
    each other. -/
def problemsOf (room : Nat) : Part → Value → List Problem
  | paths, v => (PathItem.read room v).problems
  | definitions, v => (Schema.read room v).problems

/-- How many schemas may stand inside each other in an entry; a definition is one schema less than alone. -/
def room : Part → Nat
  | paths => nestingLimit
  | definitions => nestingLimit - 1

def entryProblems (part : Part) (e : Str × Value) : List Problem :=
  if part.reads e.1 then
    (part.problemsOf part.room e.2).map fun p => (p.under e.1.shown).under part.name
  else []

end Part

def versionProblems (fields : List (Str × Value)) : List Problem :=
  match Entries.get? (.ofFields fields) "swagger" with
  | some v => v.readAny.problems.map (Problem.under "swagger")
  | none => []

def infoProblems (fields : List (Str × Value)) : List Problem :=
  match Entries.get? (.ofFields fields) "info" with
  | some v => (Info.read v).problems.map (Problem.under "info")
  | none => [⟨["info"], .missing⟩]

structure HasParts (fields : List (Str × Value)) (entries : Part → List (Str × Value)) : Prop where
  given : ∀ part : Part, Entries.get? (.ofFields fields) part.name = some (.object (entries part))
  nodup : ∀ part : Part, ((entries part).map Prod.fst).Nodup

end Document

def setField (fields : List (Str × Value)) (key : Str) (v : Value) : List (Str × Value) :=
  fields.map fun f => if f.1 = key then (key, v) else f

variable {α : Type} {fields : List (Str × Value)} {key : Str} {v : Value}

theorem hasTornKey_setField :
    (Entries.ofFields (setField fields key v)).hasTornKey = (Entries.ofFields fields).hasTornKey := by
  rw [Entries.hasTornKey, Entries.hasTornKey, Entries.ofFields, Entries.ofFields, setField, List.map_map,
    List.any_map, List.any_map]
  congr 1
  funext f
  rw [Function.comp_apply, Function.comp_apply, Function.comp_apply]
  split
  · rename_i same
    rw [same]
  · rfl

theorem get?_setField (other : Str) : Entries.get? (.ofFields (setField fields key v)) other =
    if other = key then (Entries.get? (.ofFields fields) other).map fun _ => v
    else Entries.get? (.ofFields fields) other := by
  induction fields with
  | nil => rw [setField, List.map_nil, Entries.ofFields_nil, Entries.get?_nil, Option.map_none, ite_self]
  | cons f fields ih =>
    rw [setField, List.map_cons, ← setField]
    by_cases same : f.1 = key
    · rw [if_pos same, Entries.ofFields_cons, Entries.ofFields_cons, Entries.get?_cons,
        Entries.get?_cons, ih, same]
      by_cases asked : other = key
      · rw [if_pos asked.symm, if_pos asked.symm, if_pos asked, Option.map_some]
      · rw [if_neg (Ne.symm asked), if_neg (Ne.symm asked), if_neg asked]
    · rw [if_neg same, Entries.ofFields_cons, Entries.ofFields_cons, Entries.get?_cons,
        Entries.get?_cons, ih]
      by_cases asked : f.1 = other
      · rw [if_pos asked, if_pos asked, if_neg (asked ▸ same)]
      · rw [if_neg asked, if_neg asked]

theorem flatMap_filter {β γ : Type} (keep : β → Bool) (f : β → List γ) (l : List β) :
    (l.filter keep).flatMap f = l.flatMap fun b => if keep b then f b else [] := by
  induction l with
  | nil => rfl
  | cons b l ih => cases kept : keep b <;> simp [kept, ih]

theorem Entries.problems_readTable (read : Value → Checked α) (fields : List (Str × Value)) :
    (Entries.readTable read (.ofFields fields)).problems =
      fields.flatMap fun e => (read e.2).problems.map (Problem.under e.1.shown) := by
  rw [Entries.readTable, problems_map, problems_all, Entries.ofFields, List.map_map, List.flatMap_map]
  apply List.flatMap_congr
  intro e _
  simp [Entries.readEntry, Scalar.readText, Scalar.keyText]

theorem Entries.problems_readExtras (names : List (List String)) :
    (Entries.readExtras (.ofFields fields) names).problems = [] :=
  problems_eq_nil_iff.2 (Entries.succeeds_readExtras names)

namespace Document

variable {part part' : Part} {e : Str × Value} {p : Problem}

theorem path_of_mem_entryProblems (mem : p ∈ part.entryProblems e) :
    ∃ path, p.path = part.name :: e.1.shown :: path := by
  rw [Part.entryProblems] at mem
  split at mem
  · obtain ⟨q, -, rfl⟩ := List.mem_map.1 mem
    exact ⟨q.path, rfl⟩
  · contradiction

theorem path_of_mem_front (mem : p ∈ versionProblems fields ++ infoProblems fields) :
    ∃ path, p.path = "swagger" :: path ∨ p.path = "info" :: path := by
  rcases List.mem_append.1 mem with mem | mem
  · rw [versionProblems] at mem
    split at mem
    · obtain ⟨q, -, rfl⟩ := List.mem_map.1 mem
      exact ⟨q.path, .inl rfl⟩
    · contradiction
  · rw [infoProblems] at mem
    split at mem
    · obtain ⟨q, -, rfl⟩ := List.mem_map.1 mem
      exact ⟨q.path, .inr rfl⟩
    · rw [List.mem_singleton.1 mem]
      exact ⟨[], .inr rfl⟩

theorem isAt_of_mem (mem : p ∈ part.entryProblems e) : p.IsAt [part.name, e.1.shown] := by
  obtain ⟨path, same⟩ := path_of_mem_entryProblems mem
  exact ⟨path, same.symm⟩

theorem Part.name_injective : name part = name part' → part = part' := by
  cases part <;> cases part' <;> decide

theorem not_isAt_of_mem (mem : p ∈ part.entryProblems e)
    (other : part = part' → e.1.shown ≠ key.shown) : ¬p.IsAt [part'.name, key.shown] := by
  obtain ⟨path, same⟩ := path_of_mem_entryProblems mem
  rw [Problem.IsAt, same, List.cons_prefix_cons, List.cons_prefix_cons]
  rintro ⟨names, keys, -⟩
  exact other (Part.name_injective names.symm) keys.symm

/-- Entries of keys that are shown otherwise have no problems at the place, nor have those of the other
    part. -/
theorem not_isAt_of_mem_entries {es : List (Str × Value)}
    (other : part = part' → ∀ e ∈ es, e.1.shown ≠ key.shown) :
    ∀ p ∈ es.flatMap part.entryProblems, ¬p.IsAt [part'.name, key.shown] := by
  intro p mem
  obtain ⟨e, inside, mem⟩ := List.mem_flatMap.1 mem
  apply not_isAt_of_mem mem
  intro same
  exact other same e inside

theorem not_isAt_of_mem_front (mem : p ∈ versionProblems fields ++ infoProblems fields) :
    ¬p.IsAt [part.name, key.shown] := by
  obtain ⟨path, same⟩ := path_of_mem_front mem
  rcases same with same | same
  all_goals
    rw [Problem.IsAt, same, List.cons_prefix_cons]
    rintro ⟨names, -⟩
    cases part <;> exact absurd names (by decide)

variable {entries : Part → List (Str × Value)}

theorem problems_paths {paths : List (Str × Value)} (nodup : (paths.map Prod.fst).Nodup) :
    ((Value.object paths).readNodesWithoutExtensions (PathItem.read nestingLimit)).problems.map
      (Problem.under "paths") = paths.flatMap Part.paths.entryProblems := by
  have read : (Value.object paths).readNodesWithoutExtensions (PathItem.read nestingLimit) =
      Entries.readTable (PathItem.read nestingLimit) (Entries.dropExtensions (.ofFields paths)) :=
    Value.readNodesWithoutExtensions_ofFields
  rw [read, Value.dropExtensions_ofFields nodup, Entries.problems_readTable, List.map_flatMap, flatMap_filter]
  apply List.flatMap_congr
  intro e _
  rw [List.map_map]
  rfl

theorem problems_definitions (definitions : List (Str × Value)) :
    ((Value.object definitions).readNodesOrNull (Schema.read (nestingLimit - 1))).problems.map
      (Problem.under "definitions") = definitions.flatMap Part.definitions.entryProblems := by
  have read : (Value.object definitions).readNodesOrNull (Schema.read (nestingLimit - 1)) =
    Entries.readTable (Schema.read (nestingLimit - 1)) (.ofFields definitions) := rfl
  rw [read, Entries.problems_readTable, List.map_flatMap]
  apply List.flatMap_congr
  intro e _
  rw [List.map_map]
  rfl

theorem read_object (fields : List (Str × Value)) :
    read (.object fields) = (Entries.ofFields fields).readWhole (ofEntries (.ofFields fields)) := rfl

/-- Of a mapping with a half of a pair in a key nothing else is said. -/
theorem problems_of_torn (torn : (Entries.ofFields fields).hasTornKey = true) :
    (read (.object fields)).problems = [⟨[], .notUnicode⟩] := by
  rw [read_object, Entries.readWhole, torn]
  rfl

section Parts

variable (parts : HasParts fields entries)

include parts

theorem problems_read (whole : (Entries.ofFields fields).hasTornKey = false) :
    (read (.object fields)).problems = versionProblems fields ++ infoProblems fields ++
      (entries .paths).flatMap Part.paths.entryProblems ++
        (entries .definitions).flatMap Part.definitions.entryProblems := by
  have givenPaths : Entries.get? (.ofFields fields) "paths" = some (.object (entries .paths)) :=
    parts.given .paths
  have givenDefinitions :
      Entries.get? (.ofFields fields) "definitions" = some (.object (entries .definitions)) :=
    parts.given .definitions
  have version : (Entries.read (.ofFields fields) ["swagger"] (.ok (defaultVersion : Str))
      Value.readAny).problems = versionProblems fields := by
    rw [Entries.read_one, versionProblems]
    cases Entries.get? (.ofFields fields) "swagger" with
    | none => rfl
    | some v => exact problems_under "swagger" v.readAny
  have info : (Entries.require (.ofFields fields) "info" Info.read).problems = infoProblems fields := by
    rw [Entries.require_eq, infoProblems]
    cases Entries.get? (.ofFields fields) "info" with
    | none => rfl
    | some v => exact problems_under "info" (Info.read v)
  have paths : (Entries.require (.ofFields fields) "paths"
      (Value.readNodesWithoutExtensions (PathItem.read nestingLimit))).problems =
      (entries .paths).flatMap Part.paths.entryProblems := by
    rw [Entries.require_eq, givenPaths, Option.elim_some, problems_under,
      problems_paths (parts.nodup .paths)]
  have definitions : (Entries.read (.ofFields fields) ["definitions"] (.ok .empty)
      (Value.readNodesOrNull (Schema.read (nestingLimit - 1)))).problems =
      (entries .definitions).flatMap Part.definitions.entryProblems := by
    rw [Entries.read_one, givenDefinitions, Option.elim_some, problems_under, problems_definitions]
  rw [read_object, Entries.readWhole_of_whole whole, ofEntries]
  simp only [seq_eq, fmap_eq, problems_apply, problems_map, Entries.problems_readExtras, version, info,
    paths, definitions, List.append_nil]

theorem HasParts.update {es : List (Str × Value)} (nodup : (es.map Prod.fst).Nodup) (part : Part) :
    HasParts (setField fields part.name (.object es)) (Function.update entries part es) where
  given := by
    intro other
    rw [get?_setField, parts.given other]
    by_cases same : other = part
    · rw [same, if_pos rfl, Function.update_self, Option.map_some]
    · rw [if_neg fun names => same (Part.name_injective (Str.coe_inj.1 names)),
        Function.update_of_ne same]
  nodup := by
    intro other
    by_cases same : other = part
    · rw [same, Function.update_self]
      exact nodup
    · rw [Function.update_of_ne same]
      exact parts.nodup other

theorem HasParts.nodup_replaced {part : Part} {v : Value} {l r : List (Str × Value)}
    (place : entries part = l ++ (key, v) :: r) (v' : Value) :
    ((l ++ (key, v') :: r).map Prod.fst).Nodup := by
  have keys := parts.nodup part
  rw [place, List.map_append, List.map_cons] at keys
  rw [List.map_append, List.map_cons]
  exact keys

omit parts in
theorem front_setField (part : Part) (v : Value) :
    versionProblems (setField fields part.name v) ++ infoProblems (setField fields part.name v) =
      versionProblems fields ++ infoProblems fields := by
  have version : ("swagger" : Str) ≠ part.name := by cases part <;> decide
  have info : ("info" : Str) ≠ part.name := by cases part <;> decide
  rw [versionProblems, infoProblems, get?_setField, get?_setField, if_neg version, if_neg info,
    versionProblems, infoProblems]

/-- Another value for an entry has other problems at the place of the entry, and elsewhere the same. -/
theorem problems_entry (whole : (Entries.ofFields fields).hasTornKey = false) {part : Part} {v : Value}
    {l r : List (Str × Value)} (place : entries part = l ++ (key, v) :: r) (v' : Value) :
    ∃ before after,
      ((∀ e ∈ l ++ r, e.1.shown ≠ key.shown) →
        ∀ p ∈ before ++ after, ¬p.IsAt [part.name, key.shown]) ∧
      (∀ p ∈ part.entryProblems (key, v) ++ part.entryProblems (key, v'),
        p.IsAt [part.name, key.shown]) ∧
      (read (.object fields)).problems = before ++ part.entryProblems (key, v) ++ after ∧
      (read (.object (setField fields part.name (.object (l ++ (key, v') :: r))))).problems =
        before ++ part.entryProblems (key, v') ++ after := by
  have nodup := parts.nodup_replaced place
  rw [problems_read parts whole,
    problems_read (parts.update (nodup v') part) (hasTornKey_setField.trans whole), front_setField]
  have front : ∀ p ∈ versionProblems fields ++ infoProblems fields, ¬p.IsAt [part.name, key.shown] :=
    fun p mem => not_isAt_of_mem_front mem
  generalize versionProblems fields ++ infoProblems fields = first at front
  have left (fresh : ∀ e ∈ l ++ r, e.1.shown ≠ key.shown) :
      ∀ p ∈ l.flatMap part.entryProblems, ¬p.IsAt [part.name, key.shown] :=
    not_isAt_of_mem_entries fun _ e inside => fresh e (List.mem_append_left r inside)
  have right (fresh : ∀ e ∈ l ++ r, e.1.shown ≠ key.shown) :
      ∀ p ∈ r.flatMap part.entryProblems, ¬p.IsAt [part.name, key.shown] :=
    not_isAt_of_mem_entries fun _ e inside => fresh e (List.mem_append_right l inside)
  have apart (other : Part) (differ : other ≠ part) :
      ∀ p ∈ (entries other).flatMap other.entryProblems, ¬p.IsAt [part.name, key.shown] :=
    not_isAt_of_mem_entries fun same => absurd same differ
  have own : ∀ p ∈ part.entryProblems (key, v) ++ part.entryProblems (key, v'),
      p.IsAt [part.name, key.shown] :=
    List.forall_mem_append.2 ⟨fun _ mem => isAt_of_mem mem, fun _ mem => isAt_of_mem mem⟩
  cases part with
  | paths =>
    refine ⟨first ++ l.flatMap Part.paths.entryProblems, r.flatMap Part.paths.entryProblems ++
      (entries .definitions).flatMap Part.definitions.entryProblems, ?_, own, ?_, ?_⟩
    · intro fresh
      simp only [List.forall_mem_append]
      exact ⟨⟨front, left fresh⟩, right fresh, apart .definitions (by decide)⟩
    · rw [place, List.flatMap_append, List.flatMap_cons]
      simp only [List.append_assoc]
    · rw [Function.update_self, Function.update_of_ne (by decide), List.flatMap_append, List.flatMap_cons]
      simp only [List.append_assoc]
  | definitions =>
    refine ⟨first ++ (entries .paths).flatMap Part.paths.entryProblems ++
      l.flatMap Part.definitions.entryProblems, r.flatMap Part.definitions.entryProblems, ?_, own, ?_, ?_⟩
    · intro fresh
      simp only [List.forall_mem_append]
      exact ⟨⟨⟨front, apart .paths (by decide)⟩, left fresh⟩, right fresh⟩
    · rw [place, List.flatMap_append, List.flatMap_cons]
      simp only [List.append_assoc]
    · rw [Function.update_self, Function.update_of_ne (by decide), List.flatMap_append, List.flatMap_cons]
      simp only [List.append_assoc]

end Parts

/-- A mapping is a document if it has no problems, and otherwise its problems are all that is said of it. -/
theorem ofValue_object (fields : List (Str × Value)) :
    ((∃ fault, ofValue (.object fields) = .error fault) ↔ (read (.object fields)).problems ≠ []) ∧
      ∀ fault file, ofValue (.object fields) = .error fault →
        fault.message file = Problem.summary (read (.object fields)).problems := by
  have mapping : (Value.object fields).entries? = some (.ofFields fields) := rfl
  rw [read_object, ofValue, mapping]
  dsimp only
  cases (Entries.ofFields fields).readWhole (ofEntries (.ofFields fields)) with
  | ok d => simp
  | bad first others =>
    constructor
    · simp [problems]
    · intro fault file failed
      cases failed
      rfl

theorem Part.problemsOf_room (part : Part) {v : Value} (low : v.height < nestingLimit) :
    part.problemsOf part.room v = part.problemsOf nestingLimit v := by
  cases part with
  | paths => rfl
  | definitions => exact congrArg problems (Schema.readIn_succ (Nat.le_pred_of_lt low)).symm

def faultyEntries : Part → List (Str × Value)
  | .paths => [("/pets", .object [("get", .int 5), ("parameters", .null)]), ("x-note", .int 1)]
  | .definitions => [("Pet", .object [("type", .int 1), ("additionalProperties", .int 3)]),
    ("Tag", .list [])]

def faultyFields : List (Str × Value) := [("swagger", .int 2), ("info", .object [("version", .null)]),
  ("paths", .object (faultyEntries .paths)), ("definitions", .object (faultyEntries .definitions))]

theorem hasParts_faultyFields : HasParts faultyFields faultyEntries where
  given part := by cases part <;> rfl
  nodup part := by cases part <;> decide

/-- A version of too many digits, and a definition that holds as many schemas inside each other as a schema
    alone may. -/
def deepEntries : Part → List (Str × Value)
  | .paths => []
  | .definitions => [("Deep", nestedItems (nestingLimit - 1))]

def deepFields : List (Str × Value) :=
  [("swagger", .int Text.firstLong), ("info", .object [("title", .str "Deep")]),
    ("paths", .object (deepEntries .paths)), ("definitions", .object (deepEntries .definitions))]

end Document

end ApiModel
