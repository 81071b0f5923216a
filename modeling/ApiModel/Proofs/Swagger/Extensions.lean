import ApiModel.Building.Builder
import ApiModel.Proofs.Reading.Related
import ApiModel.Proofs.Swagger.NodeFields

namespace ApiModel

open Checked

variable {α : Type} {room : Nat} {m : Entries} {v : Value} {kind : String} {change : Value → Value}
  {inside : Entries → Entries} {reader : Value → Checked α} {ofMapping : Entries → Checked α}

def Scalar.isExtension : Scalar → Bool
  | .str s => s.startsWith "x-"
  | _ => false

namespace Entries

def withoutExtensions (m : Entries) : Entries := m.filter fun e => !e.1.isExtension

theorem withoutExtensions_insert {key : Scalar} (extension : key.isExtension) (v : Value) (l r : Entries) :
    (l ++ (key, v) :: r).withoutExtensions = (l ++ r).withoutExtensions := by
  simp [withoutExtensions, extension]

theorem hasLongKey_withoutExtensions (m : Entries) : m.withoutExtensions.hasLongKey = m.hasLongKey := by
  rw [hasLongKey, hasLongKey, withoutExtensions, List.any_filter]
  refine List.any_congr rfl fun e => ?_
  obtain ⟨key, v⟩ := e
  cases key <;> simp [Scalar.isExtension, Scalar.isLong]

theorem hasLongKey_mapValues (m : Entries) (change : Value → Value) :
    (m.mapValues change).hasLongKey = m.hasLongKey := by
  rw [hasLongKey, hasLongKey, mapValues, List.any_map]
  rfl

theorem dropExtensions_withoutExtensions (m : Entries) :
    m.withoutExtensions.dropExtensions = m.dropExtensions := by
  rw [dropExtensions, dropExtensions, withoutExtensions, List.filterMap_map, List.filterMap_map,
    List.filterMap_filter]
  refine congrArg ofList (List.filterMap_congr fun e _ => ?_)
  split_ifs with kept
  · rfl
  · obtain ⟨key, v⟩ := e
    cases key with
    | str s =>
      have extension : s.startsWith "x-" = true := by simpa [Scalar.isExtension] using kept
      have text : (Scalar.str s).text = s := rfl
      rw [Function.comp_apply, text, if_pos extension]
    | _ => exact absurd rfl kept

end Entries

namespace Operation

def withoutExtensions (v : Value) : Value :=
  v.mapEntries (Entries.mapUnder ["responses"] (Value.mapEntries Entries.withoutExtensions))

end Operation

namespace PathItem

def verbs : List String := ["get", "put", "post", "delete", "options", "head", "patch"]

def withoutExtensions (v : Value) : Value :=
  v.mapEntries (Entries.mapUnder verbs Operation.withoutExtensions)

end PathItem

/-- A document without the extensions among its paths, and among the responses of its operations. -/
def Document.withoutExtensions (v : Value) : Value :=
  v.mapEntries (Entries.mapUnder ["paths"] (Value.mapEntries fun paths =>
    paths.withoutExtensions.mapValues PathItem.withoutExtensions))

namespace Value

theorem readNode_mapEntries (keys : ∀ m, (inside m).hasTornKey = m.hasTornKey)
    (blind : ∀ m, ofMapping (inside m) = ofMapping m) (v : Value) :
    (v.mapEntries inside).readNode kind ofMapping = v.readNode kind ofMapping := by
  rw [readNode, readNode, entries?_mapEntries]
  cases v.entries? with
  | none => rfl
  | some m =>
    rw [Option.map_some]
    dsimp only
    rw [Entries.readWhole, Entries.readWhole, keys, blind]

theorem readOptional_eq {v' : Value} (null : v'.isNull = v.isNull) (same : reader v' = reader v) :
    v'.readOptional reader = v.readOptional reader := by
  rw [readOptional, readOptional, null, same]

theorem readNodesWithoutExtensions_mapEntries (keys : ∀ m, (inside m).hasLongKey = m.hasLongKey)
    (blind : ∀ m, (inside m).dropExtensions.readTable reader = m.dropExtensions.readTable reader)
    (v : Value) :
    (v.mapEntries inside).readNodesWithoutExtensions reader = v.readNodesWithoutExtensions reader := by
  rw [readNodesWithoutExtensions, readNodesWithoutExtensions, entries?_mapEntries]
  cases v.entries? with
  | none => rfl
  | some m =>
    rw [Option.map_some]
    dsimp only
    rw [keys, blind]

end Value

namespace Operation

theorem ofEntries_mapUnder (blind : ∀ v, (change v).readNodesWithoutExtensions (Response.read room) =
      v.readNodesWithoutExtensions (Response.read room)) (m : Entries) :
    ofEntries room (m.mapUnder ["responses"] change) = ofEntries room m := by
  have extras : (m.mapUnder ["responses"] change).readExtras fields = m.readExtras fields :=
    Entries.readExtras_mapUnder m (by simp [fields])
  simp (disch := simp [blind]) only [ofEntries, Entries.readText, Entries.read_mapUnder, extras]

theorem read_withoutExtensions (v : Value) : read room (withoutExtensions v) = read room v := by
  rw [read, read, withoutExtensions]
  refine Value.readNode_mapEntries (fun m => m.hasTornKey_mapUnder _ _) (ofEntries_mapUnder ?_) v
  exact Value.readNodesWithoutExtensions_mapEntries Entries.hasLongKey_withoutExtensions fun m => by
    rw [m.dropExtensions_withoutExtensions]

end Operation

namespace PathItem

theorem ofEntries_mapUnder (blind : ∀ v, (change v).readOptional (Operation.read (room - 1)) =
      v.readOptional (Operation.read (room - 1))) (m : Entries) :
    ofEntries room (m.mapUnder verbs change) = ofEntries room m := by
  have extras : (m.mapUnder verbs change).readExtras fields = m.readExtras fields :=
    Entries.readExtras_mapUnder m (by simp [fields, verbs])
  rw [verbs] at extras ⊢
  simp (disch := simp [blind]) only [ofEntries, readVerb, Entries.readText, Entries.read_mapUnder, extras]

theorem read_withoutExtensions (v : Value) : read room (withoutExtensions v) = read room v := by
  rw [read, read, withoutExtensions]
  refine Value.readNode_mapEntries (fun m => m.hasTornKey_mapUnder _ _)
    (ofEntries_mapUnder fun v => ?_) v
  exact Value.readOptional_eq (Value.isNull_mapEntries ..) (Operation.read_withoutExtensions v)

theorem readTable_withoutExtensions (m : Entries) :
    (m.withoutExtensions.mapValues withoutExtensions).dropExtensions.readTable (read room) =
      m.dropExtensions.readTable (read room) := by
  have same : Entries.Related (fun v v' => read room v = read room v') m.withoutExtensions
      (m.withoutExtensions.mapValues withoutExtensions) :=
    Entries.related_mapValues (fun v => (read_withoutExtensions v).symm) m.withoutExtensions
  -- the entries that stay are read alike, and the others are not read at all
  calc (m.withoutExtensions.mapValues withoutExtensions).dropExtensions.readTable (read room)
    _ = m.withoutExtensions.dropExtensions.readTable (read room) := same.dropExtensions.readTable_eq.symm
    _ = m.dropExtensions.readTable (read room) := by rw [m.dropExtensions_withoutExtensions]

end PathItem

namespace Document

theorem ofEntries_mapUnder (blind : ∀ v,
      (change v).readNodesWithoutExtensions (PathItem.read nestingLimit) =
        v.readNodesWithoutExtensions (PathItem.read nestingLimit)) (m : Entries) :
    ofEntries (m.mapUnder ["paths"] change) = ofEntries m := by
  have extras : (m.mapUnder ["paths"] change).readExtras fields = m.readExtras fields :=
    Entries.readExtras_mapUnder m (by simp [fields])
  simp (disch := simp [blind]) only [ofEntries, Entries.require, Entries.read_mapUnder, extras]

theorem ofValue_withoutExtensions (v : Value) : ofValue (withoutExtensions v) = ofValue v := by
  have blind := ofEntries_mapUnder
    (Value.readNodesWithoutExtensions_mapEntries
      (fun m => by rw [Entries.hasLongKey_mapValues, m.hasLongKey_withoutExtensions])
      PathItem.readTable_withoutExtensions)
  unfold ofValue withoutExtensions
  rw [Value.entries?_mapEntries]
  cases none_ : v.entries? with
  | none => rw [Value.mapEntries, none_, Option.map_none]
  | some m =>
    rw [Option.map_some]
    dsimp only
    rw [Entries.readWhole, Entries.readWhole, Entries.hasTornKey_mapUnder, blind m]

/-- Documents that are the same beside extensions are one document, with one model, or have the same
    faults: extensions can come and go there, whatever they hold. -/
theorem ofValue_beside_extensions {v v' : Value} (same : withoutExtensions v = withoutExtensions v') :
    ofValue v = ofValue v' ∧
      ∀ d d', ofValue v = .ok d → ofValue v' = .ok d' → d = d' ∧ d.toModel = d'.toModel := by
  have alike : ofValue v = ofValue v' := by
    rw [← ofValue_withoutExtensions v, same, ofValue_withoutExtensions v']
  refine ⟨alike, fun d d' reads reads' => ?_⟩
  cases reads.symm.trans (alike.trans reads')
  exact ⟨rfl, rfl⟩

/-- A document with one operation, with further entries among its paths and its responses. -/
def petsBeside (title : Value) (paths responses : Entries) : Value := .object
  [("info", .object [("title", title)]),
    ("paths", .map (paths ++ [(.str "/pets", .object
      [("get", .object [("responses", .map (responses ++ [(.str "200", .object [])]))])])]))]

/-- Whether its title is read or not, the document is the same with extensions among its paths and
    responses. -/
theorem petsBeside_beside_extensions :
    (∃ d, ofValue (petsBeside (.str "Pets") [(.str "x-notes", .int 5)]
        [(.str "x-internal", .null)]) = .ok d ∧
      ofValue (petsBeside (.str "Pets") [] []) = .ok d) ∧
    ofValue (petsBeside (.int 5) [(.str "x-notes", .int 5)] [(.str "x-internal", .null)]) =
      ofValue (petsBeside (.int 5) [] []) ∧ ∀ d, ofValue (petsBeside (.int 5) [] []) ≠ .ok d := by
  have same (title : Value) :
      withoutExtensions (petsBeside title [(.str "x-notes", .int 5)] [(.str "x-internal", .null)]) =
        withoutExtensions (petsBeside title [] []) := by
    have notes (paths : Entries) :
        Entries.withoutExtensions ((.str "x-notes", .int 5) :: paths) = paths.withoutExtensions :=
      Entries.withoutExtensions_insert (by decide +kernel) (.int 5) [] paths
    have internal (responses : Entries) :
        Entries.withoutExtensions ((.str "x-internal", .null) :: responses) = responses.withoutExtensions :=
      Entries.withoutExtensions_insert (by decide +kernel) .null [] responses
    have path : Scalar.isExtension (.str "/pets") = false := by decide +kernel
    have kept (item : Value) : Entries.withoutExtensions [(.str "/pets", item)] = [(.str "/pets", item)] := by
      rw [Entries.withoutExtensions, List.filter_singleton, path, Bool.not_false, cond_true]
    simp [withoutExtensions, petsBeside, Value.object, Value.mapEntries, Entries.mapUnder, Entries.isUnder,
      Entries.mapValues, PathItem.withoutExtensions, PathItem.verbs, Operation.withoutExtensions, notes, kept,
      internal]
  have accepted : (read (petsBeside (.str "Pets") [] [])).problems = [] := by decide +kernel
  have faulty : (read (petsBeside (.int 5) [] [])).problems = [⟨["info", "title"], .notText⟩] := by
    decide +kernel
  obtain ⟨d, reads⟩ := Checked.problems_eq_nil_iff.1 accepted
  have reads := ofValue_eq_ok_iff.2 reads
  refine ⟨⟨d, (ofValue_beside_extensions (same _)).1.trans reads, reads⟩,
    (ofValue_beside_extensions (same _)).1, fun d reads => ?_⟩
  rw [ofValue_eq_ok_iff.1 reads] at faulty
  contradiction

end Document

end ApiModel
