import ApiModel.Proofs.Reading.Carry
import ApiModel.Proofs.Swagger.Lossless

namespace ApiModel

open Checked

variable {α β : Type} {f : α → β} {room : Nat} {m : Entries} {v : Value} {slots : List Slot}
  {name : String} {others : List String} {change : Value → Value}

namespace Slot

def kept (m : Entries) (name : String) (others : List String) (change : Value → Value) : Slot :=
  let given := (m.field? (name :: others)).map fun e => change e.2
  ⟨name, others, given.isNone, given.getD .null⟩

def dropped (name : String) (others : List String) : Slot := ⟨name, others, true, .null⟩

end Slot

namespace Fresh

theorem of_names (kind : NodeKind) (names : slots.map Slot.names = kind.names) :
    Fresh false slots [] where
  whole := List.forall_mem_nil _
  names := by
    rw [List.flatMap, names]
    exact kind.nodup_names
  nodup := List.nodup_nil
  apart _ _ := List.not_mem_nil
  further := .inr fun _ _ _ _ => List.not_mem_nil

variable {absent : Checked α} {absent' : Checked β} {reader : Value → Checked α}
  {reader' : Value → Checked β}

theorem field?_kept (fresh : Fresh false slots []) (mem : .kept m name others change ∈ slots) :
    (nodeEntries false slots []).field? (name :: others) =
      (m.field? (name :: others)).map fun e => (name, change e.2) := by
  refine (fresh.field?_names mem).trans ?_
  unfold Slot.isWritten Slot.kept
  cases m.field? (name :: others) <;> rfl

theorem read_kept (fresh : Fresh false slots []) (mem : .kept m name others change ∈ slots)
    (default : Carries f absent absent') (value : ∀ v, Carries f (reader v) (reader' (change v))) :
    Carries f (m.read (name :: others) absent reader)
      (Entries.read (nodeEntries false slots []) (name :: others) absent' reader') := by
  rw [Entries.read, Entries.read, fresh.field?_kept mem]
  cases m.field? (name :: others) with
  | none => exact default
  | some e => exact (value e.2).under _ _

theorem read_same (fresh : Fresh false slots []) (mem : .kept m name others id ∈ slots) {a : α}
    (reads : m.read (name :: others) absent reader = .ok a) :
    Entries.read (nodeEntries false slots []) (name :: others) absent reader = .ok a :=
  fresh.read_kept mem (.refl absent) (fun v => .refl (reader v)) a reads

theorem read_dropped (fresh : Fresh false slots []) (mem : .dropped name others ∈ slots) :
    Entries.read (nodeEntries false slots []) (name :: others) absent reader = absent := by
  have field : (nodeEntries false slots []).field? (name :: others) = none := fresh.field?_names mem
  rw [Entries.read, field]

end Fresh

namespace Entries

def isReference (m : Entries) : Bool :=
  match m.readText ["$ref", "ref"] with
  | .ok ref => !ref.isEmpty
  | .bad _ _ => false

def reference : Entries := [(.str "$ref", .str "#")]

theorem isReference_eq {ref : Str} (reads : m.readText ["$ref", "ref"] = .ok ref) :
    m.isReference = !ref.isEmpty := by
  rw [isReference, reads]

end Entries

namespace Parameter

def reference : Parameter := ⟨"#", "", "", "", false, "", "", none, []⟩

def core (p : Parameter) : Parameter := if p.ref.isEmpty then p else reference

def rawCore (v : Value) : Value := v.mapEntries fun m => if m.isReference then .reference else m

theorem carries_read (v : Value) : Carries core (read room v) (read room (rawCore v)) := by
  unfold read rawCore
  refine Value.carries_readNode (fun m whole => ?_) (fun m p reads => ?_) v
  · split
    · rfl
    · exact whole
  rw [Entries.isReference_eq (ofEntries_eq_ok_iff.1 reads).1, core]
  cases p.ref.isEmpty with
  | true => exact reads
  | false => rfl

end Parameter

namespace Response

def reference : Response := ⟨"#", "", none, []⟩

def core (r : Response) : Response := if r.ref.isEmpty then ⟨"", "", r.schema, []⟩ else reference

def coreSlots (m : Entries) : List Slot :=
  [.dropped "$ref" ["ref"], .dropped "description" [], .kept m "schema" ["content_schema"] id]

def rawCore (v : Value) : Value := v.mapEntries fun m =>
  if m.isReference then .reference else nodeEntries false (coreSlots m) []

theorem carries_read (v : Value) : Carries core (read room v) (read room (rawCore v)) := by
  unfold read rawCore
  have fresh (m : Entries) : Fresh false (coreSlots m) [] := .of_names .response rfl
  refine Value.carries_readNode (fun m _ => ?_) (fun m r reads => ?_) v
  · split
    · rfl
    · exact (fresh m).hasTornKey
  obtain ⟨ref, -, schema, -⟩ := ofEntries_eq_ok_iff.1 reads
  specialize fresh m
  rw [Entries.isReference_eq ref, core]
  cases r.ref.isEmpty with
  | true =>
    exact ofEntries_eq_ok_iff.2 ⟨fresh.read_dropped (by simp [coreSlots]),
      fresh.read_dropped (by simp [coreSlots]), fresh.read_same (by simp [coreSlots]) schema,
      fresh.readExtras_slots⟩
  | false => rfl

end Response

namespace Operation

def core (o : Operation) : Operation where
  operationId := o.operationId
  summary := ""
  description := o.description
  tags := []
  parameters := o.parameters.map Parameter.core
  responses := o.responses.map Response.core
  extras := []

def coreSlots (m : Entries) : List Slot :=
  [.kept m "operationId" ["operation_id"] id,
    .dropped "summary" [],
    .kept m "description" [] id,
    .dropped "tags" [],
    .kept m "parameters" [] (Value.mapItems Parameter.rawCore),
    .kept m "responses" [] (Value.mapEntries (Entries.mapValues Response.rawCore))]

def rawCore (v : Value) : Value := v.mapEntries fun m => nodeEntries false (coreSlots m) []

theorem carries_read (v : Value) : Carries core (read room v) (read room (rawCore v)) := by
  unfold read rawCore
  have fresh (m : Entries) : Fresh false (coreSlots m) [] := .of_names .operation rfl
  refine Value.carries_readNode (fun m _ => (fresh m).hasTornKey) (fun m o reads => ?_) v
  obtain ⟨operationId, -, description, -, parameters, responses, -⟩ := ofEntries_eq_ok_iff.1 reads
  specialize fresh m
  exact ofEntries_eq_ok_iff.2 ⟨fresh.read_same (by simp [coreSlots]) operationId,
    fresh.read_dropped (by simp [coreSlots]), fresh.read_same (by simp [coreSlots]) description,
    fresh.read_dropped (by simp [coreSlots]),
    fresh.read_kept (by simp [coreSlots]) (.of_ok rfl) (Value.carries_readList Parameter.carries_read)
      _ parameters,
    fresh.read_kept (by simp [coreSlots]) (.of_ok rfl)
      (Value.carries_readNodesWithoutExtensions Response.carries_read) _ responses,
    fresh.readExtras_slots⟩

end Operation

namespace PathItem

def core (p : PathItem) : PathItem where
  ref := ""
  get := p.get.map Operation.core
  put := p.put.map Operation.core
  post := p.post.map Operation.core
  delete := p.delete.map Operation.core
  options := none
  head := none
  patch := none
  parameters := []
  extras := []

def coreSlots (m : Entries) : List Slot :=
  [.dropped "$ref" ["ref"],
    .kept m "get" [] Operation.rawCore,
    .kept m "put" [] Operation.rawCore,
    .kept m "post" [] Operation.rawCore,
    .kept m "delete" [] Operation.rawCore,
    .dropped "options" [],
    .dropped "head" [],
    .dropped "patch" [],
    .dropped "parameters" []]

def rawCore (v : Value) : Value := v.mapEntries fun m => nodeEntries false (coreSlots m) []

theorem carries_read (v : Value) : Carries core (read room v) (read room (rawCore v)) := by
  unfold read rawCore
  have fresh (m : Entries) : Fresh false (coreSlots m) [] := .of_names .pathItem rfl
  refine Value.carries_readNode (fun m _ => (fresh m).hasTornKey) (fun m p reads => ?_) v
  obtain ⟨-, get, put, post, delete, -⟩ := ofEntries_eq_ok_iff.1 reads
  specialize fresh m
  have verb {name : String} {o : Option Operation} (mem : .kept m name [] Operation.rawCore ∈ coreSlots m)
      (reads : readVerb room m name = .ok o) :
      readVerb room (nodeEntries false (coreSlots m) []) name = .ok (o.map Operation.core) :=
    fresh.read_kept mem (.of_ok rfl)
      (fun v => Value.carries_readOptional (Value.isNull_mapEntries ..) (Operation.carries_read v)) o reads
  exact ofEntries_eq_ok_iff.2 ⟨fresh.read_dropped (by simp [coreSlots]), verb (by simp [coreSlots]) get,
    verb (by simp [coreSlots]) put, verb (by simp [coreSlots]) post, verb (by simp [coreSlots]) delete,
    fresh.read_dropped (by simp [coreSlots]), fresh.read_dropped (by simp [coreSlots]),
    fresh.read_dropped (by simp [coreSlots]), fresh.read_dropped (by simp [coreSlots]),
    fresh.readExtras_slots⟩

end PathItem

namespace Info

def core (i : Info) : Info := ⟨i.title, "", "", []⟩

def coreSlots (m : Entries) : List Slot :=
  [.kept m "title" [] id, .dropped "version" [], .dropped "description" []]

def rawCore (v : Value) : Value := v.mapEntries fun m => nodeEntries false (coreSlots m) []

theorem carries_read (v : Value) : Carries core (read v) (read (rawCore v)) := by
  unfold read rawCore
  have fresh (m : Entries) : Fresh false (coreSlots m) [] := .of_names .info rfl
  refine Value.carries_readNode (fun m _ => (fresh m).hasTornKey) (fun m i reads => ?_) v
  obtain ⟨title, -⟩ := ofEntries_eq_ok_iff.1 reads
  specialize fresh m
  exact ofEntries_eq_ok_iff.2 ⟨fresh.read_same (by simp [coreSlots]) title,
    fresh.read_dropped (by simp [coreSlots]), fresh.read_dropped (by simp [coreSlots]),
    fresh.readExtras_slots⟩

end Info

namespace Document

def core (d : Document) : Document where
  swagger := defaultVersion
  info := d.info.core
  paths := d.paths.map PathItem.core
  definitions := d.definitions
  extras := []

def coreSlots (m : Entries) : List Slot :=
  [.dropped "swagger" [],
    .kept m "info" [] Info.rawCore,
    .kept m "paths" [] (Value.mapEntries (Entries.mapValues PathItem.rawCore)),
    .kept m "definitions" [] id]

def rawCore (v : Value) : Value := v.mapEntries fun m => nodeEntries false (coreSlots m) []

theorem carries_read (v : Value) : Carries core (read v) (read (rawCore v)) := by
  unfold read rawCore
  have fresh (m : Entries) : Fresh false (coreSlots m) [] := .of_names .document rfl
  refine Value.carries_readNode (fun m _ => (fresh m).hasTornKey) (fun m d reads => ?_) v
  obtain ⟨-, info, paths, definitions, -⟩ := ofEntries_eq_ok_iff.1 reads
  specialize fresh m
  have missing {α β : Type} (f : α → β) (name : String) :
      Carries f ((fail .missing : Checked α).under name) ((fail .missing).under name) :=
    fun _ reads => nomatch reads
  exact ofEntries_eq_ok_iff.2 ⟨fresh.read_dropped (by simp [coreSlots]),
    fresh.read_kept (by simp [coreSlots]) (missing _ _) Info.carries_read _ info,
    fresh.read_kept (by simp [coreSlots]) (missing _ _)
      (Value.carries_readNodesWithoutExtensions PathItem.carries_read) _ paths,
    fresh.read_same (by simp [coreSlots]) definitions, fresh.readExtras_slots⟩

theorem ofValue_rawCore {d : Document} (reads : ofValue v = .ok d) : ofValue (rawCore v) = .ok d.core :=
  ofValue_eq_ok_iff.2 (carries_read v d (ofValue_eq_ok_iff.1 reads))

end Document

end ApiModel
