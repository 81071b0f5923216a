import ApiModel.Proofs.Swagger.SchemaFields
import ApiModel.Proofs.Swagger.Slots
import ApiModel.Swagger.Loading

namespace ApiModel

open Checked

theorem nodeEntries_nil (full : Bool) (extras : List (Str × Value)) :
    nodeEntries full [] extras = writtenExtras extras := rfl

theorem nodeEntries_cons (full : Bool) (s : Slot) (slots : List Slot) (extras : List (Str × Value)) :
    nodeEntries full (s :: slots) extras =
      writtenField full s.name s.isDefault s.value ++ nodeEntries full slots extras := by
  unfold nodeEntries slotFields writtenField
  cases full <;> cases written : s.isDefault <;> simp [Slot.isWritten, written]

attribute [local simp] nodeEntries_nil nodeEntries_cons writtenText writtenTexts writtenOption
  writtenList

namespace Schema

variable {m : Entries} {room : Nat} {outer : List Nat} (full : Bool)

theorem readIn_map_eq_ok_iff {s : Schema} : readIn (room + 1) outer (.map m) = .ok s ↔
    m.hasTornKey = false ∧ m.readText ["$ref", "ref"] = .ok s.ref ∧
      m.read ["type"] (.ok []) (Value.readLoose Value.readText) = .ok s.type ∧
      m.readText ["format"] = .ok s.format ∧
      m.readText ["description"] = .ok s.description ∧
      m.read ["items"] (.ok []) (itemsIn room outer) = .ok s.items ∧
      m.read ["properties"] (.ok []) (propertiesIn room outer) = .ok s.properties ∧
      m.read ["additionalProperties", "additional_properties"] (.ok .absent) (additionalIn room outer) =
        .ok s.additional ∧
      m.readExtras fields = .ok s.extras := by
  cases s
  rw [readIn_map, Entries.readWhole_eq_ok_iff, eq_ok_iff_gives]
  simp only [gives_seq, gives_fmap, Schema.mk.injEq]
  simp only [gives_and_left, gives_eq_and, gives_eq]

def slots (s : Schema) : List Slot :=
  [⟨"$ref", ["ref"], s.ref.isEmpty, .str s.ref⟩,
    ⟨"type", [], s.type.isEmpty, .list (s.type.map .str)⟩,
    ⟨"format", [], s.format.isEmpty, .str s.format⟩,
    ⟨"description", [], s.description.isEmpty, .str s.description⟩,
    ⟨"items", [], s.items.isEmpty, .list (s.items.map (toValue full))⟩,
    ⟨"properties", [], s.properties.isEmpty,
      .map (Entries.ofFields (s.properties.map fun p => (p.1, p.2.toValue full)))⟩,
    ⟨"additionalProperties", ["additional_properties"], (additionalToValue? full s.additional).isNone,
      (additionalToValue? full s.additional).getD .null⟩]

theorem listToValues_eq (ss : List Schema) : listToValues full ss = ss.map (toValue full) := by
  induction ss with
  | nil => rw [listToValues, List.map_nil]
  | cons s ss ih => rw [listToValues, ih, List.map_cons]

theorem tableToEntries_eq (ps : List (Str × Schema)) : tableToEntries full ps =
    Entries.ofFields (ps.map fun p => (p.1, p.2.toValue full)) := by
  induction ps with
  | nil => rw [tableToEntries, List.map_nil, Entries.ofFields_nil]
  | cons p ps ih => rw [tableToEntries, ih, List.map_cons, Entries.ofFields_cons]

theorem toValue_eq (s : Schema) : s.toValue full = .map (nodeEntries full (s.slots full) s.extras) := by
  cases s
  rw [toValue]
  simp [slots, listToValues_eq, tableToEntries_eq]

end Schema

namespace Parameter

variable {m : Entries} {room : Nat} (full : Bool)

theorem ofEntries_eq_ok_iff {p : Parameter} : ofEntries room m = .ok p ↔
    m.readText ["$ref", "ref"] = .ok p.ref ∧
      m.readText ["name"] = .ok p.name ∧
      m.readText ["in", "location"] = .ok p.location ∧
      m.readText ["description"] = .ok p.description ∧
      m.read ["required"] (.ok false) Value.readBool = .ok p.required ∧
      m.readText ["type"] = .ok p.type ∧
      m.readText ["format"] = .ok p.format ∧
      m.read ["schema", "content_schema"] (.ok none) (Value.readOptional (Schema.read (room - 1))) =
        .ok p.schema ∧
      m.readExtras fields = .ok p.extras := by
  cases p
  rw [eq_ok_iff_gives, ofEntries]
  simp only [gives_seq, gives_fmap, Parameter.mk.injEq]
  simp only [gives_and_left, gives_eq_and, gives_eq]

def slots (p : Parameter) : List Slot :=
  [⟨"$ref", ["ref"], p.ref.isEmpty, .str p.ref⟩,
    ⟨"name", [], p.name.isEmpty, .str p.name⟩,
    ⟨"in", ["location"], p.location.isEmpty, .str p.location⟩,
    ⟨"description", [], p.description.isEmpty, .str p.description⟩,
    ⟨"required", [], !p.required, .bool p.required⟩,
    ⟨"type", [], p.type.isEmpty, .str p.type⟩,
    ⟨"format", [], p.format.isEmpty, .str p.format⟩,
    ⟨"schema", ["content_schema"], p.schema.isNone,
      (p.schema.map (Schema.toValue full)).getD .null⟩]

theorem toValue_eq (p : Parameter) :
    p.toValue full = .map (nodeEntries full (p.slots full) p.extras) := by
  simp [toValue, slots]

end Parameter

namespace Response

variable {m : Entries} {room : Nat} (full : Bool)

theorem ofEntries_eq_ok_iff {r : Response} : ofEntries room m = .ok r ↔
    m.readText ["$ref", "ref"] = .ok r.ref ∧
      m.readText ["description"] = .ok r.description ∧
      m.read ["schema", "content_schema"] (.ok none) (Value.readOptional (Schema.read (room - 1))) =
        .ok r.schema ∧
      m.readExtras fields = .ok r.extras := by
  cases r
  rw [eq_ok_iff_gives, ofEntries]
  simp only [gives_seq, gives_fmap, Response.mk.injEq]
  simp only [gives_and_left, gives_eq_and, gives_eq]

def slots (r : Response) : List Slot :=
  [⟨"$ref", ["ref"], r.ref.isEmpty, .str r.ref⟩,
    ⟨"description", [], r.description.isEmpty, .str r.description⟩,
    ⟨"schema", ["content_schema"], r.schema.isNone,
      (r.schema.map (Schema.toValue full)).getD .null⟩]

theorem toValue_eq (r : Response) :
    r.toValue full = .map (nodeEntries full (r.slots full) r.extras) := by
  simp [toValue, slots]

end Response

namespace Operation

variable {m : Entries} {room : Nat} (full : Bool)

theorem ofEntries_eq_ok_iff {o : Operation} : ofEntries room m = .ok o ↔
    m.readText ["operationId", "operation_id"] = .ok o.operationId ∧
      m.readText ["summary"] = .ok o.summary ∧
      m.readText ["description"] = .ok o.description ∧
      m.read ["tags"] (.ok []) (Value.readList Value.readText) = .ok o.tags ∧
      m.read ["parameters"] (.ok []) (Value.readList (Parameter.read room)) = .ok o.parameters ∧
      m.read ["responses"] (.ok .empty) (Value.readNodesWithoutExtensions (Response.read room)) =
        .ok o.responses ∧
      m.readExtras fields = .ok o.extras := by
  cases o
  rw [eq_ok_iff_gives, ofEntries]
  simp only [gives_seq, gives_fmap, Operation.mk.injEq]
  simp only [gives_and_left, gives_eq_and, gives_eq]

def slots (o : Operation) : List Slot :=
  [⟨"operationId", ["operation_id"], o.operationId.isEmpty, .str o.operationId⟩,
    ⟨"summary", [], o.summary.isEmpty, .str o.summary⟩,
    ⟨"description", [], o.description.isEmpty, .str o.description⟩,
    ⟨"tags", [], o.tags.isEmpty, .list (o.tags.map .str)⟩,
    ⟨"parameters", [], o.parameters.isEmpty, .list (o.parameters.map (Parameter.toValue full))⟩,
    ⟨"responses", [], o.responses.size = 0, tableValue (Response.toValue full) o.responses⟩]

theorem toValue_eq (o : Operation) :
    o.toValue full = .map (nodeEntries full (o.slots full) o.extras) := by
  simp [toValue, slots]

end Operation

namespace PathItem

variable {m : Entries} {room : Nat} (full : Bool)

theorem ofEntries_eq_ok_iff {p : PathItem} : ofEntries room m = .ok p ↔
    m.readText ["$ref", "ref"] = .ok p.ref ∧
      readVerb room m "get" = .ok p.get ∧ readVerb room m "put" = .ok p.put ∧
      readVerb room m "post" = .ok p.post ∧ readVerb room m "delete" = .ok p.delete ∧
      readVerb room m "options" = .ok p.options ∧ readVerb room m "head" = .ok p.head ∧
      readVerb room m "patch" = .ok p.patch ∧
      m.read ["parameters"] (.ok []) (Value.readList (Parameter.read room)) = .ok p.parameters ∧
      m.readExtras fields = .ok p.extras := by
  cases p
  rw [eq_ok_iff_gives, ofEntries]
  simp only [gives_seq, gives_fmap, PathItem.mk.injEq]
  simp only [gives_and_left, gives_eq_and, gives_eq]

def verbSlot (verb : String) (o : Option Operation) : Slot :=
  ⟨verb, [], o.isNone, (o.map (Operation.toValue full)).getD .null⟩

def slots (p : PathItem) : List Slot :=
  [⟨"$ref", ["ref"], p.ref.isEmpty, .str p.ref⟩,
    verbSlot full "get" p.get, verbSlot full "put" p.put, verbSlot full "post" p.post,
    verbSlot full "delete" p.delete, verbSlot full "options" p.options, verbSlot full "head" p.head,
    verbSlot full "patch" p.patch,
    ⟨"parameters", [], p.parameters.isEmpty, .list (p.parameters.map (Parameter.toValue full))⟩]

theorem toValue_eq (p : PathItem) :
    p.toValue full = .map (nodeEntries full (p.slots full) p.extras) := by
  simp [toValue, slots, verbSlot]

end PathItem

namespace Info

variable {m : Entries} (full : Bool)

theorem ofEntries_eq_ok_iff {i : Info} : ofEntries m = .ok i ↔
    m.require "title" Value.readText = .ok i.title ∧
      m.read ["version"] (.ok ("" : Str)) Value.readAnyOrNull = .ok i.version ∧
      m.readText ["description"] = .ok i.description ∧
      m.readExtras fields = .ok i.extras := by
  cases i
  rw [eq_ok_iff_gives, ofEntries]
  simp only [gives_seq, gives_fmap, Info.mk.injEq]
  simp only [gives_and_left, gives_eq_and, gives_eq]

def slots (i : Info) : List Slot :=
  [⟨"title", [], false, .str i.title⟩,
    ⟨"version", [], i.version.isEmpty, .str i.version⟩,
    ⟨"description", [], i.description.isEmpty, .str i.description⟩]

theorem toValue_eq (i : Info) : i.toValue full = .map (nodeEntries full i.slots i.extras) := by
  simp [toValue, slots, writtenField]

end Info

namespace Document

variable {m : Entries} (full : Bool)

theorem ofEntries_eq_ok_iff {d : Document} : ofEntries m = .ok d ↔
    m.read ["swagger"] (.ok (defaultVersion : Str)) Value.readAny = .ok d.swagger ∧
      m.require "info" Info.read = .ok d.info ∧
      m.require "paths" (Value.readNodesWithoutExtensions (PathItem.read nestingLimit)) = .ok d.paths ∧
      m.read ["definitions"] (.ok .empty) (Value.readNodesOrNull (Schema.read (nestingLimit - 1))) =
        .ok d.definitions ∧
      m.readExtras fields = .ok d.extras := by
  cases d
  rw [eq_ok_iff_gives, ofEntries]
  simp only [gives_seq, gives_fmap, Document.mk.injEq]
  simp only [gives_and_left, gives_eq_and, gives_eq]

def slots (d : Document) : List Slot :=
  [⟨"swagger", [], d.swagger = defaultVersion, .str d.swagger⟩,
    ⟨"info", [], false, d.info.toValue full⟩,
    ⟨"paths", [], false, tableValue (PathItem.toValue full) d.paths⟩,
    ⟨"definitions", [], d.definitions.size = 0, tableValue (Schema.toValue full) d.definitions⟩]

theorem toValue_eq (d : Document) :
    d.toValue full = .map (nodeEntries full (d.slots full) d.extras) := by
  simp [toValue, slots, writtenField]

def read (v : Value) : Checked Document := v.readNode "Document" ofEntries

theorem ofValue_eq_ok_iff {v : Value} {d : Document} : ofValue v = .ok d ↔ read v = .ok d := by
  unfold ofValue read Value.readNode
  cases v.entries? with
  | none => simp [fail]
  | some m =>
    dsimp only
    cases m.readWhole (ofEntries m) <;> simp

end Document

end ApiModel
