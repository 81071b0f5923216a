import ApiModel.Proofs.Swagger.NodeFields
import ApiModel.Proofs.Swagger.ShapeReading

namespace ApiModel

open Checked

variable {α : Type} {floats : Binary64 → Prop} {fields : List (Str × Value)} {v : Value}
  {rooms : NodeKind → Nat} {kind : NodeKind}

namespace Schema

variable {outer : List Nat}

section Inside

variable (reads : ∀ u, u.IsJson floats →
  ((readIn (rooms .schema) outer u).Succeeds ↔ IsNode (rooms .schema) .schema u))

include reads

theorem succeeds_itemsIn (json : v.IsJson floats) :
    (itemsIn (rooms .schema) outer v).Succeeds ↔ (Shape.looseNodes .schema).Fits rooms v := by
  rw [Shape.fits_looseNodes_iff]
  cases json with
  | null => exact iff_of_true (succeeds_ok _) (.inl rfl)
  | list items all =>
    have parts : (∀ u ∈ items, (readIn (rooms .schema) outer u).Succeeds) ↔
        ∀ u ∈ items, IsNode (rooms .schema) .schema u := forall₂_congr fun u mem => reads u (all u mem)
    have noNode : ¬IsNode (rooms .schema) .schema (.list items) := by rintro ⟨⟩
    rw [itemsIn_list, succeeds_indexed, List.forall_mem_map, parts]
    simp [Value.null, noNode]
  | map fields nodup all =>
    rw [itemsIn_map, succeeds_indexed, List.forall_mem_singleton, reads _ (.map fields nodup all)]
    simp [Value.null]
  | bool b | int n | float x allowed | str s =>
    refine iff_of_false (by simp [itemsIn, Value.isNull, readEach?, readIn]) ?_
    rintro (none | node | ⟨items, same, -⟩)
    · simp [Value.null] at none
    · cases node
    · contradiction

theorem succeeds_propertiesIn (json : v.IsJson floats) :
    (propertiesIn (rooms .schema) outer v).Succeeds ↔ (Shape.table .schema).Fits rooms v := by
  rw [Shape.fits_table_iff]
  cases json with
  | null => exact iff_of_true (succeeds_ok _) (.inl rfl)
  | map fields nodup all =>
    have parts : (∀ f ∈ fields, (readIn (rooms .schema) outer f.2).Succeeds) ↔
        ∀ f ∈ fields, IsNode (rooms .schema) .schema f.2 :=
      forall₂_congr fun f mem => reads f.2 (all f mem)
    rw [propertiesIn_map, succeeds_map, Value.succeeds_readTable, parts]
    simp [Value.null, Value.forall_mem_ofFields]
  | bool b | int n | float x allowed | str s | list items all =>
    exact iff_of_false (by simp [propertiesIn, Value.isNull, readTable?]) (by simp [Value.null])

theorem succeeds_additionalIn (json : v.IsJson floats) :
    (additionalIn (rooms .schema) outer v).Succeeds ↔ Shape.additional.Fits rooms v := by
  have truth : v.readBool.Succeeds ↔ Shape.truth.Fits rooms v := Value.succeeds_readBool json
  rw [Shape.fits_additional_iff, ← reads v json, ← Shape.fits_truth_iff, ← truth, ← Value.isNull_iff]
  unfold additionalIn orFlag
  split_ifs with null
  · exact iff_of_true (succeeds_ok _) (.inl null)
  · rw [or_iff_right null]
    cases readIn (rooms .schema) outer v with
    | ok s => exact iff_of_true (succeeds_ok _) (.inl (succeeds_ok s))
    | bad first others => cases v.readBool <;> simp

end Inside

theorem succeeds_readIn {room : Nat} (json : v.IsJson floats) :
    (readIn room outer v).Succeeds ↔ IsNode room .schema v := by
  -- on the room, of which every schema inside has less
  induction room generalizing v with
  | zero =>
    rw [readIn_zero]
    refine iff_of_false (not_succeeds_fail _) ?_
    rintro ⟨_, _, _, roomy⟩
    exact roomy rfl rfl
  | succ room ih =>
    cases json with
    | map fields nodup all =>
      have text (f : Str × Value) (mem : f ∈ fields) :
          f.2.readText.Succeeds ↔ Shape.text.Fits (NodeKind.schema.inside (room + 1)) f.2 :=
        Value.succeeds_readText (all f mem)
      have type (f : Str × Value) (mem : f ∈ fields) : (f.2.readLoose Value.readText).Succeeds ↔
          Shape.looseTexts.Fits (NodeKind.schema.inside (room + 1)) f.2 :=
        Value.succeeds_readLooseTexts (all f mem)
      have reads : ∀ u, u.IsJson floats →
          ((readIn (NodeKind.schema.inside (room + 1) .schema) outer u).Succeeds ↔
            IsNode (NodeKind.schema.inside (room + 1) .schema) .schema u) := fun _ => ih
      have items (f : Str × Value) (mem : f ∈ fields) : (itemsIn room outer f.2).Succeeds ↔
          (Shape.looseNodes .schema).Fits (NodeKind.schema.inside (room + 1)) f.2 :=
        succeeds_itemsIn reads (all f mem)
      have properties (f : Str × Value) (mem : f ∈ fields) :
          (propertiesIn room outer f.2).Succeeds ↔
            (Shape.table .schema).Fits (NodeKind.schema.inside (room + 1)) f.2 :=
        succeeds_propertiesIn reads (all f mem)
      have additional (f : Str × Value) (mem : f ∈ fields) :
          (additionalIn room outer f.2).Succeeds ↔
            Shape.additional.Fits (NodeKind.schema.inside (room + 1)) f.2 :=
        succeeds_additionalIn reads (all f mem)
      rw [isNode_map_iff, readIn_map, Entries.succeeds_readWhole]
      simp only [succeeds_seq, succeeds_fmap, Entries.readText, FieldRule.succeeds_optional text,
        FieldRule.succeeds_optional type, FieldRule.succeeds_optional items,
        FieldRule.succeeds_optional properties, FieldRule.succeeds_optional additional,
        Entries.succeeds_readExtras, NodeKind.fields, List.forall_mem_cons, List.not_mem_nil,
        false_implies, and_true, and_assoc]
      simp
    | null | bool b | int n | float x allowed | str s | list items all =>
      refine iff_of_false (by simp [readIn]) ?_
      rintro ⟨⟩

end Schema

theorem Value.succeeds_readMapping {room : Nat} {name : String} {read : Entries → Checked α}
    (roomy : kind ≠ .schema) (each : ∀ fields, (∀ f ∈ fields, f.2.IsJson floats) →
      ((read (Entries.ofFields fields)).Succeeds ↔
        ∀ f ∈ kind.fields, f.Fits (kind.inside room) (Entries.ofFields fields)))
    (json : v.IsJson floats) : (v.readNode name read).Succeeds ↔ IsNode room kind v := by
  cases json with
  | map fields nodup all =>
    have node : (Value.map (Entries.ofFields fields)).readNode name read =
      (Entries.ofFields fields).readWhole (read (Entries.ofFields fields)) := rfl
    rw [node, Entries.succeeds_readWhole, each fields all, isNode_map_iff]
    simp [roomy]
  | null | bool b | int n | float x allowed | str s | list items all =>
    refine iff_of_false (not_succeeds_fail _) ?_
    rintro ⟨⟩

theorem Value.succeeds_readAny : v.readAny.Succeeds ↔ Shape.anything.Fits rooms v := by
  rw [Shape.fits_anything_iff, readAny, text?]
  cases v.hasLong <;> simp

theorem Value.succeeds_readAnyOrNull : v.readAnyOrNull.Succeeds ↔ Shape.anything.Fits rooms v := by
  rw [readAnyOrNull]
  split
  · rename_i null
    rw [isNull_iff.1 null]
    exact iff_of_true (succeeds_ok _) (Shape.fits_anything_iff.2 rfl)
  · exact succeeds_readAny

section Kinds

attribute [local simp] NodeKind.fields Entries.readText Entries.succeeds_readExtras and_assoc

variable {room : Nat} (all : ∀ f ∈ fields, f.2.IsJson floats)

include all

theorem Parameter.succeeds_ofEntries : (ofEntries room (Entries.ofFields fields)).Succeeds ↔
    ∀ f ∈ NodeKind.parameter.fields, f.Fits (NodeKind.parameter.inside room) (Entries.ofFields fields) := by
  have text (f : Str × Value) (mem : f ∈ fields) :
      f.2.readText.Succeeds ↔ Shape.text.Fits (NodeKind.parameter.inside room) f.2 :=
    Value.succeeds_readText (all f mem)
  have truth (f : Str × Value) (mem : f ∈ fields) :
      f.2.readBool.Succeeds ↔ Shape.truth.Fits (NodeKind.parameter.inside room) f.2 :=
    Value.succeeds_readBool (all f mem)
  have schema (f : Str × Value) (mem : f ∈ fields) :
      (f.2.readOptional (Schema.read (room - 1))).Succeeds ↔
        (Shape.optional .schema).Fits (NodeKind.parameter.inside room) f.2 :=
    Value.succeeds_readOptional (Schema.succeeds_readIn (all f mem))
  simp [ofEntries, FieldRule.succeeds_optional text, FieldRule.succeeds_optional truth,
    FieldRule.succeeds_optional schema]

theorem Response.succeeds_ofEntries : (ofEntries room (Entries.ofFields fields)).Succeeds ↔
    ∀ f ∈ NodeKind.response.fields, f.Fits (NodeKind.response.inside room) (Entries.ofFields fields) := by
  have text (f : Str × Value) (mem : f ∈ fields) :
      f.2.readText.Succeeds ↔ Shape.text.Fits (NodeKind.response.inside room) f.2 :=
    Value.succeeds_readText (all f mem)
  have schema (f : Str × Value) (mem : f ∈ fields) :
      (f.2.readOptional (Schema.read (room - 1))).Succeeds ↔
        (Shape.optional .schema).Fits (NodeKind.response.inside room) f.2 :=
    Value.succeeds_readOptional (Schema.succeeds_readIn (all f mem))
  simp [ofEntries, FieldRule.succeeds_optional text, FieldRule.succeeds_optional schema]

theorem Value.succeeds_readParameters (same : rooms .parameter = room) (f : Str × Value)
    (mem : f ∈ fields) :
    (f.2.readList (Parameter.read room)).Succeeds ↔ (Shape.nodes .parameter).Fits rooms f.2 :=
  succeeds_readList (all f mem) fun _ json =>
    same ▸ succeeds_readMapping (by simp) (fun _ all => Parameter.succeeds_ofEntries all) json

theorem Operation.succeeds_ofEntries : (ofEntries room (Entries.ofFields fields)).Succeeds ↔
    ∀ f ∈ NodeKind.operation.fields, f.Fits (NodeKind.operation.inside room) (Entries.ofFields fields) := by
  have text (f : Str × Value) (mem : f ∈ fields) :
      f.2.readText.Succeeds ↔ Shape.text.Fits (NodeKind.operation.inside room) f.2 :=
    Value.succeeds_readText (all f mem)
  have texts (f : Str × Value) (mem : f ∈ fields) :
      (f.2.readList Value.readText).Succeeds ↔ Shape.texts.Fits (NodeKind.operation.inside room) f.2 :=
    Value.succeeds_readTexts (all f mem)
  have parameters : ∀ f ∈ fields, ((f.2.readList (Parameter.read room)).Succeeds ↔
      (Shape.nodes .parameter).Fits (NodeKind.operation.inside room) f.2) :=
    Value.succeeds_readParameters all rfl
  have responses (f : Str × Value) (mem : f ∈ fields) :
      (f.2.readNodesWithoutExtensions (Response.read room)).Succeeds ↔
        (Shape.tableBesideExtensions .response).Fits (NodeKind.operation.inside room) f.2 :=
    Value.succeeds_readNodesWithoutExtensions (all f mem) fun _ json =>
      Value.succeeds_readMapping (by simp) (fun _ all => Response.succeeds_ofEntries all) json
  simp [ofEntries, FieldRule.succeeds_optional text, FieldRule.succeeds_optional texts,
    FieldRule.succeeds_optional parameters, FieldRule.succeeds_optional responses]

theorem PathItem.succeeds_ofEntries : (ofEntries room (Entries.ofFields fields)).Succeeds ↔
    ∀ f ∈ NodeKind.pathItem.fields, f.Fits (NodeKind.pathItem.inside room) (Entries.ofFields fields) := by
  have text (f : Str × Value) (mem : f ∈ fields) :
      f.2.readText.Succeeds ↔ Shape.text.Fits (NodeKind.pathItem.inside room) f.2 :=
    Value.succeeds_readText (all f mem)
  have parameters : ∀ f ∈ fields, ((f.2.readList (Parameter.read room)).Succeeds ↔
      (Shape.nodes .parameter).Fits (NodeKind.pathItem.inside room) f.2) :=
    Value.succeeds_readParameters all rfl
  have verb (f : Str × Value) (mem : f ∈ fields) :
      (f.2.readOptional (Operation.read (room - 1))).Succeeds ↔
        (Shape.optional .operation).Fits (NodeKind.pathItem.inside room) f.2 :=
    Value.succeeds_readOptional
      (Value.succeeds_readMapping (by simp) (fun _ all => Operation.succeeds_ofEntries all) (all f mem))
  simp [ofEntries, readVerb, FieldRule.succeeds_optional text, FieldRule.succeeds_optional verb,
    FieldRule.succeeds_optional parameters]

theorem Info.succeeds_ofEntries : (ofEntries (Entries.ofFields fields)).Succeeds ↔
    ∀ f ∈ NodeKind.info.fields, f.Fits (NodeKind.info.inside room) (Entries.ofFields fields) := by
  have text (f : Str × Value) (mem : f ∈ fields) :
      f.2.readText.Succeeds ↔ Shape.text.Fits (NodeKind.info.inside room) f.2 :=
    Value.succeeds_readText (all f mem)
  have version (f : Str × Value) (_ : f ∈ fields) :
      f.2.readAnyOrNull.Succeeds ↔ Shape.anything.Fits (NodeKind.info.inside room) f.2 :=
    Value.succeeds_readAnyOrNull
  simp [ofEntries, FieldRule.succeeds_require text, FieldRule.succeeds_optional text,
    FieldRule.succeeds_optional version]

theorem Document.succeeds_ofEntries : (ofEntries (Entries.ofFields fields)).Succeeds ↔
    ∀ f ∈ NodeKind.document.fields,
      f.Fits (NodeKind.document.inside nestingLimit) (Entries.ofFields fields) := by
  have version (f : Str × Value) (_ : f ∈ fields) :
      f.2.readAny.Succeeds ↔ Shape.anything.Fits (NodeKind.document.inside nestingLimit) f.2 :=
    Value.succeeds_readAny
  have info (f : Str × Value) (mem : f ∈ fields) :
      (Info.read f.2).Succeeds ↔ (Shape.node .info).Fits (NodeKind.document.inside nestingLimit) f.2 :=
    Value.succeeds_readNode
      (Value.succeeds_readMapping (by simp) (fun _ all => Info.succeeds_ofEntries all) (all f mem))
  have paths (f : Str × Value) (mem : f ∈ fields) :
      (f.2.readNodesWithoutExtensions (PathItem.read nestingLimit)).Succeeds ↔
        (Shape.tableBesideExtensions .pathItem).Fits (NodeKind.document.inside nestingLimit) f.2 :=
    Value.succeeds_readNodesWithoutExtensions (all f mem) fun _ json =>
      Value.succeeds_readMapping (by simp) (fun _ all => PathItem.succeeds_ofEntries all) json
  have definitions (f : Str × Value) (mem : f ∈ fields) :
      (f.2.readNodesOrNull (Schema.read (nestingLimit - 1))).Succeeds ↔
        (Shape.table .schema).Fits (NodeKind.document.inside nestingLimit) f.2 :=
    Value.succeeds_readNodesOrNull (all f mem) fun _ json => Schema.succeeds_readIn json
  simp [ofEntries, FieldRule.succeeds_optional version, FieldRule.succeeds_require info,
    FieldRule.succeeds_require paths, FieldRule.succeeds_optional definitions]

end Kinds

def Document.petsDocument (type : Value) : Value := .object
  [("info", .object [("title", .str "Pets"), ("version", .int 1)]),
    ("paths", .object [("x-note", .int 3), ("/pets", .object [("get", .null)])]),
    ("definitions", .object
      [("Pet", .object [("type", type), ("additional_properties", .object [])])])]

theorem Document.isJson_petsDocument {type : Value} (json : type.IsJson fun _ => False) :
    (petsDocument type).IsJson fun _ => False := by
  have object (fields : List (Str × Value)) (nodup : (fields.map Prod.fst).Nodup)
      (all : ∀ f ∈ fields, f.2.IsJson fun _ => False) : (Value.object fields).IsJson fun _ => False :=
    .map fields nodup all
  have number (n : Int) : (Value.int n).IsJson fun _ => False := .int n
  have text (s : Str) : (Value.str s).IsJson fun _ => False := .str s
  have get := object [("get", .null)] (by simp) (List.forall_mem_singleton.2 .null)
  have info := object [("title", .str "Pets"), ("version", .int 1)] (by simp) (by simp [number, text])
  have paths := object [("x-note", .int 3), ("/pets", .object [("get", .null)])] (by simp)
    (by simp [number, get])
  have pet := object [("type", type), ("additional_properties", .object [])] (by simp)
    (by simp [json, object])
  have definitions := object [("Pet", .object [("type", type), ("additional_properties", .object [])])]
    (by simp) (List.forall_mem_singleton.2 pet)
  exact object _ (by simp) (by simp [info, paths, definitions])

theorem exists_ok_iff {ε α : Type} {x : Except ε α} : (∃ a, x = .ok a) ↔ x.isOk = true := by
  cases x <;> simp [Except.isOk, Except.toBool]

def Document.nestedDocument (n : Nat) : Value := .object
  [("info", .object [("title", .str "Nested")]), ("paths", .object []),
    ("definitions", .object [("Nested", nestedItems n)])]

theorem Document.isNode_nestedDocument {room n : Nat} (roomy : n < room - 1) :
    IsNode room .document (nestedDocument n) := by
  have info : IsNode room .info (.map [(.str "title", .str "Nested")]) := by
    refine isNode_map_iff.2 ⟨by simp, rfl, ?_⟩
    simp [NodeKind.fields, FieldRule.Fits, FieldRule.given?, Entries.get?, Shape.fits_text_iff]
  have definition : IsNode (room - 1) .schema (nestedItems n) := isNode_nestedItems roomy
  refine isNode_map_iff.2 ⟨by simp, rfl, ?_⟩
  simp [NodeKind.fields, FieldRule.Fits, FieldRule.given?, Entries.get?, Shape.fits_node_iff,
    Shape.fits_tableBesideExtensions_iff, Shape.fits_table_iff, NodeKind.inside, Value.object, info,
    definition]

theorem Document.isJson_nestedDocument (n : Nat) : (nestedDocument n).IsJson fun _ => False := by
  have items : (nestedItems n).IsJson fun _ => False := by
    induction n with
    | zero => exact .map [] List.nodup_nil (by simp)
    | succ n ih => exact .map [("items", _)] (by simp) (List.forall_mem_singleton.2 ih)
  have info : (Value.object [("title", .str "Nested")]).IsJson fun _ => False :=
    .map _ (by simp) (List.forall_mem_singleton.2 (.str _))
  have definitions : (Value.object [("Nested", nestedItems n)]).IsJson fun _ => False :=
    .map _ (by simp) (List.forall_mem_singleton.2 items)
  have paths : (Value.object []).IsJson fun _ => False := .map [] List.nodup_nil (by simp)
  exact .map [("info", _), ("paths", _), ("definitions", _)] (by simp) (by simp [info, definitions, paths])

def Document.versionedDocument (version : Value) : Value := .object
  [("swagger", version), ("info", .object [("title", .str "Versioned")]), ("paths", .object [])]

def Document.keyedDocument (key : Str) : Value := .object
  [("info", .object [("title", .str "Keyed")]), ("paths", .object []), (key, .null)]

end ApiModel
