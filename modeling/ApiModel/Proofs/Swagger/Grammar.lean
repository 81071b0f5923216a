import ApiModel.Reading.Field
import ApiModel.Swagger.Node

namespace ApiModel

inductive NodeKind
  | schema
  | parameter
  | response
  | operation
  | pathItem
  | info
  | document
  deriving DecidableEq

inductive Shape
  | anything
  | text
  | truth
  | texts
  | looseTexts
  | node (kind : NodeKind)
  | optional (kind : NodeKind)
  | nodes (kind : NodeKind)
  | looseNodes (kind : NodeKind)
  | table (kind : NodeKind)
  /-- An object whose values are nodes, but for those of extensions of the format. -/
  | tableBesideExtensions (kind : NodeKind)
  | additional

structure FieldRule where
  names : List String
  shape : Shape
  required : Bool := false

namespace Value

def truthWords : List String :=
  ["0", "off", "f", "false", "n", "no"] ++ ["1", "on", "t", "true", "y", "yes"]

inductive IsTruth : Value → Prop
  | bool (b : Bool) : IsTruth (.scalar (.bool b))
  | int (n : Int) (binary : n = 0 ∨ n = 1) : IsTruth (.scalar (.int n))
  | float (x : Binary64) (n : Int) (whole : x.toInt? = some n) (binary : n = 0 ∨ n = 1) :
      IsTruth (.scalar (.float x))
  | word (s : String) (known : s.toList.map Char.toLower ∈ truthWords.map String.toList) :
      IsTruth (.scalar (.str s))

theorem isTruth_str_iff {s : Str} : IsTruth (.scalar (.str s)) ↔
    ∃ word : String, s = word ∧ word.toList.map Char.toLower ∈ truthWords.map String.toList := by
  constructor
  · intro truth
    cases truth with
    | word word known => exact ⟨word, rfl, known⟩
  · rintro ⟨word, rfl, known⟩
    exact .word word known

end Value

namespace Shape

def Admits : Shape → Value → Prop
  | anything, v => v.hasLong = false
  | text, v => ∃ s, v = .str s
  | truth, v => v.IsTruth
  | texts, v => ∃ ss : List Str, v = .list (ss.map .str)
  | looseTexts, v => v = .null ∨ (∃ s, v = .str s) ∨ ∃ ss : List Str, v = .list (ss.map .str)
  | node _, v => ∃ m, v = .map m
  | optional _, v => v = .null ∨ ∃ m, v = .map m
  | nodes _, v => ∃ items, v = .list items
  | looseNodes _, v => v = .null ∨ (∃ m, v = .map m) ∨ ∃ items, v = .list items
  | table _, v => v = .null ∨ ∃ m, v = .map m
  | tableBesideExtensions _, v => ∃ m, v = .map m
  | additional, v => v = .null ∨ (∃ m, v = .map m) ∨ v.IsTruth

inductive Holds : Shape → Value → NodeKind → Value → Prop
  | node (kind : NodeKind) (m : Entries) : Holds (.node kind) (.map m) kind (.map m)
  | optional (kind : NodeKind) (m : Entries) : Holds (.optional kind) (.map m) kind (.map m)
  | item (kind : NodeKind) (items : List Value) (v : Value) (mem : v ∈ items) :
      Holds (.nodes kind) (.list items) kind v
  | onlyItem (kind : NodeKind) (m : Entries) : Holds (.looseNodes kind) (.map m) kind (.map m)
  | looseItem (kind : NodeKind) (items : List Value) (v : Value) (mem : v ∈ items) :
      Holds (.looseNodes kind) (.list items) kind v
  | entry (kind : NodeKind) (m : Entries) (key : Str) (v : Value) (mem : (.str key, v) ∈ m) :
      Holds (.table kind) (.map m) kind v
  | keptEntry (kind : NodeKind) (m : Entries) (key : Str) (v : Value) (mem : (.str key, v) ∈ m)
      (kept : ¬key.startsWith "x-") : Holds (.tableBesideExtensions kind) (.map m) kind v
  | additional (m : Entries) : Holds .additional (.map m) .schema (.map m)

end Shape

namespace FieldRule

def given? (f : FieldRule) (m : Entries) : Option Value :=
  f.names.findSome? fun name : String => Entries.get? m name

end FieldRule

namespace NodeKind

def fields : NodeKind → List FieldRule
  | schema =>
    [{ names := ["$ref", "ref"], shape := .text },
      { names := ["type"], shape := .looseTexts },
      { names := ["format"], shape := .text },
      { names := ["description"], shape := .text },
      { names := ["items"], shape := .looseNodes schema },
      { names := ["properties"], shape := .table schema },
      { names := ["additionalProperties", "additional_properties"], shape := .additional }]
  | parameter =>
    [{ names := ["$ref", "ref"], shape := .text },
      { names := ["name"], shape := .text },
      { names := ["in", "location"], shape := .text },
      { names := ["description"], shape := .text },
      { names := ["required"], shape := .truth },
      { names := ["type"], shape := .text },
      { names := ["format"], shape := .text },
      { names := ["schema", "content_schema"], shape := .optional schema }]
  | response =>
    [{ names := ["$ref", "ref"], shape := .text },
      { names := ["description"], shape := .text },
      { names := ["schema", "content_schema"], shape := .optional schema }]
  | operation =>
    [{ names := ["operationId", "operation_id"], shape := .text },
      { names := ["summary"], shape := .text },
      { names := ["description"], shape := .text },
      { names := ["tags"], shape := .texts },
      { names := ["parameters"], shape := .nodes parameter },
      { names := ["responses"], shape := .tableBesideExtensions response }]
  | pathItem =>
    { names := ["$ref", "ref"], shape := .text } ::
      ["get", "put", "post", "delete", "options", "head", "patch"].map (fun verb =>
        { names := [verb], shape := .optional operation }) ++
      [{ names := ["parameters"], shape := .nodes parameter }]
  | info =>
    [{ names := ["title"], shape := .text, required := true },
      { names := ["version"], shape := .anything },
      { names := ["description"], shape := .text }]
  | document =>
    [{ names := ["swagger"], shape := .anything },
      { names := ["info"], shape := .node info, required := true },
      { names := ["paths"], shape := .tableBesideExtensions pathItem, required := true },
      { names := ["definitions"], shape := .table schema }]

end NodeKind

/-- The room that is left for a node inside another, where each schema and each operation of a path takes
    its part of it. -/
def NodeKind.inside (room : Nat) : NodeKind → NodeKind → Nat
  | .pathItem, .operation => room - 1
  | _, .schema => room - 1
  | _, _ => room

/-- A value of the grammar: an object that gives what is required of its kind, in which all fields have
    their shapes, and all that they hold as nodes are nodes. Entries that are no fields are free, but no key
    has a half of a pair. A schema needs room. -/
inductive IsNode : Nat → NodeKind → Value → Prop
  | object (room : Nat) (kind : NodeKind) (m : Entries) (roomy : kind = .schema → room ≠ 0)
      (whole : m.hasTornKey = false)
      (complete : ∀ f ∈ kind.fields, f.required = true → f.given? m ≠ none)
      (shaped : ∀ f ∈ kind.fields, ∀ v, f.given? m = some v → f.shape.Admits v)
      (inside : ∀ f ∈ kind.fields, ∀ v, f.given? m = some v → ∀ k u, f.shape.Holds v k u →
        IsNode (kind.inside room k) k u) :
      IsNode room kind (.map m)

/-- Read as a node of the first kind, the value has a mapping in it that is read as a node of the
    second. -/
inductive ReadAs : NodeKind → Value → NodeKind → Entries → Prop
  | whole (kind : NodeKind) (m : Entries) : ReadAs kind (.map m) kind m
  | inside {kind : NodeKind} {m : Entries} {f : FieldRule} {v : Value} {k : NodeKind} {u : Value}
      {k' : NodeKind} {m' : Entries} (mem : f ∈ kind.fields) (given : f.given? m = some v)
      (holds : f.shape.Holds v k u) (below : ReadAs k u k' m') : ReadAs kind (.map m) k' m'

namespace Shape

/-- The value fits the shape, with all its nodes, of which those of a kind have some room. -/
def Fits (room : NodeKind → Nat) (shape : Shape) (v : Value) : Prop :=
  shape.Admits v ∧ ∀ k u, shape.Holds v k u → IsNode (room k) k u

end Shape

namespace FieldRule

def Fits (room : NodeKind → Nat) (f : FieldRule) (m : Entries) : Prop :=
  (f.required = true → f.given? m ≠ none) ∧ ∀ v, f.given? m = some v → f.shape.Fits room v

end FieldRule

theorem isNode_map_iff {room : Nat} {kind : NodeKind} {m : Entries} : IsNode room kind (.map m) ↔
    (kind = .schema → room ≠ 0) ∧ m.hasTornKey = false ∧
      ∀ f ∈ kind.fields, f.Fits (kind.inside room) m := by
  constructor
  · intro node
    cases node with
    | object _ _ _ roomy whole complete shaped inside =>
      exact ⟨roomy, whole, fun f mem =>
        ⟨complete f mem, fun v given => ⟨shaped f mem v given, inside f mem v given⟩⟩⟩
  · rintro ⟨roomy, whole, fits⟩
    exact .object room kind m roomy whole (fun f mem => (fits f mem).1)
      (fun f mem v given => ((fits f mem).2 v given).1)
      fun f mem v given => ((fits f mem).2 v given).2

theorem IsNode.exists_map {room : Nat} {kind : NodeKind} {v : Value} (node : IsNode room kind v) :
    ∃ m, v = .map m := by
  cases node
  exact ⟨_, rfl⟩

namespace Shape

variable {room : NodeKind → Nat} {kind : NodeKind} {v : Value}

theorem fits_anything_iff : anything.Fits room v ↔ v.hasLong = false :=
  ⟨And.left, fun short => ⟨short, fun _ _ holds => nomatch holds⟩⟩

theorem fits_text_iff : text.Fits room v ↔ ∃ s, v = .str s :=
  ⟨And.left, fun some => ⟨some, fun _ _ holds => nomatch holds⟩⟩

theorem fits_truth_iff : truth.Fits room v ↔ v.IsTruth :=
  ⟨And.left, fun truth => ⟨truth, fun _ _ holds => nomatch holds⟩⟩

theorem fits_texts_iff : texts.Fits room v ↔ ∃ ss : List Str, v = .list (ss.map .str) :=
  ⟨And.left, fun some => ⟨some, fun _ _ holds => nomatch holds⟩⟩

theorem fits_looseTexts_iff : looseTexts.Fits room v ↔
    v = .null ∨ (∃ s, v = .str s) ∨ ∃ ss : List Str, v = .list (ss.map .str) :=
  ⟨And.left, fun some => ⟨some, fun _ _ holds => nomatch holds⟩⟩

theorem fits_node_iff : (node kind).Fits room v ↔ IsNode (room kind) kind v := by
  constructor
  · rintro ⟨⟨m, rfl⟩, inside⟩
    exact inside _ _ (.node kind m)
  · intro isNode
    refine ⟨isNode.exists_map, fun k u holds => ?_⟩
    cases holds
    exact isNode

theorem fits_optional_iff : (optional kind).Fits room v ↔ v = .null ∨ IsNode (room kind) kind v := by
  constructor
  · rintro ⟨rfl | ⟨m, rfl⟩, inside⟩
    · exact .inl rfl
    · exact .inr (inside _ _ (.optional kind m))
  · intro fits
    refine ⟨fits.imp_right IsNode.exists_map, fun k u holds => ?_⟩
    cases holds
    exact fits.resolve_left nofun

theorem fits_nodes_iff :
    (nodes kind).Fits room v ↔ ∃ items, v = .list items ∧ ∀ u ∈ items, IsNode (room kind) kind u := by
  constructor
  · rintro ⟨⟨items, rfl⟩, inside⟩
    exact ⟨items, rfl, fun u mem => inside _ _ (.item kind items u mem)⟩
  · rintro ⟨items, rfl, all⟩
    refine ⟨⟨items, rfl⟩, fun k u holds => ?_⟩
    cases holds with
    | item _ _ _ mem => exact all u mem

theorem fits_looseNodes_iff : (looseNodes kind).Fits room v ↔
    v = .null ∨ IsNode (room kind) kind v ∨
      ∃ items, v = .list items ∧ ∀ u ∈ items, IsNode (room kind) kind u := by
  constructor
  · rintro ⟨rfl | ⟨m, rfl⟩ | ⟨items, rfl⟩, inside⟩
    · exact .inl rfl
    · exact .inr (.inl (inside _ _ (.onlyItem kind m)))
    · exact .inr (.inr ⟨items, rfl, fun u mem => inside _ _ (.looseItem kind items u mem)⟩)
  · rintro (rfl | isNode | ⟨items, rfl, all⟩)
    · exact ⟨.inl rfl, fun _ _ holds => nomatch holds⟩
    · refine ⟨.inr (.inl isNode.exists_map), fun k u holds => ?_⟩
      cases holds with
      | onlyItem => exact isNode
      | looseItem => cases isNode
    · refine ⟨.inr (.inr ⟨items, rfl⟩), fun k u holds => ?_⟩
      cases holds with
      | looseItem _ _ _ mem => exact all u mem

theorem fits_table_iff : (table kind).Fits room v ↔
    v = .null ∨ ∃ m, v = .map m ∧ ∀ key u, (.str key, u) ∈ m → IsNode (room kind) kind u := by
  constructor
  · rintro ⟨rfl | ⟨m, rfl⟩, inside⟩
    · exact .inl rfl
    · exact .inr ⟨m, rfl, fun key u mem => inside _ _ (.entry kind m key u mem)⟩
  · rintro (rfl | ⟨m, rfl, all⟩)
    · exact ⟨.inl rfl, fun _ _ holds => nomatch holds⟩
    · refine ⟨.inr ⟨m, rfl⟩, fun k u holds => ?_⟩
      cases holds with
      | entry _ _ key _ mem => exact all key u mem

theorem fits_tableBesideExtensions_iff : (tableBesideExtensions kind).Fits room v ↔
    ∃ m, v = .map m ∧ ∀ key u, (.str key, u) ∈ m → ¬key.startsWith "x-" → IsNode (room kind) kind u := by
  constructor
  · rintro ⟨⟨m, rfl⟩, inside⟩
    exact ⟨m, rfl, fun key u mem kept => inside _ _ (.keptEntry kind m key u mem kept)⟩
  · rintro ⟨m, rfl, all⟩
    refine ⟨⟨m, rfl⟩, fun k u holds => ?_⟩
    cases holds with
    | keptEntry _ _ key _ mem kept => exact all key u mem kept

theorem fits_additional_iff : additional.Fits room v ↔
    v = .null ∨ IsNode (room .schema) .schema v ∨ v.IsTruth := by
  constructor
  · rintro ⟨rfl | ⟨m, rfl⟩ | truth, inside⟩
    · exact .inl rfl
    · exact .inr (.inl (inside _ _ (.additional m)))
    · exact .inr (.inr truth)
  · intro fits
    refine ⟨fits.imp_right (Or.imp_left IsNode.exists_map), fun k u holds => ?_⟩
    cases holds
    rcases fits with none | isNode | truth
    · contradiction
    · exact isNode
    · cases truth

end Shape

def nestedItems : Nat → Value
  | 0 => .object []
  | n + 1 => .object [("items", nestedItems n)]

theorem isNode_nestedItems {room n : Nat} (roomy : n < room) : IsNode room .schema (nestedItems n) := by
  induction n generalizing room with
  | zero =>
    rw [nestedItems, Value.object, isNode_map_iff]
    refine ⟨fun _ => Nat.pos_iff_ne_zero.1 roomy, rfl, ?_⟩
    simp [NodeKind.fields, FieldRule.Fits, FieldRule.given?, Entries.get?, List.findSome?]
  | succ n ih =>
    rw [nestedItems, Value.object, isNode_map_iff]
    refine ⟨fun _ => Nat.ne_zero_of_lt roomy, rfl, ?_⟩
    have inner : IsNode (room - 1) .schema (nestedItems n) := ih (by omega)
    simp [NodeKind.fields, FieldRule.Fits, FieldRule.given?, Entries.get?, Shape.fits_looseNodes_iff,
      NodeKind.inside, inner]

end ApiModel
