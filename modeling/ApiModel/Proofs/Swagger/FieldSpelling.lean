import ApiModel.Proofs.Reading.Alike
import ApiModel.Proofs.Swagger.Respelling
import ApiModel.Building.Builder

namespace ApiModel

open Checked

variable {α : Type} {kind k : NodeKind} {m m' l r : Entries} {v v' : Value} {names : List String}
  {required : Bool} {absent : Checked α} {reader : Value → Checked α}

def NodeKind.SameRead : NodeKind → Value → Value → Prop
  | .schema, v, v' => ∀ room outer, (Schema.readIn room outer v).Alike (Schema.readIn room outer v')
  | .parameter, v, v' => ∀ room, (Parameter.read room v).Alike (Parameter.read room v')
  | .response, v, v' => ∀ room, (Response.read room v).Alike (Response.read room v')
  | .operation, v, v' => ∀ room, (Operation.read room v).Alike (Operation.read room v')
  | .pathItem, v, v' => ∀ room, (PathItem.read room v).Alike (PathItem.read room v')
  | .info, v, v' => (Info.read v).Alike (Info.read v')
  | .document, v, v' => (Document.read v).Alike (Document.read v')

namespace Value

theorem numberTruth_toInt (b : Bool) : Scalar.numberTruth b.toInt = .ok b := by
  cases b <;> rfl

theorem Spells.readBool {b : Bool} (spells : v.Spells b) : v.readBool = .ok b := by
  cases spells with
  | bool => rfl
  | int => exact numberTruth_toInt b
  | float x _ whole =>
    have inside : b.toInt ≠ -Scalar.wordBound := by cases b <;> decide
    rw [Value.readBool, Scalar.readBool, whole]
    exact (if_neg inside).trans (numberTruth_toInt b)
  | word s _ known =>
    rw [Value.readBool, Scalar.readBool, Str.chars?_coe]
    simp only [Scalar.wordTruth, any_toList_iff]
    cases b with
    | false => exact if_pos known
    | true =>
      have apart : ∀ w ∈ (wordsFor true).map String.toList, w ∉ (wordsFor false).map String.toList := by
        decide
      exact (if_neg (apart _ known)).trans (if_pos known)

theorem Spells.additionalIn {b : Bool} (spells : v.Spells b) (room : Nat) (outer : List Nat) :
    Schema.additionalIn room outer v = .ok (.flag b) := by
  have truth := spells.readBool
  have some_ : v.isNull = false := by cases spells <;> rfl
  have noNode : Schema.readIn room outer v =
      .fail (if room = 0 then .cyclic else .notNode "Schema") := by
    cases spells <;> rw [Schema.readIn] <;> simp
  unfold Schema.additionalIn Schema.orFlag
  rw [some_, noNode, truth]
  rfl

end Value

theorem Schema.additionalIn_map_eq_ok_iff {room : Nat} {outer : List Nat} {a : Additional Schema} :
    additionalIn room outer (.map m) = .ok a ↔ ∃ s, readIn room outer (.map m) = .ok s ∧ .schema s = a := by
  unfold additionalIn orFlag
  rw [if_neg (by simp [Value.isNull])]
  cases readIn room outer (.map m) with
  | ok s => simp
  | bad first others => simp [Value.readBool, Checked.fail, Checked.map, Checked.under, Checked.apply]

theorem Entries.dropExtensions_eq_nil {fields : List (Str × Value)}
    (extensions : ∀ f ∈ fields, f.1.startsWith "x-") : dropExtensions (ofFields fields) = [] := by
  rw [dropExtensions, List.filterMap_eq_nil_iff.2]
  · rfl
  · rw [List.forall_mem_map, ofFields, List.forall_mem_map]
    intro f mem
    have name : (Scalar.str f.1).text = f.1 := rfl
    rw [name, if_pos (extensions f mem)]

/-- The reading of a field does not depend on its spelling: a blank value is read as the absent field is,
    two forms of a value are read alike, and so is a value with one node for another that is read alike. -/
structure FieldRule.Suits (kind : NodeKind) (f : FieldRule) (absent : Checked α)
    (reader : Value → Checked α) : Prop where
  blank : f.required = false → ∀ v, f.shape.Blank kind v → (reader v).Alike absent
  form : ∀ v v', f.shape.Respelled v v' → (reader v).Alike (reader v')
  inside : ∀ k hole, f.shape.Place k hole → ∀ m m', k.SameRead (.map m) (.map m') →
    (reader (hole (.map m))).Alike (reader (hole (.map m')))

namespace FieldRule.Suits

theorem text {absent : Checked Str} (unset : required = false → absent = .ok "") :
    Suits kind ⟨names, .text, required⟩ absent Value.readText where
  blank free v blank := by
    obtain rfl : v = .str "" := blank
    rw [unset free, Value.readText_str]
    exact .refl _
  form _ _ respelled := nomatch respelled
  inside _ _ place := nomatch place

theorem title {absent : Checked Str} : Suits kind ⟨names, .text, true⟩ absent Value.readText :=
  text nofun

theorem truth : Suits kind ⟨names, .truth, false⟩ (.ok false) Value.readBool where
  blank _ v blank := by
    rw [Value.Spells.readBool blank]
    exact .refl _
  form v v' respelled := by
    cases respelled with
    | truth _ _ b spells spells' =>
      rw [spells.readBool, spells'.readBool]
      exact .refl _
  inside _ _ place := nomatch place

theorem texts : Suits kind ⟨names, .texts, false⟩ (.ok []) (Value.readList Value.readText) where
  blank _ v blank := by
    obtain rfl : v = .list [] := blank
    exact .refl _
  form _ _ respelled := nomatch respelled
  inside _ _ place := nomatch place

theorem looseTexts :
    Suits kind ⟨names, .looseTexts, false⟩ (.ok []) (Value.readLoose Value.readText) where
  blank _ v blank := by
    obtain rfl | rfl : v = .null ∨ v = .list [] := blank
    · exact .refl _
    · exact .refl _
  form v v' respelled := by
    cases respelled with
    | bareText s => exact .refl _
  inside _ _ place := nomatch place

theorem version : Suits .info ⟨names, .anything, false⟩ (.ok ("" : Str)) Value.readAnyOrNull where
  blank _ v blank := by
    obtain empty | ⟨-, rfl⟩ : v.text? = some ("" : Str) ∨ NodeKind.info = .info ∧ v = .null := blank
    · rw [Value.readAnyOrNull, Value.readAny, empty, ite_self]
      exact .refl _
    · exact .refl _
  form _ _ respelled := nomatch respelled
  inside _ _ place := nomatch place

theorem swagger :
    Suits .document ⟨names, .anything, false⟩ (.ok (Document.defaultVersion : Str)) Value.readAny where
  blank _ v blank := by
    obtain standard | ⟨other, -⟩ :
      v.text? = some (Document.defaultVersion : Str) ∨ NodeKind.document = .info ∧ v = .null := blank
    · rw [Value.readAny, standard]
      exact .refl _
    · contradiction
  form _ _ respelled := nomatch respelled
  inside _ _ place := nomatch place

section Nodes

variable {read : Value → Checked α}
  (same : ∀ m m', k.SameRead (.map m) (.map m') → (read (.map m)).Alike (read (.map m')))

include same

theorem node : Suits kind ⟨names, .node k, required⟩ absent read where
  blank _ _ blank := False.elim blank
  form _ _ respelled := nomatch respelled
  inside _ _ place m m' nodes := by
    cases place with
    | node => exact same m m' nodes

theorem optional : Suits kind ⟨names, .optional k, false⟩ (.ok none) (Value.readOptional read) where
  blank _ v blank := by
    obtain rfl : v = .null := blank
    exact .refl _
  form _ _ respelled := nomatch respelled
  inside _ _ place m m' nodes := by
    cases place with
    | optional => exact (same m m' nodes).map some

theorem nodes : Suits kind ⟨names, .nodes k, false⟩ (.ok []) (Value.readList read) where
  blank _ v blank := by
    obtain rfl : v = .list [] := blank
    exact .refl _
  form _ _ respelled := nomatch respelled
  inside _ _ place m m' nodes := by
    cases place with
    | item _ l r => exact indexed_middle (same m m' nodes) l r

theorem table :
    Suits kind ⟨names, .table k, false⟩ (.ok .empty) (Value.readNodesOrNull read) where
  blank _ v blank := by
    obtain rfl | rfl : v = .null ∨ v = .map [] := blank
    · exact .refl _
    · exact .refl _
  form _ _ respelled := nomatch respelled
  inside _ _ place m m' nodes := by
    cases place with
    | entry _ l key r => exact (Entries.ReadAlike.middle (same m m' nodes) l (.str key) r).readTable

theorem tableBesideExtensions {absent : Checked (Table α)}
    (unset : required = false → absent = .ok .empty) :
    Suits kind ⟨names, .tableBesideExtensions k, required⟩ absent
      (Value.readNodesWithoutExtensions read) where
  blank free v blank := by
    obtain ⟨fields, rfl, extensions⟩ : ∃ fields, v = .map (Entries.ofFields fields) ∧
      ∀ f ∈ fields, f.1.startsWith "x-" := blank
    rw [unset free, Value.readNodesWithoutExtensions_ofFields, Entries.dropExtensions_eq_nil extensions]
    exact .refl _
  form _ _ respelled := nomatch respelled
  inside _ _ place m m' nodes := by
    cases place with
    | keptEntry _ l key r =>
      exact (Entries.ReadAlike.middle (same m m' nodes) l (.str key) r).readNodesWithoutExtensions

end Nodes

variable {room : Nat} {outer : List Nat}

theorem schema :
    Suits kind ⟨names, .optional .schema, false⟩ (.ok none) (Value.readOptional (Schema.read room)) :=
  optional fun _ _ same => same room []

theorem verb : Suits kind ⟨names, .optional .operation, false⟩ (.ok none)
    (Value.readOptional (Operation.read room)) :=
  optional fun _ _ same => same room

theorem parameters :
    Suits kind ⟨names, .nodes .parameter, false⟩ (.ok []) (Value.readList (Parameter.read room)) :=
  nodes fun _ _ same => same room

theorem responses : Suits kind ⟨names, .tableBesideExtensions .response, false⟩ (.ok .empty)
    (Value.readNodesWithoutExtensions (Response.read room)) :=
  tableBesideExtensions (k := .response) (fun _ _ same => same room) fun _ => rfl

theorem info {absent : Checked Info} : Suits kind ⟨names, .node .info, true⟩ absent Info.read :=
  node fun _ _ same => same

theorem paths {absent : Checked (Table PathItem)} :
    Suits kind ⟨names, .tableBesideExtensions .pathItem, true⟩ absent
      (Value.readNodesWithoutExtensions (PathItem.read room)) :=
  tableBesideExtensions (k := .pathItem) (fun _ _ same => same room) nofun

theorem definitions : Suits kind ⟨names, .table .schema, false⟩ (.ok .empty)
    (Value.readNodesOrNull (Schema.read room)) :=
  table fun _ _ same => same room []

theorem items : Suits kind ⟨names, .looseNodes .schema, false⟩ (.ok []) (Schema.itemsIn room outer) where
  blank _ v blank := by
    obtain rfl | rfl : v = .null ∨ v = .list [] := blank
    · exact .refl _
    · rw [Schema.itemsIn_list]
      exact .refl _
  form v v' respelled := by
    cases respelled with
    | bareNode _ m =>
      rw [Schema.itemsIn_map, Schema.itemsIn_list]
      exact .refl _
  inside _ _ place m m' nodes := by
    cases place with
    | onlyItem =>
      rw [Schema.itemsIn_map, Schema.itemsIn_map]
      exact .indexed (.cons (nodes room outer) .nil) 0
    | looseItem _ l r =>
      rw [Schema.itemsIn_list, Schema.itemsIn_list]
      exact indexed_middle (nodes room outer) l r

theorem properties :
    Suits kind ⟨names, .table .schema, false⟩ (.ok []) (Schema.propertiesIn room outer) where
  blank _ v blank := by
    obtain rfl | rfl : v = .null ∨ v = .map [] := blank
    · exact .refl _
    · rw [Schema.propertiesIn_map]
      exact .refl _
  form _ _ respelled := nomatch respelled
  inside _ _ place m m' nodes := by
    cases place with
    | entry _ l key r =>
      rw [Schema.propertiesIn_map, Schema.propertiesIn_map]
      exact (Entries.ReadAlike.middle (nodes room outer) l (.str key) r).readTable.map _

theorem additional :
    Suits kind ⟨names, .additional, false⟩ (.ok .absent) (Schema.additionalIn room outer) where
  blank _ v blank := by
    obtain rfl : v = .null := blank
    exact .refl _
  form v v' respelled := by
    cases respelled with
    | flag _ _ b spells spells' =>
      rw [spells.additionalIn, spells'.additionalIn]
      exact .refl _
  inside _ _ place m m' nodes := by
    cases place with
    | additional =>
      intro a
      rw [Schema.additionalIn_map_eq_ok_iff, Schema.additionalIn_map_eq_ok_iff]
      exact exists_congr fun s => and_congr_left fun _ => nodes room outer s

end FieldRule.Suits

end ApiModel
