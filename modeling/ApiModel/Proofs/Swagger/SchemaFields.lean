import ApiModel.Proofs.Reading.Field
import ApiModel.Swagger.Reading

namespace ApiModel

namespace Schema

def itemsIn (room : Nat) (outer : List Nat) (v : Value) : Checked (List Schema) :=
  if v.isNull then .ok [] else (readEach? room outer v).getD (Checked.indexed 0 [readIn room outer v])

def propertiesIn (room : Nat) (outer : List Nat) (v : Value) : Checked (List (Str × Schema)) :=
  if v.isNull then .ok [] else (readTable? room outer v).getD (.fail .notMapping)

def additionalIn (room : Nat) (outer : List Nat) (v : Value) : Checked (Additional Schema) :=
  orFlag (readIn room outer v) v

def partOf (room : Nat) (outer : List Nat) (k : Scalar) (v : Value) : Part :=
  if k = .str "items" then .items (itemsIn room outer v)
  else if k = .str "properties" then .properties (propertiesIn room outer v)
  else if k = .str "additionalProperties" || k = .str "additional_properties" then
    .additional (additionalIn room outer v)
  else .plain

variable (room : Nat) (outer : List Nat) (m : Entries)

theorem readParts_eq : readParts room outer m = m.map fun e => (e.1, partOf room outer e.1 e.2) := by
  induction m with
  | nil => rw [readParts, List.map_nil]
  | cons e m ih =>
    rw [readParts, ih, List.map_cons]
    rfl

theorem readEach_eq (items : List Value) : readEach room outer items = items.map (readIn room outer) := by
  induction items with
  | nil => rw [readEach, List.map_nil]
  | cons v items ih => rw [readEach, ih, List.map_cons]

theorem readEntries_eq :
    readEntries room outer m = m.map fun e => Entries.readEntry e.1 (readIn room outer e.2) := by
  induction m with
  | nil => rw [readEntries, List.map_nil]
  | cons e m ih => rw [readEntries, ih, List.map_cons]

theorem part?_readParts (names : List String) : part? (readParts room outer m) names =
    (Entries.field? m names).map fun e => (e.1, partOf room outer (.str e.1) e.2) := by
  induction names with
  | nil => rfl
  | cons name names ih =>
    have find : (readParts room outer m).find? (fun p => p.1 = .str name) =
        (m.find? fun e => e.1 = .str name).map fun e => (e.1, partOf room outer e.1 e.2) := by
      rw [readParts_eq, List.find?_map]
      rfl
    rw [part?, Entries.field?, Entries.get?, find]
    cases found : m.find? (fun e => e.1 = .str name) with
    | none => exact ih
    | some e =>
      have same : e.1 = .str name := by simpa using List.find?_some found
      rw [Option.map_some, Option.map_some, Option.map_some, same]

theorem itemsOf_readParts : itemsOf (readParts room outer m) =
    Entries.read m ["items"] (.ok []) (itemsIn room outer) := by
  rw [itemsOf, part?_readParts, Entries.read]
  cases found : Entries.field? m ["items"] with
  | none => rfl
  | some e =>
    have name : e.1 = "items" := List.mem_singleton.1 (Entries.field?_mem found).1
    simp [partOf, name]

theorem propertiesOf_readParts : propertiesOf (readParts room outer m) =
    Entries.read m ["properties"] (.ok []) (propertiesIn room outer) := by
  rw [propertiesOf, part?_readParts, Entries.read]
  cases found : Entries.field? m ["properties"] with
  | none => rfl
  | some e =>
    have name : e.1 = "properties" := List.mem_singleton.1 (Entries.field?_mem found).1
    simp [partOf, name]

theorem additionalOf_readParts : additionalOf (readParts room outer m) =
    Entries.read m ["additionalProperties", "additional_properties"] (.ok .absent)
      (additionalIn room outer) := by
  rw [additionalOf, part?_readParts, Entries.read]
  cases found : Entries.field? m ["additionalProperties", "additional_properties"] with
  | none => rfl
  | some e =>
    have name := (Entries.field?_mem found).1
    simp only [List.mem_cons, List.not_mem_nil, or_false] at name
    rcases name with name | name <;> simp [partOf, name]

theorem readIn_map : readIn (room + 1) outer (.map m) = m.readWhole
    (Schema.mk <$> Entries.readText m ["$ref", "ref"]
      <*> Entries.read m ["type"] (.ok []) (Value.readLoose Value.readText)
      <*> Entries.readText m ["format"]
      <*> Entries.readText m ["description"]
      <*> Entries.read m ["items"] (.ok []) (itemsIn room outer)
      <*> Entries.read m ["properties"] (.ok []) (propertiesIn room outer)
      <*> Entries.read m ["additionalProperties", "additional_properties"] (.ok .absent)
        (additionalIn room outer)
      <*> Entries.readExtras m fields) := by
  rw [readIn, if_neg room.succ_ne_zero, Nat.add_sub_cancel, assemble, itemsOf_readParts,
    propertiesOf_readParts, additionalOf_readParts]

theorem readIn_zero : ∀ (outer : List Nat) (v : Value), readIn 0 outer v = .fail .cyclic
  | outer, .turn id v => by rw [readIn, readIn_zero (id :: outer) v, ite_self]
  | _, .map _ => by rw [readIn, if_pos rfl]
  | _, .scalar _ | _, .list _ | _, .pair _ _ | _, .set _ | _, .cut => by rw [readIn, if_pos rfl] <;> nofun

theorem itemsIn_list (items : List Value) :
    itemsIn room outer (.list items) = Checked.indexed 0 (items.map (readIn room outer)) := by
  rw [itemsIn, if_neg (by simp [Value.isNull]), readEach?, readEach_eq]
  rfl

theorem itemsIn_map : itemsIn room outer (.map m) = Checked.indexed 0 [readIn room outer (.map m)] := by
  rw [itemsIn, if_neg (by simp [Value.isNull]), readEach?] <;> simp

theorem propertiesIn_map : propertiesIn room outer (.map m) =
    (Entries.readTable (readIn room outer) m).map Table.entries := by
  rw [propertiesIn, if_neg (by simp [Value.isNull]), readTable?, readEntries_eq, Entries.readTable]
  cases Checked.all (m.map fun e => Entries.readEntry e.1 (readIn room outer e.2)) <;> rfl

end Schema

end ApiModel
