import ApiModel.Reading.Field
import ApiModel.Swagger.Node

namespace ApiModel

namespace Schema

def fields : List (List String) :=
  [["$ref", "ref"], ["type"], ["format"], ["description"], ["items"], ["properties"],
    ["additionalProperties", "additional_properties"]]

/-- What the entry under a key holds, if its key is that of a field with schemas. -/
inductive Part
  | plain
  | items (c : Checked (List Schema))
  | properties (c : Checked (List (Str × Schema)))
  | additional (c : Checked (Additional Schema))

def part? (parts : List (Scalar × Part)) : (names : List String) → Option (String × Part)
  | [] => none
  | name :: others => match parts.find? fun p => p.1 = .str name with
    | some p => some (name, p.2)
    | none => part? parts others

def itemsOf (parts : List (Scalar × Part)) : Checked (List Schema) :=
  match part? parts ["items"] with
  | some (name, .items c) => c.under name
  | _ => .ok []

def propertiesOf (parts : List (Scalar × Part)) : Checked (List (Str × Schema)) :=
  match part? parts ["properties"] with
  | some (name, .properties c) => c.under name
  | _ => .ok []

def additionalOf (parts : List (Scalar × Part)) : Checked (Additional Schema) :=
  match part? parts ["additionalProperties", "additional_properties"] with
  | some (name, .additional c) => c.under name
  | _ => .ok .absent

/-- A schema from the entries of its mapping and what those with schemas hold. -/
def assemble (m : Entries) (parts : List (Scalar × Part)) : Checked Schema :=
  Schema.mk <$> Entries.readText m ["$ref", "ref"]
    <*> Entries.read m ["type"] (.ok []) (Value.readLoose Value.readText)
    <*> Entries.readText m ["format"]
    <*> Entries.readText m ["description"]
    <*> itemsOf parts
    <*> propertiesOf parts
    <*> additionalOf parts
    <*> Entries.readExtras m fields

/-- Further properties are a schema or, if they cannot be one, a truth value. -/
def orFlag (schema : Checked Schema) (v : Value) : Checked (Additional Schema) :=
  if v.isNull then .ok .absent
  else match schema with
    | .ok s => .ok (.schema s)
    | .bad _ _ => match v.readBool with
      | .ok b => .ok (.flag b)
      | .bad _ _ => (Checked.apply ((schema.under "Schema").map fun _ b => .flag b)
          (v.readBool.under "bool"))

mutual

/-- The schema that a value is, inside the containers numbered in `outer`, which are read as schemas
    already; `room` is how many schemas may stand inside each other from here on. -/
def readIn (room : Nat) (outer : List Nat) : Value → Checked Schema
  | .turn id v => if outer.contains id then .fail .cyclic else readIn room (id :: outer) v
  | .map m =>
    if room = 0 then .fail .cyclic
    else Entries.readWhole m (assemble m (readParts (room - 1) outer m))
  | _ => .fail (if room = 0 then .cyclic else .notNode "Schema")

def readParts (room : Nat) (outer : List Nat) : List (Scalar × Value) → List (Scalar × Part)
  | [] => []
  | (k, v) :: r =>
    let part : Part :=
      if k = .str "items" then .items
        (if v.isNull then .ok [] else (readEach? room outer v).getD (Checked.indexed 0 [readIn room outer v]))
      else if k = .str "properties" then .properties
        (if v.isNull then .ok [] else (readTable? room outer v).getD (.fail .notMapping))
      else if k = .str "additionalProperties" || k = .str "additional_properties" then .additional
        (orFlag (readIn room outer v) v)
      else .plain
    (k, part) :: readParts room outer r

def readEach? (room : Nat) (outer : List Nat) : Value → Option (Checked (List Schema))
  | .turn _ v => readEach? room outer v
  | .list items => some (Checked.indexed 0 (readEach room outer items))
  | _ => none

def readEach (room : Nat) (outer : List Nat) : List Value → List (Checked Schema)
  | [] => []
  | v :: r => readIn room outer v :: readEach room outer r

def readTable? (room : Nat) (outer : List Nat) : Value → Option (Checked (List (Str × Schema)))
  | .turn _ v => readTable? room outer v
  | .map m => some ((Checked.all (readEntries room outer m)).map fun es => (Table.ofList es).entries)
  | _ => none

def readEntries (room : Nat) (outer : List Nat) :
    List (Scalar × Value) → List (Checked (Str × Schema))
  | [] => []
  | (k, v) :: r => Entries.readEntry k (readIn room outer v) :: readEntries room outer r

end

def read (room : Nat) (v : Value) : Checked Schema := readIn room [] v

end Schema

end ApiModel
