import ApiModel.Model.Basic
import ApiModel.Reading.Field

namespace ApiModel

def Value.isWord (v : Value) (word : String) : Bool :=
  match v with
  | .scalar (.str s) => s = word
  | _ => false

def Value.readWord {α : Type} (first : String × α) (others : List (String × α)) (v : Value) :
    Checked α :=
  match (first :: others).find? fun w => v.isWord w.1 with
  | some w => .ok w.2
  | none => .fail (.notOneOf first.1 (others.map (·.1)))

def Value.readTuple {α : Type} (read : Value → Checked α) (v : Value) : Checked (List α) :=
  match v.items? with
  | some items => Checked.indexed 0 (items.map read)
  | none => .fail .notTuple

namespace TypeRef

def readNamed (v : Value) : Checked Str :=
  match v.entries? with
  | some m => (fun (_ : Unit) name => name)
      <$> Entries.read m ["variant"] (.ok ()) (Value.readWord ("named", ()) [])
      <*> Entries.require m "name" Value.readText
  | none => .fail (.notNode "NamedRef")

/-- The references that the entries of a mapping can be, by their variants; `target` is what the entry
    of a pointer's target holds, if there is one, and `room` how many references may stand inside each
    other from here on. -/
def byVariant (room : Nat) (m : Entries) (target : Option (Checked TypeRef)) :
    List (String × Checked TypeRef) :=
  [("primitive", (Entries.require m "name" Value.readText).map primitive),
    ("named", (Entries.require m "name" Value.readText).map named),
    ("array", (Entries.require m "item" readNamed).map array),
    ("map", (Entries.read m ["value"] (.ok none) (Value.readOptional readNamed)).map map),
    ("pointer", if room ≤ 1 then .fail .cyclic
      else ((target.getD (.fail .missing)).under "target").map pointer),
    ("unsupported", (Entries.require m "raw" Value.readText).map unsupported)]

def ofEntries (room : Nat) (m : Entries) (target : Option (Checked TypeRef)) : Checked TypeRef :=
  match Entries.get? m "variant" with
  | none => .fail (.noTag "variant")
  | some v => match (byVariant room m target).find? fun r => v.isWord r.1 with
    | some (variant, r) => r.under variant
    | none => .fail (.unknownTag ((v.text?.map Str.shown).getD (unprintable v.kindName)) "variant"
        ((byVariant room m target).map (·.1)))

mutual

def readIn (room : Nat) : Value → Checked TypeRef
  | .turn _ v => readIn room v
  | .map m => ofEntries room m (readTarget (room - 1) m)
  | _ => .fail .notTagged

def readTarget (room : Nat) : List (Scalar × Value) → Option (Checked TypeRef)
  | [] => none
  | (k, v) :: r => if k = .str "target" then some (readIn room v) else readTarget room r

end

def read (v : Value) : Checked TypeRef := readIn nestingLimit v

end TypeRef

def Position.read : Value → Checked Position :=
  Value.readWord ("BODY", .body)
    [("HEADER", .header), ("QUERY", .query), ("PATH", .path), ("FORMDATA", .formData)]

def Kind.read : Value → Checked Kind := Value.readWord ("STRUCT", .struct) [("MAP", .map)]

def Field.ofEntries (m : Entries) : Checked Field :=
  Field.mk <$> Entries.require m "name" Value.readText
    <*> Entries.require m "type" TypeRef.read
    <*> Entries.read m ["value_type"] (.ok none) (Value.readOptional TypeRef.read)
    <*> Entries.readText m ["format"]
    <*> Entries.read m ["position"] (.ok none) (Value.readOptional Position.read)
    <*> Entries.read m ["serialize"] (.ok false) Value.readBool

def Value.readPart {α : Type} (kind : String) (read : Entries → Checked α) (v : Value) : Checked α :=
  match v.entries? with
  | some m => read m
  | none => .fail (.notNode kind)

def Field.read (v : Value) : Checked Field := v.readPart "Field" ofEntries

def CompositeType.ofEntries (m : Entries) : Checked CompositeType :=
  CompositeType.mk <$> Entries.require m "name" Value.readText
    <*> Entries.readText m ["description"]
    <*> Entries.read m ["kind"] (.ok none) (Value.readOptional Kind.read)
    <*> Entries.read m ["fields"] (.ok []) (Value.readTuple Field.read)
    <*> Entries.read m ["map_value_type"] (.ok none) (Value.readOptional TypeRef.read)

def CompositeType.read (v : Value) : Checked CompositeType := v.readPart "Type" ofEntries

def Method.ofEntries (m : Entries) : Checked Method :=
  Method.mk <$> Entries.require m "name" Value.readText
    <*> Entries.readText m ["operation"]
    <*> Entries.require m "path" Value.readText
    <*> Entries.require m "http_method" Value.readText
    <*> Entries.readText m ["description"]
    <*> Entries.readText m ["parameters_type_name"]
    <*> Entries.readText m ["responses_type_name"]

def Method.read (v : Value) : Checked Method := v.readPart "Method" ofEntries

def Model.ofEntries (m : Entries) : Checked Model :=
  Model.mk <$> Entries.require m "name" Value.readText
    <*> Entries.read m ["types"] (.ok []) (Value.readTuple CompositeType.read)
    <*> Entries.read m ["methods"] (.ok []) (Value.readTuple Method.read)

def Model.read (v : Value) : Checked Model := v.readPart "Model" ofEntries

end ApiModel
