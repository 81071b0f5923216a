import ApiModel.Reading.Checked
import ApiModel.Text.Utf8
import ApiModel.Value.Literal
import ApiModel.Value.Table

namespace ApiModel

open Text

namespace Scalar

def readText : Scalar → Checked Str
  | str s => .ok s
  | bytes bs => match decodeUtf8 bs with
    | .ok cs => .ok (String.ofList cs : String)
    | .error _ => .fail .notUnicode
  | _ => .fail .notText

def wordTruth (word : List Char) : Checked Bool :=
  let word := word.map Char.toLower
  if ["0", "off", "f", "false", "n", "no"].any fun w => w.toList = word then .ok false
  else if ["1", "on", "t", "true", "y", "yes"].any fun w => w.toList = word then .ok true
  else .fail .unknownBool

/-- The whole numbers of 64 bits are those from minus this number to below it. -/
def wordBound : Int := 9223372036854775808

/-- Zero or one; another number of 64 bits is known to be none, a bigger one is not looked at. -/
def numberTruth (n : Int) : Checked Bool :=
  if n = 0 then .ok false
  else if n = 1 then .ok true
  else if -wordBound ≤ n && n < wordBound then .fail .unknownBool
  else .fail .notBool

def readBool : Scalar → Checked Bool
  | bool b => .ok b
  | int n => numberTruth n
  | float x => match x.toInt? with
    | some n => if n = -wordBound then .fail .notBool else numberTruth n
    | none => .fail .notBool
  | str s => match s.chars? with
    | some cs => wordTruth cs
    | none => .fail .notUnicode
  | bytes bs => wordTruth (bs.map fun b => Char.ofNat b.toNat)
  | _ => .fail .notBool

/-- It is a text with a half of a pair. -/
def isTorn : Scalar → Bool
  | str s => s.hasHalf
  | _ => false

end Scalar

namespace Value

def readText : Value → Checked Str
  | .scalar s => s.readText
  | _ => .fail .notText

def readBool : Value → Checked Bool
  | .scalar s => s.readBool
  | _ => .fail .notBool

def list? (v : Value) : Option (List Value) :=
  match v.peel with
  | .list items => some items
  | _ => none

def items? (v : Value) : Option (List Value) :=
  match v.peel with
  | .list items => some items
  | .set members => some (members.map .scalar)
  | _ => none

def isNull : Value → Bool
  | .scalar .null => true
  | _ => false

def readList {α : Type} (read : Value → Checked α) (v : Value) : Checked (List α) :=
  match v.items? with
  | some items => Checked.indexed 0 (items.map read)
  | none => .fail .notList

/-- The same where nothing stands for no item, and what is no list for its only item. -/
def readLoose {α : Type} (read : Value → Checked α) (v : Value) : Checked (List α) :=
  if v.isNull then .ok []
  else Checked.indexed 0 ((v.list?.getD [v]).map read)

def readOptional {α : Type} (read : Value → Checked α) (v : Value) : Checked (Option α) :=
  if v.isNull then .ok none else (read v).map some

end Value

namespace Entries

def readEntry {α : Type} (key : Scalar) (value : Checked α) : Checked (Str × α) :=
  (((key.readText.under "[key]").map Prod.mk).apply value).under key.keyText

def readTable {α : Type} (read : Value → Checked α) (m : Entries) : Checked (Table α) :=
  (Checked.all (m.map fun e => readEntry e.1 (read e.2))).map Table.ofList

def hasLongKey (m : Entries) : Bool := m.any fun e => e.1.isLong

def hasTornKey (m : Entries) : Bool := m.any fun e => e.1.isTorn

def dropExtensions (m : Entries) : Entries :=
  Entries.ofList <| (m.map fun e => (e.1.text, e.2)).filterMap fun e =>
    if e.1.startsWith "x-" then none else some (.str e.1, e.2)

/-- The value of a field under the first of its names that is there, with the name. -/
def field? (m : Entries) : (names : List String) → Option (String × Value)
  | [] => none
  | name :: others => match Entries.get? m name with
    | some v => some (name, v)
    | none => field? m others

def read {α : Type} (m : Entries) (names : List String) (absent : Checked α)
    (reader : Value → Checked α) : Checked α :=
  match field? m names with
  | some (name, v) => (reader v).under name
  | none => absent

def readText (m : Entries) (names : List String) : Checked Str :=
  read m names (.ok "") Value.readText

def require {α : Type} (m : Entries) (name : String) (reader : Value → Checked α) : Checked α :=
  read m [name] ((Checked.fail .missing).under name) reader

/-- The entries that no field takes: a field takes the entry under the name it is read by. -/
def extras (m : Entries) (fields : List (List String)) : Entries :=
  let taken : List String := fields.filterMap fun names => (field? m names).map (·.1)
  m.filter fun e => !taken.any fun name => e.1 = .str name

/-- What is read of a node, none of whose keys may be a text with a half of a pair. -/
def readWhole {α : Type} (m : Entries) (node : Checked α) : Checked α :=
  if m.hasTornKey then .fail .notUnicode else node

def readExtras (m : Entries) (fields : List (List String)) : Checked (List (Str × Value)) :=
  Checked.all <| (extras m fields).map fun e => match e.1 with
    | .str s => .ok (s, e.2)
    | k => (Checked.fail .keyNotText).under k.keyText

end Entries

end ApiModel
