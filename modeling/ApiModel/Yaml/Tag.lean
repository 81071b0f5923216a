import ApiModel.Text.Str
import ApiModel.Yaml.Cursor

namespace ApiModel.Yaml

open Text

inductive Tag
  | null
  | bool
  | int
  | float
  | binary
  | timestamp
  | orderedMap
  | pairs
  | set
  | str
  | seq
  | map
  | merge
  | value
  | unknown
  deriving DecidableEq

def coreTags : String := "tag:yaml.org,2002:"

def Tag.ofName (name : String) : Tag :=
  match [("null", null), ("bool", bool), ("int", int), ("float", float), ("binary", binary),
      ("timestamp", timestamp), ("omap", orderedMap), ("pairs", pairs), ("set", set), ("str", str),
      ("seq", seq), ("map", map), ("merge", merge), ("value", value)].find?
      fun e => coreTags ++ e.1 = name with
  | some e => e.2
  | none => .unknown

def isNullWord (cs : List Char) : Bool :=
  ["~", "null", "Null", "NULL"].any fun w => w.toList = cs

def isBoolWord (cs : List Char) : Bool :=
  ["yes", "Yes", "YES", "no", "No", "NO", "true", "True", "TRUE", "false", "False", "FALSE",
    "on", "On", "ON", "off", "Off", "OFF"].any fun w => w.toList = cs

def isGroupedDigit (c : Char) : Bool := c.isDigit || c = '_'

def allOf (p : Char → Bool) (cs : List Char) : Bool := !cs.isEmpty && cs.all p

def sixtieths (cs : List Char) : List (List Char) := splitEach ':' cs

def isSixtieth : List Char → Bool
  | [a] => a.isDigit
  | [a, b] => '0' ≤ a && a ≤ '5' && b.isDigit
  | _ => false

def isSexagesimal (first : List Char → Bool) (cs : List Char) : Bool :=
  match sixtieths cs with
  | p :: q :: r => first p && (q :: r).all isSixtieth
  | _ => false

def isGrouped : List Char → Bool
  | c :: r => c.isDigit && r.all isGroupedDigit
  | [] => false

def isGroupedFromOne (cs : List Char) : Bool := isGrouped cs && cs.head? ≠ some '0'

/-- A whole number without its sign: binary, octal, decimal, hexadecimal or in base sixty. -/
def isWhole : List Char → Bool
  | '0' :: 'b' :: r => allOf (fun c => c = '0' || c = '1' || c = '_') r
  | '0' :: 'x' :: r => allOf (fun c => (hexValue? c).isSome || c = '_') r
  | '0' :: r => r.all fun c => ('0' ≤ c && c ≤ '7') || c = '_'
  | cs => isGroupedFromOne cs || isSexagesimal isGroupedFromOne cs

def isExponent : List Char → Bool
  | [] => true
  | e :: s :: r => (e = 'e' || e = 'E') && (s = '+' || s = '-') && allOf Char.isDigit r
  | _ => false

def isInfinity (cs : List Char) : Bool := [".inf", ".Inf", ".INF"].any fun w => w.toList = cs

def isNaN (cs : List Char) : Bool := [".nan", ".NaN", ".NAN"].any fun w => w.toList = cs

def isPointed (cs : List Char) : Bool :=
  let whole := cs.takeWhile (· ≠ '.')
  match cs.dropWhile (· ≠ '.') with
  | '.' :: r =>
    let exponent := r.dropWhile isGroupedDigit
    (isGrouped whole && isExponent exponent) ||
      (isSexagesimal isGrouped whole && exponent.isEmpty)
  | _ => false

/-- A floating-point number: a sign is allowed unless the point comes first. -/
def isFloatWord (cs : List Char) : Bool :=
  isPointed (splitSign cs).2 || isInfinity (splitSign cs).2 || isNaN cs ||
    match cs with
    | '.' :: d :: r => d.isDigit && isExponent (r.dropWhile isGroupedDigit)
    | _ => false

inductive Zone
  | universal
  | ahead (negative : Bool) (hours minutes : List Char)

structure ClockDigits where
  hour : List Char
  minute : List Char
  second : List Char
  fraction : List Char
  zone : Option Zone

structure StampDigits where
  year : List Char
  month : List Char
  day : List Char
  clock : Option ClockDigits

def exactDigits? (n : Nat) (cs : List Char) : Option (List Char × List Char) :=
  let ds := cs.take n
  if ds.length = n && ds.all Char.isDigit then some (ds, cs.drop n) else none

def fewDigits? (cs : List Char) : Option (List Char × List Char) :=
  (exactDigits? 2 cs).orElse fun _ => exactDigits? 1 cs

def after? (c : Char) : List Char → Option (List Char)
  | d :: r => if c = d then some r else none
  | [] => none

def zone? (cs : List Char) : Option (Option Zone) :=
  match cs.dropWhile isBlank with
  | [] => if cs.isEmpty then some none else none
  | ['Z'] => some (some .universal)
  | s :: r =>
    if s = '+' || s = '-' then do
      let (hours, r) ← fewDigits? r
      if r.isEmpty then return some (.ahead (s = '-') hours [])
      else
        let (minutes, r) ← exactDigits? 2 (← after? ':' r)
        if r.isEmpty then return some (.ahead (s = '-') hours minutes) else none
    else none

def clock? (cs : List Char) : Option ClockDigits := do
  let (hour, r) ← fewDigits? cs
  let (minute, r) ← exactDigits? 2 (← after? ':' r)
  let (second, r) ← exactDigits? 2 (← after? ':' r)
  let (fraction, r) := match r with
    | '.' :: r => (r.takeWhile Char.isDigit, r.dropWhile Char.isDigit)
    | r => ([], r)
  return ⟨hour, minute, second, fraction, ← zone? r⟩

/-- A date alone, or a date and a time with a letter T or blanks between them. -/
def stamp? (cs : List Char) : Option StampDigits := do
  let (year, r) ← exactDigits? 4 cs
  let (month, r) ← fewDigits? (← after? '-' r)
  let (day, r) ← fewDigits? (← after? '-' r)
  match r with
  | [] => return ⟨year, month, day, none⟩
  | c :: t =>
    if c = 'T' || c = 't' then return ⟨year, month, day, some (← clock? t)⟩
    else if isBlank c then return ⟨year, month, day, some (← clock? (t.dropWhile isBlank))⟩
    else none

/-- A timestamp by its spelling: a date alone has two digits for month and day. -/
def isStamp (cs : List Char) : Bool :=
  match stamp? cs with
  | some s => s.clock.isSome || (s.month.length = 2 && s.day.length = 2)
  | none => false

def dropFinalBreak (cs : List Char) : List Char :=
  if cs.getLast? = some '\n' then cs.dropLast else cs

/-- The kind of a scalar that only its spelling tells; a line feed at the end is overlooked. -/
def Tag.ofSpelling (cs : List Char) : Tag :=
  if cs.isEmpty then .null
  else
    let cs := dropFinalBreak cs
    if cs.isEmpty then .str
    else if isBoolWord cs then .bool
    else if isFloatWord cs then .float
    else if isWhole (splitSign cs).2 then .int
    else if cs = ['<', '<'] then .merge
    else if isNullWord cs then .null
    else if isStamp cs then .timestamp
    else if cs = ['='] then .value
    else if cs = ['!'] || cs = ['&'] || cs = ['*'] then .unknown
    else .str

def Tag.ofText (s : Str) : Tag := (s.chars?.map ofSpelling).getD .str

@[simp] theorem Tag.ofText_coe (s : String) : Tag.ofText s = ofSpelling s.toList := by
  rw [ofText, Str.chars?_coe]
  rfl

end ApiModel.Yaml
