import ApiModel.Text.Base64
import ApiModel.Value.Basic
import ApiModel.Yaml.Fault
import ApiModel.Yaml.Tag

namespace ApiModel.Yaml

open Text

def baseLetter? : Nat → Option Char
  | 2 => some 'b'
  | 8 => some 'o'
  | 16 => some 'x'
  | _ => none

/-- The digits of a numeral in a base without the announcement of the base. -/
def dropBase (base : Nat) : List Char → List Char
  | '0' :: c :: r => if baseLetter? base = some c.toLower then r else '0' :: c :: r
  | cs => cs

def wholeIn (base : Nat) (cs : List Char) : Except Fault Int :=
  let (negative, digits) := splitSign (strip cs)
  let digits := dropBase base digits
  match digitsValue? base digits with
  | none => .error (.notWhole base (String.ofList cs : String))
  | some n =>
    if base = 10 && digitLimit < digits.length then .error (.tooManyDigits digits.length)
    else .ok (signed negative n)

def fromSixtieths (parts : List Int) : Int := parts.foldl (fun n p => n * 60 + p) 0

def ungroup (cs : List Char) : List Char := cs.filter (· ≠ '_')

/-- A whole number: binary after `0b`, hexadecimal after `0x`, octal after another zero, in base sixty
    with colons, decimal otherwise. -/
def wholeNumber (cs : List Char) : Except Fault Int :=
  match ungroup cs with
  | [] => .error .noNumeral
  | cs =>
    let (negative, cs) := splitSign cs
    let size : Except Fault Int := match cs with
      | [] => .error .noNumeral
      | ['0'] => .ok 0
      | '0' :: 'b' :: r => wholeIn 2 r
      | '0' :: 'x' :: r => wholeIn 16 r
      | '0' :: r => wholeIn 8 ('0' :: r)
      | cs => if cs.contains ':' then ((sixtieths cs).mapM (wholeIn 10)).map fromSixtieths
        else wholeIn 10 cs
    size.map fun n => if negative then -n else n

def asciiDigits (cs : List Char) : List Char :=
  cs.map fun c => match decimalValue? c with
    | some d => Char.ofNat ('0'.toNat + d)
    | none => c

/-- The number that digits write, with an exponent perhaps; none if they are no number. -/
def decimalNumber? (negative : Bool) (cs : List Char) : Option Binary64 := do
  let whole := cs.takeWhile Char.isDigit
  let r := cs.dropWhile Char.isDigit
  let (places, r) := match r with
    | '.' :: r => (r.takeWhile Char.isDigit, r.dropWhile Char.isDigit)
    | r => ([], r)
  if whole.isEmpty && places.isEmpty then none
  let exponent ← match r with
    | [] => some 0
    | 'e' :: r =>
      let (down, ds) := splitSign r
      if allOf Char.isDigit ds then some (signed down (asciiValue ds)) else none
    | _ => none
  return .ofDecimal negative (asciiValue (whole ++ places)) (exponent - places.length)

/-- A floating-point number in small letters, with blanks around it and a sign. -/
def floatIn (cs : List Char) : Except Fault Binary64 :=
  let (negative, body) := splitSign (strip (asciiDigits cs))
  if body = "inf".toList || body = "infinity".toList then .ok (.infinite negative)
  else if body = "nan".toList then .ok .nan
  else match decimalNumber? negative body with
    | some x => .ok x
    | none => .error (.notFloat (String.ofList cs : String))

/-- The number written by parts in base sixty, the least significant first: each part is scaled and
    added with rounding, in this order. -/
def floatFromSixtieths : (scale : Nat) → Binary64 → List Binary64 → Binary64
  | _, sum, [] => sum
  | scale, sum, p :: r =>
    floatFromSixtieths (scale * 60) (sum.add (p.mul (.ofInt scale))) r

/-- A floating-point number: infinity and what is no number have names of their own. -/
def floatNumber (cs : List Char) : Except Fault Binary64 :=
  match (ungroup cs).flatMap lowerChar with
  | [] => .error .noNumeral
  | cs =>
    let (negative, cs) := splitSign cs
    let size : Except Fault Binary64 :=
      if cs = ".inf".toList then .ok (.infinite false)
      else if cs = ".nan".toList then .ok .nan
      else if cs.contains ':' then ((sixtieths cs).mapM floatIn).map fun parts =>
        floatFromSixtieths 1 (.zero false) parts.reverse
      else floatIn cs
    size.map fun x => if negative then x.neg else x

def truthValue (cs : List Char) : Except Fault Bool :=
  let word := cs.flatMap lowerChar
  if ["yes", "true", "on"].any fun w => w.toList = word then .ok true
  else if ["no", "false", "off"].any fun w => w.toList = word then .ok false
  else .error (.notBool (String.ofList word : String))

/-- Millionths of a second from the digits of a fraction; digits past the sixth are dropped. -/
def millionths (fraction : List Char) : Nat :=
  let ds := fraction.take 6
  asciiValue (ds ++ List.replicate (6 - ds.length) '0')

def Zone.minutes : Zone → Int
  | universal => 0
  | ahead negative hours minutes => signed negative (asciiValue hours * 60 + asciiValue minutes)

def StampDigits.scalar (s : StampDigits) : Except Fault Scalar :=
  let year := asciiValue s.year
  let month := asciiValue s.month
  let day := asciiValue s.day
  match s.clock with
  | none => match Date.make year month day with
    | .ok d => .ok (.date d)
    | .error e => .error (.calendar e)
  | some c => match Moment.make year month day (asciiValue c.hour) (asciiValue c.minute)
      (asciiValue c.second) (millionths c.fraction) (c.zone.map Zone.minutes) with
    | .ok m => .ok (.moment m)
    | .error e => .error (.calendar e)

/-- The scalar of a kind with a text of characters. Kinds of containers are no kinds of scalars. -/
def Tag.ofChars (tag : Tag) (cs : List Char) : Except Fault Scalar :=
  match tag with
  | null => .ok .null
  | bool => (truthValue cs).map .bool
  | int => (wholeNumber cs).map .int
  | float => (floatNumber cs).map .float
  | binary =>
    if cs.all (·.toNat < 0x80) then match decodeBase64 cs with
      | some bs => .ok (.bytes bs)
      | none => .error .malformed
    else .error .malformed
  | timestamp => match stamp? (dropFinalBreak cs) with
    | some s => s.scalar
    | none => .error .notTimestamp
  | str => .ok (.str (String.ofList cs : String))
  | _ => .error .malformed

/-- The fault of the first part in base sixty that cannot be read. A part with a half of a pair cannot. -/
def partFault (torn : Str → Fault) (read : List Char → Option Fault) (s : Str) : Fault :=
  let parts := (splitEach (.char ':') s.toList).map Str.ofList
  (parts.findSome? fun p => match p.chars? with
    | some cs => read cs
    | none => some (torn p)).getD .malformed

def faultOf {α : Type} : Except Fault α → Option Fault
  | .ok _ => none
  | .error e => some e

def dropSign (s : Str) : Str :=
  if s.startsWith "-" || s.startsWith "+" then .ofList s.toList.tail else s

/-- Why a text with a half of a pair is no whole number. -/
def tornWhole (s : Str) : Fault :=
  let s := dropSign (.ofList (s.toList.filter (· ≠ .char '_')))
  if s.startsWith "0b" then .notWhole 2 (.ofList (s.toList.drop 2))
  else if s.startsWith "0x" then .notWhole 16 (.ofList (s.toList.drop 2))
  else if s.startsWith "0" then .notWhole 8 s
  else partFault (.notWhole 10) (fun cs => faultOf (wholeIn 10 cs)) s

def tornFloat (s : Str) : Fault :=
  let s := dropSign (Str.lower (.ofList (s.toList.filter (· ≠ .char '_'))))
  partFault .notFloat (fun cs => faultOf (floatIn cs)) s

/-- The scalar of a kind with a text that is not of characters alone. -/
def Tag.ofTorn (tag : Tag) (s : Str) : Except Fault Scalar :=
  match tag with
  | null => .ok .null
  | bool => .error (.notBool s.lower)
  | int => .error (tornWhole s)
  | float => .error (tornFloat s)
  | timestamp => .error .notTimestamp
  | str => .ok (.str s)
  | _ => .error .malformed

def Tag.scalar (tag : Tag) (s : Str) : Except Fault Scalar :=
  match s.chars? with
  | some cs => tag.ofChars cs
  | none => tag.ofTorn s

@[simp] theorem Tag.scalar_coe (tag : Tag) (s : String) : tag.scalar s = tag.ofChars s.toList := by
  rw [scalar, Str.chars?_coe]

theorem Tag.scalar_str (s : Str) : str.scalar s = .ok (.str s) := by
  rw [scalar]
  cases chars : s.chars? with
  | none => rfl
  | some cs =>
    rw [Str.chars?_eq_some_iff.1 chars]
    rfl

end ApiModel.Yaml
