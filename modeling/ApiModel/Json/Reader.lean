import ApiModel.Text.Numeral
import ApiModel.Value.Basic

namespace ApiModel.Json

open Text

def isBlank (c : Char) : Bool := c = ' ' || c = '\n' || c = '\r' || c = '\t'

def skipBlanks (cs : List Char) : List Char := cs.dropWhile isBlank

def hex4? (a b c d : Char) : Option Nat := do
  let a ← hexValue? a
  let b ← hexValue? b
  let c ← hexValue? c
  let d ← hexValue? d
  return ((a * 16 + b) * 16 + c) * 16 + d

def namedEscape? : Char → Option Char
  | '"' => some '"'
  | '\\' => some '\\'
  | '/' => some '/'
  | 'b' => some '\x08'
  | 'f' => some '\x0c'
  | 'n' => some '\n'
  | 'r' => some '\r'
  | 't' => some '\t'
  | _ => none

def readCodes : List Char → Option (List Nat × List Char)
  | [] => none
  | '"' :: r => some ([], r)
  | '\\' :: 'u' :: a :: b :: c :: d :: r => do
    let code ← hex4? a b c d
    let (codes, rest) ← readCodes r
    return (code :: codes, rest)
  | '\\' :: e :: r => do
    let c ← namedEscape? e
    let (codes, rest) ← readCodes r
    return (c.toNat :: codes, rest)
  | c :: r =>
    if c.toNat < 0x20 || c = '\\' then none
    else do
      let (codes, rest) ← readCodes r
      return (c.toNat :: codes, rest)

def isFirstHalf (code : Nat) : Bool := 0xD800 ≤ code && code < 0xDC00

def isSecondHalf (code : Nat) : Bool := 0xDC00 ≤ code && code < 0xE000

/-- What codes stand for: two that form a surrogate pair are one character. -/
def joinPairs : List Nat → List Letter
  | n :: m :: r =>
    if isFirstHalf n && isSecondHalf m then
      .char (Char.ofNat (0x10000 + (n - 0xD800) * 1024 + (m - 0xDC00))) :: joinPairs r
    else .ofCode n :: joinPairs (m :: r)
  | [n] => [.ofCode n]
  | [] => []

def readString (cs : List Char) : Option (Str × List Char) :=
  (readCodes cs).map fun (codes, rest) => (.ofList (joinPairs codes), rest)

def readDigits (cs : List Char) : Option (List Char × List Char) :=
  let ds := cs.takeWhile Char.isDigit
  if ds.isEmpty then none else some (ds, cs.dropWhile Char.isDigit)

def readFraction : List Char → Option (Option (List Char) × List Char)
  | '.' :: r => (readDigits r).map fun (ds, r) => (some ds, r)
  | cs => some (none, cs)

def readExponent : List Char → Option (Option Int × List Char)
  | [] => some (none, [])
  | c :: r =>
    if c = 'e' || c = 'E' then
      let (negative, r) := splitSign r
      (readDigits r).map fun (ds, r) => (some (signed negative (asciiValue ds)), r)
    else some (none, c :: r)

/-- A numeral. Its whole part starts with a zero only if it is a zero alone. -/
def readNumber (cs : List Char) : Option (Scalar × List Char) := do
  let (negative, r) := match cs with
    | '-' :: r => (true, r)
    | cs => (false, cs)
  let (whole, r) ← readDigits r
  if whole.head? = some '0' && 1 < whole.length then none
  else
    let (fraction, r) ← readFraction r
    let (exponent, r) ← readExponent r
    if fraction.isNone && exponent.isNone then
      if digitLimit < whole.length then none
      else return (.int (signed negative (asciiValue whole)), r)
    else
      let places := fraction.getD []
      let number := Binary64.ofDecimal negative (asciiValue (whole ++ places))
        (exponent.getD 0 - places.length)
      return (.float number, r)

def readBare : List Char → Option (Scalar × List Char)
  | 'n' :: 'u' :: 'l' :: 'l' :: r => some (.null, r)
  | 't' :: 'r' :: 'u' :: 'e' :: r => some (.bool true, r)
  | 'f' :: 'a' :: 'l' :: 's' :: 'e' :: r => some (.bool false, r)
  | cs => readNumber cs

mutual

def readValue : (fuel : Nat) → List Char → Option (Value × List Char)
  | 0, _ => none
  | fuel + 1, cs => match cs with
    | '"' :: r => (readString r).map fun (s, r) => (.str s, r)
    | '[' :: r => match skipBlanks r with
      | ']' :: r => some (.list [], r)
      | r => (readItems fuel r).map fun (items, r) => (.list items, r)
    | '\x7b' :: r => match skipBlanks r with
      | '\x7d' :: r => some (.map [], r)
      | r => (readMembers fuel r).map fun (members, r) => (.map (Entries.ofList members), r)
    | cs => (readBare cs).map fun (s, r) => (.scalar s, r)

def readItems : (fuel : Nat) → List Char → Option (List Value × List Char)
  | 0, _ => none
  | fuel + 1, cs => do
    let (v, r) ← readValue fuel cs
    match skipBlanks r with
    | ']' :: r => return ([v], r)
    | ',' :: r =>
      let (items, r) ← readItems fuel (skipBlanks r)
      return (v :: items, r)
    | _ => none

def readMembers : (fuel : Nat) → List Char → Option (List (Scalar × Value) × List Char)
  | 0, _ => none
  | fuel + 1, cs => match cs with
    | '"' :: r => do
      let (key, r) ← readString r
      match skipBlanks r with
      | ':' :: r =>
        let (v, r) ← readValue fuel (skipBlanks r)
        match skipBlanks r with
        | '\x7d' :: r => return ([(.str key, v)], r)
        | ',' :: r =>
          let (members, r) ← readMembers fuel (skipBlanks r)
          return ((.str key, v) :: members, r)
        | _ => none
      | _ => none
    | _ => none

end

/-- The value that the whole text spells, if it is JSON; no text nests deeper than it is long. -/
def read (text : String) : Option Value :=
  let cs := text.toList
  match readValue (cs.length + 1) (skipBlanks cs) with
  | some (v, r) => if (skipBlanks r).isEmpty then some v else none
  | none => none

end ApiModel.Json
