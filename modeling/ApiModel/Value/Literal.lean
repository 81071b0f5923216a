import ApiModel.Number.Shortest
import ApiModel.Text.Quoted
import ApiModel.Value.Basic

namespace ApiModel

open Text

def commaSeparated (items : List (List Char)) : List Char := [',', ' '].intercalate items

def Date.literal (d : Date) : String :=
  "datetime.date(" ++ String.ofList (commaSeparated ([d.year, d.month, d.day].map natDigits)) ++ ")"

/-- The literal of a moment: seconds only if there are any, then what its clock is ahead. -/
def Moment.literal (m : Moment) : String :=
  let seconds :=
    if m.microsecond ≠ 0 then [m.second, m.microsecond]
    else if m.second ≠ 0 then [m.second]
    else []
  let numbers := [m.date.year, m.date.month, m.date.day, m.hour, m.minute] ++ seconds
  let clock := match m.offset with
    | none => ""
    | some 0 => ", tzinfo=datetime.timezone.utc"
    | some o => ", tzinfo=datetime.timezone(" ++ durationText o ++ ")"
  "datetime.datetime(" ++ String.ofList (commaSeparated (numbers.map natDigits)) ++ clock ++ ")"

def unprintable (kind : String) : String := "<unprintable " ++ kind ++ " object>"

namespace Scalar

def literal : Scalar → List Char
  | null => "None".toList
  | bool true => "True".toList
  | bool false => "False".toList
  | int n => intDigits n
  | float x => FloatLayout.literal.text x
  | str s => textLiteral s
  | bytes bs => bytesLiteral bs
  | date d => d.literal.toList
  | moment m => m.literal.toList

def text : Scalar → Str
  | str s => s
  | date d => d.iso
  | moment m => m.plainText
  | s => String.ofList s.literal

def isLong : Scalar → Bool
  | int n => firstLong ≤ n.natAbs
  | _ => false

def kindName : Scalar → String
  | null => "NoneType"
  | bool _ => "bool"
  | int _ => "int"
  | float _ => "float"
  | str _ => "str"
  | bytes _ => "bytes"
  | date _ => "date"
  | moment _ => "datetime"

/-- The text by which a location in a document names a key: truth values count as numbers. -/
def keyText : Scalar → String
  | str s => s.shown
  | bool b => if b then "1" else "0"
  | s => if s.isLong then unprintable s.kindName else String.ofList s.literal

end Scalar

namespace Value

mutual

/-- The literal inside the containers whose turns are numbered in `outer`; a container that occurs
    inside itself is written as dots there. -/
def literalIn (outer : List Nat) : Value → List Char
  | .scalar s => s.literal
  | .list items => '[' :: commaSeparated (literalsIn outer items) ++ [']']
  | .pair k v => '(' :: literalIn outer k ++ [',', ' '] ++ literalIn outer v ++ [')']
  | .set [] => "set()".toList
  | .set (m :: ms) => '\x7b' :: commaSeparated ((m :: ms).map Scalar.literal) ++ ['\x7d']
  | .map entries => '\x7b' :: commaSeparated (entryLiteralsIn outer entries) ++ ['\x7d']
  | .turn id content =>
    if outer.contains id then match content with
      | .list _ => "[...]".toList
      | _ => "\x7b...\x7d".toList
    else literalIn (id :: outer) content
  | .cut => "...".toList

def literalsIn (outer : List Nat) : List Value → List (List Char)
  | [] => []
  | v :: r => literalIn outer v :: literalsIn outer r

def entryLiteralsIn (outer : List Nat) : List (Scalar × Value) → List (List Char)
  | [] => []
  | (k, v) :: r => (k.literal ++ ':' :: ' ' :: literalIn outer v) :: entryLiteralsIn outer r

end

def literal (v : Value) : String := String.ofList (v.literalIn [])

def text : Value → Str
  | .scalar s => s.text
  | v => v.literal

mutual

def hasLong : Value → Bool
  | .scalar s => s.isLong
  | .list items => haveLong items
  | .pair k v => k.hasLong || v.hasLong
  | .set members => members.any Scalar.isLong
  | .map entries => entriesHaveLong entries
  | .turn _ content => content.hasLong
  | .cut => false

def haveLong : List Value → Bool
  | [] => false
  | v :: r => v.hasLong || haveLong r

def entriesHaveLong : List (Scalar × Value) → Bool
  | [] => false
  | (k, v) :: r => k.isLong || v.hasLong || entriesHaveLong r

end

def text? (v : Value) : Option Str := if v.hasLong then none else some v.text

def kindName : Value → String
  | .scalar s => s.kindName
  | .list _ => "list"
  | .pair _ _ => "tuple"
  | .set _ => "set"
  | .map _ => "dict"
  | .turn _ v => v.kindName
  | .cut => "object"

end Value

end ApiModel
