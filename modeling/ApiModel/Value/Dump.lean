import ApiModel.Json.Quoted
import ApiModel.Number.Shortest
import ApiModel.Text.Utf8
import ApiModel.Value.Literal

namespace ApiModel

open Text

inductive DumpFault
  | circular
  | deep
  | bytes (fault : Utf8Fault)
  /-- The same in a key, where the first bad byte is named. -/
  | keyBytes (byte : UInt8) (position : Nat)
  /-- A key is a number that has too many digits for a text. -/
  | longKey
  | letters (fault : Str.EncodeFault)
  deriving DecidableEq

def DumpFault.message : DumpFault → String
  | circular => "Error serializing to JSON: ValueError: Circular reference detected (id repeated)"
  | deep => "Error serializing to JSON: ValueError: Circular reference detected (depth exceeded)"
  | bytes (.invalid start length) => "Error serializing to JSON: invalid utf-8 sequence of " ++
      toString length ++ " bytes from index " ++ toString start
  | bytes (.incomplete start) =>
      "Error serializing to JSON: incomplete utf-8 byte sequence from index " ++ toString start
  | keyBytes byte position => "Error serializing to JSON: UnicodeDecodeError: 'utf-8' codec can't " ++
      "decode byte 0x" ++ String.ofList (hexLower 2 byte.toNat) ++ " in position " ++
      toString position ++ ": invalid utf-8"
  | longKey => "Error serializing to JSON: ValueError: " ++ digitLimitMessage
  | letters fault => "Error serializing to JSON: UnicodeEncodeError: " ++ fault.message

namespace Scalar

def dump : Scalar → Except DumpFault (List Char)
  | null => .ok "null".toList
  | bool b => .ok (if b then "true".toList else "false".toList)
  | int n => .ok (intDigits n)
  | float x => .ok (FloatLayout.json.text x)
  | str s => (s.encode.mapError .letters).map Json.quote
  | bytes bs => match decodeUtf8 bs with
    | .ok cs => .ok (Json.quote cs)
    | .error e => .error (.bytes e)
  | date d => .ok (Json.quote d.iso.toList)
  | moment m => .ok (Json.quote m.iso.toList)

def dumpKey : Scalar → Except DumpFault (List Char)
  | null => .ok "None".toList
  | bool b => .ok (if b then "true".toList else "false".toList)
  | str s => s.encode.mapError .letters
  | date d => .ok d.iso.toList
  | moment m => .ok m.iso.toList
  | bytes bs => match decodeUtf8 bs with
    | .ok cs => .ok cs
    | .error (.invalid start _) | .error (.incomplete start) =>
      .error (.keyBytes (bs.getD start 0) start)
  | s => if s.isLong then .error .longKey else .ok s.literal

end Scalar

def bracketed (left : Char) (items : List (List Char)) (right : Char) : List Char :=
  left :: [','].intercalate items ++ [right]

def member (key value : List Char) : List Char := Json.quote key ++ ':' :: value

namespace Value

mutual

/-- The JSON text inside the containers whose turns are numbered in `outer`. -/
def dumpIn (outer : List Nat) : Value → Except DumpFault (List Char)
  | .scalar s => s.dump
  | .list items => (dumpsIn outer items).map (bracketed '[' · ']')
  | .pair k v => do
    let key ← dumpIn outer k
    let value ← dumpIn outer v
    return bracketed '[' [key, value] ']'
  | .set members => (members.mapM Scalar.dump).map (bracketed '[' · ']')
  | .map entries => (dumpEntriesIn outer entries).map (bracketed '\x7b' · '\x7d')
  | .turn id content =>
    if outer.contains id then .error .circular else dumpIn (id :: outer) content
  | .cut => .error .circular

def dumpsIn (outer : List Nat) : List Value → Except DumpFault (List (List Char))
  | [] => .ok []
  | v :: r => do
    let first ← dumpIn outer v
    let rest ← dumpsIn outer r
    return first :: rest

def dumpEntriesIn (outer : List Nat) : List (Scalar × Value) → Except DumpFault (List (List Char))
  | [] => .ok []
  | (k, v) :: r => do
    let key ← k.dumpKey
    let value ← dumpIn outer v
    let rest ← dumpEntriesIn outer r
    return member key value :: rest

end

mutual

def height : Value → Nat
  | .scalar _ => 1
  | .list items => heightOfItems items + 1
  | .pair k v => max k.height v.height + 1
  | .set members => if members.isEmpty then 1 else 2
  | .map entries => heightOfEntries entries + 1
  | .turn _ content => content.height
  | .cut => 1

def heightOfItems : List Value → Nat
  | [] => 0
  | v :: r => max v.height (heightOfItems r)

def heightOfEntries : List (Scalar × Value) → Nat
  | [] => 0
  | (_, v) :: r => max v.height (heightOfEntries r)

end

def dump (v : Value) : Except DumpFault (List Char) := v.dumpIn []

end Value

end ApiModel
