import ApiModel.Text.Printable
import ApiModel.Text.Str

namespace ApiModel.Text

def codeEscape (code : Nat) : List Char :=
  if code < 0x100 then '\\' :: 'x' :: hexLower 2 code
  else if code < 0x10000 then '\\' :: 'u' :: hexLower 4 code
  else '\\' :: 'U' :: hexLower 8 code

def literalChar (quote c : Char) : List Char :=
  if c = quote || c = '\\' then ['\\', c]
  else if c = '\n' then ['\\', 'n']
  else if c = '\r' then ['\\', 'r']
  else if c = '\t' then ['\\', 't']
  else if isVisible c then [c]
  else codeEscape c.toNat

def literalLetter (quote : Char) : Letter → List Char
  | .char c => literalChar quote c
  | l => codeEscape l.code

def literalQuote (ls : List Letter) : Char :=
  if ls.contains (.char '\'') && !ls.contains (.char '"') then '"' else '\''

def textLiteral (s : Str) : List Char :=
  let quote := literalQuote s.toList
  quote :: s.toList.flatMap (literalLetter quote) ++ [quote]

def bytesLiteral (bs : List UInt8) : List Char :=
  let cs := bs.map fun b => Char.ofNat b.toNat
  let quote := literalQuote (cs.map .char)
  let escape (c : Char) : List Char :=
    if 0x7F ≤ c.toNat then codeEscape c.toNat else literalChar quote c
  'b' :: quote :: cs.flatMap escape ++ [quote]

end ApiModel.Text
