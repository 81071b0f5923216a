import ApiModel.Text.Str

namespace ApiModel.Json

open Text

/-- A character between the quotes: five controls have names, the others are written by code. -/
def encodeChar (c : Char) : List Char :=
  if c = '"' then ['\\', '"']
  else if c = '\\' then ['\\', '\\']
  else if c = '\n' then ['\\', 'n']
  else if c = '\r' then ['\\', 'r']
  else if c = '\t' then ['\\', 't']
  else if c = '\x08' then ['\\', 'b']
  else if c = '\x0c' then ['\\', 'f']
  else if c.toNat < 0x20 then '\\' :: 'u' :: hexLower 4 c.toNat
  else [c]

def quote (cs : List Char) : List Char := '"' :: cs.flatMap encodeChar ++ ['"']

def encodeLetter : Letter → List Letter
  | .char c => (encodeChar c).map .char
  | .half offset => [.half offset]

/-- The same for a text, whose halves of pairs stand as they are. -/
def quoteText (s : Str) : List Letter :=
  .char '"' :: s.toList.flatMap encodeLetter ++ [.char '"']

end ApiModel.Json
