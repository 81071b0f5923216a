import ApiModel.Text.Utf8
import ApiModel.Text.Classes
import ApiModel.Yaml.Cursor
import ApiModel.Yaml.Token

namespace ApiModel.Yaml

open Text

/-- A character of a name: a letter or digit of ASCII, a hyphen, an underscore. -/
def isNameChar (c : Char) : Bool := c.isAlphanum || c = '-' || c = '_'

/-- A character of a tag beside the percent sign that starts an escaped byte. -/
def isTagChar (c : Char) : Bool :=
  isNameChar c || ";/?:@&=+$,.!~*'()[]".toList.contains c

def scanName (c : Cursor) : Except Fault (String × Cursor) :=
  let name := c.rest.takeWhile isNameChar
  if name.isEmpty then .error .malformed
  else .ok (String.ofList name, c.forward name.length)

def scanAnchor (c : Cursor) : Except Fault (String × Cursor) := do
  let (name, c) ← scanName c
  if endsWord c.peek || c.peek.any (['?', ':', ',', ']', '\x7d', '%', '@', Char.ofNat 0x60].contains ·) then
    return (name, c)
  else .error .malformed

def escapedBytes : (fuel : Nat) → Cursor → Except Fault (List UInt8 × Cursor)
  | 0, c => .ok ([], c)
  | fuel + 1, c => match c.rest with
    | '%' :: a :: b :: _ => match hexValue? a, hexValue? b with
      | some x, some y => (escapedBytes fuel (c.forward 3)).map fun (more, c) =>
        (UInt8.ofNat (x * 16 + y) :: more, c)
      | _, _ => .error .malformed
    | '%' :: _ => .error .malformed
    | _ => .ok ([], c)

def tagText : (fuel : Nat) → Cursor → Except Fault (List Char × Cursor)
  | 0, c => .ok ([], c)
  | fuel + 1, c =>
    let piece := c.rest.takeWhile isTagChar
    let c := c.forward piece.length
    if isNext c.peek '%' then do
      let (bytes, c) ← escapedBytes fuel c
      match decodeUtf8 bytes with
      | .error _ => .error .malformed
      | .ok cs =>
        let (more, c) ← tagText fuel c
        return (piece ++ cs ++ more, c)
    else .ok (piece, c)

def scanTagText (fuel : Nat) (c : Cursor) : Except Fault (String × Cursor) := do
  let (text, after) ← tagText fuel c
  if after.index = c.index then .error .malformed
  else return (String.ofList text, after)

def scanHandle (c : Cursor) : Except Fault (String × Cursor) :=
  match c.rest with
  | '!' :: r =>
    if r.head? = some ' ' then .ok ("!", c.next)
    else
      let name := r.takeWhile isNameChar
      let after := c.forward (name.length + 1)
      if isNext after.peek '!' then .ok (String.ofList ('!' :: name ++ ['!']), after.next)
      else .error .malformed
  | _ => .error .malformed

def usesHandle : List Char → Bool
  | [] => false
  | c :: r => !(c = ' ' || isBreak c) && (c = '!' || usesHandle r)

def scanTag (fuel : Nat) (c : Cursor) : Except Fault (Token × Cursor) := do
  let next := c.peekSecond
  let (handle, rest, c) ←
    if isNext next '<' then do
      let (text, c) ← scanTagText fuel (c.forward 2)
      if isNext c.peek '>' then pure (none, text, c.next) else .error .malformed
    else if endsWord next then pure (none, "!", c.next)
    else do
      let (handle, c) ← if usesHandle c.rest.tail then scanHandle c else pure ("!", c.next)
      let (text, c) ← scanTagText fuel c
      pure (some handle, text, c)
  if endsField c.peek then return (.tag handle rest, c) else .error .malformed

def scanVersionNumber (c : Cursor) : Except Fault (List Char × Cursor) :=
  let digits := c.rest.takeWhile Char.isDigit
  if digits.isEmpty then .error .malformed else .ok (digits, c.forward digits.length)

def scanVersion (c : Cursor) : Except Fault (Directive × Cursor) := do
  let (major, c) ← scanVersionNumber (c.skipWhile (· = ' '))
  if !isNext c.peek '.' then .error .malformed
  let (_, c) ← scanVersionNumber c.next
  if endsField c.peek then
    return (.version (major.foldl (fun n d => n * 10 + (d.toNat - '0'.toNat)) 0), c)
  else .error .malformed

/-- The value of a shorthand directive: the shorthand and what it stands for. -/
def scanShorthand (fuel : Nat) (c : Cursor) : Except Fault (Directive × Cursor) := do
  let (handle, c) ← scanHandle (c.skipWhile (· = ' '))
  if !isNext c.peek ' ' then .error .malformed
  let (full, c) ← scanTagText fuel (c.skipWhile (· = ' '))
  if endsField c.peek then return (.shorthand handle full, c) else .error .malformed

def scanDirective (fuel : Nat) (c : Cursor) : Except Fault (Directive × Cursor) := do
  let (name, c) ← scanName c
  if !endsField c.peek then .error .malformed
  let (directive, c) ←
    if name = "YAML" then scanVersion c
    else if name = "TAG" then scanShorthand fuel c
    else pure (.unknown, c.skipWhile (!isBreak ·))
  match c.skipRestOfLine? with
  | some c => return (directive, c)
  | none => .error .malformed

end ApiModel.Yaml
