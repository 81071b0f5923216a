namespace ApiModel.Yaml

def isBreak (c : Char) : Bool := c = '\n' || c = '\x85' || c = '\u2028' || c = '\u2029'

def isBlank (c : Char) : Bool := c = ' ' || c = '\t'

def endsWord (next : Option Char) : Bool := next.all fun c => isBreak c || isBlank c

def endsField (next : Option Char) : Bool := next.all fun c => isBreak c || c = ' '

def isNext (next : Option Char) (c : Char) : Bool := next = some c

structure Cursor where
  rest : List Char
  index : Nat
  line : Nat
  /-- Characters before this place in its line; a byte order mark takes no room. -/
  column : Nat

namespace Cursor

def ofText (cs : List Char) : Cursor := ⟨cs, 0, 0, 0⟩

def peek (c : Cursor) : Option Char := c.rest.head?

def peekSecond (c : Cursor) : Option Char := c.rest.tail.head?

def next (c : Cursor) : Cursor :=
  match c.rest with
  | [] => c
  | x :: r =>
    if isBreak x then ⟨r, c.index + 1, c.line + 1, 0⟩
    else ⟨r, c.index + 1, c.line, if x = '\ufeff' then c.column else c.column + 1⟩

def forward : Nat → Cursor → Cursor
  | 0, c => c
  | n + 1, c => forward n c.next

def skipWhile (p : Char → Bool) (c : Cursor) : Cursor := c.forward (c.rest.takeWhile p).length

/-- Past the line's end, with the character that it counts as; a next line counts as a line feed. -/
def lineBreak? (c : Cursor) : Option (Char × Cursor) :=
  match c.peek with
  | some x => if isBreak x then some (if x = '\x85' then '\n' else x, c.next) else none
  | none => none

def atMarker (c : Cursor) : Bool :=
  match c.rest with
  | '-' :: '-' :: '-' :: r | '.' :: '.' :: '.' :: r => endsWord r.head?
  | _ => false

def skipComment (c : Cursor) : Cursor :=
  if isNext c.peek '#' then c.skipWhile (!isBreak ·) else c

/-- Past spaces, a comment and the line's end; none if anything else stands in the line. -/
def skipRestOfLine? (c : Cursor) : Option Cursor :=
  let c := (c.skipWhile (· = ' ')).skipComment
  if c.rest.isEmpty then some c else c.lineBreak?.map (·.2)

end Cursor

def foldBreaks (first : Char) (more : List Char) : List Char :=
  if first ≠ '\n' then first :: more
  else if more.isEmpty then [' ']
  else more

end ApiModel.Yaml
