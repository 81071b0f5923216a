import ApiModel.Text.Numeral
import ApiModel.Yaml.Tag

namespace ApiModel.Yaml

open Text

/-- A character that double quotes alone can hold: no line end, and not one that readers accept as it
    is. -/
def isSpecial (c : Char) : Bool :=
  let n := c.toNat
  let accepted := c = '\n' || (0x20 ≤ n && n ≤ 0x7E) || n = 0x85 || (0xA0 ≤ n && n ≤ 0xD7FF) ||
    (0xE000 ≤ n && n ≤ 0xFFFD && n ≠ 0xFEFF) || (0x10000 ≤ n && n < 0x10FFFF)
  !accepted

def isGap (c : Char) : Bool := isBlank c || isBreak c || c = '\r' || c = '\x00'

def leadsBadly (first : Char) (next : Option Char) : Bool :=
  "#,[]\x7b\x7d&*!|>'\"%@".toList.contains first || first = Char.ofNat 0x60 ||
    (['?', ':', '-'].contains first && next.all isGap)

def meansMore (previous c : Char) (next : Option Char) : Bool :=
  (c = ':' && next.all isGap) || (c = '#' && isGap previous)

def isSpaceAtBreak (a b : Char) : Bool := a = ' ' && isBreak b

def anyNeighbours (p : Char → Char → Bool) : List Char → Bool
  | a :: b :: r => p a b || anyNeighbours p (b :: r)
  | _ => false

def anyMeansMore : List Char → Bool
  | a :: b :: r => meansMore a b r.head? || anyMeansMore (b :: r)
  | _ => false

def beginsLikeMarker (cs : List Char) : Bool := ["---", "..."].any fun m => m.toList.isPrefixOf cs

def isPlainText (cs : List Char) : Bool :=
  match cs with
  | [] => false
  | first :: r =>
    Tag.ofSpelling cs = .str && !beginsLikeMarker cs && !leadsBadly first r.head? &&
      !anyMeansMore cs && !cs.any (fun c => isSpecial c || isBreak c) && first ≠ ' ' &&
      cs.getLast? ≠ some ' '

/-- A text that single quotes can hold: no special character, and no space next to a line end. -/
def isQuotable (cs : List Char) : Bool :=
  !cs.any isSpecial && !anyNeighbours isSpaceAtBreak cs &&
    !anyNeighbours (fun a b => isSpaceAtBreak b a) cs

def lineWidth : Nat := 80

def newLine (indent : Nat) : List Char := '\n' :: List.replicate indent ' '

/-- A space at which a line may be folded: alone between two other characters. -/
def isFold (previous : Option Char) (c : Char) (next : Option Char) : Bool :=
  c = ' ' && previous.any (· ≠ ' ') && next.any (· ≠ ' ')

def plainFrom (indent : Nat) : (previous : Option Char) → (column : Nat) → List Char → List Char
  | _, _, [] => []
  | previous, column, c :: r =>
    if isFold previous c r.head? && lineWidth < column then
      newLine indent ++ plainFrom indent (some c) indent r
    else c :: plainFrom indent (some c) (column + 1) r

/-- A text in single quotes, behind the opening one. A quote is doubled; line ends are written once
    more than they count, since one alone would be read as a space. -/
def singleFrom (indent : Nat) : (previous : Option Char) → (column : Nat) → List Char → List Char
  | _, _, [] => ['\'']
  | previous, column, c :: r =>
    if isFold previous c r.head? && lineWidth < column then
      newLine indent ++ singleFrom indent (some c) indent r
    else if isBreak c then
      let extra := if c = '\n' && !previous.any isBreak then ['\n'] else []
      if r.head?.any isBreak then extra ++ c :: singleFrom indent (some c) 0 r
      else extra ++ c :: List.replicate indent ' ' ++ singleFrom indent (some c) indent r
    else if c = '\'' then '\'' :: '\'' :: singleFrom indent (some c) (column + 2) r
    else c :: singleFrom indent (some c) (column + 1) r

def escapeLetter? (c : Char) : Option Char :=
  match c with
  | '\x00' => some '0'
  | '\x07' => some 'a'
  | '\x08' => some 'b'
  | '\t' => some 't'
  | '\n' => some 'n'
  | '\x0b' => some 'v'
  | '\x0c' => some 'f'
  | '\r' => some 'r'
  | '\x1b' => some 'e'
  | '"' => some '"'
  | '\\' => some '\\'
  | '\x85' => some 'N'
  | '\u2028' => some 'L'
  | '\u2029' => some 'P'
  | _ => none

def isBare (c : Char) : Bool :=
  let n := c.toNat
  ((0x20 ≤ n && n ≤ 0x7E) || (0xA0 ≤ n && n ≤ 0xD7FF) || (0xE000 ≤ n && n ≤ 0xFFFD)) &&
    !(['"', '\\', '\u2028', '\u2029', '\ufeff'].contains c)

def escaped (l : Letter) : List Char :=
  match l.char?.bind escapeLetter? with
  | some letter => ['\\', letter]
  | none =>
    let n := l.code
    if n ≤ 0xFF then '\\' :: 'x' :: hexUpper 2 n
    else if n ≤ 0xFFFF then '\\' :: 'u' :: hexUpper 4 n
    else '\\' :: 'U' :: hexUpper 8 n

/-- A line end that counts for nothing, and a backslash in front of a space that comes next. -/
def escapedFold (indent : Nat) (next : Option Letter) : List Char × Nat :=
  if next = some (.char ' ') then ('\\' :: newLine indent ++ ['\\'], indent + 1)
  else ('\\' :: newLine indent, indent)

/-- A text in double quotes, behind the opening one. A line may be folded at a space and around an
    escape, though not next to the quotes. -/
def doubleFrom (indent : Nat) :
    (first afterEscape : Bool) → (column : Nat) → List Letter → List Char
  | _, _, _, [] => ['"']
  | first, afterEscape, column, l :: r =>
    let inside := !first && !r.isEmpty
    match l.char?.filter isBare with
    | some c =>
      if inside && (c = ' ' || afterEscape) && lineWidth < column then
        let (fold, column) := escapedFold indent (some l)
        fold ++ c :: doubleFrom indent false false (column + 1) r
      else c :: doubleFrom indent false false (column + 1) r
    | none =>
      let e := escaped l
      if inside && lineWidth + 1 < column + e.length then
        let (fold, column) := escapedFold indent r.head?
        e ++ fold ++ doubleFrom indent false true column r
      else e ++ doubleFrom indent false true (column + e.length) r

def doubleQuoted (indent column : Nat) (s : Str) : List Char :=
  '"' :: doubleFrom indent true false (column + 1) s.toList

/-- A text as a scalar that starts at a column; further lines of it start at column `indent`. -/
def writeText (indent column : Nat) (s : Str) : List Char :=
  match s.chars? with
  | some cs =>
    if isPlainText cs then plainFrom indent none column cs
    else if isQuotable cs then '\'' :: singleFrom indent none (column + 1) cs
    else doubleQuoted indent column s
  | none => doubleQuoted indent column s

end ApiModel.Yaml
