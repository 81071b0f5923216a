import ApiModel.Yaml.Cursor
import ApiModel.Yaml.Fault

namespace ApiModel.Yaml

/-- What becomes of the line ends at the end: all dropped, one kept, all kept. -/
inductive Chomping
  | strip
  | clip
  | keep
  deriving DecidableEq

structure BlockHeader where
  chomping : Chomping
  deeper : Option Nat
  after : Cursor

def chomping? : Option Char → Option Chomping
  | some '+' => some .keep
  | some '-' => some .strip
  | _ => none

def deeper? : Option Char → Option Nat
  | some c => if '1' ≤ c && c ≤ '9' then some (c.toNat - '0'.toNat) else none
  | none => none

def blockIndicators (c : Cursor) : BlockHeader :=
  match chomping? c.peek with
  | some chomping => match deeper? c.next.peek with
    | some n => ⟨chomping, some n, c.forward 2⟩
    | none => ⟨chomping, none, c.next⟩
  | none => match deeper? c.peek with
    | some n => match chomping? c.next.peek with
      | some chomping => ⟨chomping, some n, c.forward 2⟩
      | none => ⟨.clip, some n, c.next⟩
    | none => ⟨.clip, none, c⟩

/-- The header up to the end of its line; nothing but a comment follows the indicators. -/
def blockHeader (c : Cursor) : Except Fault BlockHeader :=
  let h := blockIndicators c
  if endsField h.after.peek then match h.after.skipRestOfLine? with
    | some after => .ok { h with after }
    | none => .error .malformed
  else .error .malformed

/-- Empty lines at the start, and the deepest column that a line of spaces among them reaches. -/
def leadingLines : (fuel deepest : Nat) → Cursor → List Char × Nat × Cursor
  | 0, deepest, c => ([], deepest, c)
  | fuel + 1, deepest, c =>
    if isNext c.peek ' ' then leadingLines fuel (max deepest c.next.column) c.next
    else match c.lineBreak? with
      | some (b, c) =>
        let (more, deepest, c) := leadingLines fuel deepest c
        (b :: more, deepest, c)
      | none => ([], deepest, c)

def skipIndent (indent : Nat) (c : Cursor) : Cursor :=
  c.forward ((c.rest.take (indent - c.column)).takeWhile (· = ' ')).length

/-- Empty lines between others, up to column `indent` of the next that is not empty. -/
def emptyLines (indent : Nat) : (fuel : Nat) → Cursor → List Char × Cursor
  | 0, c => ([], c)
  | fuel + 1, c =>
    let c := skipIndent indent c
    match c.lineBreak? with
    | some (b, c) =>
      let (more, c) := emptyLines indent fuel c
      (b :: more, c)
    | none => ([], c)

structure BlockBody where
  text : List Char
  lastBreak : List Char
  trailing : List Char
  after : Cursor

/-- The line end between two lines: between two that do not start with a blank, folding turns one
    line feed into a space, or into nothing before empty lines. -/
def betweenLines (folded : Bool) (lineBreak : List Char) (first next : Option Char)
    (empty : List Char) : List Char :=
  if folded && lineBreak = ['\n'] && !first.any isBlank && !next.any isBlank then
    if empty.isEmpty then [' '] else []
  else lineBreak

def blockBody (folded : Bool) (indent : Nat) : (fuel : Nat) → (empty : List Char) → Cursor → BlockBody
  | 0, empty, c => ⟨[], [], empty, c⟩
  | fuel + 1, empty, c =>
    if c.column = indent && !c.rest.isEmpty then
      let first := c.peek
      let line := c.rest.takeWhile (!isBreak ·)
      let ended := c.forward line.length
      let (lineBreak, c) := match ended.lineBreak? with
        | some (b, c) => ([b], c)
        | none => ([], ended)
      let (nextEmpty, c) := emptyLines indent fuel c
      let more := blockBody folded indent fuel nextEmpty c
      if c.column = indent && !c.rest.isEmpty then
        let between := betweenLines folded lineBreak first c.peek nextEmpty
        { more with text := empty ++ line ++ between ++ more.text }
      else ⟨empty ++ line, lineBreak, nextEmpty, c⟩
    else ⟨[], [], empty, c⟩

/-- The scalar after its `|` or `>`, inside a block whose lines start at column `parent`, counted from
    minus one. -/
def blockScalar (folded : Bool) (parent : Int) (fuel : Nat) (c : Cursor) :
    Except Fault (List Char × Cursor) := do
  let h ← blockHeader c
  let least := max (parent + 1) 1
  let (indent, empty, c) := match h.deeper with
    | some n =>
      let indent := (least + n - 1).toNat
      (indent, emptyLines indent fuel h.after)
    | none =>
      let (empty, deepest, c) := leadingLines fuel 0 h.after
      (max least.toNat deepest, empty, c)
  let body := blockBody folded indent fuel empty c
  let ending := match h.chomping with
    | .strip => []
    | .clip => body.lastBreak
    | .keep => body.lastBreak ++ body.trailing
  return (body.text ++ ending, body.after)

end ApiModel.Yaml
