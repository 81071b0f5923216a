import ApiModel.Yaml.Cursor

namespace ApiModel.Yaml

/-- A plain scalar ends before this character: at a blank, at a colon before a blank, and between
    flow brackets at a flow indicator. -/
def endsPlain (inFlow : Bool) (c : Char) (next : Option Char) : Bool :=
  isBlank c || isBreak c ||
    (c = ':' &&
      (endsWord next || (inFlow && next.any fun n => [',', '[', ']', '\x7b', '\x7d'].contains n))) ||
    (inFlow && [',', '?', '[', ']', '\x7b', '\x7d'].contains c)

/-- The count of characters up to where a plain scalar ends or a blank interrupts it. -/
def plainLength (inFlow : Bool) : List Char → Nat
  | [] => 0
  | c :: r => if endsPlain inFlow c r.head? then 0 else plainLength inFlow r + 1

/-- Line ends and spaces after a first line end; none at a marker between documents. -/
def plainBreaks : (fuel : Nat) → Cursor → Option (List Char) × Cursor
  | 0, c => (some [], c)
  | fuel + 1, c =>
    if isNext c.peek ' ' then plainBreaks fuel c.next
    else match c.lineBreak? with
      | none => (some [], c)
      | some (b, c) =>
        if c.atMarker then (none, c)
        else
          let (more, c) := plainBreaks fuel c
          (more.map (b :: ·), c)

structure PlainGap where
  /-- The text that stands for it; empty if the scalar ends here. -/
  text : List Char
  breaksLine : Bool
  after : Cursor

def plainGap (fuel : Nat) (c : Cursor) : PlainGap :=
  let spaces := c.rest.takeWhile (· = ' ')
  let c := c.forward spaces.length
  match c.lineBreak? with
  | none => ⟨spaces, false, c⟩
  | some (b, c) =>
    if c.atMarker then ⟨[], true, c⟩
    else match plainBreaks fuel c with
      | (none, c) => ⟨[], true, c⟩
      | (some more, c) => ⟨foldBreaks b more, true, c⟩

structure PlainScalar where
  text : List Char
  breaksLine : Bool
  after : Cursor

/-- The scalar from a word on; a following line belongs to it from column `indent` on. -/
def plainScalar (inFlow : Bool) (indent : Nat) : (fuel : Nat) → Cursor → PlainScalar
  | 0, c => ⟨[], false, c⟩
  | fuel + 1, c =>
    let word := c.rest.take (plainLength inFlow c.rest)
    let gap := plainGap fuel (c.forward word.length)
    let ends := gap.text.isEmpty || isNext gap.after.peek '#' ||
      (!inFlow && gap.after.column < indent) || plainLength inFlow gap.after.rest = 0
    if ends then ⟨word, gap.breaksLine, gap.after⟩
    else
      let more := plainScalar inFlow indent fuel gap.after
      ⟨word ++ gap.text ++ more.text, more.breaksLine, more.after⟩

end ApiModel.Yaml
