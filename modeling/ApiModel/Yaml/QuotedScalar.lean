import ApiModel.Text.Str
import ApiModel.Yaml.Cursor
import ApiModel.Yaml.Fault

namespace ApiModel.Yaml

open Text

def namedEscape? : Char → Option Char
  | '0' => some '\x00'
  | 'a' => some '\x07'
  | 'b' => some '\x08'
  | 't' | '\t' => some '\t'
  | 'n' => some '\n'
  | 'v' => some '\x0b'
  | 'f' => some '\x0c'
  | 'r' => some '\r'
  | 'e' => some '\x1b'
  | ' ' => some ' '
  | '"' => some '"'
  | '\\' => some '\\'
  | '/' => some '/'
  | 'N' => some '\x85'
  | '_' => some '\xa0'
  | 'L' => some '\u2028'
  | 'P' => some '\u2029'
  | _ => none

def codeLength? : Char → Option Nat
  | 'x' => some 2
  | 'u' => some 4
  | 'U' => some 8
  | _ => none

def hexCode? : (n : Nat) → List Char → (high : Nat) → Option Nat
  | 0, _, high => some high
  | n + 1, c :: r, high => (hexValue? c).bind fun d => hexCode? n r (high * 16 + d)
  | _ + 1, [], _ => none

def letterOfCode (code : Nat) : Except Fault Letter :=
  if 0x10FFFF < code then .error (.noSuchCharacter code) else .ok (.ofCode code)

/-- Line ends that follow a first one, with the blanks around them dropped. -/
def quotedBreaks : (fuel : Nat) → Cursor → Except Fault (List Char × Cursor)
  | 0, _ => .error .malformed
  | fuel + 1, c =>
    if c.atMarker then .error .malformed
    else
      let c := c.skipWhile isBlank
      match c.lineBreak? with
      | none => .ok ([], c)
      | some (b, c) => (quotedBreaks fuel c).map fun (more, c) => (b :: more, c)

def quotedGap (fuel : Nat) (c : Cursor) : Except Fault (List Char × Cursor) :=
  let blanks := c.rest.takeWhile isBlank
  let c := c.forward blanks.length
  match c.lineBreak? with
  | some (b, c) => (quotedBreaks fuel c).map fun (more, c) => (foldBreaks b more, c)
  | none => .ok (blanks, c)

/-- An escape after its backslash: a named character, a code, or a line end that counts for nothing. -/
def quotedEscape (fuel : Nat) (c : Cursor) : Except Fault (List Letter × Cursor) :=
  match c.peek with
  | none => .error .malformed
  | some x => match namedEscape? x with
    | some y => .ok ([.char y], c.next)
    | none => match codeLength? x with
      | some n => match hexCode? n c.next.rest 0 with
        | some code => (letterOfCode code).map fun y => ([y], c.forward (n + 1))
        | none => .error .malformed
      | none => match c.lineBreak? with
        | some (_, c) => (quotedBreaks fuel c).map fun (cs, c) => (cs.map .char, c)
        | none => .error .malformed

def quotedScalar (double : Bool) : (fuel : Nat) → Cursor → Except Fault (List Letter × Cursor)
  | 0, _ => .error .malformed
  | fuel + 1, c =>
    match c.peek with
    | none => .error .malformed
    | some x =>
      let piece : Except Fault (Option (List Letter × Cursor)) :=
        if isBlank x || isBreak x then (quotedGap fuel c).map fun (cs, c) => some (cs.map .char, c)
        else if double then
          if x = '"' then .ok none
          else if x = '\\' then (quotedEscape fuel c.next).map some
          else .ok (some ([.char x], c.next))
        else if x = '\'' then
          if isNext c.peekSecond '\'' then .ok (some ([.char x], c.forward 2)) else .ok none
        else .ok (some ([.char x], c.next))
      match piece with
      | .error e => .error e
      | .ok none => .ok ([], c.next)
      | .ok (some (text, c)) => (quotedScalar double fuel c).map fun (more, c) => (text ++ more, c)

end ApiModel.Yaml
