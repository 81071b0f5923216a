import ApiModel.Yaml.BlockScalar
import ApiModel.Yaml.Naming
import ApiModel.Yaml.PlainScalar
import ApiModel.Yaml.QuotedScalar

namespace ApiModel.Yaml

structure KeyPlace where
  count : Nat
  /-- It stands where its block goes on, so that nothing but a key can be meant. -/
  required : Bool
  index : Nat
  line : Nat
  column : Nat

structure Scan where
  cursor : Cursor
  flow : Nat
  /-- The column of the innermost block; minus one outside of all. -/
  indent : Int
  outer : List Int
  keyAllowed : Bool
  /-- The word that may be a key, for each count of open brackets. -/
  keys : List (Nat × KeyPlace)
  words : List Token
  count : Nat
  done : Bool

namespace Scan

def ofText (cs : List Char) : Scan := ⟨.ofText cs, 0, -1, [], true, [], [], 0, false⟩

def push (t : Token) (s : Scan) : Scan := { s with words := t :: s.words, count := s.count + 1 }

def insertAt (count : Nat) (ts : List Token) (s : Scan) : Scan :=
  let later := s.count - count
  { s with
    words := s.words.take later ++ ts.reverse ++ s.words.drop later
    count := s.count + ts.length }

/-- Closes the blocks that are deeper than a column; brackets make columns irrelevant. -/
def unwind (column : Int) (s : Scan) : Scan :=
  if 0 < s.flow then s
  else
    let closed := (s.indent :: s.outer).takeWhile (column < ·)
    match (s.indent :: s.outer).drop closed.length with
    | [] => s
    | indent :: outer =>
      { s with
        indent, outer
        words := List.replicate closed.length .blockEnd ++ s.words
        count := s.count + closed.length }

def opens (column : Nat) (s : Scan) : Bool := s.indent < column

def openBlock (column : Nat) (s : Scan) : Scan :=
  { s with indent := column, outer := s.indent :: s.outer }

def isStale (s : Scan) (k : KeyPlace) : Bool :=
  k.line ≠ s.cursor.line || 1024 < s.cursor.index - k.index

def dropStale (s : Scan) : Except Fault Scan :=
  if s.keys.any fun (_, k) => s.isStale k && k.required then .error .malformed
  else .ok { s with keys := s.keys.filter fun (_, k) => !s.isStale k }

/-- Forgets the word between the innermost brackets that may have been a key. -/
def dropKey (s : Scan) : Except Fault Scan :=
  if s.keys.any fun (flow, k) => flow = s.flow && k.required then .error .malformed
  else .ok { s with keys := s.keys.filter fun (flow, _) => flow ≠ s.flow }

def saveKey (s : Scan) : Except Fault Scan :=
  if s.keyAllowed then do
    let c := s.cursor
    let required := s.flow = 0 && s.indent = c.column
    let s ← s.dropKey
    return { s with keys := (s.flow, ⟨s.count, required, c.index, c.line, c.column⟩) :: s.keys }
  else .ok s

/-- Past spaces, comments and line ends; after a line end outside of brackets a key may start. -/
def skipToWord : (fuel : Nat) → Scan → Scan
  | 0, s => s
  | fuel + 1, s =>
    let c := (s.cursor.skipWhile (· = ' ')).skipComment
    match c.lineBreak? with
    | some (_, c) =>
      skipToWord fuel { s with cursor := c, keyAllowed := s.keyAllowed || s.flow = 0 }
    | none => { s with cursor := c }

def skipMark (s : Scan) : Scan :=
  if s.cursor.index = 0 && isNext s.cursor.peek '\ufeff' then { s with cursor := s.cursor.next } else s

def take (n : Nat) (t : Token) (s : Scan) : Scan :=
  { s.push t with cursor := s.cursor.forward n }

def keyWord (scan : Cursor → Except Fault (Token × Cursor)) (s : Scan) : Except Fault Scan := do
  let s ← s.saveKey
  let (t, c) ← scan s.cursor
  return { s.push t with cursor := c, keyAllowed := false }

def scanEnd (s : Scan) : Except Fault Scan := do
  let s ← (s.unwind (-1)).dropKey
  return { s with keys := [], done := true }

def betweenDocuments (scan : Cursor → Except Fault (Token × Cursor)) (s : Scan) :
    Except Fault Scan := do
  let s ← (s.unwind (-1)).dropKey
  let (t, c) ← scan s.cursor
  return { s.push t with cursor := c, keyAllowed := false }

def openFlow (t : Token) (s : Scan) : Except Fault Scan := do
  let s ← s.saveKey
  return { s.take 1 t with flow := s.flow + 1, keyAllowed := true }

def closeFlow (t : Token) (s : Scan) : Except Fault Scan := do
  let s ← s.dropKey
  if s.flow = 0 then .error .malformed
  return { s.take 1 t with flow := s.flow - 1, keyAllowed := false }

def scanFlowEntry (s : Scan) : Except Fault Scan := do
  let s ← s.dropKey
  return { s.take 1 .flowEntry with keyAllowed := true }

/-- Opens a block for a word that may only stand where a key may, unless brackets are open. -/
def blockFor (start : Token) (s : Scan) : Except Fault Scan :=
  if 0 < s.flow then .ok s
  else if !s.keyAllowed then .error .malformed
  else if s.opens s.cursor.column then .ok ((s.openBlock s.cursor.column).push start)
  else .ok s

def scanBlockEntry (s : Scan) : Except Fault Scan := do
  let s ← s.blockFor .blockSequenceStart
  let s ← s.dropKey
  return { s.take 1 .blockEntry with keyAllowed := true }

def scanKey (s : Scan) : Except Fault Scan := do
  let s ← s.blockFor .blockMappingStart
  let s ← s.dropKey
  return { s.take 1 .key with keyAllowed := s.flow = 0 }

/-- A colon: it makes the remembered word a key, or follows a key that was marked as one. -/
def scanValue (s : Scan) : Except Fault Scan :=
  match s.keys.find? fun (flow, _) => flow = s.flow with
  | some (_, k) =>
    let s := { s with keys := s.keys.filter fun (flow, _) => flow ≠ s.flow }
    let s := if s.flow = 0 && s.opens k.column then
        (s.openBlock k.column).insertAt k.count [.blockMappingStart, .key]
      else s.insertAt k.count [.key]
    .ok { s.take 1 .value with keyAllowed := false }
  | none => do
    let s ← s.blockFor .blockMappingStart
    let s ← s.dropKey
    return { s.take 1 .value with keyAllowed := s.flow = 0 }

def scanBlockScalar (size : Nat) (folded : Bool) (s : Scan) : Except Fault Scan := do
  let s ← s.dropKey
  let (text, c) ← blockScalar folded s.indent size s.cursor.next
  return { s.push (.scalar (String.ofList text : String) false) with cursor := c, keyAllowed := true }

def scanPlain (size : Nat) (s : Scan) : Except Fault Scan := do
  let s ← s.saveKey
  let p := plainScalar (0 < s.flow) (s.indent + 1).toNat size s.cursor
  return { s.push (.scalar (String.ofList p.text : String) true) with
    cursor := p.after, keyAllowed := p.breaksLine }

/-- A plain scalar may start with this character: an indicator only if a word follows it. -/
def startsPlain (flow : Nat) (first : Char) (next : Option Char) : Bool :=
  if first = '-' then !endsWord next
  else if first = '?' || first = ':' then flow = 0 && !endsWord next
  else !(isBreak first || isBlank first || ",[]\x7b\x7d#&*!|>'\"%@".toList.contains first ||
    first = Char.ofNat 0x60)

def scanWord (size : Nat) (first : Char) (s : Scan) : Except Fault Scan :=
  let next := s.cursor.peekSecond
  let loose := 0 < s.flow || endsWord next
  if first = '%' && s.cursor.column = 0 then
    s.betweenDocuments fun c => (scanDirective size c.next).map fun (d, c) => (.directive d, c)
  else if first = '-' && s.cursor.column = 0 && s.cursor.atMarker then
    s.betweenDocuments fun c => .ok (.documentStart, c.forward 3)
  else if first = '.' && s.cursor.column = 0 && s.cursor.atMarker then
    s.betweenDocuments fun c => .ok (.documentEnd, c.forward 3)
  else if first = '[' then s.openFlow .flowSequenceStart
  else if first = '\x7b' then s.openFlow .flowMappingStart
  else if first = ']' then s.closeFlow .flowSequenceEnd
  else if first = '\x7d' then s.closeFlow .flowMappingEnd
  else if first = ',' then s.scanFlowEntry
  else if first = '-' && endsWord next then s.scanBlockEntry
  else if first = '?' && loose then s.scanKey
  else if first = ':' && loose then s.scanValue
  else if first = '*' then
    s.keyWord fun c => (scanAnchor c.next).map fun (name, c) => (.alias name, c)
  else if first = '&' then
    s.keyWord fun c => (scanAnchor c.next).map fun (name, c) => (.anchor name, c)
  else if first = '!' then s.keyWord (scanTag size)
  else if (first = '|' || first = '>') && s.flow = 0 then s.scanBlockScalar size (first = '>')
  else if first = '\'' || first = '"' then
    s.keyWord fun c => (quotedScalar (first = '"') size c.next).map fun (text, c) =>
      (.scalar (.ofList text) false, c)
  else if startsPlain s.flow first next then s.scanPlain size
  else .error .malformed

def step (size : Nat) (s : Scan) : Except Fault Scan := do
  let s ← (s.skipMark.skipToWord size).dropStale
  let s := s.unwind s.cursor.column
  match s.cursor.peek with
  | none => s.scanEnd
  | some first => s.scanWord size first

def run (size : Nat) : (fuel : Nat) → Scan → Tokens
  | 0, s => ⟨s.words.reverse, some .malformed⟩
  | fuel + 1, s =>
    match s.step size with
    | .error e => ⟨s.words.reverse, some e⟩
    | .ok s => if s.done then ⟨s.words.reverse, none⟩ else run size fuel s

end Scan

def Tokens.ofText (cs : List Char) : Tokens :=
  Scan.run (cs.length + 1) (cs.length + 1) (.ofText cs)

end ApiModel.Yaml
