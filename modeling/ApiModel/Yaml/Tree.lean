import ApiModel.Yaml.Tag
import ApiModel.Yaml.Token

namespace ApiModel.Yaml

inductive Tree
  | alias (name : String)
  | scalar (anchor : Option String) (tag : Tag) (text : Str)
  | seq (anchor : Option String) (tag : Tag) (items : List Tree)
  | map (anchor : Option String) (tag : Tag) (entries : List (Tree × Tree))

namespace Tree

def empty : Tree := .scalar none .null ""

abbrev Shorthands := List (String × String)

def defaultShorthands : Shorthands := [("!", "!"), ("!!", coreTags)]

structure Properties where
  anchor : Option String
  tag : Option String

def fullTag (known : Shorthands) (handle : Option String) (rest : String) : Except Fault String :=
  match handle with
  | none => .ok rest
  | some h => match known.find? fun e => e.1 = h with
    | some (_, full) => .ok (full ++ rest)
    | none => .error .malformed

def properties (known : Shorthands) : List Token → Except Fault (Properties × List Token)
  | .anchor a :: .tag h t :: r | .tag h t :: .anchor a :: r =>
    (fullTag known h t).map fun tag => (⟨some a, some tag⟩, r)
  | .anchor a :: r => .ok (⟨some a, none⟩, r)
  | .tag h t :: r => (fullTag known h t).map fun tag => (⟨none, some tag⟩, r)
  | ts => .ok (⟨none, none⟩, ts)

/-- The kind of a node: the tag's, or `default` without a tag that says more than "not plain". -/
def Properties.kind (p : Properties) (default : Tag) : Tag :=
  match p.tag with
  | none => default
  | some tag => if tag = "!" then default else .ofName tag

/-- The kind of a scalar: by its spelling if it is plain, or if its tag says so. -/
def Properties.scalarKind (p : Properties) (plain : Bool) (text : Str) : Tag :=
  p.kind (if plain || p.tag.isSome then .ofText text else .str)

def nextIn (choices : List Token) : List Token → Bool
  | t :: _ => choices.contains t
  | [] => false

/-- The part of a mapping's entry after its key: nothing, or a colon and perhaps a node. -/
def afterColon (ends : List Token) (node : List Token → Except Fault (Tree × List Token)) :
    List Token → Except Fault (Tree × List Token)
  | .value :: r => if nextIn ends r then .ok (empty, r) else node r
  | ts => .ok (empty, ts)

def orEmpty (ends : List Token) (node : List Token → Except Fault (Tree × List Token))
    (ts : List Token) : Except Fault (Tree × List Token) :=
  if nextIn ends ts then .ok (empty, ts) else node ts

def afterComma (ending : Fault) : List Token → Except Fault (List Token)
  | .flowEntry :: r => .ok r
  | [] => .error ending
  | _ => .error .malformed

def entryEnds : List Token := [.key, .value, .blockEnd]

variable (known : Shorthands) (ending : Fault)

mutual

/-- A node. `block` allows the forms that indentation marks, `indentless` also a sequence whose
    hyphens stand in the column of the mapping around it. `ending` is the fault of missing words. -/
def node : (fuel : Nat) → (block indentless : Bool) → List Token → Except Fault (Tree × List Token)
  | 0, _, _, _ => .error .malformed
  | _ + 1, _, _, .alias name :: r => .ok (.alias name, r)
  | fuel + 1, block, indentless, ts => do
    let (p, ts) ← properties known ts
    match ts with
    | .scalar text plain :: r =>
      return (.scalar p.anchor (p.scalarKind plain text) text, r)
    | .flowSequenceStart :: r =>
      let (items, r) ← flowItems fuel true r
      return (.seq p.anchor (p.kind .seq) items, r)
    | .flowMappingStart :: r =>
      let (entries, r) ← flowEntries fuel true r
      return (.map p.anchor (p.kind .map) entries, r)
    | r =>
      if indentless && nextIn [.blockEntry] r then
        let (items, r) ← indentlessItems fuel r
        return (.seq p.anchor (p.kind .seq) items, r)
      else if block && nextIn [.blockSequenceStart] r then
        let (items, r) ← blockItems fuel r.tail
        return (.seq p.anchor (p.kind .seq) items, r)
      else if block && nextIn [.blockMappingStart] r then
        let (entries, r) ← blockEntries fuel r.tail
        return (.map p.anchor (p.kind .map) entries, r)
      else if p.anchor.isSome || p.tag.isSome then
        return (.scalar p.anchor (p.scalarKind true "") "", r)
      else .error (if r.isEmpty then ending else .malformed)

def blockItems : (fuel : Nat) → List Token → Except Fault (List Tree × List Token)
  | 0, _ => .error .malformed
  | _ + 1, .blockEnd :: r => .ok ([], r)
  | fuel + 1, .blockEntry :: r => do
    let (item, r) ← orEmpty [.blockEntry, .blockEnd] (node fuel true false) r
    let (items, r) ← blockItems fuel r
    return (item :: items, r)
  | _ + 1, [] => .error ending
  | _ + 1, _ => .error .malformed

def indentlessItems : (fuel : Nat) → List Token → Except Fault (List Tree × List Token)
  | 0, _ => .error .malformed
  | fuel + 1, .blockEntry :: r => do
    let (item, r) ← orEmpty (.blockEntry :: entryEnds) (node fuel true false) r
    let (items, r) ← indentlessItems fuel r
    return (item :: items, r)
  | _ + 1, ts => .ok ([], ts)

def blockEntries : (fuel : Nat) → List Token → Except Fault (List (Tree × Tree) × List Token)
  | 0, _ => .error .malformed
  | _ + 1, .blockEnd :: r => .ok ([], r)
  | fuel + 1, .key :: r => do
    let (key, r) ← orEmpty entryEnds (node fuel true true) r
    let (value, r) ← afterColon entryEnds (node fuel true true) r
    let (entries, r) ← blockEntries fuel r
    return ((key, value) :: entries, r)
  | _ + 1, [] => .error ending
  | _ + 1, _ => .error .malformed

/-- The items between square brackets; one with a colon is a mapping of one entry. -/
def flowItems : (fuel : Nat) → (first : Bool) → List Token → Except Fault (List Tree × List Token)
  | 0, _, _ => .error .malformed
  | _ + 1, _, .flowSequenceEnd :: r => .ok ([], r)
  | fuel + 1, first, ts => do
    let ts ← if first then .ok ts else afterComma ending ts
    match ts with
    | .flowSequenceEnd :: r => return ([], r)
    | .key :: r =>
      let ends := [Token.flowEntry, .flowSequenceEnd]
      let (key, r) ← orEmpty (.value :: ends) (node fuel false false) r
      let (value, r) ← afterColon ends (node fuel false false) r
      let (items, r) ← flowItems fuel false r
      return (.map none .map [(key, value)] :: items, r)
    | ts =>
      let (item, r) ← node fuel false false ts
      let (items, r) ← flowItems fuel false r
      return (item :: items, r)

def flowEntries : (fuel : Nat) → (first : Bool) → List Token →
    Except Fault (List (Tree × Tree) × List Token)
  | 0, _, _ => .error .malformed
  | _ + 1, _, .flowMappingEnd :: r => .ok ([], r)
  | fuel + 1, first, ts => do
    let ts ← if first then .ok ts else afterComma ending ts
    match ts with
    | .flowMappingEnd :: r => return ([], r)
    | .key :: r =>
      let ends := [Token.flowEntry, .flowMappingEnd]
      let (key, r) ← orEmpty (.value :: ends) (node fuel false false) r
      let (value, r) ← afterColon ends (node fuel false false) r
      let (entries, r) ← flowEntries fuel false r
      return ((key, value) :: entries, r)
    | ts =>
      let (key, r) ← node fuel false false ts
      let (entries, r) ← flowEntries fuel false r
      return ((key, empty) :: entries, r)

end

/-- The directives in front of a document: one version at most, the first of the language's, and no
    shorthand twice. -/
def directives : (version : Bool) → Shorthands → List Token → Except Fault (Shorthands × List Token)
  | version, known, .directive d :: r =>
    match d with
    | .version major =>
      if version || major ≠ 1 then .error .malformed else directives true known r
    | .shorthand handle full =>
      if known.any fun e => e.1 = handle then .error .malformed
      else directives version ((handle, full) :: known) r
    | .unknown => directives version known r
  | _, known, ts => .ok (known, ts)

def fuelFor (ts : List Token) : Nat := 4 * ts.length + 8

/-- The document after its directives and the line that starts it, if it has them. -/
def document (ending : Fault) (ts : List Token) : Except Fault (Tree × List Token) :=
  if (ts.head?.any fun t => t = .documentStart || t matches .directive _) then do
    let (known, ts) ← directives false [] ts
    match ts with
    | .documentStart :: r =>
      let blank := r.head?.all fun t => t = .documentStart || t = .documentEnd || t matches .directive _
      if blank then return (empty, r)
      else node (known ++ defaultShorthands) ending (fuelFor r) true false r
    | [] => .error ending
    | _ => .error .malformed
  else node defaultShorthands ending (fuelFor ts) true false ts

def ofTokens (t : Tokens) : Except Fault Tree :=
  let t := t.checkNames
  match t.list, t.fault with
  | [], none => .ok empty
  | ts, _ => do
    let (tree, r) ← document t.ending ts
    match r.dropWhile (· = .documentEnd), t.fault with
    | [], none => return tree
    | [], some e => .error e
    | _, _ => .error .malformed

end Tree

end ApiModel.Yaml
