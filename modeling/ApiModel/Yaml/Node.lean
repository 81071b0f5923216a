import ApiModel.Yaml.Scalar
import ApiModel.Yaml.Tree

namespace ApiModel.Yaml

structure Node where
  tag : Tag
  text : Option Str
  items : Option (List Node)
  entries : Option (List (Node × Node))
  /-- The same with the merged ones in place of the merge keys; none if a merge key is not above
      mappings. -/
  merged : Option (List (Node × Node))
  now : Option Fault
  later : List (Option Fault)
  value : Value

namespace Node

def joinLevels (a b : List (Option Fault)) : List (Option Fault) :=
  match a, b with
  | [], b => b
  | a, [] => a
  | x :: a, y :: b => x.or y :: joinLevels a b

/-- The levels of a container: what is wrong with its nodes themselves, and what is below. -/
def levels (first : Option Fault) (nodes : List Node) : List (Option Fault) :=
  first :: nodes.foldr (fun n below => joinLevels n.later below) []

def firstNow (nodes : List Node) : Option Fault := nodes.findSome? now

def asKey (n : Node) : Node :=
  if n.tag = .value then match n.text with
    | some s => { n with tag := .str, now := none, value := .str s }
    | none => { n with tag := .str, now := some .malformed }
  else n

def key? (n : Node) : Option Scalar :=
  match n.value with
  | .scalar s => some s
  | _ => none

/-- The entries that a merge key brings in: those of a mapping, or of several, the last first. -/
def broughtIn (n : Node) : Option (List (Node × Node)) :=
  match n.entries, n.items with
  | some _, _ => n.merged
  | none, some items => (items.mapM merged).map fun all => all.reverse.flatten
  | none, none => none

/-- The entries with the merged ones in front; own entries come later and so count more. -/
def merge (entries : List (Node × Node)) : Option (List (Node × Node)) := do
  let front ← (entries.filter (·.1.tag = .merge)).mapM fun e => e.2.broughtIn
  let own := entries.filter (·.1.tag ≠ .merge)
  return front.flatten ++ own.map fun e => (e.1.asKey, e.2)

/-- What is wrong with an entry: its key, a key that is a container, or its value. -/
def entryFault (e : Node × Node) : Option Fault :=
  e.1.now.or (if e.1.key?.isSome then e.2.now else some .malformed)

def entryNodes (entries : List (Node × Node)) : List Node := entries.flatMap fun e => [e.1, e.2]

def keyed (entries : List (Node × Node)) : List (Scalar × Value) :=
  entries.filterMap fun e => e.1.key?.map (·, e.2.value)

def ofEntries (entries : Option (List (Node × Node))) (value : List (Scalar × Value) → Value) :
    List (Option Fault) × Value :=
  match entries with
  | none => ([some .malformed], .null)
  | some es => (levels (es.findSome? entryFault) (entryNodes es), value (keyed es))

def ofItems (items : Option (List Node)) : List (Option Fault) × Value :=
  match items with
  | none => ([some .malformed], .null)
  | some items => (levels (firstNow items) items, .list (items.map value))

def single? (n : Node) : Option (Node × Node) :=
  match n.entries with
  | some [e] => some e
  | _ => none

def ofPairs (items : Option (List Node)) : List (Option Fault) × Value :=
  match items with
  | none => ([some .malformed], .null)
  | some items =>
    let fault (n : Node) : Option Fault := match n.single? with
      | some (k, v) => k.now.or v.now
      | none => some .malformed
    let pairs := items.filterMap single?
    (levels (items.findSome? fault) (entryNodes pairs),
      .list (pairs.map fun e => .pair e.1.value e.2.value))

/-- What a container node says: the fault of the node itself, those below, and its value. -/
def contents (tag : Tag) (text : Option Str) (items : Option (List Node))
    (merged : Option (List (Node × Node))) : Option Fault × List (Option Fault) × Value :=
  match tag with
  | .seq => (none, ofItems items)
  | .map => (none, ofEntries merged fun es => .map (Entries.ofList es))
  | .set => (none, ofEntries merged fun es =>
      .set (es.foldl (fun members e => putMember members e.1) []))
  | .orderedMap | .pairs => (none, ofPairs items)
  | tag => match text with
    | none => (some .malformed, [], .null)
    | some s => match tag.scalar s with
      | .ok s => (none, [], .scalar s)
      | .error e => (some e, [], .null)

def cut : Node := ⟨.map, none, none, some [], some [], none, [], .cut⟩

/-- The text of a mapping where a scalar is wanted: that of its value under the sign for a value. -/
def textOfEntries (entries : List (Node × Node)) : Option Str :=
  (entries.find? fun e => e.1.tag = .value).bind fun e => e.2.text

def make (tag : Tag) (text : Option Str) (items : Option (List Node))
    (entries : Option (List (Node × Node))) (mark : Value → Value) : Node :=
  let merged := entries.bind merge
  let (now, later, value) := contents tag text items merged
  ⟨tag, text, items, entries, merged, now, later, match value with
    | .scalar s => .scalar s
    | v => mark v⟩

end Node

namespace Tree

mutual

def containers : Tree → Nat
  | .alias _ | .scalar _ _ _ => 0
  | .seq _ _ items => itemContainers items + 1
  | .map _ _ entries => entryContainers entries + 1

def itemContainers : List Tree → Nat
  | [] => 0
  | t :: r => t.containers + itemContainers r

def entryContainers : List (Tree × Tree) → Nat
  | [] => 0
  | (k, v) :: r => k.containers + v.containers + entryContainers r

end

mutual

/-- The named nodes in it, each with the number of the first container in it. -/
def named (id : Nat) : Tree → List (String × Nat × Tree)
  | .alias _ => []
  | .scalar a tag text => (a.map (·, id, .scalar a tag text)).toList
  | .seq a tag items => (a.map (·, id, .seq a tag items)).toList ++ namedItems (id + 1) items
  | .map a tag entries => (a.map (·, id, .map a tag entries)).toList ++ namedEntries (id + 1) entries

def namedItems (id : Nat) : List Tree → List (String × Nat × Tree)
  | [] => []
  | t :: r => t.named id ++ namedItems (id + t.containers) r

def namedEntries (id : Nat) : List (Tree × Tree) → List (String × Nat × Tree)
  | [] => []
  | (k, v) :: r => k.named id ++ v.named (id + k.containers) ++
      namedEntries (id + k.containers + v.containers) r

end

mutual

def refersTo (names : List String) : Tree → Bool
  | .alias a => names.contains a
  | .scalar _ _ _ => false
  | .seq a _ items => itemRefersTo (a.toList ++ names) items
  | .map a _ entries => entryRefersTo (a.toList ++ names) entries

def itemRefersTo (names : List String) : List Tree → Bool
  | [] => false
  | t :: r => refersTo names t || itemRefersTo names r

def entryRefersTo (names : List String) : List (Tree × Tree) → Bool
  | [] => false
  | (k, v) :: r => refersTo names k || refersTo names v || entryRefersTo names r

end

variable (known : List (String × Node)) (mark : Nat → Value → Value)

mutual

/-- What the tree says where references say what `known` has for them. Containers are numbered in the
    order of the text from `id` on, and marked with their number. -/
def toNode (id : Nat) : Tree → Node
  | .alias name => ((known.find? fun e => e.1 = name).map (·.2)).getD .cut
  | .scalar _ tag text => .make tag (some text) none none fun v => v
  | .seq _ tag items => .make tag none (some (toNodes (id + 1) items)) none (mark id)
  | .map _ tag entries =>
    let es := toEntries (id + 1) entries
    .make tag (Node.textOfEntries es) none (some es) (mark id)

def toNodes (id : Nat) : List Tree → List Node
  | [] => []
  | t :: r => toNode id t :: toNodes (id + t.containers) r

def toEntries (id : Nat) : List (Tree × Tree) → List (Node × Node)
  | [] => []
  | (k, v) :: r => (toNode id k, toNode (id + k.containers) v) ::
      toEntries (id + k.containers + v.containers) r

end

variable (names : List (String × Nat × Tree))

/-- What the names stand for when references are followed over at most `depth` names. -/
def knownTo : (depth : Nat) → List (String × Node)
  | 0 => names.map fun e => (e.1, .cut)
  | depth + 1 =>
    let known := knownTo depth
    names.map fun (name, id, t) => (name, toNode known mark id t)

/-- How far references are followed. Without a node that contains itself, as many names as there are
    end every chain. Otherwise a reader goes on only until it meets a container a second time in the
    same role, and the roles outside of schemas are few. -/
def depthFor (t : Tree) : Nat :=
  if t.refersTo [] then 3 * t.containers + 10 else (t.named 0).length

/-- What the whole tree says. Only a tree with a node that contains itself has its containers marked. -/
def root (t : Tree) : Node :=
  let mark : Nat → Value → Value := if t.refersTo [] then .turn else fun _ v => v
  toNode (knownTo mark (t.named 0) (depthFor t)) mark 0 t

def value (t : Tree) : Except Fault Value :=
  let n := t.root
  match n.now.or (n.later.findSome? id) with
  | some e => .error e
  | none => .ok n.value

end Tree

end ApiModel.Yaml
