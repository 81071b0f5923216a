import ApiModel.Proofs.Yaml.Scanning

namespace ApiModel.Yaml

open Json

def Gives {α : Type} (good : Bool) (result : Except Fault α) (a : α) : Prop :=
  match good with
  | true => result = .ok a
  | false => ∃ e, result = .error e

namespace Gives

variable {α β : Type} {good good' : Bool} {result : Except Fault α} {a : α} {b : β}

theorem bind {f : α → Except Fault β} (first : Gives good result a) (second : Gives good' (f a) b) :
    Gives (good && good') (result.bind f) b := by
  cases good with
  | true =>
    cases first
    exact second
  | false =>
    obtain ⟨e, rfl⟩ := first
    exact ⟨e, rfl⟩

theorem map {f : α → β} (first : Gives good result a) : Gives good (result.map f) (f a) := by
  cases good with
  | true =>
    cases first
    rfl
  | false =>
    obtain ⟨e, rfl⟩ := first
    exact ⟨e, rfl⟩

end Gives

def textTree (ps : List Piece) : Tree := .scalar none .str (.ofList (foldPieces false ps))

mutual

def tree : Spelling → Tree
  | .bare word => .scalar none (.ofSpelling word.chars) (String.ofList word.chars : String)
  | .quoted ps => textTree ps
  | .emptyList _ => .seq none .seq []
  | .list items => .seq none .seq (itemTrees items)
  | .emptyObject _ => .map none .map []
  | .object members => .map none .map (memberTrees members)

def itemTrees : Items → List Tree
  | .last _ item _ => [tree item]
  | .more _ item _ rest => tree item :: itemTrees rest

def memberTrees : Members → List (Tree × Tree)
  | .last label value _ => [(textTree label.key, tree value)]
  | .more label value _ rest => (textTree label.key, tree value) :: memberTrees rest

end

inductive StartsNode : List Token → Prop
  | scalar (text : Str) (plain : Bool) (r : List Token) : StartsNode (.scalar text plain :: r)
  | sequence (r : List Token) : StartsNode (.flowSequenceStart :: r)
  | mapping (r : List Token) : StartsNode (.flowMappingStart :: r)

theorem startsNode_tokens (t : Spelling) (r : List Token) : StartsNode (tokens t ++ r) := by
  cases t with
  | bare | quoted => exact .scalar ..
  | emptyList | list => exact .sequence _
  | emptyObject | object => exact .mapping _

variable {known : Tree.Shorthands} {ending : Fault} {fuel : Nat} {r : List Token}

section Steps

variable (known ending fuel r)

theorem node_scalar (text : Str) (plain block indentless : Bool) :
    Tree.node known ending (fuel + 1) block indentless (.scalar text plain :: r) =
      .ok (.scalar none (if plain then .ofText text else .str) text, r) := by
  cases plain <;> rfl

theorem node_sequence (block indentless : Bool) :
    Tree.node known ending (fuel + 1) block indentless (.flowSequenceStart :: r) =
      (Tree.flowItems known ending fuel true r).map fun (items, r) => (.seq none .seq items, r) := by
  rfl

theorem node_mapping (block indentless : Bool) :
    Tree.node known ending (fuel + 1) block indentless (.flowMappingStart :: r) =
      (Tree.flowEntries known ending fuel true r).map fun (es, r) => (.map none .map es, r) := by
  rfl

/-- What stands before an item or entry: nothing before the first, a comma before the others. -/
def lead (first : Bool) : List Token := if first then [] else [.flowEntry]

theorem flowItems_item {ts : List Token} (starts : StartsNode ts) (first : Bool) :
    Tree.flowItems known ending (fuel + 1) first (lead first ++ ts) =
      (Tree.node known ending fuel false false ts).bind fun (item, r) =>
        (Tree.flowItems known ending fuel false r).map fun (items, r) => (item :: items, r) := by
  cases first <;> cases starts <;> rfl

theorem flowEntries_entry {ts : List Token} (starts : StartsNode ts) (first : Bool) (key : Str) :
    Tree.flowEntries known ending (fuel + 2) first
        (lead first ++ .key :: .scalar key false :: .value :: ts) =
      (Tree.node known ending (fuel + 1) false false ts).bind fun (value, r) =>
        (Tree.flowEntries known ending (fuel + 1) false r).map fun (entries, r) =>
          ((.scalar none .str key, value) :: entries, r) := by
  cases first <;> cases starts <;> rfl

theorem flowEntries_fault (ts : List Token) (first : Bool) (key : Str) :
    ∃ e, Tree.flowEntries known ending fuel first
      (lead first ++ .scalar key false :: .value :: ts) = .error e := by
  cases fuel with
  | zero => cases first <;> exact ⟨_, rfl⟩
  | succ fuel =>
    cases fuel with
    | zero => cases first <;> exact ⟨_, rfl⟩
    | succ fuel => cases first <;> exact ⟨_, rfl⟩

end Steps

theorem tokens_length_pos (t : Spelling) : 0 < (tokens t).length := by
  cases t <;> simp [tokens]

theorem keyTokens_length (ps : List Piece) (near : Bool) :
    2 ≤ (Scan.keyTokens ps near).length := by
  cases near <;> simp [Scan.keyTokens]

theorem composed_entry {first good good' : Bool} {label : Label} {value : Tree} {ts r' : List Token}
    {more : List (Tree × Tree)} (starts : StartsNode (ts ++ r'))
    (read : Gives good (Tree.node known ending (fuel + 1) false false (ts ++ r')) (value, r'))
    (rest : Gives good' (Tree.flowEntries known ending (fuel + 1) false r') (more, r)) :
    Gives (label.obeys labelRules && (good && good'))
      (Tree.flowEntries known ending (fuel + 2) first
        (lead first ++ (Scan.keyTokens label.key (isNear label) ++ (ts ++ r'))))
      ((textTree label.key, value) :: more, r) := by
  have obeys : label.obeys labelRules = isNear label := rfl
  rw [obeys]
  cases near : isNear label with
  | true =>
    have step := flowEntries_entry known ending fuel starts first
      (.ofList (foldPieces false label.key))
    exact step ▸ read.bind rest.map
  | false => exact flowEntries_fault known ending (fuel + 2) (ts ++ r') first _

mutual

theorem composed (t : Spelling) {fuel : Nat} (block indentless : Bool) {r : List Token}
    (room : (tokens t).length ≤ fuel) :
    Gives (t.obeys labelRules) (Tree.node known ending fuel block indentless (tokens t ++ r))
      (tree t, r) := by
  obtain ⟨fuel, rfl⟩ : ∃ n, fuel = n + 1 :=
    ⟨fuel - 1, by have := tokens_length_pos t; omega⟩
  cases t with
  | bare word =>
    have obeys : word.obeys labelRules = true := by cases word <;> rfl
    rw [Spelling.obeys, obeys, tokens, List.cons_append, node_scalar, if_pos rfl, Tag.ofText_coe,
      String.toList_ofList]
    rfl
  | quoted ps =>
    rw [tokens, List.cons_append, node_scalar]
    rfl
  | emptyList inside =>
    obtain ⟨fuel, rfl⟩ : ∃ n, fuel = n + 1 :=
      ⟨fuel - 1, by simp only [tokens, List.length_cons] at room; omega⟩
    rfl
  | emptyObject inside =>
    obtain ⟨fuel, rfl⟩ : ∃ n, fuel = n + 1 :=
      ⟨fuel - 1, by simp only [tokens, List.length_cons] at room; omega⟩
    rfl
  | list items =>
    simp only [tokens, List.length_append, List.length_cons, List.length_nil] at room
    have roomInside : (itemTokens items).length + 1 ≤ fuel := by omega
    have inner := composed_items items true (r := r) roomInside
    rw [tokens, List.append_assoc, List.cons_append, node_sequence]
    exact inner.map
  | object members =>
    simp only [tokens, List.length_append, List.length_cons, List.length_nil] at room
    have roomInside : (memberTokens members).length + 1 ≤ fuel := by omega
    have inner := composed_members members true (r := r) roomInside
    rw [tokens, List.append_assoc, List.cons_append, node_mapping]
    exact inner.map

theorem composed_items (items : Items) {fuel : Nat} (first : Bool) {r : List Token}
    (room : (itemTokens items).length + 1 ≤ fuel) :
    Gives (items.obeys labelRules)
      (Tree.flowItems known ending fuel first
        (lead first ++ (itemTokens items ++ .flowSequenceEnd :: r)))
      (itemTrees items, r) := by
  cases items with
  | last before item after =>
    rw [itemTokens] at room ⊢
    obtain ⟨fuel, rfl⟩ : ∃ n, fuel = n + 2 :=
      ⟨fuel - 2, by have := tokens_length_pos item; omega⟩
    have obeys : (Items.last before item after).obeys labelRules = (item.obeys labelRules && true) := rfl
    rw [flowItems_item known ending _ (startsNode_tokens item _), obeys]
    have closed : Gives true (Tree.flowItems known ending (fuel + 1) false (.flowSequenceEnd :: r))
      ([], r) := rfl
    exact (composed item false false (by omega)).bind closed.map
  | more before item after rest =>
    rw [itemTokens] at room ⊢
    rw [List.length_append, List.length_cons] at room
    obtain ⟨fuel, rfl⟩ : ∃ n, fuel = n + 2 :=
      ⟨fuel - 2, by have := tokens_length_pos item; omega⟩
    have obeys : (Items.more before item after rest).obeys labelRules =
        (item.obeys labelRules && true && rest.obeys labelRules) := rfl
    rw [List.append_assoc, flowItems_item known ending _ (startsNode_tokens item _), obeys,
      Bool.and_true]
    have roomBehind : (itemTokens rest).length + 1 ≤ fuel + 1 := by omega
    have others := composed_items rest false (r := r) roomBehind
    exact (composed item false false (by omega)).bind others.map

theorem composed_members (members : Members) {fuel : Nat} (first : Bool) {r : List Token}
    (room : (memberTokens members).length + 1 ≤ fuel) :
    Gives (members.obeys labelRules)
      (Tree.flowEntries known ending fuel first
        (lead first ++ (memberTokens members ++ .flowMappingEnd :: r)))
      (memberTrees members, r) := by
  cases members with
  | last label value after =>
    rw [memberTokens] at room ⊢
    rw [List.length_append] at room
    have two := keyTokens_length label.key (isNear label)
    obtain ⟨fuel, rfl⟩ : ∃ n, fuel = n + 2 := ⟨fuel - 2, by omega⟩
    have obeys : (Members.last label value after).obeys labelRules =
        (label.obeys labelRules && value.obeys labelRules && true) := rfl
    rw [List.append_assoc, obeys, Bool.and_assoc]
    have closed : Gives true (Tree.flowEntries known ending (fuel + 1) false (.flowMappingEnd :: r))
      ([], r) := rfl
    exact composed_entry (startsNode_tokens value _) (composed value false false (by omega)) closed
  | more label value after rest =>
    rw [memberTokens] at room ⊢
    rw [List.length_append, List.length_append, List.length_cons] at room
    have two := keyTokens_length label.key (isNear label)
    obtain ⟨fuel, rfl⟩ : ∃ n, fuel = n + 2 := ⟨fuel - 2, by omega⟩
    have obeys : (Members.more label value after rest).obeys labelRules =
        (label.obeys labelRules && value.obeys labelRules && true && rest.obeys labelRules) := rfl
    rw [List.append_assoc, List.append_assoc, obeys, Bool.and_true, Bool.and_assoc]
    have roomBehind : (memberTokens rest).length + 1 ≤ fuel + 1 := by omega
    have others := composed_members rest false (r := r) roomBehind
    exact composed_entry (startsNode_tokens value _) (composed value false false (by omega)) others

end

def isNameless : Token → Bool
  | .anchor _ | .alias _ => false
  | _ => true

theorem cutAtBadName_nameless {seen : List String} {ts : List Token}
    (nameless : ts.all isNameless = true) : cutAtBadName seen ts = none := by
  induction ts with
  | nil => rfl
  | cons t ts ih =>
    rw [List.all_cons, Bool.and_eq_true] at nameless
    unfold cutAtBadName
    split
    · exact (nomatch nameless.1)
    · exact (nomatch nameless.1)
    · rw [ih nameless.2]
      rfl

theorem keyTokens_nameless (ps : List Piece) (near : Bool) :
    (Scan.keyTokens ps near).all isNameless = true := by
  cases near <;> rfl

mutual

theorem tokens_nameless (t : Spelling) : (tokens t).all isNameless = true := by
  cases t with
  | bare | quoted | emptyList | emptyObject => rfl
  | list items =>
    rw [tokens, List.all_append, List.all_cons, itemTokens_nameless items]
    rfl
  | object members =>
    rw [tokens, List.all_append, List.all_cons, memberTokens_nameless members]
    rfl

theorem itemTokens_nameless (items : Items) : (itemTokens items).all isNameless = true := by
  cases items with
  | last before item after => exact tokens_nameless item
  | more before item after rest =>
    rw [itemTokens, List.all_append, List.all_cons, tokens_nameless item, itemTokens_nameless rest]
    rfl

theorem memberTokens_nameless (members : Members) : (memberTokens members).all isNameless = true := by
  cases members with
  | last label value after =>
    rw [memberTokens, List.all_append, keyTokens_nameless, tokens_nameless value]
    rfl
  | more label value after rest =>
    rw [memberTokens, List.all_append, List.all_append, List.all_cons, keyTokens_nameless,
      tokens_nameless value, memberTokens_nameless rest]
    rfl

end

theorem ofTokens_bracketed (t : Spelling) (bracketed : isBracketed t = true) :
    Tree.ofTokens ⟨tokens t, none⟩ =
      (Tree.node Tree.defaultShorthands .malformed (Tree.fuelFor (tokens t)) true false (tokens t)).bind
        fun (tree, r) => match r.dropWhile (· = .documentEnd), none with
          | [], none => .ok tree
          | [], some e => .error e
          | _, _ => .error .malformed := by
  have named : Tokens.checkNames ⟨tokens t, none⟩ = ⟨tokens t, none⟩ := by
    rw [Tokens.checkNames, cutAtBadName_nameless (tokens_nameless t)]
  rw [Tree.ofTokens, named]
  cases t with
  | bare | quoted => contradiction
  | _ => rfl

theorem composed_whole (t : Spelling) (bracketed : isBracketed t = true) :
    Gives (t.obeys labelRules) (Tree.ofTokens ⟨tokens t, none⟩) (tree t) := by
  have room : (tokens t).length ≤ Tree.fuelFor (tokens t) := by
    rw [Tree.fuelFor]
    omega
  have read : Gives (t.obeys labelRules) (Tree.node Tree.defaultShorthands .malformed
      (Tree.fuelFor (tokens t)) true false (tokens t ++ [])) (tree t, []) :=
    composed t true false room
  rw [List.append_nil] at read
  rw [ofTokens_bracketed t bracketed, ← Bool.and_true (t.obeys labelRules)]
  exact read.bind rfl

theorem bind_fails {α β : Type} {result : Except Fault α} {f : α → Except Fault β}
    (fails : ∀ a, ∃ e, f a = .error e) : ∃ e, result.bind f = .error e := by
  cases result with
  | error e => exact ⟨e, rfl⟩
  | ok a => exact fails a

theorem ofTokens_fault {ts : Tokens} (fault : ts.fault.isSome = true) :
    ∃ e, Tree.ofTokens ts = .error e := by
  have still : ts.checkNames.fault.isSome = true := by
    rw [Tokens.checkNames]
    split
    · rfl
    · exact fault
  rw [Tree.ofTokens]
  generalize ts.checkNames = checked at still
  obtain ⟨words, fault⟩ := checked
  obtain ⟨e, rfl⟩ := Option.isSome_iff_exists.1 still
  dsimp only
  split
  · contradiction
  · refine bind_fails fun read => ?_
    split
    · contradiction
    · exact ⟨_, rfl⟩
    · exact ⟨_, rfl⟩

end ApiModel.Yaml
