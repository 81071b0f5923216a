import ApiModel.Proofs.Yaml.Composing

namespace ApiModel.Yaml

open Json

namespace Node

def isSound (n : Node) : Bool := n.now.isNone && n.later.all Option.isNone

theorem fault_isNone (n : Node) : (n.now.or (n.later.findSome? id)).isNone = n.isSound := by
  rw [Option.isNone_or, isSound]
  congr 1
  induction n.later with
  | nil => rfl
  | cons fault later ih =>
    rw [List.findSome?_cons, List.all_cons, ← ih]
    cases fault <;> rfl

structure Means (n : Node) (good : Bool) (v : Value) : Prop where
  sound : n.isSound = good
  value : good = true → n.value = v

variable {n : Node} {ns : List Node} {es : List (Node × Node)} {first : Option Fault}

theorem joinLevels_isNone (a b : List (Option Fault)) :
    (joinLevels a b).all Option.isNone = (a.all Option.isNone && b.all Option.isNone) := by
  fun_induction joinLevels a b with
  | case1 b => rfl
  | case2 a other => exact (Bool.and_true _).symm
  | case3 x a y b ih =>
    simp only [List.all_cons, ih, Option.isNone_or]
    cases x.isNone <;> cases y.isNone <;> cases a.all Option.isNone <;> rfl

theorem levels_isNone (first : Option Fault) (ns : List Node) :
    (levels first ns).all Option.isNone =
      (first.isNone && ns.all fun n => n.later.all Option.isNone) := by
  rw [levels, List.all_cons]
  congr 1
  induction ns with
  | nil => rfl
  | cons n ns ih => rw [List.foldr_cons, joinLevels_isNone, ih, List.all_cons]

theorem firstNow_isNone (ns : List Node) : (firstNow ns).isNone = ns.all fun n => n.now.isNone := by
  rw [firstNow]
  induction ns with
  | nil => rfl
  | cons n ns ih =>
    rw [List.findSome?_cons, List.all_cons, ← ih]
    cases n.now <;> rfl

theorem all_isSound (ns : List Node) :
    ns.all isSound = ((ns.all fun n => n.now.isNone) && ns.all fun n => n.later.all Option.isNone) := by
  rw [Bool.eq_iff_iff, Bool.and_eq_true]
  simp only [List.all_eq_true, isSound, Bool.and_eq_true, ← forall_and]

theorem contents_scalar {tag : Tag} (simple : tag ∈ [Tag.null, .bool, .int, .float, .str])
    (s : Str) :
    contents tag (some s) none none =
      match tag.scalar s with
      | .ok s => (none, [], .scalar s)
      | .error e => (some e, [], .null) := by
  simp only [List.mem_cons, List.not_mem_nil, or_false] at simple
  rcases simple with rfl | rfl | rfl | rfl | rfl <;> rfl

theorem make_seq (mark : Value → Value) (ns : List Node) :
    (make .seq none (some ns) none mark).isSound = ns.all isSound := by
  have below : (make .seq none (some ns) none mark).isSound =
      (levels (firstNow ns) ns).all Option.isNone := Bool.true_and _
  rw [below, levels_isNone, firstNow_isNone, all_isSound]

theorem keyed_cons {s : Str} {e : Node × Node} (key : e.1.value = .str s) :
    keyed (e :: es) = (.str s, e.2.value) :: keyed es := by
  rw [keyed, List.filterMap_cons, key?, key]
  rfl

structure IsText (n : Node) : Prop where
  tag : n.tag = .str
  sound : n.isSound = true
  key : n.key?.isSome = true

theorem make_text (s : Str) : (make .str (some s) none none fun v => v).IsText ∧
    (make .str (some s) none none fun v => v).value = .str s := by
  have made : make .str (some s) none none (fun v => v) =
      ⟨.str, some s, none, none, none, none, [], .str s⟩ := by
    rw [make, Option.bind_none, contents_scalar (by decide), Tag.scalar_str]
    rfl
  rw [made]
  exact ⟨⟨rfl, rfl, rfl⟩, rfl⟩

theorem IsText.asKey (text : n.IsText) : n.asKey = n := by
  rw [Node.asKey, text.tag]
  rfl

theorem IsText.now (text : n.IsText) : n.now = none :=
  Option.isNone_iff_eq_none.1 (Bool.and_eq_true_iff.1 text.sound).1

theorem merge_texts (texts : ∀ e ∈ es, e.1.IsText) : merge es = some es := by
  have none_ : es.filter (·.1.tag = .merge) = [] := by
    refine List.filter_eq_nil_iff.2 fun e mem => ?_
    rw [(texts e mem).tag]
    decide
  have all_ : es.filter (·.1.tag ≠ .merge) = es := by
    refine List.filter_eq_self.2 fun e mem => ?_
    rw [(texts e mem).tag]
    decide
  have same : es.map (fun e => (e.1.asKey, e.2)) = es := by
    refine (List.map_congr_left fun e mem => ?_).trans (List.map_id es)
    rw [(texts e mem).asKey]
    rfl
  rw [merge, none_, all_]
  exact congrArg some same

theorem entryFault_text (e : Node × Node) (text : e.1.IsText) : entryFault e = e.2.now := by
  rw [entryFault, text.now, text.key]
  rfl

theorem entryFaults_isNone (texts : ∀ e ∈ es, e.1.IsText) :
    (es.findSome? entryFault).isNone = es.all fun e => e.2.now.isNone := by
  induction es with
  | nil => rfl
  | cons e es ih =>
    rw [List.forall_mem_cons] at texts
    rw [List.findSome?_cons, List.all_cons, ← ih texts.2, entryFault_text e texts.1]
    cases e.2.now <;> rfl

theorem entryNodes_later (texts : ∀ e ∈ es, e.1.IsText) :
    ((entryNodes es).all fun n => n.later.all Option.isNone) =
      es.all fun e => e.2.later.all Option.isNone := by
  induction es with
  | nil => rfl
  | cons e es ih =>
    rw [List.forall_mem_cons] at texts
    have sound := (Bool.and_eq_true_iff.1 texts.1.sound).2
    rw [entryNodes, List.flatMap_cons, ← entryNodes, List.all_append, ih texts.2, List.all_cons]
    simp [sound]

theorem make_map (text : Option Str) (mark : Value → Value)
    (texts : ∀ e ∈ es, e.1.IsText) :
    (make .map text none (some es) mark).isSound = (es.map (·.2)).all isSound ∧
      (make .map text none (some es) mark).value = mark (.map (Entries.ofList (keyed es))) := by
  have merged : (some es).bind merge = some es := merge_texts texts
  have made : make .map text none (some es) mark = ⟨.map, text, none, some es, some es, none,
      levels (es.findSome? entryFault) (entryNodes es), mark (.map (Entries.ofList (keyed es)))⟩ := by
    rw [make, merged]
    rfl
  rw [made]
  refine ⟨?_, rfl⟩
  rw [isSound, levels_isNone, entryFaults_isNone texts, entryNodes_later texts, all_isSound,
    List.all_map, List.all_map]
  rfl

end Node

open Node

variable (known : List (String × Node)) (number : Nat)

theorem toNode_scalar (tag : Tag) (s : Str) :
    Tree.toNode known (fun _ v => v) number (.scalar none tag s) =
      .make tag (some s) none none fun v => v := by
  rw [Tree.toNode]

theorem isText_textTree (ps : List Piece) :
    (Tree.toNode known (fun _ v => v) number (textTree ps)).IsText ∧
      (Tree.toNode known (fun _ v => v) number (textTree ps)).value = .str (dialect.text ps) := by
  rw [textTree, toNode_scalar]
  exact make_text _

theorem means_bare (word : Bare) :
    (Tree.toNode known (fun _ v => v) number (tree (.bare word))).Means (word.obeys readerRules)
      (.scalar (word.scalar dialect)) := by
  obtain ⟨tag, spelled, simple, good, bad⟩ := scalar_word word
  rw [tree, spelled, toNode_scalar]
  rw [Node.make, Option.bind_none, contents_scalar simple, Tag.scalar_coe, String.toList_ofList]
  cases obeys : word.obeys readerRules with
  | true =>
    rw [good obeys]
    exact ⟨rfl, fun _ => rfl⟩
  | false =>
    obtain ⟨e, fault⟩ := bad obeys
    rw [fault]
    exact ⟨rfl, fun good => absurd good Bool.false_ne_true⟩

mutual

theorem means (t : Spelling) (id : Nat) :
    (Tree.toNode known (fun _ v => v) id (tree t)).Means (t.obeys readerRules) (t.value dialect) := by
  cases t with
  | bare word => exact means_bare known id word
  | quoted ps =>
    have text := isText_textTree known id ps
    exact ⟨text.1.sound, fun _ => text.2⟩
  | emptyList | emptyObject => exact ⟨rfl, fun _ => rfl⟩
  | list items =>
    obtain ⟨sound, value⟩ := means_items items (id + 1)
    rw [tree, Tree.toNode, Spelling.obeys, Spelling.value]
    refine ⟨(make_seq ..).trans sound, fun obeys => ?_⟩
    rw [← value obeys]
    rfl
  | object members =>
    obtain ⟨texts, sound, value⟩ := means_members members (id + 1)
    rw [tree, Tree.toNode, Spelling.obeys, Spelling.value]
    obtain ⟨sound', value'⟩ := make_map
      (Node.textOfEntries (Tree.toEntries known (fun _ v => v) (id + 1) (memberTrees members)))
      (fun v => v) texts
    refine ⟨sound'.trans sound, fun obeys => ?_⟩
    rw [← value obeys]
    exact value'

theorem means_items (items : Items) (id : Nat) :
    (Tree.toNodes known (fun _ v => v) id (itemTrees items)).all isSound = items.obeys readerRules ∧
      (items.obeys readerRules = true →
        (Tree.toNodes known (fun _ v => v) id (itemTrees items)).map Node.value =
          items.values dialect) := by
  cases items with
  | last before item after =>
    have node := means item id
    have obeys : (Items.last before item after).obeys readerRules = item.obeys readerRules :=
      Bool.and_true _
    rw [itemTrees, Tree.toNodes, Tree.toNodes, Items.values, obeys, List.all_cons, List.all_nil,
      Bool.and_true]
    exact ⟨node.sound, fun good => congrArg (fun v => [v]) (node.value good)⟩
  | more before item after rest =>
    have node := means item id
    obtain ⟨sound, value⟩ := means_items rest (id + (tree item).containers)
    have obeys : (Items.more before item after rest).obeys readerRules =
        (item.obeys readerRules && rest.obeys readerRules) :=
      congrArg (· && rest.obeys readerRules) (Bool.and_true _)
    rw [itemTrees, Tree.toNodes, Items.values, obeys, List.all_cons, node.sound, sound]
    refine ⟨rfl, fun good => ?_⟩
    rw [Bool.and_eq_true] at good
    rw [List.map_cons, node.value good.1, value good.2]

theorem means_members (members : Members) (id : Nat) :
    (∀ e ∈ Tree.toEntries known (fun _ v => v) id (memberTrees members), e.1.IsText) ∧
    ((Tree.toEntries known (fun _ v => v) id (memberTrees members)).map (·.2)).all isSound =
      members.obeys readerRules ∧
    (members.obeys readerRules = true →
      keyed (Tree.toEntries known (fun _ v => v) id (memberTrees members)) =
        members.entries dialect) := by
  cases members with
  | last label value after =>
    have node := means value (id + (textTree label.key).containers)
    obtain ⟨text, key⟩ := isText_textTree known id label.key
    have obeys : (Members.last label value after).obeys readerRules = value.obeys readerRules :=
      Bool.and_true _
    rw [memberTrees, Tree.toEntries, Tree.toEntries, Members.entries, obeys]
    refine ⟨List.forall_mem_singleton.2 text, ?_, fun good => ?_⟩
    · rw [List.map_singleton, List.all_cons, List.all_nil, Bool.and_true, node.sound]
    · rw [keyed_cons key, node.value good]
      rfl
  | more label value after rest =>
    have node := means value (id + (textTree label.key).containers)
    obtain ⟨text, key⟩ := isText_textTree known id label.key
    obtain ⟨texts, sound, entries⟩ := means_members rest
      (id + (textTree label.key).containers + (tree value).containers)
    have obeys : (Members.more label value after rest).obeys readerRules =
        (value.obeys readerRules && rest.obeys readerRules) :=
      congrArg (· && rest.obeys readerRules) (Bool.and_true _)
    rw [memberTrees, Tree.toEntries, Members.entries, obeys]
    refine ⟨List.forall_mem_cons.2 ⟨text, texts⟩, ?_, fun good => ?_⟩
    · rw [List.map_cons, List.all_cons, node.sound, sound]
    · rw [Bool.and_eq_true] at good
      rw [keyed_cons key, node.value good.1, entries good.2]

end

mutual

theorem tree_plain (t : Spelling) (names : List String) : (tree t).refersTo names = false := by
  cases t with
  | bare | quoted | emptyList | emptyObject => rfl
  | list items => exact itemTrees_plain items names
  | object members => exact memberTrees_plain members names

theorem itemTrees_plain (items : Items) (names : List String) :
    Tree.itemRefersTo names (itemTrees items) = false := by
  cases items with
  | last before item after =>
    rw [itemTrees, Tree.itemRefersTo, tree_plain item]
    rfl
  | more before item after rest =>
    rw [itemTrees, Tree.itemRefersTo, tree_plain item, itemTrees_plain rest]
    rfl

theorem memberTrees_plain (members : Members) (names : List String) :
    Tree.entryRefersTo names (memberTrees members) = false := by
  cases members with
  | last label value after =>
    rw [memberTrees, Tree.entryRefersTo, tree_plain value]
    rfl
  | more label value after rest =>
    rw [memberTrees, Tree.entryRefersTo, tree_plain value, memberTrees_plain rest]
    rfl

end

theorem value_tree (t : Spelling) : Gives (t.obeys readerRules) (tree t).value (t.value dialect) := by
  have node : (tree t).root.Means (t.obeys readerRules) (t.value dialect) := by
    rw [Tree.root, tree_plain]
    exact means _ t 0
  generalize found : (tree t).root.now.or ((tree t).root.later.findSome? id) = fault
  have sound : fault.isNone = t.obeys readerRules := by
    rw [← found, fault_isNone, node.sound]
  rw [Tree.value, found]
  generalize t.obeys readerRules = good at node sound
  cases fault with
  | none =>
    subst sound
    exact congrArg Except.ok (node.value rfl)
  | some e =>
    subst sound
    exact ⟨e, rfl⟩

end ApiModel.Yaml
