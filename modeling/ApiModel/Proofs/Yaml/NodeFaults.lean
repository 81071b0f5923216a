import ApiModel.Yaml.Node

namespace ApiModel.Yaml

inductive Tree.Holds : Tree → Tree → Prop
  | self (t : Tree) : Holds t t
  | item {a : Option String} {tag : Tag} {items : List Tree} {t u : Tree} (mem : t ∈ items)
      (below : Holds t u) : Holds (.seq a tag items) u
  | key {a : Option String} {tag : Tag} {entries : List (Tree × Tree)} {k v u : Tree}
      (mem : (k, v) ∈ entries) (below : Holds k u) : Holds (.map a tag entries) u
  | value {a : Option String} {tag : Tag} {entries : List (Tree × Tree)} {k v u : Tree}
      (mem : (k, v) ∈ entries) (below : Holds v u) : Holds (.map a tag entries) u

def Tree.HasText (t : Tree) (text : Str) : Prop := ∃ a tag, t.Holds (.scalar a tag text)

/-- A scalar of this kind and text is wanted: it is in the tree, or a mapping of this kind stands for a text
    in it. -/
inductive Tree.Wants (t : Tree) : Tag → Str → Prop
  | scalar {a : Option String} {tag : Tag} {text : Str} (here : t.Holds (.scalar a tag text)) :
      Wants t tag text
  | mapping {a : Option String} {tag : Tag} {entries : List (Tree × Tree)} {text : Str}
      (here : t.Holds (.map a tag entries)) (has : t.HasText text) : Wants t tag text

def Tree.Fails (t : Tree) (e : Fault) : Prop :=
  e = .malformed ∨ ∃ tag text, t.Wants tag text ∧ tag.scalar text = .error e

theorem Tree.Holds.trans {t u v : Tree} (first : t.Holds u) (second : u.Holds v) : t.Holds v := by
  induction first with
  | self => exact second
  | item mem _ ih => exact .item mem (ih second)
  | key mem _ ih => exact .key mem (ih second)
  | value mem _ ih => exact .value mem (ih second)

/-- All faults of a node and of those in it can be those of the tree, and so can its text. -/
inductive Node.Of (t : Tree) : Node → Prop
  | mk {n : Node} (text : ∀ s, n.text = some s → t.HasText s) (now : ∀ e, n.now = some e → t.Fails e)
      (later : ∀ e, some e ∈ n.later → t.Fails e)
      (items : ∀ ns, n.items = some ns → ∀ m ∈ ns, Of t m)
      (keys : ∀ es, n.entries = some es → ∀ e ∈ es, Of t e.1)
      (values : ∀ es, n.entries = some es → ∀ e ∈ es, Of t e.2)
      (mergedKeys : ∀ es, n.merged = some es → ∀ e ∈ es, Of t e.1)
      (mergedValues : ∀ es, n.merged = some es → ∀ e ∈ es, Of t e.2) : Of t n

namespace Node

variable {t : Tree} {n : Node} {ns : List Node} {es : List (Node × Node)} {e : Fault}

theorem Of.text (of : n.Of t) : ∀ s, n.text = some s → t.HasText s := by
  cases of
  assumption

theorem Of.now (of : n.Of t) : ∀ e, n.now = some e → t.Fails e := by
  cases of
  assumption

theorem Of.later (of : n.Of t) : ∀ e, some e ∈ n.later → t.Fails e := by
  cases of
  assumption

def EntriesOf (t : Tree) (es : List (Node × Node)) : Prop := ∀ e ∈ es, e.1.Of t ∧ e.2.Of t

theorem Of.items (of : n.Of t) (given : n.items = some ns) : ∀ m ∈ ns, m.Of t := by
  cases of with
  | mk _ _ _ items => exact items ns given

theorem Of.entries (of : n.Of t) (given : n.entries = some es) : EntriesOf t es := by
  cases of with
  | mk _ _ _ _ keys values => exact fun e mem => ⟨keys es given e mem, values es given e mem⟩

theorem Of.merged (of : n.Of t) (given : n.merged = some es) : EntriesOf t es := by
  cases of with
  | mk _ _ _ _ _ _ keys values => exact fun e mem => ⟨keys es given e mem, values es given e mem⟩

theorem Of.intro (text : ∀ s, n.text = some s → t.HasText s) (now : ∀ e, n.now = some e → t.Fails e)
    (later : ∀ e, some e ∈ n.later → t.Fails e) (items : ∀ ns, n.items = some ns → ∀ m ∈ ns, m.Of t)
    (entries : ∀ es, n.entries = some es → EntriesOf t es)
    (merged : ∀ es, n.merged = some es → EntriesOf t es) : n.Of t :=
  .mk text now later items (fun es given e mem => (entries es given e mem).1)
    (fun es given e mem => (entries es given e mem).2) (fun es given e mem => (merged es given e mem).1)
    (fun es given e mem => (merged es given e mem).2)

theorem of_cut (t : Tree) : cut.Of t := by
  refine .intro nofun nofun nofun nofun ?_ ?_
  · rintro _ ⟨⟩
    exact List.forall_mem_nil _
  · rintro _ ⟨⟩
    exact List.forall_mem_nil _

theorem mem_joinLevels {a b : List (Option Fault)} (mem : some e ∈ joinLevels a b) :
    some e ∈ a ∨ some e ∈ b := by
  fun_induction joinLevels a b with
  | case1 b => exact .inr mem
  | case2 a other => exact .inl mem
  | case3 x a y b ih =>
    rcases List.mem_cons.1 mem with here | later
    · rcases Option.or_eq_some_iff.1 here.symm with first | ⟨-, second⟩
      · exact .inl (first ▸ List.mem_cons_self ..)
      · exact .inr (second ▸ List.mem_cons_self ..)
    · exact (ih later).imp (List.mem_cons_of_mem _) (List.mem_cons_of_mem _)

theorem mem_levels {first : Option Fault} (mem : some e ∈ levels first ns) :
    first = some e ∨ ∃ n ∈ ns, some e ∈ n.later := by
  rcases List.mem_cons.1 mem with here | below
  · exact .inl here.symm
  · refine .inr ?_
    induction ns with
    | nil => contradiction
    | cons n ns ih =>
      rcases mem_joinLevels below with first | others
      · exact ⟨n, List.mem_cons_self .., first⟩
      · obtain ⟨m, inside, mem⟩ := ih (List.mem_cons_of_mem _ others) others
        exact ⟨m, List.mem_cons_of_mem _ inside, mem⟩

theorem fails_of_levels {first : Option Fault} (now : ∀ e, first = some e → t.Fails e)
    (of : ∀ n ∈ ns, n.Of t) : ∀ e, some e ∈ levels first ns → t.Fails e := by
  intro e mem
  rcases mem_levels mem with here | ⟨n, inside, mem⟩
  · exact now e here
  · exact (of n inside).later e mem

theorem of_entryNodes (of : EntriesOf t es) : ∀ n ∈ entryNodes es, n.Of t := by
  intro n mem
  obtain ⟨e, inside, mem⟩ := List.mem_flatMap.1 mem
  rcases List.mem_cons.1 mem with rfl | mem
  · exact (of e inside).1
  · exact List.mem_singleton.1 mem ▸ (of e inside).2

theorem fails_of_ofItems {items : Option (List Node)} (of : ∀ ns, items = some ns → ∀ n ∈ ns, n.Of t) :
    ∀ e, some e ∈ (ofItems items).1 → t.Fails e := by
  unfold ofItems
  split
  · intro e mem
    exact .inl (Option.some.inj (List.mem_singleton.1 mem))
  · rename_i ns
    refine fails_of_levels (fun e found => ?_) (of ns rfl)
    obtain ⟨n, inside, now⟩ := List.exists_of_findSome?_eq_some found
    exact (of ns rfl n inside).now e now

theorem fails_of_entryFault {p : Node × Node} (key : p.1.Of t) (value : p.2.Of t)
    (found : entryFault p = some e) : t.Fails e := by
  rcases Option.or_eq_some_iff.1 found with first | ⟨-, second⟩
  · exact key.now e first
  · split at second
    · exact value.now e second
    · exact .inl (Option.some.inj second).symm

theorem fails_of_ofEntries {entries : Option (List (Node × Node))}
    (of : ∀ es, entries = some es → EntriesOf t es) (value : List (Scalar × Value) → Value) :
    ∀ e, some e ∈ (ofEntries entries value).1 → t.Fails e := by
  unfold ofEntries
  split
  · intro e mem
    exact .inl (Option.some.inj (List.mem_singleton.1 mem))
  · rename_i es
    refine fails_of_levels (fun e found => ?_) (of_entryNodes (of es rfl))
    obtain ⟨p, inside, fault⟩ := List.exists_of_findSome?_eq_some found
    exact fails_of_entryFault (of es rfl p inside).1 (of es rfl p inside).2 fault

theorem fails_of_ofPairs {items : Option (List Node)} (of : ∀ ns, items = some ns → ∀ n ∈ ns, n.Of t) :
    ∀ e, some e ∈ (ofPairs items).1 → t.Fails e := by
  unfold ofPairs
  split
  · intro e mem
    exact .inl (Option.some.inj (List.mem_singleton.1 mem))
  · rename_i ns
    have pairs {n : Node} (inside : n ∈ ns) {p : Node × Node} (single : n.single? = some p) :
        p.1.Of t ∧ p.2.Of t := by
      unfold single? at single
      split at single
      · rename_i entries
        cases single
        exact (of ns rfl n inside).entries entries p (List.mem_singleton.2 rfl)
      · contradiction
    dsimp only
    refine fails_of_levels (fun e found => ?_) (of_entryNodes fun p mem => ?_)
    · obtain ⟨n, inside, fault⟩ := List.exists_of_findSome?_eq_some found
      split at fault
      · rename_i k v single
        rcases Option.or_eq_some_iff.1 fault with key | ⟨-, value⟩
        · exact (pairs inside single).1.now e key
        · exact (pairs inside single).2.now e value
      · exact .inl (Option.some.inj fault).symm
    · obtain ⟨n, inside, single⟩ := List.mem_filterMap.1 mem
      exact pairs inside single

theorem Of.asKey (of : n.Of t) : n.asKey.Of t := by
  unfold Node.asKey
  split
  · split
    · exact .intro of.text nofun of.later (fun _ => of.items) (fun _ => of.entries) fun _ => of.merged
    · exact .intro of.text (fun _ same => .inl (Option.some.inj same).symm) of.later (fun _ => of.items)
        (fun _ => of.entries) fun _ => of.merged
  · exact of

theorem exists_of_mapM {α β : Type} {f : α → Option β} {xs : List α} {ys : List β}
    (maps : xs.mapM f = some ys) : ∀ y ∈ ys, ∃ x ∈ xs, f x = some y := by
  induction xs generalizing ys with
  | nil =>
    cases maps
    exact List.forall_mem_nil _
  | cons x xs ih =>
    simp only [List.mapM_cons, Option.bind_eq_bind, Option.bind_eq_some_iff, Option.pure_def,
      Option.some.injEq] at maps
    obtain ⟨y, first, rest, others, rfl⟩ := maps
    refine List.forall_mem_cons.2 ⟨⟨x, List.mem_cons_self .., first⟩, fun z mem => ?_⟩
    obtain ⟨x', inside, found⟩ := ih others z mem
    exact ⟨x', List.mem_cons_of_mem _ inside, found⟩

theorem of_broughtIn (of : n.Of t) (brought : n.broughtIn = some es) : EntriesOf t es := by
  unfold broughtIn at brought
  split at brought
  · exact of.merged brought
  · rename_i ns _ items
    obtain ⟨all, merged, rfl⟩ := Option.map_eq_some_iff.1 brought
    intro e mem
    obtain ⟨es, inside, mem⟩ := List.mem_flatten.1 mem
    obtain ⟨m, member, given⟩ := exists_of_mapM merged es (List.mem_reverse.1 inside)
    exact (of.items items m member).merged given e mem
  · contradiction

theorem of_merge (of : EntriesOf t es) {merged : List (Node × Node)} (merges : merge es = some merged) :
    EntriesOf t merged := by
  unfold merge at merges
  simp only [Option.bind_eq_bind, Option.bind_eq_some_iff, Option.pure_def, Option.some.injEq] at merges
  obtain ⟨front, brought, rfl⟩ := merges
  intro e mem
  rcases List.mem_append.1 mem with merged | own
  · obtain ⟨es', inside, mem⟩ := List.mem_flatten.1 merged
    obtain ⟨p, member, given⟩ := exists_of_mapM brought es' inside
    exact of_broughtIn (of p (List.mem_filter.1 member).1).2 given e mem
  · obtain ⟨p, member, rfl⟩ := List.mem_map.1 own
    have parts := of p (List.mem_filter.1 member).1
    exact ⟨parts.1.asKey, parts.2⟩

/-- A node has no faults that its parts do not have, unless it is of the wrong sort or wants a scalar of a
    kind that does not go with its text. -/
theorem of_make {tag : Tag} {text : Option Str} {items : Option (List Node)}
    {entries : Option (List (Node × Node))} (mark : Value → Value)
    (has : ∀ s, text = some s → t.HasText s ∧ t.Wants tag s)
    (ofItems_ : ∀ ns, items = some ns → ∀ m ∈ ns, m.Of t)
    (ofEntries_ : ∀ es, entries = some es → EntriesOf t es) : (make tag text items entries mark).Of t := by
  have merged : ∀ es, entries.bind merge = some es → EntriesOf t es := by
    intro es found
    obtain ⟨given, here, merges⟩ := Option.bind_eq_some_iff.1 found
    exact of_merge (ofEntries_ given here) merges
  have faults : (∀ e, (contents tag text items (entries.bind merge)).1 = some e → t.Fails e) ∧
      ∀ e, some e ∈ (contents tag text items (entries.bind merge)).2.1 → t.Fails e := by
    unfold contents
    split
    · exact ⟨nofun, fails_of_ofItems ofItems_⟩
    · exact ⟨nofun, fails_of_ofEntries merged _⟩
    · exact ⟨nofun, fails_of_ofEntries merged _⟩
    · exact ⟨nofun, fails_of_ofPairs ofItems_⟩
    · exact ⟨nofun, fails_of_ofPairs ofItems_⟩
    · split
      · exact ⟨fun e same => .inl (Option.some.inj same).symm, nofun⟩
      · rename_i cs
        split
        · exact ⟨nofun, nofun⟩
        · rename_i fault
          refine ⟨?_, nofun⟩
          rintro _ ⟨⟩
          exact .inr ⟨tag, cs, (has cs rfl).2, fault⟩
  exact .intro (fun cs given => (has cs given).1) faults.1 faults.2 ofItems_ ofEntries_ merged

theorem hasText_of_textOfEntries (of : EntriesOf t es) :
    ∀ s, textOfEntries es = some s → t.HasText s := by
  intro cs found
  obtain ⟨e, first, text⟩ := Option.bind_eq_some_iff.1 found
  exact (of e (List.mem_of_find?_eq_some first)).2.text cs text

end Node

namespace Tree

variable {t : Tree} {known : List (String × Node)} {mark : Nat → Value → Value}

mutual

/-- The node of a tree inside another is of this other one, if all nodes are that are referred to. -/
theorem of_toNode (ofKnown : ∀ e ∈ known, e.2.Of t) (id : Nat) (u : Tree) (holds : t.Holds u) :
    (toNode known mark id u).Of t := by
  cases u with
  | «alias» name =>
    rw [toNode]
    cases found : known.find? fun e => e.1 = name with
    | none => exact Node.of_cut t
    | some e => exact ofKnown e (List.mem_of_find?_eq_some found)
  | scalar a tag text =>
    rw [toNode]
    refine Node.of_make _ ?_ nofun nofun
    rintro _ ⟨⟩
    exact ⟨⟨a, tag, holds⟩, .scalar holds⟩
  | seq a tag items =>
    rw [toNode]
    refine Node.of_make _ nofun ?_ nofun
    rintro _ ⟨⟩
    exact of_toNodes ofKnown (id + 1) items fun u mem => holds.trans (.item mem (.self u))
  | map a tag entries =>
    rw [toNode]
    have of := of_toEntries ofKnown (id + 1) entries fun e mem =>
      ⟨holds.trans (.key mem (.self e.1)), holds.trans (.value mem (.self e.2))⟩
    refine Node.of_make _ (fun cs given => ?_) nofun ?_
    · have has := Node.hasText_of_textOfEntries of cs given
      exact ⟨has, .mapping holds has⟩
    · rintro _ ⟨⟩
      exact of

theorem of_toNodes (ofKnown : ∀ e ∈ known, e.2.Of t) (id : Nat) (us : List Tree)
    (holds : ∀ u ∈ us, t.Holds u) : ∀ n ∈ toNodes known mark id us, n.Of t := by
  cases us with
  | nil => exact List.forall_mem_nil _
  | cons u us =>
    rw [toNodes]
    obtain ⟨first, rest⟩ := List.forall_mem_cons.1 holds
    exact List.forall_mem_cons.2 ⟨of_toNode ofKnown id u first, of_toNodes ofKnown _ us rest⟩

theorem of_toEntries (ofKnown : ∀ e ∈ known, e.2.Of t) (id : Nat) (es : List (Tree × Tree))
    (holds : ∀ e ∈ es, t.Holds e.1 ∧ t.Holds e.2) : Node.EntriesOf t (toEntries known mark id es) := by
  cases es with
  | nil => exact List.forall_mem_nil _
  | cons e es =>
    obtain ⟨k, v⟩ := e
    rw [toEntries]
    obtain ⟨⟨key, value⟩, rest⟩ := List.forall_mem_cons.1 holds
    exact List.forall_mem_cons.2 ⟨⟨of_toNode ofKnown id k key, of_toNode ofKnown _ v value⟩,
      of_toEntries ofKnown _ es rest⟩

end

mutual

theorem holds_of_named (id : Nat) (u : Tree) : ∀ e ∈ u.named id, u.Holds e.2.2 := by
  have here (a : Option String) {w : Tree} : ∀ e ∈ (a.map (·, id, w)).toList, e.2.2 = w := by
    intro e mem
    obtain ⟨name, -, rfl⟩ := Option.map_eq_some_iff.1 (Option.mem_toList.1 mem)
    rfl
  cases u with
  | «alias» name => exact List.forall_mem_nil _
  | scalar a tag text =>
    intro e mem
    rw [named] at mem
    exact here a e mem ▸ .self _
  | seq a tag items =>
    intro e mem
    rw [named] at mem
    rcases List.mem_append.1 mem with first | inside
    · exact here a e first ▸ .self _
    · obtain ⟨w, member, below⟩ := holds_of_namedItems (id + 1) items e inside
      exact .item member below
  | map a tag entries =>
    intro e mem
    rw [named] at mem
    rcases List.mem_append.1 mem with first | inside
    · exact here a e first ▸ .self _
    · obtain ⟨w, member, below⟩ := holds_of_namedEntries (id + 1) entries e inside
      rcases below with key | value
      · exact .key member key
      · exact .value member value

theorem holds_of_namedItems (id : Nat) (us : List Tree) :
    ∀ e ∈ namedItems id us, ∃ w ∈ us, w.Holds e.2.2 := by
  cases us with
  | nil => exact List.forall_mem_nil _
  | cons u us =>
    intro e mem
    rw [namedItems] at mem
    rcases List.mem_append.1 mem with first | others
    · exact ⟨u, List.mem_cons_self .., holds_of_named id u e first⟩
    · obtain ⟨w, member, below⟩ := holds_of_namedItems _ us e others
      exact ⟨w, List.mem_cons_of_mem _ member, below⟩

theorem holds_of_namedEntries (id : Nat) (es : List (Tree × Tree)) :
    ∀ e ∈ namedEntries id es, ∃ p ∈ es, p.1.Holds e.2.2 ∨ p.2.Holds e.2.2 := by
  cases es with
  | nil => exact List.forall_mem_nil _
  | cons p es =>
    obtain ⟨k, v⟩ := p
    intro e mem
    rw [namedEntries] at mem
    rcases List.mem_append.1 mem with first | others
    · refine ⟨(k, v), List.mem_cons_self .., ?_⟩
      rcases List.mem_append.1 first with key | value
      · exact .inl (holds_of_named _ k e key)
      · exact .inr (holds_of_named _ v e value)
    · obtain ⟨p, member, below⟩ := holds_of_namedEntries _ es e others
      exact ⟨p, List.mem_cons_of_mem _ member, below⟩

end

theorem of_knownTo {names : List (String × Nat × Tree)} (holds : ∀ e ∈ names, t.Holds e.2.2)
    (depth : Nat) : ∀ e ∈ knownTo mark names depth, e.2.Of t := by
  -- where the depth ends a name stands for nothing; above, for a tree inside `t`
  induction depth with
  | zero =>
    intro e mem
    obtain ⟨_, -, rfl⟩ := List.mem_map.1 mem
    exact Node.of_cut t
  | succ depth ih =>
    intro e mem
    obtain ⟨⟨name, id, u⟩, inside, rfl⟩ := List.mem_map.1 mem
    exact of_toNode ih id u (holds _ inside)

/-- If a tree has no value, it wants a scalar of a kind that does not go with its text, or a node is of the
    wrong sort. -/
theorem fails_of_value {e : Fault} (fault : t.value = .error e) : t.Fails e := by
  have of : t.root.Of t := of_toNode (of_knownTo (holds_of_named 0 t) _) 0 t (.self t)
  unfold value at fault
  dsimp only at fault
  split at fault
  · rename_i found
    cases fault
    rcases Option.or_eq_some_iff.1 found with now | ⟨-, later⟩
    · exact of.now e now
    · obtain ⟨o, mem, same⟩ := List.exists_of_findSome?_eq_some later
      exact of.later e (same ▸ mem)
  · contradiction

end Tree

end ApiModel.Yaml
