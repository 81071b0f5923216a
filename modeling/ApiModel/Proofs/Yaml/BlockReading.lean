import ApiModel.Proofs.Json.Printing
import ApiModel.Proofs.Yaml.BlockComposing

namespace ApiModel.Yaml

open Text

def Accepted (cs : List Char) : Prop := ∀ c ∈ cs, isAllowed c = true ∧ c ≠ '\r'

variable {c : Char} {a b cs : List Char} {indent : Nat}

theorem accepted_nil : Accepted [] := List.forall_mem_nil _

theorem accepted_cons : Accepted (c :: cs) ↔ (isAllowed c = true ∧ c ≠ '\r') ∧ Accepted cs :=
  List.forall_mem_cons

theorem accepted_append : Accepted (a ++ b) ↔ Accepted a ∧ Accepted b := List.forall_mem_append

theorem Accepted.normalized (accepted : Accepted cs) : normalizeLineEnds cs = cs := by
  fun_induction normalizeLineEnds cs with
  | case1 => rfl
  | case2 cs ih => exact absurd rfl (accepted_cons.1 accepted).1.2
  | case3 x cs alone ih =>
    obtain ⟨⟨-, noReturn⟩, accepted⟩ := accepted_cons.1 accepted
    rw [if_neg noReturn, ih accepted]

theorem accepted_replicate (n : Nat) : Accepted (List.replicate n ' ') := by
  intro c mem
  rw [List.eq_of_mem_replicate mem]
  decide

theorem accepted_newLine (indent : Nat) : Accepted (newLine indent) :=
  accepted_cons.2 ⟨by decide, accepted_replicate indent⟩

theorem accepted_of_special (special : isSpecial c = false) : isAllowed c = true ∧ c ≠ '\r' := by
  have noReturn : c ≠ '\r' := by
    rintro rfl
    contradiction
  refine ⟨?_, noReturn⟩
  by_cases feed : c = '\n'
  · rw [feed]
    rfl
  · simp only [isSpecial, feed, decide_false, Bool.false_or, Bool.not_eq_false', Bool.or_eq_true,
      Bool.and_eq_true, decide_eq_true_eq, ne_eq] at special
    simp only [isAllowed, Bool.or_eq_true, Bool.and_eq_true, decide_eq_true_eq]
    omega

theorem accepted_of_none (none : cs.any isSpecial = false) : Accepted cs := fun c mem =>
  accepted_of_special (by simpa using List.any_eq_false.1 none c mem)

theorem accepted_plainFrom (accepted : Accepted cs) (previous : Option Char) (column : Nat) :
    Accepted (plainFrom indent previous column cs) := by
  fun_induction plainFrom indent previous column cs with
  | case1 => exact accepted_nil
  | case2 previous column c r folds ih =>
    exact accepted_append.2 ⟨accepted_newLine indent, ih (accepted_cons.1 accepted).2⟩
  | case3 previous column c r stays ih =>
    obtain ⟨first, rest⟩ := accepted_cons.1 accepted
    exact accepted_cons.2 ⟨first, ih rest⟩

theorem accepted_singleFrom (accepted : Accepted cs) (previous : Option Char) (column : Nat) :
    Accepted (singleFrom indent previous column cs) := by
  have extra_ (b : Bool) : Accepted (if b = true then ['\n'] else []) := by
    cases b with
    | true => exact accepted_cons.2 ⟨by decide, accepted_nil⟩
    | false => exact accepted_nil
  fun_induction singleFrom indent previous column cs with
  | case1 => exact accepted_cons.2 ⟨by decide, accepted_nil⟩
  | case2 previous column c r folds ih =>
    exact accepted_append.2 ⟨accepted_newLine indent, ih (accepted_cons.1 accepted).2⟩
  | case3 previous column c r _ _ extra more ih =>
    obtain ⟨first, rest⟩ := accepted_cons.1 accepted
    exact accepted_append.2 ⟨extra_ _, accepted_cons.2 ⟨first, ih rest⟩⟩
  | case4 previous column c r _ _ extra alone ih =>
    obtain ⟨first, rest⟩ := accepted_cons.1 accepted
    rw [accepted_append, accepted_append]
    exact ⟨⟨extra_ _, accepted_cons.2 ⟨first, accepted_replicate indent⟩⟩, ih rest⟩
  | case5 previous column r _ _ ih =>
    obtain ⟨quote, rest⟩ := accepted_cons.1 accepted
    exact accepted_cons.2 ⟨quote, accepted_cons.2 ⟨quote, ih rest⟩⟩
  | case6 previous column c r _ _ _ ih =>
    obtain ⟨first, rest⟩ := accepted_cons.1 accepted
    exact accepted_cons.2 ⟨first, ih rest⟩

theorem accepted_of_bare (bare : isBare c = true) : isAllowed c = true ∧ c ≠ '\r' := by
  constructor
  · simp only [isBare, Bool.and_eq_true, Bool.or_eq_true, decide_eq_true_eq] at bare
    simp only [isAllowed, Bool.or_eq_true, Bool.and_eq_true, decide_eq_true_eq]
    omega
  · rintro rfl
    contradiction

theorem accepted_digit : ∀ n < 16, isAllowed n.digitChar.toUpper = true ∧ n.digitChar.toUpper ≠ '\r' := by
  decide

theorem accepted_hexUpper (width : Nat) {n : Nat} (fits : n < 16 ^ (width + 1)) :
    Accepted (hexUpper (width + 1) n) := by
  induction width generalizing n with
  | zero =>
    rw [Nat.zero_add, Nat.pow_one] at fits
    rw [hexUpper_one fits]
    exact accepted_cons.2 ⟨accepted_digit n fits, accepted_nil⟩
  | succ width ih =>
    have fits' : n / 16 < 16 ^ (width + 1) := by
      rw [Nat.pow_succ] at fits
      omega
    rw [hexUpper_succ]
    exact accepted_append.2 ⟨ih fits',
      accepted_cons.2 ⟨accepted_digit _ (Nat.mod_lt n (by decide)), accepted_nil⟩⟩

theorem accepted_escaped (l : Letter) : Accepted (escaped l) := by
  rw [escaped]
  cases named : l.char?.bind escapeLetter? with
  | some letter =>
    refine accepted_cons.2 ⟨by decide, accepted_cons.2 ⟨?_, accepted_nil⟩⟩
    obtain ⟨c, -, named⟩ := Option.bind_eq_some_iff.1 named
    unfold escapeLetter? at named
    split at named <;> cases named <;> decide
  | none =>
    have bound := code_lt l
    have coded {letter : Char} (width : Nat) (fits : l.code < 16 ^ (width + 1))
        (letter_ : isAllowed letter = true ∧ letter ≠ '\r') :
        Accepted ('\\' :: letter :: hexUpper (width + 1) l.code) :=
      accepted_cons.2 ⟨by decide, accepted_cons.2 ⟨letter_, accepted_hexUpper width fits⟩⟩
    dsimp only
    split
    · exact coded 1 (by omega) (by decide)
    · split
      · exact coded 3 (by omega) (by decide)
      · exact coded 7 (by omega) (by decide)

theorem accepted_escapedFold (indent : Nat) (next : Option Letter) :
    Accepted (escapedFold indent next).1 := by
  have line : Accepted ('\\' :: newLine indent) := accepted_cons.2 ⟨by decide, accepted_newLine indent⟩
  rw [escapedFold]
  split
  · exact accepted_append.2 ⟨line, accepted_cons.2 ⟨by decide, accepted_nil⟩⟩
  · exact line

theorem accepted_doubleFrom (first afterEscape : Bool) (column : Nat) (ls : List Letter) :
    Accepted (doubleFrom indent first afterEscape column ls) := by
  induction ls generalizing first afterEscape column with
  | nil => exact accepted_cons.2 ⟨by decide, accepted_nil⟩
  | cons l r ih =>
    cases found : l.char?.filter isBare with
    | some c =>
      obtain ⟨rfl, bare⟩ := filter_isBare_eq_some_iff.1 found
      have first_ := accepted_of_bare bare
      rw [doubleFrom_bare bare]
      split
      · exact accepted_append.2 ⟨accepted_escapedFold _ _, accepted_cons.2 ⟨first_, ih _ _ _⟩⟩
      · exact accepted_cons.2 ⟨first_, ih _ _ _⟩
    | none =>
      rw [doubleFrom_coded (filter_isBare_eq_none_iff.1 found)]
      split
      · rw [accepted_append, accepted_append]
        exact ⟨⟨accepted_escaped l, accepted_escapedFold _ _⟩, ih _ _ _⟩
      · exact accepted_append.2 ⟨accepted_escaped l, ih _ _ _⟩

theorem accepted_doubleQuoted (indent column : Nat) (s : Str) :
    Accepted (doubleQuoted indent column s) :=
  accepted_cons.2 ⟨by decide, accepted_doubleFrom true false _ s.toList⟩

theorem accepted_writeText (indent column : Nat) (s : Str) : Accepted (writeText indent column s) := by
  rw [writeText]
  split
  · rename_i cs _
    split
    · rename_i plain
      refine accepted_plainFrom (accepted_of_none ?_) none column
      cases cs with
      | nil => rfl
      | cons x cs =>
        simp only [isPlainText, Bool.and_eq_true, Bool.not_eq_true'] at plain
        have none_ := plain.1.1.2
        rw [List.any_eq_false] at none_ ⊢
        exact fun y mem special => none_ y mem (by rw [special]; rfl)
    split
    · rename_i quotable
      simp only [isQuotable, Bool.and_eq_true, Bool.not_eq_true'] at quotable
      exact accepted_cons.2 ⟨by decide, accepted_singleFrom (accepted_of_none quotable.1.1) none _⟩
    · exact accepted_doubleQuoted indent column s
  · exact accepted_doubleQuoted indent column s

end ApiModel.Yaml

namespace ApiModel.Plain

open Yaml Node

theorem accepted_word {w : String} (word : w ∈ [" null", " true", " false", " []", " \x7b\x7d"]) :
    Accepted w.toList := by
  have all_ : [" null", " true", " false", " []", " \x7b\x7d"].all
      (fun w => w.toList.all fun c => isAllowed c && decide (c ≠ '\r')) = true := by decide
  intro c mem
  simpa using List.all_eq_true.1 (List.all_eq_true.1 all_ w word) c mem

theorem accepted_name {name : String} (name_ : isName name = true) : Accepted name.toList := by
  obtain ⟨-, letters, -⟩ := (isName_iff name).1 name_
  intro c mem
  rcases letters c mem with lower | rfl
  · refine ⟨?_, ne_of_isLower lower rfl⟩
    have range : 97 ≤ c.toNat ∧ c.toNat ≤ 122 := by
      change (decide (97 ≤ c.val) && decide (c.val ≤ 122)) = true at lower
      simp only [Bool.and_eq_true, decide_eq_true_eq] at lower
      exact lower
    simp only [isAllowed, Bool.or_eq_true, Bool.and_eq_true, decide_eq_true_eq]
    omega
  · decide

mutual

theorem accepted_fieldYaml (p : Plain) (named : p.Named) (k column : Nat) :
    Accepted (p.fieldYaml k column) := by
  cases named with
  | null => exact accepted_word (w := " null") (by decide)
  | bool b =>
    cases b with
    | true => exact accepted_word (w := " true") (by decide)
    | false => exact accepted_word (w := " false") (by decide)
  | text s => exact accepted_cons.2 ⟨by decide, accepted_writeText _ _ _⟩
  | list items all =>
    cases items with
    | nil => exact accepted_word (w := " []") (by decide)
    | cons p items => exact accepted_append.2 ⟨accepted_newLine k, accepted_itemsYaml _ all k⟩
  | record fields names all =>
    cases fields with
    | nil => exact accepted_word (w := " \x7b\x7d") (by decide)
    | cons f fields =>
      exact accepted_append.2 ⟨accepted_newLine _, accepted_fieldsYaml _ names all (k + 2)⟩

theorem accepted_itemYaml (p : Plain) (named : p.Named) (k : Nat) : Accepted (p.itemYaml k) := by
  cases named with
  | null => exact accepted_word (w := " null") (by decide)
  | bool b =>
    cases b with
    | true => exact accepted_word (w := " true") (by decide)
    | false => exact accepted_word (w := " false") (by decide)
  | text s => exact accepted_cons.2 ⟨by decide, accepted_writeText _ _ _⟩
  | list items all =>
    cases items with
    | nil => exact accepted_word (w := " []") (by decide)
    | cons p items => exact accepted_cons.2 ⟨by decide, accepted_itemsYaml _ all _⟩
  | record fields names all =>
    cases fields with
    | nil => exact accepted_word (w := " \x7b\x7d") (by decide)
    | cons f fields => exact accepted_cons.2 ⟨by decide, accepted_fieldsYaml _ names all _⟩

theorem accepted_itemsYaml (items : List Plain) (all : ∀ p ∈ items, p.Named) (k : Nat) :
    Accepted (itemsYaml k items) := by
  cases items with
  | nil => exact accepted_nil
  | cons p items =>
    obtain ⟨named, all⟩ := List.forall_mem_cons.1 all
    have others := accepted_itemsYaml items all k
    rw [itemsYaml_cons, accepted_cons, accepted_append]
    refine ⟨by decide, accepted_itemYaml p named k, ?_⟩
    split
    · exact accepted_nil
    · exact accepted_append.2 ⟨accepted_newLine k, others⟩

theorem accepted_fieldsYaml (fields : List (String × Plain)) (names : ∀ f ∈ fields, isName f.1 = true)
    (all : ∀ f ∈ fields, f.2.Named) (k : Nat) : Accepted (fieldsYaml k fields) := by
  cases fields with
  | nil => exact accepted_nil
  | cons f fields =>
    obtain ⟨name, p⟩ := f
    obtain ⟨name_, names⟩ := List.forall_mem_cons.1 names
    obtain ⟨named, all⟩ := List.forall_mem_cons.1 all
    have others := accepted_fieldsYaml fields names all k
    rw [fieldsYaml_cons, accepted_append, accepted_cons, accepted_append]
    refine ⟨accepted_name name_, by decide, accepted_fieldYaml p named k _, ?_⟩
    split
    · exact accepted_nil
    · exact accepted_append.2 ⟨accepted_newLine k, others⟩

end

variable (known : List (String × Node))

theorem isText_scalar (id : Nat) (s : Str) :
    (Tree.toNode known (fun _ v => v) id (.scalar none .str s)).IsText ∧
      (Tree.toNode known (fun _ v => v) id (.scalar none .str s)).value = .str s := by
  rw [toNode_scalar]
  exact make_text s

mutual

theorem means_tree (p : Plain) (distinct : p.Distinct) (id : Nat) :
    (Tree.toNode known (fun _ v => v) id p.tree).Means true p.toValue := by
  cases distinct with
  | null =>
    rw [tree, toNode_scalar]
    exact ⟨rfl, fun _ => rfl⟩
  | bool b =>
    rw [tree, toNode_scalar]
    cases b <;> exact ⟨rfl, fun _ => rfl⟩
  | text s =>
    obtain ⟨text, value⟩ := isText_scalar known id s
    exact ⟨text.sound, fun _ => value⟩
  | list items all =>
    obtain ⟨sound, values⟩ := means_trees items all (id + 1)
    rw [tree, Tree.toNode, toValue, ← values]
    exact ⟨(make_seq ..).trans sound, fun _ => rfl⟩
  | record fields nodup all =>
    obtain ⟨texts, sound, entries⟩ := means_fieldTrees fields all (id + 1)
    rw [tree, Tree.toNode, toValue]
    obtain ⟨sound', value'⟩ := make_map
      (Node.textOfEntries (Tree.toEntries known (fun _ v => v) (id + 1) (fieldTrees fields)))
      (fun v => v) texts
    refine ⟨sound'.trans sound, fun _ => value'.trans ?_⟩
    have nodup' : ((fields.map fun f => ((f.1 : Str), f.2.toValue)).map Prod.fst).Nodup := by
      rw [List.map_map]
      exact nodup_keys nodup
    rw [entries, toEntries_eq, Entries.ofList_of_nodup nodup']

theorem means_trees (items : List Plain) (all : ∀ p ∈ items, p.Distinct) (id : Nat) :
    (Tree.toNodes known (fun _ v => v) id (trees items)).all isSound = true ∧
      (Tree.toNodes known (fun _ v => v) id (trees items)).map Node.value = toValues items := by
  cases items with
  | nil => exact ⟨rfl, rfl⟩
  | cons p items =>
    obtain ⟨distinct, all⟩ := List.forall_mem_cons.1 all
    obtain ⟨sound, value⟩ := means_tree p distinct id
    obtain ⟨sounds, values⟩ := means_trees items all (id + p.tree.containers)
    rw [trees, Tree.toNodes, List.all_cons, List.map_cons, sound, sounds, value rfl, values, toValues]
    exact ⟨rfl, rfl⟩

theorem means_fieldTrees (fields : List (String × Plain)) (all : ∀ f ∈ fields, f.2.Distinct)
    (id : Nat) :
    (∀ e ∈ Tree.toEntries known (fun _ v => v) id (fieldTrees fields), e.1.IsText) ∧
      ((Tree.toEntries known (fun _ v => v) id (fieldTrees fields)).map (·.2)).all isSound = true ∧
      keyed (Tree.toEntries known (fun _ v => v) id (fieldTrees fields)) = toEntries fields := by
  cases fields with
  | nil => exact ⟨fun _ mem => (List.not_mem_nil mem).elim, rfl, rfl⟩
  | cons f fields =>
    obtain ⟨name, p⟩ := f
    obtain ⟨distinct, all⟩ := List.forall_mem_cons.1 all
    obtain ⟨text, key⟩ := isText_scalar known id name
    obtain ⟨sound, value⟩ := means_tree p distinct (id + 0)
    obtain ⟨texts, sounds, entries⟩ := means_fieldTrees fields all (id + 0 + p.tree.containers)
    rw [fieldTrees, Tree.toEntries, toEntries]
    refine ⟨List.forall_mem_cons.2 ⟨text, texts⟩, ?_, ?_⟩
    · rw [List.map_cons, List.all_cons]
      exact Bool.and_eq_true_iff.2 ⟨sound, sounds⟩
    · rw [keyed_cons key, ← entries, ← value rfl]
      rfl

end

mutual

theorem tree_plain (p : Plain) (names : List String) : p.tree.refersTo names = false := by
  cases p with
  | null | bool | text => rfl
  | list items => exact trees_plain items names
  | record fields => exact fieldTrees_plain fields names

theorem trees_plain (items : List Plain) (names : List String) :
    Tree.itemRefersTo names (trees items) = false := by
  cases items with
  | nil => rfl
  | cons p items =>
    rw [trees, Tree.itemRefersTo, tree_plain p, trees_plain items]
    rfl

theorem fieldTrees_plain (fields : List (String × Plain)) (names : List String) :
    Tree.entryRefersTo names (fieldTrees fields) = false := by
  cases fields with
  | nil => rfl
  | cons f fields =>
    rw [fieldTrees, Tree.entryRefersTo, tree_plain, fieldTrees_plain fields]
    rfl

end

theorem value_tree {p : Plain} (distinct : p.Distinct) : p.tree.value = .ok p.toValue := by
  have node : p.tree.root.Means true p.toValue := by
    rw [Tree.root, tree_plain]
    exact means_tree _ p distinct 0
  have sound := node.sound
  rw [← fault_isNone, Option.isNone_iff_eq_none] at sound
  rw [Tree.value, sound, node.value rfl]

theorem rereadItems_eq (k : Nat) (items : List Plain) :
    rereadItems k items = items.map (reread (k + 2) (k + 2)) := by
  induction items with
  | nil => rfl
  | cons p items ih => rw [rereadItems, ih, List.map_cons]

theorem rereadFields_eq (k : Nat) (fields : List (String × Plain)) :
    rereadFields k fields = fields.map fun f => (f.1, f.2.reread k (k + 2)) := by
  induction fields with
  | nil => rfl
  | cons f fields ih => rw [rereadFields, ih, List.map_cons]

theorem Distinct.reread {p : Plain} (distinct : p.Distinct) (h i : Nat) :
    (p.reread h i).Distinct := by
  induction distinct generalizing h i with
  | null => exact .null
  | bool b => exact .bool b
  | text s => exact .text _
  | list items all ih =>
    rw [Plain.reread, rereadItems_eq]
    exact .list _ (List.forall_mem_map.2 fun p mem => ih p mem (h + 2) (h + 2))
  | record fields nodup all ih =>
    rw [Plain.reread, rereadFields_eq]
    refine .record _ ?_ (List.forall_mem_map.2 fun f mem => ih f mem i (i + 2))
    rw [List.map_map]
    exact nodup

/-- A file with a record at the left margin is read, as the data that the record is reread as. -/
theorem read_recordToYaml {f : String × Plain} {fields : List (String × Plain)}
    (named : (record (f :: fields)).Named) (distinct : (record (f :: fields)).Distinct) :
    Yaml.read (recordToYaml (f :: fields)).toList = .ok ((record (f :: fields)).reread 0 0).toValue := by
  have scanned : Tokens.ofText (fieldsYaml 0 (f :: fields) ++ ['\n']) =
      ⟨(record (f :: fields)).blockTokens 0 0, none⟩ := by
    cases named with
    | record _ names all => exact ofText_fields names all
  have accepted : Accepted (fieldsYaml 0 (f :: fields) ++ ['\n']) := by
    cases named with
    | record _ names all =>
      exact accepted_append.2 ⟨accepted_fieldsYaml _ names all 0, accepted_newLine 0⟩
  have allowed : (fieldsYaml 0 (f :: fields) ++ ['\n']).all isAllowed = true :=
    List.all_eq_true.2 fun c mem => (accepted c mem).1
  rw [recordToYaml, String.toList_ofList, Yaml.read, allowed, accepted.normalized, scanned,
    ofTokens_record named]
  exact value_tree (distinct.reread 0 0)

end ApiModel.Plain
