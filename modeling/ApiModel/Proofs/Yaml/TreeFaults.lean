import ApiModel.Yaml.Tree

namespace ApiModel.Yaml

def EndsBy (ending : Fault) {α : Type} : Except Fault α → Prop
  | .ok _ => True
  | .error e => e = .malformed ∨ e = ending

namespace EndsBy

variable {ending : Fault} {α β : Type} {x : Except Fault α}

theorem malformed : EndsBy ending (.error .malformed : Except Fault α) := .inl rfl

theorem done (a : α) : EndsBy ending (.ok a) := trivial

theorem missing : EndsBy ending (.error ending : Except Fault α) := .inr rfl

theorem bind {f : α → Except Fault β} (first : EndsBy ending x) (rest : ∀ a, EndsBy ending (f a)) :
    EndsBy ending (x >>= f) := by
  cases x with
  | ok a => exact rest a
  | error e => exact first

theorem map {f : α → β} (first : EndsBy ending x) : EndsBy ending (x.map f) := by
  cases x with
  | ok a => trivial
  | error e => exact first

theorem ite {p : Prop} [Decidable p] {y : Except Fault α} (yes : EndsBy ending x)
    (no : EndsBy ending y) : EndsBy ending (if p then x else y) := by
  split
  · exact yes
  · exact no

end EndsBy

theorem Tokens.ending_checkNames (t : Tokens) :
    t.checkNames.ending = .malformed ∨ t.fault = some t.checkNames.ending := by
  unfold checkNames ending
  split
  · exact .inl rfl
  · cases t.fault with
    | none => exact .inl rfl
    | some e => exact .inr rfl

namespace Tree

variable {known : Shorthands} {ending : Fault}

theorem endsBy_fullTag (handle : Option String) (rest : String) :
    EndsBy ending (fullTag known handle rest) := by
  unfold fullTag
  split
  · trivial
  · split
    · trivial
    · exact .malformed

theorem endsBy_properties (ts : List Token) : EndsBy ending (properties known ts) := by
  unfold properties
  split
  · exact (endsBy_fullTag ..).map
  · exact (endsBy_fullTag ..).map
  · trivial
  · exact (endsBy_fullTag ..).map
  · trivial

theorem endsBy_afterComma (ts : List Token) : EndsBy ending (afterComma ending ts) := by
  unfold afterComma
  split
  · trivial
  · exact .missing
  · exact .malformed

variable {reader : List Token → Except Fault (Tree × List Token)}

theorem endsBy_afterColon (reads : ∀ ts, EndsBy ending (reader ts)) (ends ts : List Token) :
    EndsBy ending (afterColon ends reader ts) := by
  unfold afterColon
  split
  · exact .ite trivial (reads _)
  · trivial

theorem endsBy_orEmpty (reads : ∀ ts, EndsBy ending (reader ts)) (ends ts : List Token) :
    EndsBy ending (orEmpty ends reader ts) := .ite trivial (reads ts)

structure Ends (known : Shorthands) (ending : Fault) (fuel : Nat) : Prop where
  node : ∀ block indentless ts, EndsBy ending (node known ending fuel block indentless ts)
  blockItems : ∀ ts, EndsBy ending (blockItems known ending fuel ts)
  indentlessItems : ∀ ts, EndsBy ending (indentlessItems known ending fuel ts)
  blockEntries : ∀ ts, EndsBy ending (blockEntries known ending fuel ts)
  flowItems : ∀ first ts, EndsBy ending (flowItems known ending fuel first ts)
  flowEntries : ∀ first ts, EndsBy ending (flowEntries known ending fuel first ts)

section Readers

variable {fuel : Nat} (below : ∀ n < fuel, Ends known ending n)

include below

theorem endsBy_node (block indentless : Bool) (ts : List Token) :
    EndsBy ending (node known ending fuel block indentless ts) := by
  fun_cases node known ending fuel block indentless ts with
  | case1 => exact .malformed
  | case2 => exact .done _
  | case3 fuel =>
    have less := below fuel fuel.lt_succ_self
    refine (endsBy_properties _).bind fun (p, ts) => ?_
    dsimp only
    split
    · exact .done _
    · exact (less.flowItems true _).bind fun _ => .done _
    · exact (less.flowEntries true _).bind fun _ => .done _
    · refine .ite ((less.indentlessItems _).bind fun _ => .done _) ?_
      refine .ite ((less.blockItems _).bind fun _ => .done _) ?_
      refine .ite ((less.blockEntries _).bind fun _ => .done _) (.ite (.done _) ?_)
      split
      · exact .missing
      · exact .malformed

theorem endsBy_blockItems (ts : List Token) : EndsBy ending (blockItems known ending fuel ts) := by
  fun_cases blockItems known ending fuel ts with
  | case1 => exact .malformed
  | case2 => exact .done _
  | case3 fuel r =>
    have less := below fuel fuel.lt_succ_self
    exact (endsBy_orEmpty (less.node true false) _ r).bind fun (item, r) =>
      (less.blockItems r).bind fun _ => .done _
  | case4 => exact .missing
  | case5 => exact .malformed

theorem endsBy_indentlessItems (ts : List Token) :
    EndsBy ending (indentlessItems known ending fuel ts) := by
  fun_cases indentlessItems known ending fuel ts with
  | case1 => exact .malformed
  | case2 fuel r =>
    have less := below fuel fuel.lt_succ_self
    exact (endsBy_orEmpty (less.node true false) _ r).bind fun (item, r) =>
      (less.indentlessItems r).bind fun _ => .done _
  | case3 => exact .done _

theorem endsBy_blockEntries (ts : List Token) :
    EndsBy ending (blockEntries known ending fuel ts) := by
  fun_cases blockEntries known ending fuel ts with
  | case1 => exact .malformed
  | case2 => exact .done _
  | case3 fuel r =>
    have less := below fuel fuel.lt_succ_self
    exact (endsBy_orEmpty (less.node true true) _ r).bind fun (key, r) =>
      (endsBy_afterColon (less.node true true) _ r).bind fun (value, r) =>
        (less.blockEntries r).bind fun _ => .done _
  | case4 => exact .missing
  | case5 => exact .malformed

theorem endsBy_flowItems (first : Bool) (ts : List Token) :
    EndsBy ending (flowItems known ending fuel first ts) := by
  unfold flowItems
  split
  · exact .malformed
  · exact .done _
  · rename_i fuel _
    have less := below fuel fuel.lt_succ_self
    extract_lets ends behind
    have reads (ts : List Token) : EndsBy ending (behind ts) := by
      dsimp only [behind]
      split
      · exact .done _
      · exact (endsBy_orEmpty (less.node false false) _ _).bind fun (key, r) =>
          (endsBy_afterColon (less.node false false) _ r).bind fun (value, r) =>
            (less.flowItems false r).bind fun _ => .done _
      · exact (less.node false false _).bind fun (item, r) =>
          (less.flowItems false r).bind fun _ => .done _
    exact .ite ((EndsBy.done _).bind reads) ((endsBy_afterComma _).bind reads)

theorem endsBy_flowEntries (first : Bool) (ts : List Token) :
    EndsBy ending (flowEntries known ending fuel first ts) := by
  unfold flowEntries
  split
  · exact .malformed
  · exact .done _
  · rename_i fuel _
    have less := below fuel fuel.lt_succ_self
    extract_lets ends behind
    have reads (ts : List Token) : EndsBy ending (behind ts) := by
      dsimp only [behind]
      split
      · exact .done _
      · exact (endsBy_orEmpty (less.node false false) _ _).bind fun (key, r) =>
          (endsBy_afterColon (less.node false false) _ r).bind fun (value, r) =>
            (less.flowEntries false r).bind fun _ => .done _
      · exact (less.node false false _).bind fun (key, r) =>
          (less.flowEntries false r).bind fun _ => .done _
    exact .ite ((EndsBy.done _).bind reads) ((endsBy_afterComma _).bind reads)

end Readers

theorem ends (known : Shorthands) (ending : Fault) (fuel : Nat) : Ends known ending fuel := by
  -- the readers call each other, so the induction is on the fuel of all of them at once
  induction fuel using Nat.strongRecOn with
  | ind fuel below =>
    exact ⟨endsBy_node below, endsBy_blockItems below, endsBy_indentlessItems below,
      endsBy_blockEntries below, endsBy_flowItems below, endsBy_flowEntries below⟩

theorem endsBy_directives (version : Bool) (known : Shorthands) (ts : List Token) :
    EndsBy ending (directives version known ts) := by
  fun_induction directives version known ts with
  | case1 => exact .malformed
  | case2 _ _ _ _ _ ih => exact ih
  | case3 => exact .malformed
  | case4 _ _ _ _ _ _ ih => exact ih
  | case5 _ _ _ ih => exact ih
  | case6 => exact .done _

theorem endsBy_document (ts : List Token) : EndsBy ending (document ending ts) := by
  refine .ite ?_ ((ends ..).node ..)
  refine (endsBy_directives ..).bind fun (known, ts) => ?_
  dsimp only
  split
  · exact .ite (.done _) ((ends ..).node ..)
  · exact .missing
  · exact .malformed

theorem endsBy_ofTokens (t : Tokens) : EndsBy t.checkNames.ending (ofTokens t) := by
  unfold ofTokens
  dsimp only
  split
  · exact .done _
  · refine (endsBy_document _).bind fun (tree, r) => ?_
    dsimp only
    split
    · exact .done _
    · rename_i found
      rw [Tokens.ending, found]
      exact .missing
    · exact .malformed

/-- Words that are no tree are not YAML, or end too early, and then that with which they end is the
    fault. -/
theorem fault_of_ofTokens {t : Tokens} {e : Fault} (fault : ofTokens t = .error e) :
    e = .malformed ∨ t.fault = some e := by
  have ends := endsBy_ofTokens t
  rw [fault] at ends
  rcases ends with malformed | rfl
  · exact .inl malformed
  · exact t.ending_checkNames

end Tree

end ApiModel.Yaml
