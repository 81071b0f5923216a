import ApiModel.Proofs.Yaml.LineEnds
import Mathlib.Data.List.DropRight

namespace ApiModel.Yaml

open Json Text

mutual

def tokens : Spelling → List Token
  | .bare word => [.scalar (String.ofList word.chars : String) true]
  | .quoted ps => [.scalar (.ofList (foldPieces false ps)) false]
  | .emptyList _ => [.flowSequenceStart, .flowSequenceEnd]
  | .list items => .flowSequenceStart :: itemTokens items ++ [.flowSequenceEnd]
  | .emptyObject _ => [.flowMappingStart, .flowMappingEnd]
  | .object members => .flowMappingStart :: memberTokens members ++ [.flowMappingEnd]

def itemTokens : Items → List Token
  | .last _ item _ => tokens item
  | .more _ item _ rest => tokens item ++ .flowEntry :: itemTokens rest

def memberTokens : Members → List Token
  | .last label value _ => Scan.keyTokens label.key (isNear label) ++ tokens value
  | .more label value _ rest =>
    Scan.keyTokens label.key (isNear label) ++ tokens value ++ .flowEntry :: memberTokens rest

end

variable {size : Nat} {s t : Scan} {x : Char} {r rest : List Char} {ts us : List Token}
  {good good' : Bool}

theorem mem_normalizeLineEnds {y : Char} {cs : List Char} (mem : y ∈ normalizeLineEnds cs) :
    y = '\n' ∨ y ∈ cs ∧ y ≠ '\r' := by
  fun_induction normalizeLineEnds cs with
  | case1 => contradiction
  | case2 cs ih =>
    rcases List.mem_cons.1 mem with rfl | mem
    · exact .inl rfl
    · exact (ih mem).imp_right fun inside =>
        ⟨List.mem_cons_of_mem _ (List.mem_cons_of_mem _ inside.1), inside.2⟩
  | case3 x cs alone ih =>
    rcases List.mem_cons.1 mem with rfl | mem
    · split
      · exact .inl rfl
      · exact .inr ⟨List.mem_cons_self .., ‹_›⟩
    · exact (ih mem).imp_right fun inside => ⟨List.mem_cons_of_mem _ inside.1, inside.2⟩

theorem mem_normalizeLineEnds_of_mem {y : Char} {cs : List Char} (mem : y ∈ cs) (other : y ≠ '\r') :
    y ∈ normalizeLineEnds cs := by
  fun_induction normalizeLineEnds cs with
  | case1 => contradiction
  | case2 cs ih =>
    simp only [List.mem_cons, other, false_or] at mem
    rcases mem with rfl | mem
    · exact List.mem_cons_self ..
    · exact List.mem_cons_of_mem _ (ih mem)
  | case3 x cs alone ih =>
    rcases List.mem_cons.1 mem with rfl | mem
    · rw [if_neg other]
      exact List.mem_cons_self ..
    · exact List.mem_cons_of_mem _ (ih mem)

theorem normalizeLineEnds_eq_self {cs : List Char} (noFeed : '\n' ∉ normalizeLineEnds cs) :
    normalizeLineEnds cs = cs := by
  fun_induction normalizeLineEnds cs with
  | case1 => rfl
  | case2 cs ih => exact absurd (List.mem_cons_self ..) noFeed
  | case3 x cs alone ih =>
    simp only [List.mem_cons, not_or] at noFeed
    rw [ih noFeed.2]
    split
    · rename_i return_
      rw [if_pos return_] at noFeed
      exact absurd rfl noFeed.1
    · rfl

theorem mem_folded {b : Blanks} {y : Char} (mem : y ∈ b.folded) :
    isSkipped y = true ∨ y = '\t' ∧ '\t' ∈ b.chars := by
  rcases mem_normalizeLineEnds mem with rfl | ⟨mem, noReturn⟩
  · exact .inl rfl
  · have blank := b.blank y mem
    simp only [Json.isBlank, Bool.or_eq_true, decide_eq_true_eq] at blank
    rcases blank with ((rfl | rfl) | rfl) | rfl
    · exact .inl rfl
    · exact .inl rfl
    · contradiction
    · exact .inr ⟨rfl, mem⟩

theorem isSkipped_of_tabless {b : Blanks} (tabless : isTabless b = true) :
    ∀ y ∈ b.folded, isSkipped y = true := by
  intro y mem
  rcases mem_folded mem with gap | ⟨-, tab⟩
  · exact gap
  · exact absurd (List.all_eq_true.1 tabless _ tab) (by decide)

theorem blanks_ahead (b : Blanks) (r : List Char) :
    isTabless b = true ∧ (b.folded ++ r).dropWhile isSkipped = r.dropWhile isSkipped ∨
      isTabless b = false ∧ ∃ cs, (b.folded ++ r).dropWhile isSkipped = '\t' :: cs := by
  cases tabless : isTabless b with
  | true => exact .inl ⟨rfl, List.dropWhile_append_of_pos (isSkipped_of_tabless tabless)⟩
  | false =>
    refine .inr ⟨rfl, ?_⟩
    have tab : '\t' ∈ b.folded := by
      simp only [isTabless, List.all_eq_false, decide_eq_true_eq, not_not] at tabless
      obtain ⟨y, mem, rfl⟩ := tabless
      exact mem_normalizeLineEnds_of_mem mem (by decide)
    have blank : ∀ y ∈ b.folded, isSkipped y = true ∨ y = '\t' := fun y mem =>
      (mem_folded mem).imp_right And.left
    generalize b.folded = cs at tab blank
    induction cs with
    | nil => contradiction
    | cons y cs ih =>
      rcases blank y (List.mem_cons_self ..) with gap | rfl
      · have later : '\t' ∈ cs := by
          rcases List.mem_cons.1 tab with rfl | mem
          · contradiction
          · exact mem
        rw [List.cons_append, List.dropWhile_cons_of_pos gap]
        exact ih later fun z mem => blank z (List.mem_cons_of_mem y mem)
      · exact ⟨cs ++ r, List.dropWhile_cons_of_neg (by decide)⟩

theorem follows_blanks (b : Blanks) (ends : endsGap x = true) : Follows (b.folded ++ x :: r) := by
  rcases blanks_ahead b (x :: r) with ⟨-, same⟩ | ⟨-, cs, tab⟩
  · rw [Follows, same]
    exact follows_of_endsGap ends
  · exact ⟨'\t', cs, tab, rfl⟩

theorem isNearby_folded (l : Label) : isNearby (spell l.key) l.gap.folded = isNear l := by
  by_cases same : l.gap.folded = l.gap.chars
  · rw [same, isNear]
  · -- some line end was written anew, so neither gap consists of spaces
    have folded : l.gap.folded.all (· = ' ') = false := by
      have feed : '\n' ∈ l.gap.folded := not_not.1 (mt normalizeLineEnds_eq_self same)
      rw [List.all_eq_false]
      exact ⟨'\n', feed, by decide⟩
    have chars : l.gap.chars.all (· = ' ') = false := by
      by_contra spaces
      rw [Bool.not_eq_false, List.all_eq_true] at spaces
      have plain (y : Char) (mem : y ∈ l.gap.chars) : y ≠ '\r' := by
        rintro rfl
        exact absurd (spaces _ mem) (by decide)
      have folded := normalizeLineEnds_plain plain []
      rw [List.append_nil, normalizeLineEnds, List.append_nil] at folded
      exact same folded
    rw [isNear, isNearby, isNearby, folded, chars]
    rfl

namespace Scan

/-- What scanning the words `ts` up to `rest` comes to: they are read, or there is a fault. -/
inductive Outcome (size : Nat) (s : Scan) (ts : List Token) (rest : List Char) : Bool → Prop
  | reads {t : Scan} (reads : s.Reads size ts t) (flow : t.flow = s.flow) (ahead : t.ahead = rest) :
      Outcome size s ts rest true
  | fails (fails : s.Fails size) : Outcome size s ts rest false

theorem Outcome.of_reads (reads : s.Reads size ts t) (flow : t.flow = s.flow)
    (outcome : t.Outcome size us rest good) : s.Outcome size (ts ++ us) rest good := by
  cases outcome with
  | reads more flow' ahead => exact .reads (reads.trans more) (flow'.trans flow) ahead
  | fails fails => exact .fails (reads.fails fails)

theorem Outcome.then {middle : List Char} (first : s.Outcome size ts middle good)
    (second : ∀ t : Scan, t.Ready size → t.flow = s.flow → t.ahead = middle →
      t.Outcome size us rest good') : s.Outcome size (ts ++ us) rest (good && good') := by
  cases first with
  | reads reads flow ahead => exact .of_reads reads flow (second _ reads.ready flow ahead)
  | fails fails => exact .fails fails

theorem Outcome.blanks (ready : s.Ready size) (b : Blanks)
    (next : s.ahead = (b.folded ++ r).dropWhile isSkipped)
    (behind : s.ahead = r.dropWhile isSkipped → s.Outcome size ts rest good) :
    s.Outcome size ts rest (isTabless b && good) := by
  rcases blanks_ahead b r with ⟨tabless, same⟩ | ⟨tabbed, cs, tab⟩
  · rw [tabless]
    exact behind (next.trans same)
  · rw [tabbed]
    exact .fails (fails_tab ready (next.trans tab))

theorem Outcome.trailing (b : Blanks)
    (first : s.Outcome size ts ((b.folded ++ r).dropWhile isSkipped) good) :
    s.Outcome size ts (r.dropWhile isSkipped) (good && isTabless b) := by
  cases first with
  | fails fails => exact .fails fails
  | reads reads flow ahead =>
    rcases blanks_ahead b r with ⟨tabless, same⟩ | ⟨tabbed, cs, tab⟩
    · rw [tabless]
      exact .reads reads flow (ahead.trans same)
    · rw [tabbed]
      exact .fails (reads.fails (fails_tab reads.ready (ahead.trans tab)))

theorem Outcome.brackets {first last : Token} (opened : s.Reads size [first] t)
    (deeper : t.flow = s.flow + 1) (inner : t.Outcome size ts (x :: r) good)
    (bracket : x = ']' ∧ last = .flowSequenceEnd ∨ x = '\x7d' ∧ last = .flowMappingEnd) :
    s.Outcome size (first :: ts ++ [last]) (r.dropWhile isSkipped) good := by
  cases inner with
  | fails fails => exact .fails (opened.fails fails)
  | @reads u reads flow ahead =>
    obtain ⟨v, closed, behind, flow'⟩ := reads_close reads.ready ahead (by omega) bracket
    have same : v.flow = s.flow := by omega
    exact .reads ((opened.trans reads).trans closed) same (by rw [Scan.ahead, behind])

end Scan

theorem dropWhile_of_endsGap (ends : endsGap x = true) (r : List Char) :
    (x :: r).dropWhile isSkipped = x :: r := by
  have noGap := isSkipped_of_endsGap ends
  exact List.dropWhile_cons_of_neg (by rw [noGap]; decide)

theorem scanned_blanks (ready : s.Ready size) (b : Blanks) (ends : endsGap x = true)
    (next : s.ahead = (b.folded ++ x :: r).dropWhile isSkipped) :
    s.Outcome size [] (x :: r) (isTabless b) := by
  have stops := dropWhile_of_endsGap ends r
  rw [← Bool.and_true (isTabless b), ← stops]
  exact .blanks ready b next fun next => .reads (.refl ready) rfl next

theorem dropWhile_isSkipped_render (t : Spelling) (r : List Char) :
    (t.render Blanks.folded ++ r).dropWhile isSkipped = t.render Blanks.folded ++ r := by
  obtain ⟨y, cs, starts, noBlank⟩ := render_starts Blanks.folded t
  have noGap : isSkipped y = false := by
    simp only [Json.isBlank, Bool.or_eq_false_iff] at noBlank
    simp only [isSkipped, noBlank, Bool.or_false]
  rw [starts, List.cons_append, List.dropWhile_cons_of_neg (by rw [noGap]; decide)]

theorem scanned_label (l : Label) (ready : s.Ready size) (inside : 0 < s.flow)
    (allowed : s.keyAllowed = true)
    (next : s.ahead = (l.render Blanks.folded ++ r).dropWhile isSkipped) :
    s.Outcome size (Scan.keyTokens l.key (isNear l)) (r.dropWhile isSkipped) (l.obeys wordRules) := by
  have split : l.obeys wordRules =
      (isTabless l.before && (isClean l.key && isTabless l.gap && isTabless l.after)) := by
    simp only [Label.obeys, wordRules, Bool.and_true, Bool.and_assoc]
  simp only [Label.render, List.cons_append, List.append_assoc] at next
  rw [split]
  refine .blanks ready l.before next fun next => .trailing l.after ?_
  rw [List.dropWhile_cons_of_neg (by decide)] at next
  cases clean : isClean l.key with
  | false => exact .fails (Scan.fails_quoted ready next clean)
  | true =>
    rcases blanks_ahead l.gap (':' :: (l.after.folded ++ r)) with ⟨tabless, -⟩ | ⟨tabbed, cs, tab⟩
    · obtain ⟨u, reads, behind, flow⟩ :=
        Scan.reads_key ready inside allowed next (isSkipped_of_tabless tabless) clean
      rw [isNearby_folded] at reads
      rw [tabless]
      exact .reads reads flow (by rw [Scan.ahead, behind])
    · obtain ⟨t, u, -, reads, behind, -⟩ := Scan.reads_quoted ready next clean
      rw [tabbed]
      exact .fails (reads.fails (Scan.fails_tab reads.ready (by rw [Scan.ahead, behind, tab])))

def isBracketed : Spelling → Bool
  | .bare _ | .quoted _ => false
  | _ => true

theorem scanned_comma {first last : Bool} (outcome : s.Outcome size ts (',' :: r) first)
    (more : ∀ u : Scan, u.Ready size → u.flow = s.flow → u.keyAllowed = true → u.cursor.rest = r →
      u.Outcome size us rest last) :
    s.Outcome size (ts ++ .flowEntry :: us) rest (first && last) := by
  refine outcome.then fun t ready flow next => ?_
  obtain ⟨u, reads, behind, flow', allowed⟩ := Scan.reads_comma ready next
  have next_ : u.Outcome size us rest last := more u reads.ready (flow'.trans flow) allowed behind
  exact .of_reads reads flow' next_

theorem scanned_framed {item : Spelling} (before after : Blanks) (ready : s.Ready size)
    (ends : endsGap x = true)
    (next : s.ahead =
      (before.folded ++ (item.render Blanks.folded ++ (after.folded ++ x :: r))).dropWhile isSkipped)
    (value : s.ahead = item.render Blanks.folded ++ (after.folded ++ x :: r) →
      Follows (after.folded ++ x :: r) →
      s.Outcome size ts ((after.folded ++ x :: r).dropWhile isSkipped) good) :
    s.Outcome size ts (x :: r) (isTabless before && good && isTabless after) := by
  have stops := dropWhile_of_endsGap ends r
  rw [Bool.and_assoc, ← stops]
  refine .blanks ready before next fun next => .trailing after ?_
  rw [dropWhile_isSkipped_render] at next
  exact value next (follows_blanks after ends)

theorem scanned_member {value : Spelling} (label : Label) (after : Blanks) (ready : s.Ready size)
    (inside : 0 < s.flow) (allowed : s.keyAllowed = true) (ends : endsGap x = true)
    (next : s.ahead = (label.render Blanks.folded ++
      (value.render Blanks.folded ++ (after.folded ++ x :: r))).dropWhile isSkipped)
    (scan : ∀ t : Scan, t.Ready size → t.flow = s.flow →
      t.ahead = value.render Blanks.folded ++ (after.folded ++ x :: r) →
      Follows (after.folded ++ x :: r) →
      t.Outcome size ts ((after.folded ++ x :: r).dropWhile isSkipped) good) :
    s.Outcome size (Scan.keyTokens label.key (isNear label) ++ ts) (x :: r)
      (label.obeys wordRules && good && isTabless after) := by
  rw [← dropWhile_of_endsGap ends r]
  refine .trailing after (.then (scanned_label label ready inside allowed next) ?_)
  intro t ready flow next
  rw [dropWhile_isSkipped_render] at next
  exact scan t ready flow next (follows_blanks after ends)

mutual

/-- A value is scanned into its words if they obey the rules, and else the scan meets a fault. -/
theorem scanned (t : Spelling) {s : Scan} {r : List Char} (ready : s.Ready size)
    (inside : isBracketed t = false → 0 < s.flow) (next : s.ahead = t.render Blanks.folded ++ r)
    (follows : isBracketed t = false → Follows r) :
    s.Outcome size (tokens t) (r.dropWhile isSkipped) (t.obeys wordRules) := by
  cases t with
  | bare word =>
    obtain ⟨u, reads, behind, flow⟩ := Scan.reads_plain ready (inside rfl) next (follows rfl)
    have good : word.obeys wordRules = true := by cases word <;> rfl
    rw [Spelling.obeys, good]
    exact .reads reads flow (by rw [Scan.ahead, behind, List.dropWhile_idempotent])
  | quoted ps =>
    simp only [Spelling.render, List.cons_append, List.append_assoc, List.nil_append] at next
    rw [Spelling.obeys]
    change s.Outcome size _ _ (isClean ps)
    cases clean : isClean ps with
    | false => exact .fails (Scan.fails_quoted ready next clean)
    | true =>
      obtain ⟨t, u, -, reads, behind, flow, -⟩ := Scan.reads_quoted ready next clean
      exact .reads reads flow (by rw [Scan.ahead, behind])
  | emptyList blanks =>
    simp only [Spelling.render, List.cons_append, List.append_assoc, List.nil_append] at next
    obtain ⟨u, reads, behind, flow, -⟩ := Scan.reads_open ready next (.inl ⟨rfl, rfl⟩)
    exact .brackets reads flow (scanned_blanks reads.ready blanks rfl (by rw [Scan.ahead, behind]))
      (.inl ⟨rfl, rfl⟩)
  | list items =>
    simp only [Spelling.render, List.cons_append, List.append_assoc, List.nil_append] at next
    obtain ⟨u, reads, behind, flow, -⟩ := Scan.reads_open ready next (.inl ⟨rfl, rfl⟩)
    exact .brackets reads flow (scanned_items items reads.ready (by omega) rfl
      (by rw [Scan.ahead, behind])) (.inl ⟨rfl, rfl⟩)
  | emptyObject blanks =>
    simp only [Spelling.render, List.cons_append, List.append_assoc, List.nil_append] at next
    obtain ⟨u, reads, behind, flow, -⟩ := Scan.reads_open ready next (.inr ⟨rfl, rfl⟩)
    exact .brackets reads flow (scanned_blanks reads.ready blanks rfl (by rw [Scan.ahead, behind]))
      (.inr ⟨rfl, rfl⟩)
  | object members =>
    simp only [Spelling.render, List.cons_append, List.append_assoc, List.nil_append] at next
    obtain ⟨u, reads, behind, flow, allowed⟩ := Scan.reads_open ready next (.inr ⟨rfl, rfl⟩)
    exact .brackets reads flow (scanned_members members reads.ready (by omega) allowed
      (by rw [Scan.ahead, behind])) (.inr ⟨rfl, rfl⟩)

theorem scanned_items (items : Items) {s : Scan} {x : Char} {r : List Char} (ready : s.Ready size)
    (inside : 0 < s.flow) (ends : endsGap x = true)
    (next : s.ahead = (items.render Blanks.folded ++ x :: r).dropWhile isSkipped) :
    s.Outcome size (itemTokens items) (x :: r) (items.obeys wordRules) := by
  cases items with
  | last before item after =>
    simp only [Items.render, List.append_assoc] at next
    exact scanned_framed before after ready ends next fun next follows =>
      scanned item ready (fun _ => inside) next fun _ => follows
  | more before item after rest =>
    simp only [Items.render, List.append_assoc, List.cons_append] at next
    refine scanned_comma (scanned_framed before after ready rfl next fun next follows =>
      scanned item ready (fun _ => inside) next fun _ => follows) fun u ready flow _ behind => ?_
    exact scanned_items rest ready (by omega) ends (by rw [Scan.ahead, behind])

theorem scanned_members (members : Members) {s : Scan} {r : List Char} (ready : s.Ready size)
    (inside : 0 < s.flow) (allowed : s.keyAllowed = true)
    (next : s.ahead = (members.render Blanks.folded ++ '\x7d' :: r).dropWhile isSkipped) :
    s.Outcome size (memberTokens members) ('\x7d' :: r) (members.obeys wordRules) := by
  cases members with
  | last label value after =>
    simp only [Members.render, List.append_assoc] at next
    exact scanned_member label after ready inside allowed rfl next fun t ready flow next follows =>
      scanned value ready (fun _ => by omega) next fun _ => follows
  | more label value after rest =>
    simp only [Members.render, List.append_assoc, List.cons_append] at next
    refine scanned_comma (scanned_member label after ready inside allowed rfl next
      fun t ready flow next follows => scanned value ready (fun _ => by omega) next
        fun _ => follows) fun u ready flow allowed behind => ?_
    exact scanned_members rest ready (by omega) allowed (by rw [Scan.ahead, behind])

end

theorem run_end {fuel : Nat} (ready : s.Ready size) (next : s.ahead = []) :
    Scan.run size (fuel + 1) s = ⟨s.words.reverse, none⟩ := by
  obtain ⟨t, settles⟩ := Scan.exists_settles ready (by rw [next]; exact fun _ head => nomatch head)
  have nothing : t.cursor.peek = none := by rw [Cursor.peek, settles.rest, next, List.head?_nil]
  have taken : ∃ u : Scan, s.step size = .ok u ∧ u.done = true ∧ u.words = s.words := by
    rw [settles.step, nothing]
    dsimp only
    rw [Scan.scanEnd, Scan.unwind_outside settles.ready.indent (by omega),
      Scan.dropKey_ready settles.ready]
    exact ⟨_, rfl, rfl, settles.words⟩
  obtain ⟨u, step, done, words⟩ := taken
  rw [Scan.run, step]
  simp only [done, words, if_true]

/-- A text of one bracketed value is scanned into the words of the value, or with a fault. -/
theorem scanned_whole (t : Whole) (bracketed : isBracketed t.body = true) :
    (t.obeys wordRules = true →
      Tokens.ofText (t.render Blanks.folded) = ⟨tokens t.body, none⟩) ∧
    (t.obeys wordRules = false →
      (Tokens.ofText (t.render Blanks.folded)).fault.isSome = true) := by
  generalize chars : t.render Blanks.folded = cs
  let start : Scan := .ofText cs
  have ready : start.Ready (cs.length + 1) :=
    ⟨rfl, rfl, fun _ mem => (List.not_mem_nil mem).elim, rfl, Nat.lt_succ_self _⟩
  have next : start.ahead = (t.before.folded ++ (t.body.render Blanks.folded ++
      (t.after.folded ++ []))).dropWhile isSkipped := by
    rw [List.append_nil, ← List.append_assoc, ← Whole.render, chars]
    rfl
  have bracketed' : isBracketed t.body = false → False := fun other =>
    Bool.false_ne_true (other.symm.trans bracketed)
  have outcome : start.Outcome (cs.length + 1) (tokens t.body) []
      (isTabless t.before && t.body.obeys wordRules && isTabless t.after) := by
    rw [Bool.and_assoc]
    refine .blanks ready t.before next fun next => Scan.Outcome.trailing (r := []) t.after ?_
    rw [dropWhile_isSkipped_render] at next
    exact scanned t.body ready (fun other => (bracketed' other).elim) next
      fun other => (bracketed' other).elim
  change start.Outcome (cs.length + 1) (tokens t.body) [] (t.obeys wordRules) at outcome
  generalize t.obeys wordRules = good at outcome
  have room : start.cursor.rest.length < cs.length + 1 := Nat.lt_succ_self _
  cases outcome with
  | reads reads flow behind =>
    refine ⟨fun _ => ?_, fun other => absurd other.symm Bool.false_ne_true⟩
    obtain ⟨fuel, more, same⟩ := Scan.run_of_steps reads.steps room
    obtain ⟨fuel, rfl⟩ : ∃ n, fuel = n + 1 := ⟨fuel - 1, by omega⟩
    rw [Tokens.ofText, same, run_end reads.ready behind, reads.words]
    simp [start, Scan.ofText]
  | fails fails =>
    exact ⟨fun other => absurd other Bool.false_ne_true, fun _ => Scan.run_of_fails fails room⟩

end ApiModel.Yaml
