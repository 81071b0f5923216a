import ApiModel.Proofs.Yaml.Cursor
import ApiModel.Yaml.PlainScalar

namespace ApiModel.Yaml

variable {c : Cursor} {w r cs : List Char} {x : Char} {fuel : Nat}

def isSkipped (c : Char) : Bool := c = ' ' || c = '\n'

/-- What ends the gap behind a value: a bracket, a comma, or a tab that should not be there. -/
def endsGap (c : Char) : Bool := [',', ']', '\x7d', '\t'].contains c

def Follows (r : List Char) : Prop := ∃ x cs, r.dropWhile isSkipped = x :: cs ∧ endsGap x = true

def isPlainChar (c : Char) : Bool :=
  !(isBlank c || isBreak c || c = ':' || [',', '?', '[', ']', '\x7b', '\x7d'].contains c)

theorem endsGap_of_all (p : Char → Prop) [DecidablePred p]
    (all : ([',', ']', '\x7d', '\t'].all fun y => decide (p y)) = true) (ends : endsGap x = true) :
    p x :=
  forall_of_all all x (List.contains_iff_mem.1 ends)

theorem isSkipped_of_endsGap (ends : endsGap x = true) : isSkipped x = false :=
  endsGap_of_all (fun y => isSkipped y = false) (by decide) ends

theorem follows_of_endsGap (ends : endsGap x = true) : Follows (x :: cs) :=
  ⟨x, cs, List.dropWhile_cons_of_neg (by simp [isSkipped_of_endsGap ends]), ends⟩

theorem Follows.cases (follows : Follows r) :
    ∃ x cs, r = x :: cs ∧ ((x = ' ' ∨ x = '\n') ∧ Follows cs ∨ endsGap x = true) := by
  obtain ⟨y, ds, behind, ends⟩ := follows
  cases r with
  | nil => contradiction
  | cons x cs =>
    refine ⟨x, cs, rfl, ?_⟩
    by_cases gap : isSkipped x = true
    · rw [List.dropWhile_cons_of_pos gap] at behind
      exact .inl ⟨by simpa [isSkipped] using gap, y, ds, behind, ends⟩
    · rw [List.dropWhile_cons_of_neg gap] at behind
      obtain ⟨rfl, rfl⟩ := List.cons.inj behind
      exact .inr ends

theorem Follows.endsPlain (follows : Follows (x :: cs)) : endsPlain true x cs.head? = true := by
  obtain ⟨_, _, same, (⟨rfl | rfl, -⟩ | ends)⟩ := follows.cases
  · cases same
    rfl
  · cases same
    rfl
  · cases same
    have stops : isBlank x = true ∨ [',', '?', '[', ']', '\x7b', '\x7d'].contains x = true :=
      endsGap_of_all (fun y => isBlank y = true ∨ _ = true) (by decide) ends
    rcases stops with blank | flow
    · rw [Yaml.endsPlain, blank]
      rfl
    · rw [Yaml.endsPlain, flow]
      exact Bool.or_true _

theorem Follows.not_atMarker (follows : Follows c.rest) : c.atMarker = false := by
  obtain ⟨x, cs, rest, gap⟩ := follows.cases
  have noMark : x ≠ '-' ∧ x ≠ '.' := by
    rcases gap with ⟨rfl | rfl, -⟩ | ends
    · decide
    · decide
    · exact endsGap_of_all (fun y => y ≠ '-' ∧ y ≠ '.') (by decide) ends
  rw [← Bool.not_eq_true, Cursor.atMarker_iff]
  simp [rest, noMark]

theorem lineBreak?_of_endsGap (rest : c.rest = x :: cs) (ends : endsGap x = true) :
    c.lineBreak? = none := by
  apply Cursor.lineBreak?_eq_none
  intro y next
  rw [Cursor.peek_eq rest, Option.some.injEq] at next
  exact next ▸ endsGap_of_all (fun y => isBreak y = false) (by decide) ends

theorem plainLength_word (plain : ∀ y ∈ w, isPlainChar y = true) (follows : Follows r) :
    plainLength true (w ++ r) = w.length := by
  induction w with
  | nil =>
    obtain ⟨x, cs, rfl, -⟩ := follows.cases
    rw [List.nil_append, plainLength, if_pos follows.endsPlain, List.length_nil]
  | cons y w ih =>
    have inside : endsPlain true y (w ++ r).head? = false := by
      have here := plain y (List.mem_cons_self ..)
      simp only [isPlainChar, Bool.not_eq_true', Bool.or_eq_false_iff] at here
      rw [Yaml.endsPlain, here.1.1.1, here.1.1.2, here.1.2, here.2]
      rfl
    rw [List.cons_append, plainLength, if_neg (by rw [inside]; decide),
      ih fun z mem => plain z (List.mem_cons_of_mem y mem), List.length_cons]

theorem plainBreaks_follows (follows : Follows c.rest) (room : c.rest.length ≤ fuel) :
    ∃ more d, plainBreaks fuel c = (some more, d) ∧ d.rest = c.rest.dropWhile isSkipped ∧
      c.Reaches d := by
  induction fuel generalizing c with
  | zero =>
    obtain ⟨x, cs, rest, -⟩ := follows.cases
    rw [rest, List.length_cons] at room
    omega
  | succ fuel ih =>
    obtain ⟨x, cs, rest, (⟨gap, behind⟩ | ends)⟩ := follows.cases
    · rw [← Cursor.next_rest rest] at behind
      have shorter : c.next.rest.length ≤ fuel := by
        rw [rest, List.length_cons] at room
        rw [Cursor.next_rest rest]
        omega
      obtain ⟨more, d, read, rest', reaches⟩ := ih behind shorter
      rw [Cursor.next_rest rest] at rest'
      have reaches := (Cursor.passes_next rest).reaches.trans reaches
      rw [plainBreaks, Cursor.peek_eq rest]
      rcases gap with rfl | rfl
      · rw [if_pos (by decide), read, rest, List.dropWhile_cons_of_pos rfl]
        exact ⟨more, d, rfl, rest', reaches⟩
      · rw [if_neg (by decide), Cursor.lineBreak?_eq_some (Cursor.peek_eq rest) rfl, rest,
          List.dropWhile_cons_of_pos rfl]
        simp only [behind.not_atMarker, read]
        exact ⟨_, d, rfl, rest', reaches⟩
    · have noGap := isSkipped_of_endsGap ends
      have noSpace : isNext c.peek ' ' = false := by
        rw [Cursor.peek_eq rest]
        exact endsGap_of_all (fun y => isNext (some y) ' ' = false) (by decide) ends
      rw [plainBreaks, noSpace, lineBreak?_of_endsGap rest ends, rest,
        List.dropWhile_cons_of_neg (by rw [noGap]; decide)]
      exact ⟨[], c, rfl, rest, (Cursor.Passes.refl c).reaches⟩

theorem dropWhile_isSkipped_spaces (r : List Char) :
    (r.dropWhile (· = ' ')).dropWhile isSkipped = r.dropWhile isSkipped := by
  induction r with
  | nil => rfl
  | cons x r ih =>
    by_cases space : x = ' '
    · rw [List.dropWhile_cons_of_pos (by simpa using space), ih,
        List.dropWhile_cons_of_pos (by simp [isSkipped, space])]
    · rw [List.dropWhile_cons_of_neg (by simpa using space)]

theorem skipSpaces_cases (c : Cursor) : ∃ d, c.skipWhile (· = ' ') = d ∧ c.Reaches d ∧
    (d.rest = '\n' :: d.next.rest ∧ d.next.rest.dropWhile isSkipped = c.rest.dropWhile isSkipped ∨
      d.peek ≠ some '\n' ∧ d.rest = c.rest.dropWhile isSkipped) := by
  have same := dropWhile_isSkipped_spaces c.rest
  have noSpace := List.head?_dropWhile_not (fun x : Char => decide (x = ' ')) c.rest
  have rest := Cursor.skipWhile_rest (· = ' ') c
  have passed := (Cursor.passes_skipWhile (· = ' ') c).reaches
  generalize c.skipWhile (· = ' ') = d at rest passed
  rw [← rest] at same noSpace
  refine ⟨d, rfl, passed, ?_⟩
  cases chars : d.rest with
  | nil =>
    rw [chars] at same
    exact .inr ⟨by rw [Cursor.peek, chars]; decide, same⟩
  | cons x r =>
    rw [chars] at same noSpace
    by_cases feed : x = '\n'
    · subst feed
      rw [Cursor.next_rest chars]
      exact .inl ⟨rfl, same⟩
    · have noGap : isSkipped x = false := by
        rw [isSkipped, Bool.or_eq_false_iff, decide_eq_false_iff_not, decide_eq_false_iff_not]
        exact ⟨by simpa using noSpace, feed⟩
      rw [List.dropWhile_cons_of_neg (by rw [noGap]; decide)] at same
      rw [Cursor.peek_eq chars, Ne, Option.some.injEq]
      exact .inr ⟨feed, same⟩

theorem plainGap_follows (follows : Follows c.rest) (room : c.rest.length ≤ fuel) :
    (plainGap fuel c).after.rest = c.rest.dropWhile isSkipped ∧ c.Reaches (plainGap fuel c).after := by
  obtain ⟨d, skipped, passed, (⟨starts, same⟩ | ⟨-, same⟩)⟩ := skipSpaces_cases c
  · have behind : Follows d.next.rest := by rwa [Follows, same]
    have shorter : d.next.rest.length ≤ fuel := by
      have length := passed.length_le
      rw [starts, List.length_cons] at length
      omega
    obtain ⟨more, e, read, rest, reaches⟩ := plainBreaks_follows behind shorter
    rw [plainGap, ← Cursor.skipWhile, skipped, Cursor.lineBreak?_eq_some (Cursor.peek_eq starts) rfl]
    simp only [behind.not_atMarker, read]
    exact ⟨rest.trans same, passed.trans ((Cursor.passes_next starts).reaches.trans reaches)⟩
  · obtain ⟨x, cs, behind, ends⟩ := follows
    rw [plainGap, ← Cursor.skipWhile, skipped, lineBreak?_of_endsGap (same.trans behind) ends]
    exact ⟨same, passed⟩

theorem plainScalar_word (plain : ∀ y ∈ w, isPlainChar y = true) (at_ : c.rest = w ++ r)
    (follows : Follows r) (room : c.rest.length < fuel) (indent : Nat) :
    (plainScalar true indent fuel c).text = w ∧
      (plainScalar true indent fuel c).after.rest = r.dropWhile isSkipped ∧
      c.Reaches (plainScalar true indent fuel c).after := by
  cases fuel with
  | zero => omega
  | succ fuel =>
    have word : c.rest.take (plainLength true c.rest) = w := by
      rw [at_, plainLength_word plain follows, List.take_left]
    have passes := Cursor.passes_forward at_
    have rest := Cursor.forward_rest at_
    have length := passes.reaches.length_le
    have gapRoom : (c.forward w.length).rest.length ≤ fuel := by omega
    obtain ⟨gapRest, gapReaches⟩ := plainGap_follows (rest.symm ▸ follows) gapRoom
    rw [rest] at gapRest
    have ends : plainLength true (plainGap fuel (c.forward w.length)).after.rest = 0 := by
      obtain ⟨x, cs, behind, ends⟩ := follows
      rw [gapRest, behind, plainLength, if_pos (follows_of_endsGap ends).endsPlain]
    rw [plainScalar, word]
    simp only [ends, decide_true, Bool.or_true, if_true]
    exact ⟨trivial, gapRest, passes.reaches.trans gapReaches⟩

end ApiModel.Yaml
