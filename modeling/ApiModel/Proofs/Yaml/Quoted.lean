import ApiModel.Proofs.Yaml.Folding

namespace ApiModel.Yaml

open Json Text

variable {c : Cursor} {p : Piece} {ps : List Piece} {cs r : List Char} {fuel : Nat}

/-- What reading some of a string comes to: a fault where something is bad, or a part `text` of what the
    string folds to and a place from which the pieces `qs` are still to come. -/
inductive Folds (c : Cursor) (ps : List Piece) (r : List Char) (start marked : Bool) :
    Except Fault (List Char × Cursor) → Prop
  | fault (e : Fault) (bad : marked = true ∨ isClean ps = false) : Folds c ps r start marked (.error e)
  | text {text : List Char} {d : Cursor} {qs : List Piece} (good : marked = false)
      (folded : foldPieces start ps = text.map .char ++ foldPieces false qs) (clean : isClean ps = isClean qs)
      (reaches : c.Reaches d) (rest : d.rest = spell qs ++ '"' :: r) :
      Folds c ps r start marked (.ok (text, d))

theorem Folds.bad_lineEnd {start : Bool} {e : Fault} (ends : p.isLineEnd = true)
    (inner : Folds c ps r start (startsWithMarker ps) (.error e)) : isClean (p :: ps) = false := by
  obtain ⟨_, bad⟩ := inner
  rw [← Bool.not_eq_true, isClean_cons]
  rintro ⟨unmarked, good⟩
  rcases bad with marks | bad
  · exact Bool.false_ne_true ((unmarked ends).symm.trans marks)
  · exact Bool.false_ne_true (bad.symm.trans good)

theorem Folds.lineEnd {start : Bool} {d : Cursor} {qs : List Piece} {f : List Char → List Char}
    {result : Except Fault (List Char × Cursor)} (split : ps.dropWhile Piece.isSpace = p :: qs)
    (ends : p.isLineEnd = true) (spaces : foldPieces start ps = foldPieces start (p :: qs))
    (passed : c.Reaches d) (inner : Folds d qs r true (startsWithMarker qs) result)
    (folds : ∀ more e, result = .ok (more, e) →
      (f more).map Letter.char = foldEnd p.letter start (breaksAhead qs) ++ more.map .char) :
    Folds c ps r start false (result.map fun (more, e) => (f more, e)) := by
  have noSpace : p.isSpace = false := by simpa [split] using head_dropWhile_isSpace ps
  cases result with
  | error e =>
    refine .fault e (.inr ?_)
    rw [isClean_spaces, split]
    exact inner.bad_lineEnd ends
  | ok y =>
    obtain _ | ⟨unmarked, folded, clean, reaches, rest⟩ := inner
    refine .text rfl ?_ ?_ (passed.trans reaches) rest
    · rw [spaces, foldPieces_lineEnd start noSpace ends, folded, folds _ _ rfl, List.append_assoc]
    · rw [isClean_spaces, split, isClean_lineEnd ends unmarked, clean]

theorem quotedBreaks_spelled (at_ : c.rest = spell ps ++ '"' :: r) (room : c.rest.length ≤ fuel) :
    Folds c ps r true (startsWithMarker ps) (quotedBreaks fuel c) := by
  induction fuel generalizing c ps with
  | zero =>
    rw [at_, List.length_append, List.length_cons] at room
    omega
  | succ fuel ih =>
    rw [quotedBreaks, atMarker_spelled at_]
    cases marked : startsWithMarker ps with
    | true => exact .fault _ (.inl rfl)
    | false =>
      rw [if_neg Bool.false_ne_true]
      have passed := (Cursor.passes_skipWhile isBlank c).reaches
      have rest := skipBlanks_spelled at_
      dsimp only
      generalize c.skipWhile isBlank = d at passed rest ⊢
      rcases breaksAhead_cases ps with flat | ⟨p, qs, split, ends, -⟩
      · rw [lineBreak?_of_not_breaksAhead rest flat]
        refine .text rfl ?_ (isClean_spaces ps) passed rest
        rw [foldPieces_true_spaces, foldPieces_start (head_dropWhile_isSpace ps) flat]
        rfl
      · rw [split] at rest
        obtain ⟨x, letter, -, breaks, rest, after⟩ := lineBreak?_of_isLineEnd rest ends
        have shorter : d.next.rest.length ≤ fuel := by
          have length := passed.length_le
          rw [rest, List.length_cons] at length
          omega
        rw [breaks]
        refine (ih after shorter).lineEnd split ends (by rw [foldPieces_true_spaces, split])
          (passed.trans (Cursor.passes_next rest).reaches) fun more e read => ?_
        rw [foldEnd, letter]
        split <;> simp_all

theorem quotedBreaks_isEmpty (at_ : c.rest = spell ps ++ '"' :: r) {text : List Char} {d : Cursor}
    (read : quotedBreaks fuel c = .ok (text, d)) : text.isEmpty = !breaksAhead ps := by
  cases fuel with
  | zero => contradiction
  | succ fuel =>
    have rest := skipBlanks_spelled at_
    rw [quotedBreaks] at read
    dsimp only at read
    generalize c.skipWhile isBlank = e at rest read
    split at read
    · contradiction
    rcases breaksAhead_cases ps with flat | ⟨p, qs, split, ends, ahead⟩
    · rw [lineBreak?_of_not_breaksAhead rest flat] at read
      cases read
      rw [flat]
      rfl
    · rw [split] at rest
      obtain ⟨x, -, -, breaks, -, -⟩ := lineBreak?_of_isLineEnd rest ends
      rw [breaks] at read
      dsimp only at read
      rw [ahead]
      cases more : quotedBreaks fuel e.next with
      | error f =>
        rw [more] at read
        contradiction
      | ok x =>
        rw [more] at read
        cases read
        rfl

theorem isSpace_of_flat (gap : p.isSpace = true ∨ p.isLineEnd = true)
    (flat : breaksAhead (p :: ps) = false) : p.isSpace = true := by
  rcases gap with space | ends
  · exact space
  · by_contra noSpace
    rw [breaksAhead, List.dropWhile_cons_of_neg noSpace, List.head?_cons, Option.any_some] at flat
    exact Bool.false_ne_true (flat.symm.trans ends)

theorem reaches_skipBlanks (at_ : c.rest = spell (p :: ps) ++ '"' :: r) (space : p.isSpace = true) :
    c.next.Reaches (c.skipWhile isBlank) := by
  rw [spell_cons, isSpace_iff.1 space, List.cons_append, List.cons_append] at at_
  rw [Cursor.skipWhile_of_pos at_ rfl]
  exact (Cursor.passes_skipWhile isBlank c.next).reaches

theorem reaches_skipBlanks_next (at_ : c.rest = spell (p :: ps) ++ '"' :: r) {x : Char} {cs : List Char}
    (rest : (c.skipWhile isBlank).rest = x :: cs) : c.next.Reaches (c.skipWhile isBlank).next := by
  cases space : p.isSpace with
  | true => exact (reaches_skipBlanks at_ space).trans (Cursor.passes_next rest).reaches
  | false =>
    obtain ⟨y, ds, starts, noBlank, -⟩ := chars_of_not_isSpace space
    rw [spell_cons, starts] at at_
    rw [Cursor.skipWhile_of_neg at_ noBlank]
    exact (Cursor.Passes.refl _).reaches

theorem quotedGap_spelled (at_ : c.rest = spell (p :: ps) ++ '"' :: r)
    (gap : p.isSpace = true ∨ p.isLineEnd = true) (room : c.rest.length ≤ fuel + 1) :
    Folds c.next (p :: ps) r false false (quotedGap fuel c) := by
  have length := (Cursor.passes_skipWhile isBlank c).reaches.length_le
  have rest := skipBlanks_spelled at_
  rw [quotedGap]
  dsimp only
  rw [← Cursor.skipWhile]
  rcases breaksAhead_cases (p :: ps) with flat | ⟨q, qs, split, ends, ahead⟩
  · have blanks : c.rest.takeWhile isBlank = spell ((p :: ps).takeWhile Piece.isSpace) := by
      rw [at_, (spaces_spelled (p :: ps) r).1]
    have passed := reaches_skipBlanks at_ (isSpace_of_flat gap flat)
    rw [lineBreak?_of_not_breaksAhead rest flat, blanks]
    refine .text rfl ?_ (isClean_spaces _) passed rest
    rw [foldPieces_false_spaces, if_neg (by simp [flat])]
  · rw [split] at rest
    obtain ⟨x, letter, notFeed, breaks, rest, after⟩ := lineBreak?_of_isLineEnd rest ends
    have shorter : (c.skipWhile isBlank).next.rest.length ≤ fuel := by
      rw [rest, List.length_cons] at length
      omega
    have spaces : foldPieces false (p :: ps) = foldPieces false (q :: qs) := by
      rw [foldPieces_false_spaces, if_pos ahead, List.nil_append, split]
    rw [breaks]
    refine (quotedBreaks_spelled after shorter).lineEnd split ends spaces
      (reaches_skipBlanks_next at_ rest) fun more e read => ?_
    rw [letter]
    exact foldBreaks_eq_foldEnd notFeed (quotedBreaks_isEmpty after read)

theorem namedEscape?_of_json {letter x : Char} (names : Json.namedEscape? letter = some x) :
    namedEscape? letter = some x := by
  unfold Json.namedEscape? at names
  split at names <;> cases names <;> rfl

theorem hexCode?_of_hex4? {a b c d : Char} {n : Nat} {r : List Char}
    (writes : hex4? a b c d = some n) : hexCode? 4 (a :: b :: c :: d :: r) 0 = some n := by
  simp only [hex4?, Option.bind_eq_bind, Option.bind_eq_some_iff, Option.pure_def,
    Option.some.injEq] at writes
  obtain ⟨va, ha, vb, hb, vc, hc, vd, hd, rfl⟩ := writes
  simp only [hexCode?, ha, hb, hc, hd, Option.bind_some, Nat.zero_mul, Nat.zero_add]

theorem hex4?_lt {a b c d : Char} {n : Nat} (writes : hex4? a b c d = some n) : n < 0x10000 := by
  have digit {c : Char} {v : Nat} (value : hexValue? c = some v) : v < 16 := by
    unfold hexValue? at value
    split at value
    · simpa using (Option.filter_eq_some_iff.1 value).2
    · contradiction
  simp only [hex4?, Option.bind_eq_bind, Option.bind_eq_some_iff, Option.pure_def,
    Option.some.injEq] at writes
  obtain ⟨va, ha, vb, hb, vc, hc, vd, hd, rfl⟩ := writes
  have := digit ha
  have := digit hb
  have := digit hc
  have := digit hd
  omega

theorem foldPieces_other (noSpace : p.isSpace = false) (noEnd : p.isLineEnd = false) :
    foldPieces false (p :: ps) = p.letter :: foldPieces false ps := by
  rw [foldPieces, if_neg (by simp [noSpace]), if_neg (by simp [noEnd])]

theorem isClean_other (noEnd : p.isLineEnd = false) : isClean (p :: ps) = isClean ps := by
  rw [isClean, noEnd, Bool.false_and, Bool.not_false, Bool.true_and]

theorem quotedEscape_spelled (escape : p.chars = '\\' :: cs) (at_ : c.rest = cs ++ r) :
    ∃ d, quotedEscape fuel c = .ok ([p.letter], d) ∧ c.Passes cs d := by
  cases p with
  | raw x plain =>
    cases escape
    exact absurd rfl plain.2.2
  | named letter x names =>
    cases escape
    refine ⟨c.next, ?_, Cursor.passes_next at_⟩
    have char : (Piece.named letter x names).letter = .char x := Letter.ofCode_code (.char x)
    rw [quotedEscape, Cursor.peek_eq at_, char]
    simp only [namedEscape?_of_json names]
  | code a b c' d n writes =>
    cases escape
    have digits : hexCode? 4 c.next.rest 0 = some n := by
      rw [Cursor.next_rest at_]
      exact hexCode?_of_hex4? writes
    have small := hex4?_lt writes
    have unnamed : namedEscape? 'u' = none := rfl
    have length : codeLength? 'u' = some 4 := rfl
    refine ⟨c.forward 5, ?_, Cursor.passes_forward at_⟩
    rw [quotedEscape, Cursor.peek_eq at_]
    simp only [unnamed, length, digits]
    rw [letterOfCode, if_neg (by omega)]
    rfl

theorem quotedScalar_succ {x : Char} (at_ : c.rest = x :: r) (noQuote : x ≠ '"') :
    quotedScalar true (fuel + 1) c =
      (if isBlank x || isBreak x then (quotedGap fuel c).map fun (cs, c) => (cs.map Letter.char, c)
        else if x = '\\' then quotedEscape fuel c.next
        else .ok ([.char x], c.next)).bind fun (text, d) =>
          (quotedScalar true fuel d).map fun (more, e) => (text ++ more, e) := by
  rw [quotedScalar, Cursor.peek_eq at_]
  by_cases blank : (isBlank x || isBreak x) = true
  · simp only [blank, if_true]
    cases quotedGap fuel c <;> rfl
  by_cases escape : x = '\\'
  · simp only [blank, noQuote, if_pos escape, if_true, if_false]
    cases quotedEscape fuel c.next <;> rfl
  · simp only [blank, noQuote, escape, if_true, if_false]
    rfl

theorem piece_spelled (fuel : Nat) (noSpace : p.isSpace = false) (noEnd : p.isLineEnd = false)
    (at_ : c.rest = p.chars ++ r) :
    ∃ d, quotedScalar true (fuel + 1) c =
      ((quotedScalar true fuel d).map fun (more, e) => (p.letter :: more, e)) ∧ c.Passes p.chars d := by
  obtain ⟨x, cs, starts, noBlank, breaks⟩ := chars_of_not_isSpace noSpace
  rw [noEnd] at breaks
  rw [starts] at at_
  have next := Cursor.passes_next at_
  have rest := Cursor.next_rest at_
  by_cases escape : x = '\\'
  · subst escape
    rw [quotedScalar_succ at_ (by decide), noBlank, breaks, Bool.or_false, if_neg Bool.false_ne_true,
      if_pos rfl]
    obtain ⟨d, read, passes⟩ := quotedEscape_spelled starts rest
    exact ⟨d, by rw [read]; rfl, by rw [starts]; exact next.trans passes⟩
  · cases p with
    | raw y plain =>
      cases starts
      have char : (Piece.raw x plain).letter = .char x := Letter.ofCode_code (.char x)
      rw [quotedScalar_succ at_ plain.2.1, noBlank, breaks, Bool.or_false,
        if_neg Bool.false_ne_true, if_neg escape, char]
      exact ⟨c.next, rfl, next⟩
    | named | code =>
      cases starts
      exact absurd rfl escape

/-- What reading a string comes to: the text that it folds to, up to behind its closing quote, or a fault
    if the string is not clean. -/
def Closes (c : Cursor) (ps : List Piece) (r : List Char)
    (result : Except Fault (List Letter × Cursor)) : Prop :=
  (isClean ps = false ∧ ∃ e, result = .error e) ∨
    (isClean ps = true ∧ ∃ d, result = .ok (foldPieces false ps, d) ∧ c.Reaches d ∧ d.rest = r)

theorem gap_starts (gap : p.isSpace = true ∨ p.isLineEnd = true) :
    ∃ x, p.chars = [x] ∧ x ≠ '"' ∧ (isBlank x || isBreak x) = true := by
  rcases gap with space | ends
  · exact ⟨' ', isSpace_iff.1 space, by decide, rfl⟩
  · obtain ⟨x, chars, -, breaks, -⟩ := char_of_isLineEnd ends
    refine ⟨x, chars, ?_, by rw [breaks, Bool.or_true]⟩
    rintro rfl
    contradiction

section Recursion

variable (ih : ∀ {d : Cursor} {qs : List Piece}, d.rest = spell qs ++ '"' :: r →
  d.rest.length ≤ fuel → Closes d qs r (quotedScalar true fuel d))
include ih

theorem closes_gap (gap : p.isSpace = true ∨ p.isLineEnd = true)
    (at_ : c.rest = spell (p :: ps) ++ '"' :: r) (room : c.rest.length ≤ fuel + 1) :
    Closes c (p :: ps) r (quotedScalar true (fuel + 1) c) := by
  have inner := quotedGap_spelled at_ gap room
  obtain ⟨x, starts, noQuote, blank⟩ := gap_starts gap
  rw [spell_cons, starts] at at_
  rw [at_, List.append_assoc, List.singleton_append, List.length_cons] at room
  have rest := Cursor.next_rest at_
  rw [quotedScalar_succ at_ noQuote, if_pos blank]
  generalize quotedGap fuel c = result at inner ⊢
  cases result with
  | error e =>
    obtain ⟨_, marked | bad⟩ := inner
    · contradiction
    · exact .inl ⟨bad, e, rfl⟩
  | ok y =>
    obtain _ | ⟨-, folded, clean, reaches, rest'⟩ := inner
    have length := reaches.length_le
    rw [rest] at length
    have shorter := length.trans (Nat.le_of_succ_le_succ room)
    rw [Closes, clean, folded]
    rcases ih rest' shorter with ⟨bad, e, fault⟩ | ⟨good, d, read, reaches', behind⟩
    · exact .inl ⟨bad, e, by simp only [Except.bind, fault, Except.map]⟩
    · refine .inr ⟨good, d, by simp only [Except.bind, read, Except.map], ?_, behind⟩
      exact ((Cursor.passes_next at_).reaches.trans reaches).trans reaches'

theorem closes_piece (noSpace : p.isSpace = false) (noEnd : p.isLineEnd = false)
    (at_ : c.rest = spell (p :: ps) ++ '"' :: r) (room : c.rest.length ≤ fuel + 1) :
    Closes c (p :: ps) r (quotedScalar true (fuel + 1) c) := by
  rw [spell_cons, List.append_assoc] at at_
  rw [Closes, isClean_other noEnd, foldPieces_other noSpace noEnd]
  obtain ⟨d, read, passes⟩ := piece_spelled fuel noSpace noEnd at_
  have rest : d.rest = spell ps ++ '"' :: r := List.append_cancel_left (passes.rest.symm.trans at_)
  have shorter : d.rest.length ≤ fuel := by
    obtain ⟨x, cs, starts, -⟩ := chars_of_not_isSpace noSpace
    have length := congrArg List.length passes.rest
    rw [List.length_append, starts, List.length_cons] at length
    omega
  rw [read]
  rcases ih rest shorter with ⟨bad, e, fault⟩ | ⟨good, d', read', reaches, behind⟩
  · exact .inl ⟨bad, e, by rw [fault]; rfl⟩
  · exact .inr ⟨good, d', by rw [read']; rfl, passes.reaches.trans reaches, behind⟩

end Recursion

theorem quotedScalar_spelled (at_ : c.rest = spell ps ++ '"' :: r) (room : c.rest.length ≤ fuel) :
    Closes c ps r (quotedScalar true fuel c) := by
  induction fuel generalizing c ps with
  | zero =>
    rw [at_, List.length_append, List.length_cons] at room
    omega
  | succ fuel ih =>
    cases ps with
    | nil =>
      have next : c.rest = '"' :: r := at_
      refine .inr ⟨rfl, c.next, ?_, (Cursor.passes_next next).reaches, Cursor.next_rest next⟩
      rw [quotedScalar, Cursor.peek_eq next]
      rfl
    | cons p ps =>
      by_cases gap : p.isSpace = true ∨ p.isLineEnd = true
      · exact closes_gap ih gap at_ room
      · rw [not_or, Bool.not_eq_true, Bool.not_eq_true] at gap
        exact closes_piece ih gap.1 gap.2 at_ room

end ApiModel.Yaml
