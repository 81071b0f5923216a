import ApiModel.Proofs.Yaml.Cursor
import ApiModel.Proofs.Yaml.Dialect

namespace ApiModel.Yaml

open Json Text

variable {c : Cursor} {p : Piece} {ps : List Piece} {cs r : List Char} {fuel : Nat}

theorem spell_cons (p : Piece) (ps : List Piece) : spell (p :: ps) = p.chars ++ spell ps :=
  List.flatMap_cons

theorem isSpace_iff : p.isSpace = true ↔ p.chars = [' '] := by
  cases p <;> simp [Piece.isSpace, Piece.chars]

theorem chars_of_not_isSpace (noSpace : p.isSpace = false) :
    ∃ x cs, p.chars = x :: cs ∧ isBlank x = false ∧ isBreak x = p.isLineEnd := by
  cases p with
  | raw c plain =>
    have noTab : c ≠ '\t' := fun same => absurd plain.1 (by rw [same]; decide)
    refine ⟨c, [], rfl, ?_, rfl⟩
    simpa [isBlank, Piece.isSpace, noTab] using noSpace
  | named letter c names => exact ⟨'\\', [letter], rfl, rfl, rfl⟩
  | code a b c d n writes => exact ⟨'\\', ['u', a, b, c, d], rfl, rfl, rfl⟩

theorem char_of_isLineEnd (ends : p.isLineEnd = true) :
    ∃ x, p.chars = [x] ∧ p.letter = .char x ∧ isBreak x = true ∧ x ≠ '\n' := by
  cases p with
  | raw x plain =>
    exact ⟨x, rfl, Letter.ofCode_code (.char x), ends, fun same => absurd plain.1 (by rw [same]; decide)⟩
  | named | code => contradiction

theorem spaces_spelled (ps : List Piece) (r : List Char) :
    (spell ps ++ '"' :: r).takeWhile isBlank = spell (ps.takeWhile Piece.isSpace) ∧
      (spell ps ++ '"' :: r).dropWhile isBlank = spell (ps.dropWhile Piece.isSpace) ++ '"' :: r := by
  induction ps with
  | nil => exact ⟨rfl, rfl⟩
  | cons p ps ih =>
    cases space : p.isSpace with
    | true =>
      rw [spell_cons, isSpace_iff.1 space, List.takeWhile_cons_of_pos space,
        List.dropWhile_cons_of_pos space, spell_cons, isSpace_iff.1 space]
      exact ⟨congrArg (' ' :: ·) ih.1, ih.2⟩
    | false =>
      obtain ⟨x, cs, starts, noBlank, -⟩ := chars_of_not_isSpace space
      rw [List.takeWhile_cons_of_neg (by simp [space]), List.dropWhile_cons_of_neg (by simp [space]),
        spell_cons, starts]
      simp [noBlank, spell]

theorem foldPieces_true_spaces (ps : List Piece) :
    foldPieces true ps = foldPieces true (ps.dropWhile Piece.isSpace) := by
  induction ps with
  | nil => rfl
  | cons p ps ih =>
    cases space : p.isSpace with
    | true => rw [List.dropWhile_cons_of_pos space, ← ih, foldPieces, if_pos space, Bool.true_or,
        if_pos rfl]
    | false => rw [List.dropWhile_cons_of_neg (by simp [space])]

theorem foldPieces_false_spaces (ps : List Piece) :
    foldPieces false ps = (if breaksAhead ps then [] else (spell (ps.takeWhile Piece.isSpace)).map .char) ++
      foldPieces false (ps.dropWhile Piece.isSpace) := by
  induction ps with
  | nil => rfl
  | cons p ps ih =>
    cases space : p.isSpace with
    | true =>
      have ahead : breaksAhead (p :: ps) = breaksAhead ps := by
        rw [breaksAhead, List.dropWhile_cons_of_pos space, breaksAhead]
      rw [List.dropWhile_cons_of_pos space, List.takeWhile_cons_of_pos space, foldPieces, if_pos space,
        ahead, Bool.false_or, ih, spell_cons, isSpace_iff.1 space]
      cases breaksAhead ps <;> rfl
    | false =>
      rw [List.dropWhile_cons_of_neg (by simp [space]), List.takeWhile_cons_of_neg (by simp [space])]
      cases breaksAhead (p :: ps) <;> rfl

theorem isClean_spaces (ps : List Piece) : isClean ps = isClean (ps.dropWhile Piece.isSpace) := by
  induction ps with
  | nil => rfl
  | cons p ps ih =>
    cases space : p.isSpace with
    | true =>
      have noEnd : p.isLineEnd = false := by
        cases p with
        | raw c plain =>
          rw [Piece.isSpace, decide_eq_true_eq] at space
          rw [Piece.isLineEnd, space]
          rfl
        | named | code => rfl
      rw [List.dropWhile_cons_of_pos space, ← ih, isClean, noEnd]
      rfl
    | false => rw [List.dropWhile_cons_of_neg (by simp [space])]

theorem foldPieces_start (noSpace : ps.head?.any Piece.isSpace = false)
    (noEnd : ps.head?.any Piece.isLineEnd = false) : foldPieces true ps = foldPieces false ps := by
  cases ps with
  | nil => rfl
  | cons p ps =>
    simp only [List.head?_cons, Option.any_some] at noSpace noEnd
    simp only [foldPieces, noSpace, noEnd, Bool.false_eq_true, if_false]

theorem head_dropWhile_isSpace (ps : List Piece) :
    (ps.dropWhile Piece.isSpace).head?.any Piece.isSpace = false := by
  have head := List.head?_dropWhile_not Piece.isSpace ps
  cases h : (ps.dropWhile Piece.isSpace).head? with
  | none => rfl
  | some p => simpa [h] using head

theorem atMarker_spelled (at_ : c.rest = spell ps ++ '"' :: r) : c.atMarker = startsWithMarker ps := by
  rw [Bool.eq_iff_iff, startsWithMarker, Cursor.atMarker_iff, Cursor.atMarker_iff, at_, Cursor.ofText]
  -- the marker ends within four characters, and the quote ends no word
  rcases spell ps with _ | ⟨_, _ | ⟨_, _ | ⟨_, _ | ⟨_, _⟩⟩⟩⟩ <;> simp [and_assoc]

theorem skipBlanks_spelled (at_ : c.rest = spell ps ++ '"' :: r) :
    (c.skipWhile isBlank).rest = spell (ps.dropWhile Piece.isSpace) ++ '"' :: r := by
  rw [Cursor.skipWhile_rest, at_, (spaces_spelled ps r).2]

theorem lineBreak?_of_not_breaksAhead (at_ : c.rest = spell (ps.dropWhile Piece.isSpace) ++ '"' :: r)
    (flat : breaksAhead ps = false) : c.lineBreak? = none := by
  apply Cursor.lineBreak?_eq_none
  intro x next
  have noSpace := head_dropWhile_isSpace ps
  rw [breaksAhead] at flat
  rw [Cursor.peek, at_] at next
  cases rest : ps.dropWhile Piece.isSpace with
  | nil =>
    rw [rest] at next
    cases next
    rfl
  | cons p qs =>
    rw [rest, List.head?_cons, Option.any_some] at flat noSpace
    obtain ⟨y, cs, starts, -, breaks⟩ := chars_of_not_isSpace noSpace
    rw [rest, spell_cons, starts] at next
    cases next
    rw [breaks, flat]

theorem lineBreak?_of_isLineEnd (at_ : c.rest = spell (p :: ps) ++ '"' :: r)
    (ends : p.isLineEnd = true) : ∃ x, p.letter = .char x ∧ x ≠ '\n' ∧
      c.lineBreak? = some (if x = '\x85' then '\n' else x, c.next) ∧
      c.rest = x :: c.next.rest ∧ c.next.rest = spell ps ++ '"' :: r := by
  obtain ⟨x, chars, letter, breaks, notFeed⟩ := char_of_isLineEnd ends
  rw [spell_cons, chars, List.cons_append, List.nil_append, List.cons_append] at at_
  exact ⟨x, letter, notFeed, Cursor.lineBreak?_eq_some (Cursor.peek_eq at_) breaks,
    by rw [Cursor.next_rest at_, at_], Cursor.next_rest at_⟩

theorem breaksAhead_cases (ps : List Piece) :
    breaksAhead ps = false ∨
      ∃ p qs, ps.dropWhile Piece.isSpace = p :: qs ∧ p.isLineEnd = true ∧ breaksAhead ps = true := by
  rw [breaksAhead]
  cases ps.dropWhile Piece.isSpace with
  | nil => exact .inl rfl
  | cons p qs =>
    cases ends : p.isLineEnd with
    | false => exact .inl ends
    | true => exact .inr ⟨p, qs, rfl, ends, ends⟩

theorem isClean_cons (p : Piece) (ps : List Piece) : isClean (p :: ps) = true ↔
    (p.isLineEnd = true → startsWithMarker ps = false) ∧ isClean ps = true := by
  rw [isClean]
  cases p.isLineEnd <;> cases startsWithMarker ps <;> simp

theorem isClean_lineEnd (ends : p.isLineEnd = true) (unmarked : startsWithMarker ps = false) :
    isClean (p :: ps) = isClean ps := by
  rw [isClean, ends, unmarked]
  rfl

theorem foldPieces_lineEnd (start : Bool) (noSpace : p.isSpace = false) (ends : p.isLineEnd = true) :
    foldPieces start (p :: ps) = foldEnd p.letter start (breaksAhead ps) ++ foldPieces true ps := by
  rw [foldPieces, if_neg (by simp [noSpace]), if_pos ends]

theorem foldBreaks_eq_foldEnd {x : Char} {more : List Char} {ahead : Bool} (notFeed : x ≠ '\n')
    (isEmpty : more.isEmpty = !ahead) :
    (foldBreaks (if x = '\x85' then '\n' else x) more).map Letter.char =
      foldEnd (.char x) false ahead ++ more.map .char := by
  rw [foldBreaks, foldEnd, isEmpty]
  by_cases nextLine : x = '\x85'
  · cases ahead with
    | true => simp [nextLine]
    | false => simp [nextLine, List.isEmpty_iff.1 isEmpty]
  · simp [nextLine, notFeed]

end ApiModel.Yaml
