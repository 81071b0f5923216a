import ApiModel.Proofs.Yaml.DoubleQuoted

namespace ApiModel.Yaml

open Text

variable {c : Cursor} {cs bs r : List Char} {x y : Char} {indent : Nat} {previous : Option Char}

theorem isQuotable_cons (x : Char) (cs : List Char) : isQuotable (x :: cs) = true ↔
    isSpecial x = false ∧
      (∀ y, cs.head? = some y → isSpaceAtBreak x y = false ∧ isSpaceAtBreak y x = false) ∧
        isQuotable cs = true := by
  cases cs with
  | nil => simp [isQuotable, anyNeighbours]
  | cons y cs =>
    simp only [isQuotable, List.any_cons, anyNeighbours, Bool.not_or, Bool.and_eq_true,
      Bool.not_eq_true', List.head?_cons, Option.some.injEq, forall_eq']
    constructor
    · rintro ⟨⟨⟨plain, rest⟩, after, others⟩, before, others'⟩
      exact ⟨plain, ⟨after, before⟩, ⟨rest, others⟩, others'⟩
    · rintro ⟨plain, ⟨after, before⟩, ⟨rest, others⟩, others'⟩
      exact ⟨⟨⟨plain, rest⟩, after, others⟩, before, others'⟩

theorem isSpecial_tab : isSpecial '\t' = true := rfl

theorem isBlank_of_not_special (plain : isSpecial x = false) (other : x ≠ ' ') :
    isBlank x = false := by
  have noTab : x ≠ '\t' := fun same => by
    rw [same, isSpecial_tab] at plain
    contradiction
  simp [isBlank, other, noTab]

theorem isSolid_singleFrom {column : Nat} (quotable : isQuotable cs = true)
    (other : ∀ y, cs.head? = some y → y ≠ ' ' ∧ isBreak y = false) :
    IsSolid (singleFrom indent previous column cs ++ r) := by
  cases cs with
  | nil => exact isSolid_cons ⟨rfl, rfl⟩
  | cons x cs =>
    obtain ⟨noSpace, noBreak⟩ := other x rfl
    have noFold : isFold previous x cs.head? = false := by simp [isFold, noSpace]
    have noBlank := isBlank_of_not_special ((isQuotable_cons x cs).1 quotable).1 noSpace
    rw [singleFrom, noFold]
    simp only [Bool.false_and, Bool.false_eq_true, if_false, noBreak]
    split
    · exact isSolid_cons ⟨rfl, rfl⟩
    · exact isSolid_cons ⟨noBlank, noBreak⟩

theorem singleFrom_flat {column : Nat} (quotable : isQuotable (' ' :: cs) = true) :
    IsSolid ((singleFrom indent (some ' ') column cs ++ r).dropWhile isBlank) := by
  induction cs generalizing column with
  | nil => exact isSolid_cons ⟨rfl, rfl⟩
  | cons x cs ih =>
    obtain ⟨-, behind, quotable⟩ := (isQuotable_cons _ _).1 quotable
    by_cases space : x = ' '
    · subst space
      have noFold : isFold (some ' ') ' ' cs.head? = false := rfl
      have noBreak : isBreak ' ' = false := rfl
      have noQuote : ' ' ≠ '\'' := by decide
      rw [singleFrom, noFold]
      simp only [Bool.false_and, Bool.false_eq_true, if_false, noBreak, noQuote, List.cons_append]
      rw [List.dropWhile_cons_of_pos rfl]
      exact ih quotable
    · have noBreak : isBreak x = false := by simpa [isSpaceAtBreak] using (behind x rfl).1
      have solid : IsSolid (singleFrom indent (some ' ') column (x :: cs) ++ r) :=
        isSolid_singleFrom quotable fun y head => by
          cases head
          exact ⟨space, noBreak⟩
      rw [dropWhile_solid solid]
      exact solid

/-- Line ends in a row are written as they are, the first of them once more if it is a line feed. -/
theorem singleFrom_breaks (indent : Nat) (previous : Option Char) (column : Nat)
    (breaks : ∀ b ∈ x :: bs, isBreak b = true) (ends : cs.head?.any isBreak = false) :
    ∃ last, isBreak last = true ∧ singleFrom indent previous column (x :: (bs ++ cs)) =
      (if x = '\n' ∧ previous.any isBreak = false then ['\n'] else []) ++
        x :: (bs ++ (List.replicate indent ' ' ++ singleFrom indent (some last) indent cs)) := by
  have break_ := breaks x (List.mem_cons_self ..)
  have noFold (next : Option Char) : isFold previous x next = false := by
    have noSpace : x ≠ ' ' := by
      rintro rfl
      contradiction
    simp [isFold, noSpace]
  induction bs generalizing x previous column with
  | nil =>
    refine ⟨x, break_, ?_⟩
    rw [List.nil_append, singleFrom, noFold]
    simp [break_, ends]
  | cons b bs ih =>
    have breaks' := (List.forall_mem_cons.1 breaks).2
    have next := breaks' b (List.mem_cons_self ..)
    have noFold' (next : Option Char) : isFold (some x) b next = false := by
      have noSpace : b ≠ ' ' := by
        rintro rfl
        contradiction
      simp [isFold, noSpace]
    obtain ⟨last, ended, written⟩ := ih (some x) 0 breaks' next noFold'
    refine ⟨last, ended, ?_⟩
    rw [List.cons_append, singleFrom, noFold, written]
    simp [break_, next]

theorem rereadSingle_breaks (breaks : ∀ b ∈ bs, isBreak b = true) (cs : List Char) :
    rereadSingle true (bs ++ cs) = bs.map lineEnd ++ rereadSingle true cs := by
  induction bs with
  | nil => rfl
  | cons b bs ih =>
    rw [List.forall_mem_cons] at breaks
    rw [List.cons_append, rereadSingle, breaks.1, ih breaks.2, List.map_cons, lineEnd]
    by_cases nextLine : b = '\x85' <;> simp [nextLine]

theorem rereadSingle_start (ends : cs.head?.any isBreak = false) :
    rereadSingle true cs = rereadSingle false cs := by
  cases cs with
  | nil => rfl
  | cons x cs =>
    have other : x ≠ '\x85' := by
      rintro rfl
      contradiction
    rw [rereadSingle, rereadSingle, if_pos other, if_pos other]

theorem rereadSingle_lines (breaks : ∀ b ∈ x :: bs, isBreak b = true)
    (ends : cs.head?.any isBreak = false) : rereadSingle false (x :: (bs ++ cs)) =
      (if x = '\n' then '\n' :: bs.map lineEnd else foldBreaks (lineEnd x) (bs.map lineEnd)) ++
        rereadSingle false cs := by
  rw [List.forall_mem_cons] at breaks
  rw [rereadSingle, breaks.1, rereadSingle_breaks breaks.2, rereadSingle_start ends]
  by_cases nextLine : x = '\x85'
  · subst nextLine
    cases bs with
    | nil => simp [ends, lineEnd, foldBreaks]
    | cons b bs => simp [breaks.2 b (List.mem_cons_self ..), lineEnd, foldBreaks]
  · by_cases feed : x = '\n' <;> simp [nextLine, feed, lineEnd, foldBreaks]

theorem isQuotable_behind (breaks : ∀ b ∈ x :: bs, isBreak b = true)
    (quotable : isQuotable (x :: (bs ++ cs)) = true) :
    isQuotable cs = true ∧ ∀ y, cs.head? = some y → y ≠ ' ' := by
  induction bs generalizing x with
  | nil =>
    obtain ⟨-, behind, quotable⟩ := (isQuotable_cons _ _).1 quotable
    refine ⟨quotable, fun y head space => ?_⟩
    have beside := (behind y head).2
    rw [isSpaceAtBreak, breaks x (List.mem_cons_self ..), space] at beside
    contradiction
  | cons b bs ih => exact ih (List.forall_mem_cons.1 breaks).2 ((isQuotable_cons _ _).1 quotable).2.2

/-- The rest of a text in single quotes, `cs`, is read as it should be. Line ends in a row are read at
    once, so no line may end before it if it starts with one. -/
def SingleReads (indent : Nat) (r cs : List Char) : Prop :=
  ∀ (previous : Option Char) (column : Nat) (c : Cursor),
    (previous.any isBreak = true → cs.head?.any isBreak = false) →
    c.rest = singleFrom indent previous column cs ++ r →
    ∃ d, Quotes false c ((rereadSingle false cs).map .char) d ∧ d.rest = r

theorem rereadSingle_other (noBreak : isBreak x = false) (cs : List Char) :
    rereadSingle false (x :: cs) = x :: rereadSingle false cs := by
  have other : x ≠ '\x85' := by
    rintro rfl
    contradiction
  rw [rereadSingle, if_pos other, noBreak]

theorem singleReads_space (deep : 0 < indent) (quotable : isQuotable (' ' :: cs) = true)
    (rest : SingleReads indent r cs) : SingleReads indent r (' ' :: cs) := by
  intro previous column c _ at_
  obtain ⟨before, rfl⟩ : ∃ n, indent = n + 1 := ⟨indent - 1, by omega⟩
  obtain ⟨-, behind, quotable'⟩ := (isQuotable_cons _ _).1 quotable
  have noBreak : isBreak ' ' = false := rfl
  have noQuote : ' ' ≠ '\'' := by decide
  have start : (some ' ').any isBreak = true → cs.head?.any isBreak = false := fun ends => nomatch ends
  rw [rereadSingle_other noBreak, List.map_cons]
  rw [singleFrom] at at_
  simp only [noBreak, noQuote, Bool.false_eq_true, if_false] at at_
  split at at_
  · rename_i folds
    have nonSpace : ∀ y, cs.head? = some y → y ≠ ' ' ∧ isBreak y = false := by
      intro y head
      rw [isFold, head, Bool.and_eq_true, Bool.and_eq_true] at folds
      have after := (behind y head).1
      rw [isSpaceAtBreak, Bool.and_eq_false_iff] at after
      exact ⟨by simpa using folds.1.2, after.resolve_left (by decide)⟩
    rw [List.append_assoc] at at_
    obtain ⟨d, fold, here⟩ := piece_newLine (isSolid_singleFrom quotable' nonSpace) at_
    obtain ⟨e, quotes, last⟩ := rest _ _ d start here
    exact ⟨e, .letter fold quotes, last⟩
  · obtain ⟨d, quotes, last⟩ := rest _ _ _ start (Cursor.next_rest at_)
    exact ⟨d, quotes_blank at_ rfl (singleFrom_flat quotable) quotes, last⟩

theorem singleReads_breaks (deep : 0 < indent) (breaks : ∀ b ∈ x :: bs, isBreak b = true)
    (ends : cs.head?.any isBreak = false) (quotable : isQuotable (x :: (bs ++ cs)) = true)
    (rest : SingleReads indent r cs) : SingleReads indent r (x :: (bs ++ cs)) := by
  intro previous column c start at_
  obtain ⟨before, rfl⟩ : ∃ n, indent = n + 1 := ⟨indent - 1, by omega⟩
  obtain ⟨quotable', noSpace⟩ := isQuotable_behind breaks quotable
  have break_ := breaks x (List.mem_cons_self ..)
  have fresh : previous.any isBreak = false := by
    rw [← Bool.not_eq_true]
    intro ended
    have head := start ended
    rw [List.head?_cons, Option.any_some, break_] at head
    contradiction
  obtain ⟨b, ended, written⟩ := singleFrom_breaks (before + 1) previous column breaks ends
  have nonSpace : ∀ y, cs.head? = some y → y ≠ ' ' ∧ isBreak y = false := by
    intro y head
    rw [head, Option.any_some] at ends
    exact ⟨noSpace y head, ends⟩
  have solid : IsSolid (singleFrom (before + 1) (some b) (before + 1) cs ++ r) :=
    isSolid_singleFrom quotable' nonSpace
  have lines : ∃ d, QuotePiece false c ((if x = '\n' then '\n' :: bs.map lineEnd
      else foldBreaks (lineEnd x) (bs.map lineEnd)).map .char) d ∧
      d.rest = singleFrom (before + 1) (some b) (before + 1) cs ++ r := by
    rw [written] at at_
    simp only [fresh, and_true] at at_
    by_cases feed : x = '\n'
    · subst feed
      rw [if_pos rfl] at at_ ⊢
      simp only [List.cons_append, List.nil_append, List.append_assoc] at at_
      have doubled : ∀ y ∈ '\n' :: '\n' :: bs, isBreak y = true :=
        List.forall_mem_cons.2 ⟨rfl, breaks⟩
      exact piece_lines doubled solid at_
    · rw [if_neg feed] at at_ ⊢
      simp only [List.cons_append, List.nil_append, List.append_assoc] at at_
      exact piece_lines breaks solid at_
  obtain ⟨d, piece, here⟩ := lines
  obtain ⟨e, quotes, last⟩ := rest _ _ d (fun _ => ends) here
  rw [rereadSingle_lines breaks ends, List.map_append]
  exact ⟨e, .cons piece quotes, last⟩

theorem singleReads_char (noSpace : x ≠ ' ') (noBreak : isBreak x = false)
    (plain : isSpecial x = false) (rest : SingleReads indent r cs) :
    SingleReads indent r (x :: cs) := by
  intro previous column c _ at_
  have start : (some x).any isBreak = true → cs.head?.any isBreak = false := fun ends => by
    rw [Option.any_some, noBreak] at ends
    contradiction
  have noFold : isFold previous x cs.head? = false := by simp [isFold, noSpace]
  rw [rereadSingle_other noBreak, List.map_cons]
  rw [singleFrom, noFold] at at_
  simp only [Bool.false_and, Bool.false_eq_true, if_false, noBreak] at at_
  split at at_
  · rename_i quote
    subst quote
    obtain ⟨doubled, here⟩ := piece_doubled at_
    obtain ⟨e, quotes, last⟩ := rest _ _ _ start here
    exact ⟨e, .letter doubled quotes, last⟩
  · rename_i noQuote
    have solid := And.intro (isBlank_of_not_special plain noSpace) noBreak
    obtain ⟨e, quotes, last⟩ := rest _ _ _ start (Cursor.next_rest at_)
    exact ⟨e, .letter (piece_char at_ solid (decide_eq_false noQuote)) quotes, last⟩

theorem singleReads (deep : 0 < indent) (last : r.head? ≠ some '\'') (quotable : isQuotable cs = true) :
    SingleReads indent r cs := by
  -- on the length: line ends in a row are one piece
  induction length : cs.length using Nat.strong_induction_on generalizing cs with
  | _ n ih =>
    subst length
    cases cs with
    | nil => exact fun _ _ c _ at_ => ⟨c.next, quotes_closeSingle at_ last, Cursor.next_rest at_⟩
    | cons x cs =>
      obtain ⟨plain, -, quotable'⟩ := (isQuotable_cons _ _).1 quotable
      have rest := ih cs.length (Nat.lt_succ_self _) quotable' rfl
      by_cases space : x = ' '
      · subst space
        exact singleReads_space deep quotable rest
      cases break_ : isBreak x with
      | false => exact singleReads_char space break_ plain rest
      | true =>
        have split : cs = cs.takeWhile isBreak ++ cs.dropWhile isBreak :=
          List.takeWhile_append_dropWhile.symm
        have breaks : ∀ b ∈ x :: cs.takeWhile isBreak, isBreak b = true :=
          List.forall_mem_cons.2 ⟨break_, fun b mem => List.mem_takeWhile_imp mem⟩
        have ends : (cs.dropWhile isBreak).head?.any isBreak = false := by
          have head := List.head?_dropWhile_not isBreak cs
          cases first : (cs.dropWhile isBreak).head? with
          | none => rfl
          | some y => simpa [first] using head
        rw [split] at quotable ⊢
        have shorter : (cs.dropWhile isBreak).length < (x :: cs).length :=
          Nat.lt_succ_of_le (List.length_dropWhile_le _ _)
        exact singleReads_breaks deep breaks ends quotable
          (ih _ shorter (isQuotable_behind breaks quotable).1 rfl)

end ApiModel.Yaml
