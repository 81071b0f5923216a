import ApiModel.Proofs.Yaml.Escapes

namespace ApiModel.Yaml

open Text

variable {c : Cursor} {r : List Char} {ls : List Letter} {x : Char} {l : Letter} {indent : Nat}

theorem isBare_solid (bare : isBare x = true) (other : x ≠ ' ') :
    isBlank x = false ∧ isBreak x = false := by
  have noTab : x ≠ '\t' := fun same => absurd bare (by rw [same]; decide)
  refine ⟨by simp [isBlank, other, noTab], ?_⟩
  rw [← Bool.not_eq_true]
  intro breaks
  simp only [isBreak, Bool.or_eq_true, decide_eq_true_eq] at breaks
  rcases breaks with ((rfl | rfl) | rfl) | rfl <;> revert bare <;> decide

theorem isBare_unmarked (bare : isBare x = true) : isMark true x = false := by
  rw [← Bool.not_eq_true]
  intro mark
  simp only [isMark, if_true, Bool.or_eq_true, decide_eq_true_eq] at mark
  rcases mark with rfl | rfl <;> revert bare <;> decide

theorem isSolid_cons (solid : isBlank x = false ∧ isBreak x = false) : IsSolid (x :: r) := by
  intro y head
  cases head
  exact solid

theorem dropWhile_solid (solid : IsSolid r) : r.dropWhile isBlank = r := by
  cases r with
  | nil => rfl
  | cons x r => rw [List.dropWhile_cons_of_neg (by rw [(solid x rfl).1]; decide)]

theorem filter_isBare_eq_some_iff :
    l.char?.filter isBare = some x ↔ l = .char x ∧ isBare x = true := by
  cases l with
  | half offset => simp [Letter.char?]
  | char y =>
    rw [Letter.char?, Option.filter_eq_some_iff, Option.some.injEq, Letter.char.injEq]

theorem filter_isBare_eq_none_iff : l.char?.filter isBare = none ↔ l.isOf isBare = false := by
  cases l <;> simp [Letter.char?, Letter.isOf]

theorem escapedFold_eq (indent : Nat) (next : Option Letter) :
    ∃ cs, (escapedFold indent next).1 = '\\' :: cs := by
  unfold escapedFold
  split <;> exact ⟨_, rfl⟩

theorem isSolid_doubleFrom (first afterEscape : Bool) (column : Nat) (other : ls.head? ≠ some (.char ' ')) :
    IsSolid (doubleFrom indent first afterEscape column ls ++ r) := by
  cases ls with
  | nil => exact isSolid_cons ⟨rfl, rfl⟩
  | cons l ls =>
    obtain ⟨fold, same⟩ := escapedFold_eq indent (some l)
    obtain ⟨e, escape⟩ := escaped_eq l
    rw [doubleFrom]
    dsimp only
    split
    · rename_i x found
      obtain ⟨rfl, bare⟩ := filter_isBare_eq_some_iff.1 found
      have noSpace : x ≠ ' ' := fun same => other (by rw [same]; rfl)
      split
      · rw [same]
        exact isSolid_cons ⟨rfl, rfl⟩
      · exact isSolid_cons (isBare_solid bare noSpace)
    · rw [escape]
      split <;> exact isSolid_cons ⟨rfl, rfl⟩

theorem doubleFrom_bare (bare : isBare x = true) (first afterEscape : Bool) (column : Nat)
    (ls : List Letter) : doubleFrom indent first afterEscape column (.char x :: ls) =
      if !first && !ls.isEmpty && (x = ' ' || afterEscape) && lineWidth < column then
        (escapedFold indent (some (.char x))).1 ++
          x :: doubleFrom indent false false ((escapedFold indent (some (.char x))).2 + 1) ls
      else x :: doubleFrom indent false false (column + 1) ls := by
  rw [doubleFrom, filter_isBare_eq_some_iff.2 ⟨rfl, bare⟩]

theorem doubleFrom_coded (coded : l.isOf isBare = false) (first afterEscape : Bool) (column : Nat)
    (ls : List Letter) : doubleFrom indent first afterEscape column (l :: ls) =
      if !first && !ls.isEmpty && lineWidth + 1 < column + (escaped l).length then
        escaped l ++ (escapedFold indent ls.head?).1 ++
          doubleFrom indent false true (escapedFold indent ls.head?).2 ls
      else escaped l ++ doubleFrom indent false true (column + (escaped l).length) ls := by
  rw [doubleFrom, filter_isBare_eq_none_iff.2 coded]

theorem doubleFrom_flat (first afterEscape : Bool) (column : Nat) (ls : List Letter) :
    IsSolid ((doubleFrom indent first afterEscape column ls ++ r).dropWhile isBlank) := by
  induction ls generalizing first afterEscape column with
  | nil => exact isSolid_cons ⟨rfl, rfl⟩
  | cons l ls ih =>
    by_cases space : l = .char ' '
    · subst space
      obtain ⟨fold, same⟩ := escapedFold_eq indent (some (.char ' '))
      rw [doubleFrom_bare rfl]
      split
      · rw [same]
        exact isSolid_cons ⟨rfl, rfl⟩
      · rw [List.cons_append, List.dropWhile_cons_of_pos rfl]
        exact ih _ _ _
    · have solid : IsSolid (doubleFrom indent first afterEscape column (l :: ls) ++ r) :=
        isSolid_doubleFrom _ _ _ (by simpa using space)
      rw [dropWhile_solid solid]
      exact solid

theorem rereadInner_cons (indent : Nat) (l : Letter) (ls : List Letter) : rereadInner indent (l :: ls) =
    if lineWidth ≤ indent ∧ isRefolded l ls = true then
      l :: .char '\\' :: .char ' ' :: rereadInner indent ls
    else l :: rereadInner indent ls := by
  unfold rereadInner
  by_cases deep : lineWidth ≤ indent
  · simp only [deep, if_true, true_and, refolded]
  · simp only [deep, if_false, false_and]

theorem isRefolded_bare (bare : l.isOf isBare = true) (ls : List Letter) : isRefolded l ls = false := by
  unfold isRefolded
  split <;> simp [bare]

theorem rereadInner_bare (bare : l.isOf isBare = true) (ls : List Letter) :
    rereadInner indent (l :: ls) = l :: rereadInner indent ls := by
  rw [rereadInner_cons, isRefolded_bare bare, if_neg (by simp)]

/-- The rest of a text in double quotes, `ls`, is read as it should be, wherever lines are folded. -/
def InnerReads (indent : Nat) (r : List Char) (ls : List Letter) : Prop :=
  ∀ (afterEscape : Bool) (column : Nat) (c : Cursor), indent ≤ column →
    c.rest = doubleFrom indent false afterEscape column ls ++ r →
    ∃ d, Quotes true c (rereadInner indent ls) d ∧ d.rest = r

theorem quotes_bare {cs : List Char} {text : List Letter} {d : Cursor} (bare : isBare x = true)
    (at_ : c.rest = x :: cs) (flat : IsSolid (cs.dropWhile isBlank)) (more : Quotes true c.next text d) :
    Quotes true c (.char x :: text) d := by
  by_cases space : x = ' '
  · exact quotes_blank at_ (by rw [space]; rfl) flat more
  · exact .letter (piece_char at_ (isBare_solid bare space) (isBare_unmarked bare)) more

theorem innerReads_bare (deep : 0 < indent) (bare : isBare x = true) (rest : InnerReads indent r ls) :
    InnerReads indent r (.char x :: ls) := by
  intro afterEscape column c far at_
  obtain ⟨before, rfl⟩ : ∃ n, indent = n + 1 := ⟨indent - 1, by omega⟩
  rw [rereadInner_bare (l := .char x) bare]
  have raw (d : Cursor) (column : Nat) (far : before + 1 ≤ column)
      (here : d.rest = x :: (doubleFrom (before + 1) false false column ls ++ r)) :
      ∃ e, Quotes true d (.char x :: rereadInner (before + 1) ls) e ∧ e.rest = r := by
    obtain ⟨e, quotes, behind⟩ := rest false column d.next far (Cursor.next_rest here)
    exact ⟨e, quotes_bare bare here (doubleFrom_flat _ _ _ _) quotes, behind⟩
  rw [doubleFrom_bare bare] at at_
  split at at_
  · by_cases space : x = ' '
    · subst space
      simp only [escapedFold, if_true, List.append_assoc, List.cons_append, List.nil_append] at at_
      obtain ⟨d, fold, here⟩ := piece_fold (isSolid_cons ⟨rfl, rfl⟩) at_
      obtain ⟨blank, behind⟩ := piece_named rfl here
      obtain ⟨e, quotes, last⟩ := rest false _ _ (by omega) behind
      exact ⟨e, .skip fold (.letter blank quotes), last⟩
    · have other : ¬some (Letter.char x) = some (.char ' ') := by simpa using space
      simp only [escapedFold, other, if_false, List.append_assoc, List.cons_append] at at_
      obtain ⟨d, fold, here⟩ := piece_fold (isSolid_cons (isBare_solid bare space)) at_
      obtain ⟨e, quotes, last⟩ := raw d _ (by omega) here
      exact ⟨e, .skip fold quotes, last⟩
  · exact raw c _ (by omega) at_

theorem two_le_length_escaped (l : Letter) : 2 ≤ (escaped l).length := by
  unfold escaped
  split
  · exact Nat.le_refl 2
  · dsimp only
    split
    · simp
    split <;> simp

theorem isRefolded_iff : isRefolded l ls = true ↔
    l.isOf isBare = false ∧ ls.head? = some (.char ' ') ∧ ls.tail ≠ [] := by
  rcases ls with _ | ⟨y, _ | ⟨z, ls⟩⟩
  · simp [isRefolded]
  · by_cases space : y = .char ' ' <;> simp [isRefolded, space]
  · by_cases space : y = .char ' ' <;> simp [isRefolded, space]

theorem piece_newLine {double : Bool} (solid : IsSolid r)
    (at_ : c.rest = newLine (indent + 1) ++ r) : ∃ d, QuotePiece double c [.char ' '] d ∧ d.rest = r := by
  have feed : ∀ y ∈ ['\n'], isBreak y = true := List.forall_mem_singleton.2 rfl
  exact piece_lines feed solid at_

/-- A space behind a folded escape, with the backslash that waits for it in the new line. -/
theorem quotes_behindFold {before : Nat} (rest : InnerReads (before + 1) r ls)
    (at_ : c.rest =
      '\\' :: (doubleFrom (before + 1) false true (before + 1 + 1) (.char ' ' :: ls) ++ r)) :
    ∃ d, Quotes true c
      ((if lineWidth ≤ before + 1 ∧ ls ≠ [] then [Letter.char '\\', .char ' '] else []) ++
        .char ' ' :: rereadInner (before + 1) ls) d ∧ d.rest = r := by
  have inside : (!ls.isEmpty && decide (lineWidth < before + 1 + 1)) = true ↔
      lineWidth ≤ before + 1 ∧ ls ≠ [] := by
    rw [Bool.and_eq_true, Bool.not_eq_true', List.isEmpty_eq_false_iff, decide_eq_true_eq,
      Nat.lt_succ_iff, and_comm]
  have last (d : Cursor) (column : Nat) (far : before + 1 ≤ column) (here : d.rest = '\\' :: ' ' ::
      (doubleFrom (before + 1) false false column ls ++ r)) :
      ∃ e, Quotes true d (.char ' ' :: rereadInner (before + 1) ls) e ∧ e.rest = r := by
    obtain ⟨blank, behind⟩ := piece_named rfl here
    obtain ⟨e, quotes, end_⟩ := rest false column _ far behind
    exact ⟨e, .letter blank quotes, end_⟩
  rw [doubleFrom_bare rfl] at at_
  simp only [Bool.not_false, Bool.true_and, Bool.or_true, Bool.and_true, inside] at at_
  split at at_
  · -- the line is folded again, so the backslash that waits escapes another one
    rename_i again
    simp only [escapedFold, if_true, List.append_assoc, List.cons_append, List.nil_append] at at_
    have twice : namedEscape? '\\' = some '\\' := rfl
    obtain ⟨backslash, here⟩ := piece_named twice at_
    obtain ⟨d, gap, here⟩ := piece_newLine (isSolid_cons ⟨rfl, rfl⟩) here
    obtain ⟨e, quotes, end_⟩ := last d _ (by omega) here
    rw [if_pos again]
    exact ⟨e, .letter backslash (.letter gap quotes), end_⟩
  · rename_i once
    obtain ⟨e, quotes, end_⟩ := last c _ (by omega) at_
    rw [if_neg once]
    exact ⟨e, quotes, end_⟩

theorem rereadInner_escape (coded : l.isOf isBare = false) (indent : Nat) (y : Letter) (ls : List Letter) :
    rereadInner indent (l :: y :: ls) =
      l :: ((if y = .char ' ' ∧ lineWidth ≤ indent ∧ ls ≠ [] then [Letter.char '\\', .char ' '] else []) ++
        rereadInner indent (y :: ls)) := by
  rw [rereadInner_cons]
  by_cases again : y = .char ' ' ∧ lineWidth ≤ indent ∧ ls ≠ []
  · have refolded : isRefolded l (y :: ls) = true :=
      isRefolded_iff.2 ⟨coded, by rw [again.1]; rfl, again.2.2⟩
    rw [if_pos again, if_pos ⟨again.2.1, refolded⟩]
    rfl
  · rw [if_neg again, if_neg]
    · rfl
    · rintro ⟨deep, refolded⟩
      obtain ⟨-, space, more⟩ := isRefolded_iff.1 refolded
      exact again ⟨Option.some.inj space, deep, more⟩

theorem innerReads_escape (deep : 0 < indent) (coded : l.isOf isBare = false)
    (rest : InnerReads indent r ls) (restTail : InnerReads indent r ls.tail) :
    InnerReads indent r (l :: ls) := by
  intro afterEscape column c far at_
  obtain ⟨before, rfl⟩ : ∃ n, indent = n + 1 := ⟨indent - 1, by omega⟩
  have length := two_le_length_escaped l
  rw [doubleFrom_coded coded] at at_
  cases ls with
  | nil =>
    simp only [List.isEmpty_nil, Bool.not_true, Bool.and_false, Bool.false_and, Bool.false_eq_true, if_false,
      List.append_assoc] at at_
    obtain ⟨d, escape, here⟩ := piece_escaped at_
    obtain ⟨e, quotes, last⟩ := rest true _ d (by omega) here
    rw [rereadInner_cons, if_neg fun refolded => nomatch refolded.2]
    exact ⟨e, .letter escape quotes, last⟩
  | cons y ls =>
    rw [rereadInner_escape coded]
    simp only [List.isEmpty_cons, Bool.not_false, Bool.true_and, decide_eq_true_eq,
      List.head?_cons] at at_
    split at at_
    · by_cases space : y = .char ' '
      · subst space
        simp only [escapedFold, if_true, List.append_assoc, List.cons_append, List.nil_append] at at_
        obtain ⟨d, escape, here⟩ := piece_escaped at_
        obtain ⟨e, fold, here⟩ := piece_fold (isSolid_cons ⟨rfl, rfl⟩) here
        obtain ⟨f, quotes, last⟩ := quotes_behindFold restTail here
        rw [rereadInner_bare rfl]
        simp only [true_and]
        exact ⟨f, .letter escape (.skip fold quotes), last⟩
      · have other : ¬some y = some (.char ' ') := fun same => space (Option.some.inj same)
        simp only [escapedFold, other, if_false, List.append_assoc, List.cons_append] at at_
        obtain ⟨d, escape, here⟩ := piece_escaped at_
        have solid : IsSolid (doubleFrom (before + 1) false true (before + 1) (y :: ls) ++ r) :=
          isSolid_doubleFrom _ _ _ other
        obtain ⟨e, fold, here⟩ := piece_fold solid here
        obtain ⟨f, quotes, last⟩ := rest true _ e (Nat.le_refl _) here
        rw [if_neg fun again => space again.1]
        exact ⟨f, .letter escape (.skip fold quotes), last⟩
    · rename_i near
      rw [List.append_assoc] at at_
      obtain ⟨d, escape, here⟩ := piece_escaped at_
      obtain ⟨e, quotes, last⟩ := rest true _ d (by omega) here
      rw [if_neg fun again => near (by have := again.2.1; rw [lineWidth] at this ⊢; omega)]
      exact ⟨e, .letter escape quotes, last⟩

theorem innerReads (deep : 0 < indent) (r : List Char) (ls : List Letter) : InnerReads indent r ls := by
  -- on the length: behind a folded escape a space is written together with what follows it
  induction length : ls.length using Nat.strong_induction_on generalizing ls with
  | _ n ih =>
    subst length
    cases ls with
    | nil =>
      intro afterEscape column c _ at_
      have none_ : rereadInner indent [] = [] := by
        unfold rereadInner
        split <;> rfl
      rw [none_]
      exact ⟨c.next, quotes_close at_, Cursor.next_rest at_⟩
    | cons l ls =>
      have rest := ih ls.length (Nat.lt_succ_self _) ls rfl
      have tail : ls.tail.length < (l :: ls).length := by
        rw [List.length_tail, List.length_cons]
        omega
      cases found : l.char?.filter isBare with
      | some x =>
        obtain ⟨rfl, bare⟩ := filter_isBare_eq_some_iff.1 found
        exact innerReads_bare deep bare rest
      | none => exact innerReads_escape deep (filter_isBare_eq_none_iff.1 found) rest (ih _ tail ls.tail rfl)

/-- A text in double quotes, behind the opening one, is read up to behind the closing one. -/
theorem quotes_doubleFrom {column : Nat} (deep : 0 < indent) (far : indent ≤ column)
    (at_ : c.rest = doubleFrom indent true false column ls ++ r) :
    ∃ d, Quotes true c (rereadDouble indent ls) d ∧ d.rest = r := by
  cases ls with
  | nil => exact ⟨c.next, quotes_close at_, Cursor.next_rest at_⟩
  | cons l ls =>
    rw [rereadDouble]
    cases found : l.char?.filter isBare with
    | some x =>
      obtain ⟨rfl, bare⟩ := filter_isBare_eq_some_iff.1 found
      rw [doubleFrom_bare bare] at at_
      simp only [Bool.not_true, Bool.false_and, Bool.false_eq_true, if_false] at at_
      obtain ⟨d, quotes, last⟩ :=
        innerReads deep r ls false _ _ (by omega) (Cursor.next_rest at_)
      exact ⟨d, quotes_bare bare at_ (doubleFrom_flat _ _ _ _) quotes, last⟩
    | none =>
      rw [doubleFrom_coded (filter_isBare_eq_none_iff.1 found)] at at_
      simp only [Bool.not_true, Bool.false_and, Bool.false_eq_true, if_false, List.append_assoc] at at_
      obtain ⟨d, escape, here⟩ := piece_escaped at_
      obtain ⟨e, quotes, last⟩ := innerReads deep r ls true _ d (by omega) here
      exact ⟨e, .letter escape quotes, last⟩

end ApiModel.Yaml
