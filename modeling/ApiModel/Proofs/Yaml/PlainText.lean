import ApiModel.Proofs.Yaml.Quoting
import ApiModel.Yaml.PlainScalar

namespace ApiModel.Yaml

variable {c : Cursor} {cs r w : List Char} {x : Char} {fuel indent : Nat}

/-- The text has no blanks but single lines of spaces, and no sign of a key, a comment or a gap at its
    end. -/
def isPlainRun : List Char → Bool
  | [] => true
  | c :: r => !(isBreak c || c = '\t' || c = '\ufeff') && !(c = ':' && r.head?.all isGap) &&
      !(c = ' ' && r.head?.all (· = '#')) && isPlainRun r

/-- A line of the file starts here: with the name of a field, with a hyphen, or not at all. -/
def StartsLine (r : List Char) : Prop :=
  ∀ x, r.head? = some x → x.isLower = true ∨ x = '-' ∧ r.tail.head? = some ' '

theorem isPlainRun_cons (x : Char) (cs : List Char) : isPlainRun (x :: cs) = true ↔
    (isBreak x = false ∧ x ≠ '\t' ∧ x ≠ '\ufeff') ∧ (x = ':' → cs.head?.all isGap = false) ∧
      (x = ' ' → cs.head?.all (· = '#') = false) ∧ isPlainRun cs = true := by
  simp [isPlainRun, and_assoc, imp_iff_not_or]

theorem special_of_plain (plain : isSpecial x = false) : x ≠ '\t' ∧ x ≠ '\ufeff' := by
  constructor <;> rintro rfl <;> contradiction

theorem isPlainRun_of_rest (plain : ∀ y ∈ x :: cs, isSpecial y = false ∧ isBreak y = false)
    (single : anyMeansMore (x :: cs) = false) (last : (x :: cs).getLast? ≠ some ' ')
    (colon : x = ':' → cs.head?.all isGap = false) : isPlainRun (x :: cs) = true := by
  induction cs generalizing x with
  | nil =>
    have here := plain x (List.mem_cons_self ..)
    rw [isPlainRun_cons]
    exact ⟨⟨here.2, special_of_plain here.1⟩, colon, fun space => absurd (by rw [space]; rfl) last, rfl⟩
  | cons y cs ih =>
    obtain ⟨here, plain⟩ := List.forall_mem_cons.1 plain
    rw [anyMeansMore, Bool.or_eq_false_iff, meansMore, Bool.or_eq_false_iff] at single
    obtain ⟨⟨colon', hash⟩, single⟩ := single
    rw [List.getLast?_cons_cons] at last
    rw [isPlainRun_cons]
    refine ⟨⟨here.2, special_of_plain here.1⟩, colon, fun space => ?_, ih plain single last fun same => ?_⟩
    · subst space
      simpa [isGap, isBlank] using hash
    · simpa [same] using colon'

theorem isPlainRun_of_isPlainText (plain : isPlainText cs = true) :
    isPlainRun cs = true ∧ Tag.ofSpelling cs = .str ∧ ∃ x r, cs = x :: r ∧ x ≠ ' ' ∧
      leadsBadly x r.head? = false := by
  cases cs with
  | nil => contradiction
  | cons x cs =>
    simp only [isPlainText, Bool.and_eq_true, decide_eq_true_eq, Bool.not_eq_true'] at plain
    obtain ⟨⟨⟨⟨⟨⟨spelled, -⟩, leads⟩, single⟩, special⟩, noSpace⟩, last⟩ := plain
    refine ⟨isPlainRun_of_rest ?_ single last fun colon => ?_, spelled, x, cs, rfl, noSpace, leads⟩
    · intro y mem
      have none_ := List.any_eq_false.1 special y mem
      simpa using none_
    · subst colon
      rw [leadsBadly, Bool.or_eq_false_iff, Bool.and_eq_false_iff] at leads
      exact leads.2.resolve_left (by decide)

theorem plainLength_firstWord (run : isPlainRun cs = true)
    (ends : ∃ y ds, r = y :: ds ∧ (isBlank y || isBreak y) = true) :
    plainLength false (cs.takeWhile (· ≠ ' ') ++ r) = (cs.takeWhile (· ≠ ' ')).length := by
  induction cs with
  | nil =>
    obtain ⟨y, ds, rfl, gap⟩ := ends
    rw [List.takeWhile_nil, List.nil_append, plainLength, endsPlain, gap]
    rfl
  | cons x cs ih =>
    obtain ⟨⟨noBreak, noTab, -⟩, colon, -, run⟩ := (isPlainRun_cons x cs).1 run
    by_cases space : x = ' '
    · obtain ⟨y, ds, rfl, gap⟩ := ends
      rw [List.takeWhile_cons_of_neg (by simpa using space), List.nil_append, plainLength, endsPlain,
        gap]
      rfl
    · have inside : endsPlain false x (cs.takeWhile (· ≠ ' ') ++ r).head? = false := by
        have noColon : (decide (x = ':') && endsWord (cs.takeWhile (· ≠ ' ') ++ r).head?) = false := by
          rw [Bool.and_eq_false_iff, decide_eq_false_iff_not]
          by_cases same : x = ':'
          · have next := colon same
            cases cs with
            | nil => contradiction
            | cons y cs =>
              simp only [List.head?_cons, Option.all_some, isGap, Bool.or_eq_false_iff] at next
              have other : y ≠ ' ' := by
                rintro rfl
                exact absurd next.1.1.1 (by decide)
              rw [List.takeWhile_cons_of_pos (by simpa using other), List.cons_append, List.head?_cons,
                endsWord, Option.all_some, next.1.1.1, next.1.1.2]
              exact .inr rfl
          · exact .inl same
        have noBlank : isBlank x = false := by simp [isBlank, space, noTab]
        simp only [endsPlain, noBlank, noBreak, Bool.false_and, Bool.or_false, Bool.or_self, noColon]
      rw [List.takeWhile_cons_of_pos (by simpa using space), List.cons_append, plainLength, inside,
        if_neg Bool.false_ne_true, ih run, List.length_cons]

theorem plainFrom_cons (previous : Option Char) (column : Nat) (other : x ≠ ' ') :
    plainFrom indent previous column (x :: cs) = x :: plainFrom indent (some x) (column + 1) cs := by
  have noFold : isFold previous x cs.head? = false := by simp [isFold, other]
  rw [plainFrom, noFold]
  rfl

theorem plainFrom_word (indent : Nat) (previous : Option Char) (column : Nat) (cs : List Char)
    (first : x ≠ ' ') :
    ∃ y column', plainFrom indent previous column (x :: cs) =
      (x :: cs).takeWhile (· ≠ ' ') ++ plainFrom indent (some y) column' (cs.dropWhile (· ≠ ' ')) := by
  rw [List.takeWhile_cons_of_pos (by simpa using first)]
  induction cs generalizing x previous column with
  | nil => exact ⟨x, column + 1, plainFrom_cons previous column first⟩
  | cons z cs ih =>
    rw [plainFrom_cons previous column first]
    by_cases space : z = ' '
    · rw [List.takeWhile_cons_of_neg (by simpa using space),
        List.dropWhile_cons_of_neg (by simpa using space)]
      exact ⟨x, column + 1, rfl⟩
    · obtain ⟨y, column', written⟩ := ih (some x) (column + 1) space
      rw [List.takeWhile_cons_of_pos (by simpa using space),
        List.dropWhile_cons_of_pos (by simpa using space), written]
      exact ⟨y, column', rfl⟩

theorem plainFrom_moreSpaces (n column : Nat) :
    plainFrom indent (some ' ') column (List.replicate n ' ' ++ r) =
      List.replicate n ' ' ++ plainFrom indent (some ' ') (column + n) r := by
  induction n generalizing column with
  | zero => rfl
  | succ n ih =>
    have noFold (next : Option Char) : isFold (some ' ') ' ' next = false := by simp [isFold]
    rw [List.replicate_succ, List.cons_append, plainFrom, noFold, Bool.false_and,
      if_neg Bool.false_ne_true, ih, Nat.add_assoc, Nat.add_comm 1]
    rfl

theorem plainFrom_spaces (n : Nat) (previous : Char) (column : Nat) :
    (∃ column', plainFrom indent (some previous) column (List.replicate (n + 1) ' ' ++ x :: r) =
        List.replicate (n + 1) ' ' ++ plainFrom indent (some ' ') column' (x :: r)) ∨
      n = 0 ∧ plainFrom indent (some previous) column (List.replicate (n + 1) ' ' ++ x :: r) =
        newLine indent ++ plainFrom indent (some ' ') indent (x :: r) := by
  rw [List.replicate_succ, List.cons_append, plainFrom]
  split
  · rename_i folds
    cases n with
    | zero => exact .inr ⟨rfl, rfl⟩
    | succ n => simp [isFold, List.replicate_succ] at folds
  · rw [plainFrom_moreSpaces]
    exact .inl ⟨_, rfl⟩

section Gaps

variable {j : Nat}

theorem plainBreaks_spaces (at_ : c.rest = List.replicate j ' ' ++ r) (solid : IsSolid r)
    (room : j ≤ fuel) : plainBreaks fuel c = (some [], c.forward j) := by
  induction j generalizing c fuel with
  | zero =>
    cases fuel with
    | zero => rfl
    | succ fuel =>
      have rest : c.rest = r := at_
      have noSpace : isNext c.peek ' ' = false := by
        refine decide_eq_false fun space => ?_
        rw [Cursor.peek, rest] at space
        exact absurd (solid ' ' space).1 (by decide)
      rw [plainBreaks, noSpace, lineBreak?_of_solid (rest ▸ solid)]
      rfl
  | succ j ih =>
    rw [List.replicate_succ, List.cons_append] at at_
    obtain ⟨fuel, rfl⟩ : ∃ n, fuel = n + 1 := ⟨fuel - 1, by omega⟩
    rw [plainBreaks, Cursor.peek_eq at_, if_pos (by decide), ih (Cursor.next_rest at_) (by omega)]
    rfl

theorem behind_newLine (at_ : c.rest = newLine j ++ r) :
    c.Reaches (c.next.forward j) ∧ (c.next.forward j).rest = r ∧ (c.next.forward j).column = j := by
  have feed : c.rest = '\n' :: (List.replicate j ' ' ++ r) := at_
  have passes := Cursor.passes_forward (Cursor.next_rest feed)
  have rest := Cursor.forward_rest (Cursor.next_rest feed)
  have column := Cursor.forward_column (by simp [isBreak]) (Cursor.next_rest feed)
  rw [List.length_replicate] at passes rest column
  rw [Cursor.next_column_break feed rfl, Nat.zero_add] at column
  exact ⟨(Cursor.passes_next feed).reaches.trans passes.reaches, rest, column⟩

theorem plainGap_newLine (at_ : c.rest = newLine j ++ r) (solid : IsSolid r)
    (unmarked : c.next.atMarker = false) (room : j ≤ fuel) :
    plainGap fuel c = ⟨[' '], true, c.next.forward j⟩ := by
  have feed : c.rest = '\n' :: (List.replicate j ' ' ++ r) := at_
  have noSpaces : c.rest.takeWhile (· = ' ') = [] := by
    rw [feed, List.takeWhile_cons_of_neg (by decide)]
  rw [plainGap, noSpaces, List.length_nil, Cursor.forward,
    Cursor.lineBreak?_eq_some (Cursor.peek_eq feed) rfl]
  simp only [unmarked, plainBreaks_spaces (Cursor.next_rest feed) solid room]
  rfl

theorem plainGap_spaces {n : Nat} (at_ : c.rest = List.replicate n ' ' ++ x :: r)
    (other : x ≠ ' ' ∧ isBreak x = false) :
    plainGap fuel c = ⟨List.replicate n ' ', false, c.forward n⟩ := by
  have spaces : c.rest.takeWhile (· = ' ') = List.replicate n ' ' := by
    rw [at_, List.takeWhile_append_of_pos (by simp), List.takeWhile_cons_of_neg (by simpa using other.1),
      List.append_nil]
  have rest : (c.forward n).rest = x :: r := by
    have behind := Cursor.forward_rest at_
    rwa [List.length_replicate] at behind
  have flat : (c.forward n).lineBreak? = none := by
    apply Cursor.lineBreak?_eq_none
    intro y next
    rw [Cursor.peek_eq rest, Option.some.injEq] at next
    exact next ▸ other.2
  rw [plainGap, spaces, List.length_replicate]
  simp only [flat]

end Gaps

theorem StartsLine.solid (starts : StartsLine r) : IsSolid r := by
  intro x head
  rcases starts x head with lower | ⟨rfl, -⟩
  · constructor
    · rw [← Bool.not_eq_true]
      intro blank
      simp only [isBlank, Bool.or_eq_true, decide_eq_true_eq] at blank
      rcases blank with rfl | rfl <;> contradiction
    · rw [← Bool.not_eq_true]
      intro breaks
      simp only [isBreak, Bool.or_eq_true, decide_eq_true_eq] at breaks
      rcases breaks with ((rfl | rfl) | rfl) | rfl <;> contradiction
  · exact ⟨rfl, rfl⟩

theorem StartsLine.unmarked {j : Nat} (starts : StartsLine r)
    (at_ : c.rest = List.replicate j ' ' ++ r) : c.atMarker = false := by
  rw [← Bool.not_eq_true, Cursor.atMarker_iff, at_]
  cases j with
  | succ j => simp [List.replicate_succ]
  | zero =>
    rintro (⟨r', marker, -⟩ | ⟨r', marker, -⟩)
    · rw [List.replicate_zero, List.nil_append] at marker
      rcases starts '-' (by rw [marker]; rfl) with lower | ⟨-, space⟩
      · contradiction
      · rw [marker] at space
        simp at space
    · rw [List.replicate_zero, List.nil_append] at marker
      rcases starts '.' (by rw [marker]; rfl) with lower | ⟨dash, -⟩
      · contradiction
      · contradiction

theorem isPlainRun_same (run : isPlainRun cs = true) :
    ∀ y ∈ cs, isBreak y = false ∧ y ≠ '\ufeff' := by
  induction cs with
  | nil => exact List.forall_mem_nil _
  | cons x cs ih =>
    obtain ⟨⟨noBreak, -, noMark⟩, -, -, run⟩ := (isPlainRun_cons x cs).1 run
    exact List.forall_mem_cons.2 ⟨⟨noBreak, noMark⟩, ih run⟩

theorem isPlainRun_append (run : isPlainRun (w ++ cs) = true) : isPlainRun cs = true := by
  induction w with
  | nil => exact run
  | cons x w ih => exact ih ((isPlainRun_cons _ _).1 run).2.2.2

theorem exists_nextWord (run : isPlainRun cs = true) (space : cs.head? = some ' ') :
    ∃ n x r, cs = List.replicate (n + 1) ' ' ++ x :: r ∧ x ≠ ' ' ∧ x ≠ '#' ∧
      isPlainRun (x :: r) = true := by
  induction cs with
  | nil => contradiction
  | cons y cs ih =>
    cases space
    obtain ⟨-, -, behind, run⟩ := (isPlainRun_cons _ _).1 run
    have behind := behind rfl
    cases cs with
    | nil => contradiction
    | cons z cs =>
      by_cases again : z = ' '
      · subst again
        obtain ⟨n, x, r, same, rest⟩ := ih run rfl
        exact ⟨n + 1, x, r, by rw [same, ← List.cons_append, ← List.replicate_succ], rest⟩
      · exact ⟨0, z, cs, rfl, again, by simpa using behind, run⟩

structure ReadsPlain (c : Cursor) (p : PlainScalar) (cs : List Char) (j : Nat) (r : List Char) : Prop where
  text : p.text = cs
  breaksLine : p.breaksLine = true
  rest : p.after.rest = r
  column : p.after.column = j
  reaches : c.Reaches p.after

variable {j : Nat}

theorem plainScalar_succ {text : List Char} {breaks : Bool} {d : Cursor} {least : Nat}
    (word : plainLength false c.rest = w.length) (at_ : c.rest = w ++ r)
    (gap : plainGap fuel (c.forward w.length) = ⟨text, breaks, d⟩) :
    plainScalar false least (fuel + 1) c =
      if text.isEmpty || isNext d.peek '#' || d.column < least || plainLength false d.rest = 0 then
        ⟨w, breaks, d⟩
      else
        let more := plainScalar false least fuel d
        ⟨w ++ text ++ more.text, more.breaksLine, more.after⟩ := by
  have taken : c.rest.take w.length = w := by rw [at_, List.take_left]
  rw [plainScalar, word, taken]
  simp only [gap, Bool.not_false, Bool.true_and]

theorem ends_newLine (j : Nat) (r : List Char) :
    ∃ y ds, newLine j ++ r = y :: ds ∧ (isBlank y || isBreak y) = true :=
  ⟨'\n', List.replicate j ' ' ++ r, rfl, rfl⟩

theorem ends_behind (indent : Nat) (previous : Option Char) (column j : Nat) (r : List Char)
    (behind : ∀ x, cs.head? = some x → x = ' ') :
    ∃ y ds, plainFrom indent previous column cs ++ (newLine j ++ r) = y :: ds ∧
      (isBlank y || isBreak y) = true := by
  cases cs with
  | nil => exact ends_newLine j r
  | cons x cs =>
    cases behind x rfl
    rw [plainFrom]
    split
    · exact ⟨'\n', _, rfl, rfl⟩
    · exact ⟨' ', _, rfl, rfl⟩

theorem head_dropWhile_space (cs : List Char) :
    ∀ x, (cs.dropWhile (· ≠ ' ')).head? = some x → x = ' ' := by
  intro x head
  have not_ := List.head?_dropWhile_not (fun y : Char => decide (y ≠ ' ')) cs
  rw [head] at not_
  simpa using not_

theorem plainLength_text (previous : Option Char) (column j : Nat) (r : List Char)
    (run : isPlainRun (x :: cs) = true) (first : x ≠ ' ') :
    ¬plainLength false (plainFrom indent previous column (x :: cs) ++ (newLine j ++ r)) = 0 := by
  obtain ⟨y, column', written⟩ := plainFrom_word indent previous column cs first
  rw [written, List.append_assoc,
    plainLength_firstWord run (ends_behind indent (some y) column' j r (head_dropWhile_space cs)),
    List.takeWhile_cons_of_pos (by simpa using first)]
  exact Nat.succ_ne_zero _

theorem length_newLine (at_ : c.rest = newLine indent ++ r) : indent < c.rest.length := by
  rw [at_, newLine, List.length_append, List.length_cons, List.length_replicate]
  omega

theorem gap_read {n j column : Nat} (previous : Char) (fuel : Nat)
    (run : isPlainRun (x :: cs) = true) (first : x ≠ ' ') (deep : 0 < indent)
    (at_ : c.rest = plainFrom indent (some previous) column (List.replicate (n + 1) ' ' ++ x :: cs) ++
      (newLine j ++ r)) (room : c.rest.length ≤ fuel) :
    ∃ breaks d column', plainGap fuel c = ⟨List.replicate (n + 1) ' ', breaks, d⟩ ∧ c.Reaches d ∧
      d.rest = plainFrom indent (some ' ') column' (x :: cs) ++ (newLine j ++ r) ∧
      min indent c.column ≤ d.column := by
  obtain ⟨⟨noBreak, noTab, -⟩, -⟩ := (isPlainRun_cons _ _).1 run
  rcases plainFrom_spaces n previous column with ⟨column', written⟩ | ⟨rfl, written⟩
  · rw [written, List.append_assoc] at at_
    have passes := Cursor.passes_forward at_
    have rest := Cursor.forward_rest at_
    have column := Cursor.forward_column (by simp [isBreak]) at_
    rw [List.length_replicate] at passes rest column
    refine ⟨false, _, column', ?_, passes.reaches, rest, by omega⟩
    rw [plainFrom_cons _ _ first] at at_
    exact plainGap_spaces at_ ⟨first, noBreak⟩
  · rw [written, List.append_assoc] at at_
    obtain ⟨reaches, rest, column⟩ := behind_newLine at_
    refine ⟨true, _, indent, ?_, reaches, rest, by omega⟩
    have length := length_newLine at_
    rw [plainFrom_cons _ _ first] at at_
    have solid : IsSolid (x :: plainFrom indent (some x) (indent + 1) cs ++ (newLine j ++ r)) := by
      intro y head
      cases head
      exact ⟨by simp [isBlank, first, noTab], noBreak⟩
    have unmarked : c.next.atMarker = false := by
      obtain ⟨before, rfl⟩ : ∃ n, indent = n + 1 := ⟨indent - 1, by omega⟩
      exact not_atMarker_of_head (Cursor.next_rest at_) (by decide)
    exact plainGap_newLine at_ solid unmarked (by omega)

theorem readsPlain_last {least : Nat} (word : plainLength false c.rest = w.length)
    (at_ : c.rest = w ++ (newLine j ++ r)) (starts : StartsLine r) (back : j < least)
    (room : c.rest.length ≤ fuel) : ReadsPlain c (plainScalar false least (fuel + 1) c) w j r := by
  have passes := Cursor.passes_forward at_
  have rest := Cursor.forward_rest at_
  obtain ⟨reaches, line, start⟩ := behind_newLine rest
  have long := length_newLine rest
  have fewer := passes.reaches.length_le
  have unmarked : (c.forward w.length).next.atMarker = false :=
    starts.unmarked (Cursor.next_rest rest)
  have gap : plainGap fuel (c.forward w.length) = ⟨[' '], true, _⟩ :=
    plainGap_newLine rest starts.solid unmarked (by omega)
  rw [plainScalar_succ word at_ gap, if_pos]
  · exact ⟨rfl, rfl, line, start, passes.reaches.trans reaches⟩
  · simp [start, back]

theorem readsPlain_more {least column n : Nat} {before : List Char} {breaks : Bool} {d : Cursor}
    (word : plainLength false c.rest = w.length) (at_ : c.rest = w ++ before)
    (gap : plainGap fuel (c.forward w.length) = ⟨List.replicate (n + 1) ' ', breaks, d⟩)
    (reaches : (c.forward w.length).Reaches d)
    (here : d.rest = plainFrom indent (some ' ') column (x :: cs) ++ (newLine j ++ r))
    (run : isPlainRun (x :: cs) = true) (first : x ≠ ' ') (noComment : x ≠ '#')
    (inside : least ≤ d.column) (more : ReadsPlain d (plainScalar false least fuel d) (x :: cs) j r) :
    ReadsPlain c (plainScalar false least (fuel + 1) c)
      (w ++ List.replicate (n + 1) ' ' ++ x :: cs) j r := by
  have passes := Cursor.passes_forward at_
  have peek : d.peek = some x := by
    rw [plainFrom_cons _ _ first] at here
    exact Cursor.peek_eq here
  have goesOn : ¬plainLength false d.rest = 0 := here ▸ plainLength_text _ _ _ _ run first
  have near : ¬d.column < least := Nat.not_lt.2 inside
  rw [plainScalar_succ word at_ gap, if_neg]
  · exact ⟨congrArg _ more.text, more.breaksLine, more.rest, more.column,
      (passes.reaches.trans reaches).trans more.reaches⟩
  · simp [List.replicate_succ, isNext, peek, noComment, near, goesOn]

theorem plainScalar_text {j least : Nat} (previous : Option Char) (column : Nat)
    (run : isPlainRun (x :: cs) = true) (first : x ≠ ' ') (starts : StartsLine r)
    (at_ : c.rest = plainFrom indent previous column (x :: cs) ++ (newLine j ++ r))
    (back : j < least) (deep : least ≤ indent) (far : least ≤ c.column)
    (room : c.rest.length < fuel) :
    ReadsPlain c (plainScalar false least fuel c) (x :: cs) j r := by
  -- word by word, on the length of the text: a gap may take several of its characters
  induction length : cs.length using Nat.strong_induction_on
    generalizing x cs previous column c fuel with
  | _ n ih =>
    subst length
    obtain ⟨fuel, rfl⟩ : ∃ n, fuel = n + 1 := ⟨fuel - 1, by omega⟩
    obtain ⟨y, column', written⟩ := plainFrom_word indent previous column cs first
    rw [written, List.append_assoc] at at_
    have word := plainLength_firstWord run
      (ends_behind indent (some y) column' j r (head_dropWhile_space cs))
    rw [← at_] at word
    have passes := Cursor.passes_forward at_
    have rest := Cursor.forward_rest at_
    have column_ := Cursor.forward_column
      (fun z mem => isPlainRun_same run z ((List.takeWhile_prefix _).subset mem)) at_
    have length := congrArg List.length passes.rest
    rw [List.length_append] at length
    have split : (x :: cs).takeWhile (· ≠ ' ') ++ cs.dropWhile (· ≠ ' ') = x :: cs := by
      rw [List.takeWhile_cons_of_pos (by simpa using first), List.cons_append,
        List.takeWhile_append_dropWhile]
    have nonempty : 0 < ((x :: cs).takeWhile (· ≠ ' ')).length := by
      rw [List.takeWhile_cons_of_pos (by simpa using first)]
      exact Nat.succ_pos _
    generalize (x :: cs).takeWhile (· ≠ ' ') = w at *
    cases behind : cs.dropWhile (· ≠ ' ') with
    | nil =>
      rw [behind, List.append_nil] at split
      rw [behind, plainFrom, List.nil_append] at at_
      exact split ▸ readsPlain_last word at_ starts back (by omega)
    | cons z ds =>
      have space : (z :: ds).head? = some ' ' := by
        rw [head_dropWhile_space cs z (by rw [behind]; rfl)]
        rfl
      rw [← split, behind] at run
      obtain ⟨n, x', cs', spaces, first', noComment, run'⟩ :=
        exists_nextWord (isPlainRun_append run) space
      rw [behind, spaces] at rest split
      obtain ⟨breaks, d, column'', gap, reaches, here, near⟩ :=
        gap_read y fuel run' first' (by omega) rest (by omega)
      have shorter : cs'.length < cs.length := by
        have suffix := (List.dropWhile_suffix (l := cs) (· ≠ ' ')).length_le
        rw [behind, spaces, List.length_append, List.length_replicate, List.length_cons] at suffix
        omega
      have fewer := reaches.length_le
      have inside : least ≤ d.column := by omega
      have roomBehind : d.rest.length < fuel := by omega
      have more := ih cs'.length shorter (some ' ') column'' run' first' here inside roomBehind rfl
      rw [← split, ← List.append_assoc]
      exact readsPlain_more word at_ gap reaches here run' first' noComment inside more

end ApiModel.Yaml
