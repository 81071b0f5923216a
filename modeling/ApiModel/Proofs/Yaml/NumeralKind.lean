import ApiModel.Proofs.Json.Words
import ApiModel.Proofs.Yaml.Cursor
import ApiModel.Proofs.Yaml.Dialect
import Mathlib.Data.List.TakeWhile

namespace ApiModel.Yaml

open Json Text

variable {x : Char} {ds cs r : List Char}

def numeralChars : List Char :=
  ['0', '1', '2', '3', '4', '5', '6', '7', '8', '9', '-', '+', '.', 'e', 'E']

theorem isDigit_mem_numeralChars (digit : x.isDigit = true) : x ∈ numeralChars :=
  List.mem_append_left ['-', '+', '.', 'e', 'E'] (isDigit_mem digit)

theorem exponent_mem {e : Exponent} (mem : x ∈ e.chars) :
    x.isDigit = true ∨ x ∈ ['-', '+', 'e', 'E'] := by
  simp only [Exponent.chars, Exponent.signChars, List.cons_append, List.mem_cons,
    List.mem_append] at mem
  rcases mem with rfl | sign | inside
  · rcases e.marks with marks | marks <;> rw [marks] <;> decide
  · refine .inr ?_
    split at sign
    · contradiction
    · rw [List.mem_singleton] at sign
      split at sign <;> rw [sign] <;> decide
  · exact .inl (e.digits.digit x inside)

theorem chars_mem_numeralChars (n : Numeral) : ∀ y ∈ n.chars, y ∈ numeralChars := by
  intro y mem
  have digits (ds : Digits) (mem : y ∈ ds.chars) : y ∈ numeralChars :=
    isDigit_mem_numeralChars (ds.digit y mem)
  simp only [Numeral.chars, Numeral.sizeChars, List.mem_append] at mem
  rcases mem with sign | (whole | fraction) | exponent
  · split at sign
    · rw [List.mem_singleton] at sign
      subst sign
      decide
    · contradiction
  · exact digits _ whole
  · cases places : n.fraction with
    | none =>
      rw [places] at fraction
      contradiction
    | some ds =>
      rw [places, Option.elim_some, List.mem_cons] at fraction
      rcases fraction with rfl | inside
      · decide
      · exact digits ds inside
  · cases scaled : n.exponent with
    | none =>
      rw [scaled] at exponent
      contradiction
    | some e =>
      rw [scaled, Option.elim_some] at exponent
      rcases exponent_mem exponent with digit | mark
      · exact isDigit_mem_numeralChars digit
      · exact forall_of_all (p := (· ∈ numeralChars)) (by decide) y mark

theorem all_chars (n : Numeral) (p : Char → Prop) [DecidablePred p]
    (all : (numeralChars.all fun y => decide (p y)) = true) : ∀ y ∈ n.chars, p y := fun y mem =>
  forall_of_all all y (chars_mem_numeralChars n y mem)

def wordChars : List Char := numeralChars ++ ['n', 'u', 'l', 't', 'r', 'f', 'a', 's']

theorem all_word (word : Bare) (p : Char → Prop) [DecidablePred p]
    (all : (wordChars.all fun y => decide (p y)) = true) : ∀ y ∈ word.chars, p y := by
  have inside : ∀ y ∈ word.chars, y ∈ wordChars := by
    cases word with
    | null => exact forall_of_all (by decide)
    | bool b => cases b <;> exact forall_of_all (by decide)
    | numeral n => exact all_chars n (· ∈ wordChars) (by decide)
  exact fun y mem => forall_of_all all y (inside y mem)

theorem tailChars_cases (n : Numeral) :
    (n.isWhole = true ∧ tailChars n = []) ∨
      (n.isWhole = false ∧ ∃ y cs, tailChars n = y :: cs ∧ (y = '.' ∨ y = 'e' ∨ y = 'E')) := by
  rw [tailChars, Numeral.isWhole]
  cases n.fraction with
  | some ds => exact .inr ⟨rfl, '.', _, rfl, .inl rfl⟩
  | none =>
    cases n.exponent with
    | none => exact .inl ⟨rfl, rfl⟩
    | some e => exact .inr ⟨rfl, e.marker, _, rfl, .inr e.marks⟩

theorem splitSign_chars (n : Numeral) : splitSign n.chars = (n.negative, n.sizeChars) := by
  rw [Numeral.chars, sizeChars_eq]
  cases n.negative with
  | true => rfl
  | false => exact splitSign_digits

theorem chars_cons (n : Numeral) :
    ∃ y cs, n.chars = y :: cs ∧ (y = '-' ∧ n.negative = true ∨ y.isDigit = true) := by
  obtain ⟨d, cs, starts, digit⟩ := sizeChars_cons n
  rw [Numeral.chars, starts]
  cases n.negative with
  | true => exact ⟨'-', d :: cs, rfl, .inl ⟨rfl, rfl⟩⟩
  | false => exact ⟨d, cs, rfl, .inr digit⟩

theorem isGrouped_digits (ds : Digits) : isGrouped ds.chars = true := by
  obtain ⟨d, cs, starts, digit⟩ := Digits.exists_cons ds
  rw [starts, isGrouped, digit, Bool.true_and, List.all_eq_true]
  intro y mem
  rw [isGroupedDigit, ds.digit y (starts ▸ List.mem_cons_of_mem d mem)]
  rfl

theorem sixtieths_of_not_mem (noColon : ':' ∉ cs) : sixtieths cs = [cs] := by
  rw [sixtieths]
  induction cs with
  | nil => rfl
  | cons c cs ih =>
    rw [List.mem_cons, not_or] at noColon
    rw [splitEach, if_neg (Ne.symm noColon.1), ih noColon.2]

theorem isSexagesimal_of_not_mem (first : List Char → Bool) (noColon : ':' ∉ cs) :
    isSexagesimal first cs = false := by
  rw [isSexagesimal, sixtieths_of_not_mem noColon]

theorem noColon_chars (n : Numeral) : ':' ∉ n.chars := by
  intro mem
  exact all_chars n (· ≠ ':') (by decide) _ mem rfl

theorem noColon_sizeChars (n : Numeral) : ':' ∉ n.sizeChars := by
  intro mem
  exact noColon_chars n (List.mem_append_right _ mem)

theorem isExponent_chars (e : Option Exponent) :
    isExponent (e.elim [] Exponent.chars) = e.all (·.sign.isSome) := by
  cases e with
  | none => rfl
  | some e =>
    obtain ⟨marker, marks, sign, digits⟩ := e
    cases sign with
    | none =>
      obtain ⟨d, cs, starts, digit⟩ := Digits.exists_cons digits
      have plain := digit_of_all (fun y => y ≠ '-' ∧ y ≠ '+') (by decide) digit
      simp only [Option.elim_some, Exponent.chars, Exponent.signChars, starts, List.nil_append,
        List.cons_append, isExponent]
      simp [plain.1, plain.2]
    | some negative =>
      have all : allOf Char.isDigit digits.chars = true := by
        rw [allOf, List.all_eq_true.2 digits.digit, List.isEmpty_eq_false_iff.2 digits.nonempty]
        rfl
      have marked : (marker = 'e' || marker = 'E') = true := by
        rcases marks with rfl | rfl <;> rfl
      simp only [Option.elim_some, Exponent.chars, Exponent.signChars, List.cons_append,
        List.nil_append, isExponent, marked, all]
      cases negative <;> rfl

theorem noPoint_digits (ds : Digits) : ∀ y ∈ ds.chars, decide (y ≠ '.') = true := fun y mem =>
  digit_of_all (fun y => decide (y ≠ '.') = true) (by decide) (ds.digit y mem)

theorem noPoint_exponent (e : Option Exponent) :
    ∀ y ∈ e.elim [] Exponent.chars, decide (y ≠ '.') = true := by
  intro y mem
  cases e with
  | none => contradiction
  | some e =>
    rcases exponent_mem mem with digit | mark
    · exact digit_of_all (fun y => decide (y ≠ '.') = true) (by decide) digit
    · exact forall_of_all (p := fun y => decide (y ≠ '.') = true) (by decide) y mark

theorem dropDigits_exponent {p : Char → Bool} (ds : Digits) (e : Option Exponent)
    (digits : ∀ y, y.isDigit = true → p y = true) (marks : p 'e' = false ∧ p 'E' = false) :
    (ds.chars ++ e.elim [] Exponent.chars).takeWhile p = ds.chars ∧
      (ds.chars ++ e.elim [] Exponent.chars).dropWhile p = e.elim [] Exponent.chars := by
  have all : ∀ y ∈ ds.chars, p y = true := fun y mem => digits y (ds.digit y mem)
  rw [List.takeWhile_append_of_pos all, List.dropWhile_append_of_pos all]
  cases e with
  | none => exact ⟨List.append_nil _, rfl⟩
  | some e =>
    have stops : p e.marker = false := by
      rcases e.marks with marker | marker <;> rw [marker]
      · exact marks.1
      · exact marks.2
    rw [Option.elim_some, Exponent.chars, List.cons_append,
      List.takeWhile_cons_of_neg (by rw [stops]; decide),
      List.dropWhile_cons_of_neg (by rw [stops]; decide)]
    exact ⟨List.append_nil _, rfl⟩

/-- Behind its sign, a numeral is pointed if it has a fraction and no exponent without a sign. -/
theorem isPointed_sizeChars (n : Numeral) :
    isPointed n.sizeChars = (n.fraction.isSome && n.exponent.all (·.sign.isSome)) := by
  have noPoint := noPoint_digits n.whole
  rw [isPointed, sizeChars_eq, tailChars]
  cases n.fraction with
  | none =>
    have all : ∀ y ∈ n.whole.chars ++ n.exponent.elim [] Exponent.chars,
        decide (y ≠ '.') = true := by
      intro y mem
      exact (List.mem_append.1 mem).elim (noPoint y) (noPoint_exponent n.exponent y)
    rw [Option.elim_none, List.nil_append, List.dropWhile_eq_nil_iff.2 all]
    rfl
  | some ds =>
    have digits := (dropDigits_exponent ds n.exponent (p := isGroupedDigit)
      (fun y digit => by rw [isGroupedDigit, digit]; rfl) ⟨rfl, rfl⟩).2
    have noColon : ':' ∉ n.whole.chars := fun mem =>
      digit_of_all (· ≠ ':') (by decide) (n.whole.digit _ mem) rfl
    rw [Option.elim_some, List.cons_append, List.takeWhile_append_of_pos noPoint,
      List.dropWhile_append_of_pos noPoint, List.takeWhile_cons_of_neg (by decide),
      List.dropWhile_cons_of_neg (by decide), List.append_nil]
    simp only [digits, isGrouped_digits, isExponent_chars, isSexagesimal_of_not_mem _ noColon,
      Bool.true_and, Bool.false_and, Bool.or_false, Option.isSome_some]

theorem isWhole_of_ne_zero (noZero : x ≠ '0') : isWhole (x :: cs) =
    (isGroupedFromOne (x :: cs) || isSexagesimal isGroupedFromOne (x :: cs)) := by
  unfold isWhole
  split <;> simp_all

theorem whole_of_zero (n : Numeral) (zero : n.whole.chars = '0' :: cs) : cs = [] := by
  have alone := n.short (by rw [zero]; rfl)
  rw [zero, List.length_cons, Nat.add_eq_right] at alone
  exact List.length_eq_zero_iff.1 alone

theorem isWhole_sizeChars (n : Numeral) : isWhole n.sizeChars = n.isWhole := by
  obtain ⟨d, ws, starts, digit⟩ := Digits.exists_cons n.whole
  have noColon := noColon_sizeChars n
  have size := sizeChars_eq n
  rw [starts, List.cons_append] at size
  rcases tailChars_cases n with ⟨isWhole, tail⟩ | ⟨isWhole, y, cs, tail, marks⟩
  · rw [isWhole, size, tail, List.append_nil]
    by_cases zero : d = '0'
    · subst zero
      rw [whole_of_zero n starts]
      rfl
    · rw [isWhole_of_ne_zero zero, isGroupedFromOne, ← starts, isGrouped_digits, starts]
      simp [zero]
  · rw [isWhole, size, tail]
    have other : (isGroupedDigit y = false ∧ y ≠ 'b' ∧ y ≠ 'x' ∧
        (('0' ≤ y && y ≤ '7') || y = '_') = false) := by
      rcases marks with rfl | rfl | rfl <;> decide
    by_cases zero : d = '0'
    · subst zero
      rw [whole_of_zero n starts, List.nil_append, Yaml.isWhole]
      · simp only [List.all_cons, other.2.2.2, Bool.false_and]
      · exact fun r same => other.2.1 (List.cons.inj same).1
      · exact fun r same => other.2.2.1 (List.cons.inj same).1
    · rw [size, tail] at noColon
      rw [isWhole_of_ne_zero zero, isSexagesimal_of_not_mem _ noColon, isGroupedFromOne, isGrouped]
      simp [other.1]

theorem stamp?_minus (r : List Char) : stamp? ('-' :: r) = none := by
  have notDigit : '-'.isDigit = false := rfl
  simp [stamp?, exactDigits?, notDigit]

theorem stamp?_digits (digits : ∀ y ∈ ds, y.isDigit = true)
    (other : ∀ y ∈ r.head?, y.isDigit = false ∧ y ≠ '-') : stamp? (ds ++ r) = none := by
  by_cases year : exactDigits? 4 (ds ++ r) = none
  · simp [stamp?, year]
  · rw [exactDigits?] at year
    obtain ⟨four, all⟩ : (List.take 4 (ds ++ r)).length = 4 ∧
        ∀ y ∈ List.take 4 (ds ++ r), y.isDigit = true := by
      simpa using year
    have long : 4 ≤ ds.length := by
      by_contra short
      have more : 4 - ds.length = 4 - ds.length - 1 + 1 := by omega
      rw [List.take_append, more] at four all
      cases r with
      | nil =>
        rw [List.take_nil, List.append_nil, List.length_take] at four
        omega
      | cons y r =>
        have digit := all y (List.mem_append_right _ (List.mem_cons_self ..))
        rw [(other y rfl).1] at digit
        contradiction
    have hyphen : after? '-' ((ds ++ r).drop 4) = none := by
      rw [List.drop_append_of_le_length long]
      cases rest : ds.drop 4 with
      | nil =>
        cases r with
        | nil => rfl
        | cons y r => exact if_neg (Ne.symm (other y rfl).2)
      | cons y ds' =>
        have mem : y ∈ ds := List.mem_of_mem_drop (rest ▸ List.mem_cons_self ..)
        have noHyphen := digit_of_all (fun y => '-' ≠ y) (by decide) (digits y mem)
        exact if_neg noHyphen
    have read : exactDigits? 4 (ds ++ r) = some ((ds ++ r).take 4, (ds ++ r).drop 4) := by
      rw [exactDigits?, if_pos]
      simp only [four, decide_true, Bool.true_and, List.all_eq_true]
      exact all
    simp [stamp?, read, hyphen]

theorem isStamp_chars (n : Numeral) : isStamp n.chars = false := by
  have none : stamp? n.chars = none := by
    rw [Numeral.chars, sizeChars_eq]
    cases n.negative with
    | true => exact stamp?_minus _
    | false =>
      change stamp? (n.whole.chars ++ tailChars n) = none
      refine stamp?_digits n.whole.digit ?_
      rcases tailChars_cases n with ⟨-, tail⟩ | ⟨-, y, cs, tail, marks⟩
      · rw [tail]
        exact fun _ mem => absurd mem (Option.not_mem_none _)
      · rw [tail]
        intro z mem
        cases mem
        rcases marks with rfl | rfl | rfl <;> decide
  rw [isStamp, none]

/-- A word whose first character is a digit or a minus is none of those that spell themselves. -/
theorem not_any_word {words : List String} {y : Char} (starts : y = '-' ∨ y.isDigit = true)
    (heads : (words.all fun w => w.toList.head?.all (· ∉ numeralChars.take 11)) = true) :
    (words.any fun w => w.toList = y :: cs) = false := by
  have mem : y ∈ numeralChars.take 11 := by
    rcases starts with rfl | digit
    · decide
    · exact List.mem_append_left ['-'] (isDigit_mem digit)
  rw [List.any_eq_false]
  intro w inside same
  rw [decide_eq_true_eq] at same
  have head := List.all_eq_true.1 heads w inside
  rw [same, List.head?_cons, Option.all_some, decide_eq_true_eq] at head
  exact head mem

theorem ofSpelling_chars (n : Numeral) : Tag.ofSpelling n.chars =
    if n.isWhole then .int else if isResolved n then .float else .str := by
  obtain ⟨y, cs, starts, first⟩ := chars_cons n
  have first : y = '-' ∨ y.isDigit = true := first.imp And.left id
  have noBreak : dropFinalBreak n.chars = n.chars := by
    rw [dropFinalBreak, if_neg]
    intro last
    exact all_chars n (· ≠ '\n') (by decide) _ (List.mem_of_getLast? last) rfl
  have noBool : isBoolWord n.chars = false := by
    rw [isBoolWord, starts]
    exact not_any_word first (by decide)
  have noNull : isNullWord n.chars = false := by
    rw [isNullWord, starts]
    exact not_any_word first (by decide)
  have noSign : y ∉ ['.', '<', '=', '!', '&', '*'] := by
    rcases first with rfl | digit
    · decide
    · exact digit_of_all (· ∉ ['.', '<', '=', '!', '&', '*']) (by decide) digit
  have noOther (z : Char) (mem : z ∈ ['.', '<', '=', '!', '&', '*']) (ds : List Char) :
      n.chars ≠ z :: ds := by
    rw [starts]
    exact fun same => noSign ((List.cons.inj same).1 ▸ mem)
  have float : isFloatWord n.chars = (!n.isWhole && isResolved n) := by
    have noNaN : isNaN n.chars = false := by
      rw [isNaN, starts]
      exact not_any_word first (by decide)
    have noInfinity : isInfinity n.sizeChars = false := by
      obtain ⟨d, ds, starts, digit⟩ := sizeChars_cons n
      rw [isInfinity, starts]
      exact not_any_word (.inr digit) (by decide)
    rw [isFloatWord, splitSign_chars, isPointed_sizeChars, noInfinity, noNaN, isResolved,
      Numeral.isWhole]
    · cases n.fraction <;> cases n.exponent <;> simp
    · exact fun d r => noOther '.' (by decide) (d :: r)
  have nonempty : n.chars.isEmpty = false := by rw [starts]; rfl
  simp only [Tag.ofSpelling, noBreak, nonempty, noBool, float, splitSign_chars, isWhole_sizeChars,
    noNull, isStamp_chars]
  cases n.isWhole <;> cases isResolved n <;> simp [noOther]

end ApiModel.Yaml
