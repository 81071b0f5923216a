import ApiModel.Proofs.Json.Spelling
import Mathlib.Tactic.IntervalCases

namespace ApiModel.Json

open Text

variable {x : Char} {r : List Char}

theorem isDigit_mem (digit : x.isDigit = true) :
    x ∈ ['0', '1', '2', '3', '4', '5', '6', '7', '8', '9'] := by
  have bounds : 48 ≤ x.toNat ∧ x.toNat ≤ 57 := by
    simpa [Char.isDigit, UInt32.le_iff_toNat_le] using digit
  obtain ⟨low, high⟩ := bounds
  rw [← Char.ofNat_toNat x]
  interval_cases x.toNat <;> decide

theorem digit_of_all (p : Char → Prop) [DecidablePred p]
    (all : (['0', '1', '2', '3', '4', '5', '6', '7', '8', '9'].all fun y => decide (p y)) = true)
    (digit : x.isDigit = true) : p x :=
  of_decide_eq_true (List.all_eq_true.1 all x (isDigit_mem digit))

theorem Digits.exists_cons (ds : Digits) : ∃ d cs, ds.chars = d :: cs ∧ d.isDigit = true := by
  obtain ⟨d, cs, starts⟩ := List.exists_cons_of_ne_nil ds.nonempty
  exact ⟨d, cs, starts, ds.digit d (starts ▸ List.mem_cons_self ..)⟩

theorem splitSign_digit (digit : x.isDigit = true) : splitSign (x :: r) = (false, x :: r) := by
  have plain := digit_of_all (fun y => y ≠ '-' ∧ y ≠ '+') (by decide) digit
  unfold splitSign
  split <;> simp_all

theorem splitSign_digits {ds : Digits} : splitSign (ds.chars ++ r) = (false, ds.chars ++ r) := by
  obtain ⟨d, cs, starts, digit⟩ := Digits.exists_cons ds
  rw [starts, List.cons_append, splitSign_digit digit]

def tailChars (n : Numeral) : List Char :=
  (n.fraction.elim [] fun ds => '.' :: ds.chars) ++ n.exponent.elim [] Exponent.chars

theorem sizeChars_eq (n : Numeral) : n.sizeChars = n.whole.chars ++ tailChars n :=
  List.append_assoc ..

theorem sizeChars_cons (n : Numeral) : ∃ d cs, n.sizeChars = d :: cs ∧ d.isDigit = true := by
  obtain ⟨d, cs, starts, digit⟩ := Digits.exists_cons n.whole
  exact ⟨d, cs ++ tailChars n, by rw [sizeChars_eq, starts]; rfl, digit⟩

def firstChars : List Char := ['n', 't', 'f', '0', '1', '2', '3', '4', '5', '6', '7', '8', '9']

theorem word_starts (word : Bare) : ∃ x cs, word.chars = x :: cs ∧
    (x ∈ firstChars ∨ x = '-' ∧ ∃ d ds, cs = d :: ds ∧ d.isDigit = true) := by
  have digit {d : Char} (digit : d.isDigit = true) : d ∈ firstChars :=
    List.mem_append_right ['n', 't', 'f'] (isDigit_mem digit)
  cases word with
  | null => exact ⟨'n', _, rfl, .inl (by decide)⟩
  | bool b =>
    cases b with
    | true => exact ⟨'t', _, rfl, .inl (by decide)⟩
    | false => exact ⟨'f', _, rfl, .inl (by decide)⟩
  | numeral n =>
    obtain ⟨d, ds, size, isDigit⟩ := sizeChars_cons n
    rw [Bare.chars, Numeral.chars, size]
    cases n.negative with
    | true => exact ⟨'-', d :: ds, rfl, .inr ⟨rfl, d, ds, rfl, isDigit⟩⟩
    | false => exact ⟨d, ds, rfl, .inl (digit isDigit)⟩

theorem first_of_all (p : Char → Prop) [DecidablePred p] (word : Bare)
    (all : ('-' :: firstChars).all (fun y => decide (p y)) = true) :
    ∃ x cs, word.chars = x :: cs ∧ p x := by
  obtain ⟨x, cs, starts, first⟩ := word_starts word
  refine ⟨x, cs, starts, of_decide_eq_true (List.all_eq_true.1 all x ?_)⟩
  rcases first with first | ⟨rfl, -⟩
  · exact List.mem_cons_of_mem _ first
  · exact List.mem_cons_self ..

theorem render_starts (blank : Blanks → List Char) (t : Spelling) :
    ∃ x cs, t.render blank = x :: cs ∧ isBlank x = false := by
  cases t with
  | bare word => exact first_of_all (fun y => isBlank y = false) word (by decide)
  | quoted | emptyList | list | emptyObject | object => exact ⟨_, _, rfl, rfl⟩

theorem joinPairs_cons {n : Nat} (ns : List Nat) (outside : n < 0xD800 ∨ 0xE000 ≤ n) :
    joinPairs (n :: ns) = .ofCode n :: joinPairs ns := by
  have noFirst : isFirstHalf n = false := by
    rw [isFirstHalf, Bool.and_eq_false_iff, decide_eq_false_iff_not, decide_eq_false_iff_not]
    omega
  cases ns with
  | nil => rfl
  | cons m ns => rw [joinPairs, noFirst, Bool.false_and, if_neg Bool.false_ne_true]

theorem joinPairs_chars (cs : List Char) : joinPairs (cs.map Char.toNat) = cs.map .char := by
  induction cs with
  | nil => rfl
  | cons c cs ih =>
    rw [List.map_cons, joinPairs_cons _ (Letter.toNat_outside c), ih, List.map_cons]
    exact congrArg (· :: cs.map .char) (Letter.ofCode_code (.char c))

end ApiModel.Json
