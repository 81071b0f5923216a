import ApiModel.Proofs.Yaml.NumeralKind

namespace ApiModel.Yaml

open Json Text

variable {x : Char} {ds cs r : List Char}

theorem ungroup_chars (n : Numeral) : ungroup n.chars = n.chars :=
  List.filter_eq_self.2 (all_chars n (fun y => decide (y ≠ '_') = true) (by decide))

theorem strip_of_all (noSpace : ∀ y ∈ cs, isSpace y = false) : strip cs = cs := by
  have whole {cs : List Char} (noSpace : ∀ y ∈ cs, isSpace y = false) :
      cs.dropWhile isSpace = cs := by
    cases cs with
    | nil => rfl
    | cons y cs =>
      rw [List.dropWhile_cons_of_neg (by rw [noSpace y (List.mem_cons_self ..)]; decide)]
  rw [strip, whole noSpace, whole fun y mem => noSpace y (List.mem_reverse.1 mem), List.reverse_reverse]

theorem foldl_some {f : Option Nat → Char → Option Nat} {g : Nat → Char → Nat} {cs : List Char}
    (same : ∀ n, ∀ y ∈ cs, f (some n) y = some (g n y)) (start : Nat) :
    cs.foldl f (some start) = some (cs.foldl g start) := by
  induction cs generalizing start with
  | nil => rfl
  | cons y cs ih =>
    rw [List.foldl_cons, List.foldl_cons, same start y (List.mem_cons_self ..)]
    exact ih (fun n z mem => same n z (List.mem_cons_of_mem y mem)) _

theorem digitsValue?_digits (ds : Digits) : digitsValue? 10 ds.chars = some (asciiValue ds.chars) := by
  rw [digitsValue?, List.isEmpty_eq_false_iff.2 ds.nonempty, asciiValue]
  refine foldl_some (fun n y mem => ?_) 0
  have digit : digitValue? y = some (y.toNat - '0'.toNat) ∧ y.toNat - '0'.toNat < 10 :=
    digit_of_all (fun y => digitValue? y = some (y.toNat - '0'.toNat) ∧ y.toNat - '0'.toNat < 10)
      (by decide) (ds.digit y mem)
  simp only [digit.1, digit.2, if_true]

theorem wholeIn_digits (ds : Digits) (noZero : ds.chars.head? ≠ some '0') : wholeIn 10 ds.chars =
    if digitLimit < ds.chars.length then .error (.tooManyDigits ds.chars.length)
    else .ok (asciiValue ds.chars) := by
  have stripped : strip ds.chars = ds.chars := strip_of_all fun y mem =>
    digit_of_all (fun y => isSpace y = false) (by decide) (ds.digit y mem)
  have split : splitSign ds.chars = (false, ds.chars) := by
    rw [← List.append_nil ds.chars]
    exact splitSign_digits
  have based : dropBase 10 ds.chars = ds.chars := by
    rw [dropBase]
    intro c r same
    rw [same] at noZero
    exact noZero rfl
  rw [wholeIn, stripped, split]
  dsimp only
  rw [based, digitsValue?_digits]
  simp [signed]

theorem chars_of_isWhole (n : Numeral) (isWhole : n.isWhole = true) : n.sizeChars = n.whole.chars := by
  rcases tailChars_cases n with ⟨-, tail⟩ | ⟨other, -⟩
  · rw [sizeChars_eq, tail, List.append_nil]
  · rw [isWhole] at other
    contradiction

theorem wholeNumber_eq (n : Numeral) (isWhole : n.isWhole = true) : wholeNumber n.chars =
    (if n.whole.chars = ['0'] then .ok 0 else wholeIn 10 n.whole.chars).map
      fun m => if n.negative then -m else m := by
  obtain ⟨y, cs, starts, -⟩ := chars_cons n
  obtain ⟨d, ws, whole, digit⟩ := Digits.exists_cons n.whole
  have noColon := noColon_sizeChars n
  rw [chars_of_isWhole n isWhole] at noColon
  unfold wholeNumber
  rw [ungroup_chars]
  split
  · rename_i empty
    rw [starts] at empty
    contradiction
  · simp only [splitSign_chars, chars_of_isWhole n isWhole]
    by_cases zero : n.whole.chars = ['0']
    · rw [if_pos zero, zero]
      rfl
    · rw [if_neg zero]
      refine congrArg (Except.map _) ?_
      have noZero (c : Char) (r : List Char) : n.whole.chars ≠ '0' :: c :: r := fun same =>
        nomatch whole_of_zero n same
      split
      · rename_i empty
        exact absurd empty n.whole.nonempty
      · exact absurd ‹_› zero
      · exact absurd ‹_› (noZero _ _)
      · exact absurd ‹_› (noZero _ _)
      · rename_i r same
        rw [whole_of_zero n same] at same
        exact absurd same zero
      · rw [if_neg (by simpa using noColon)]

theorem wholeNumber_chars (n : Numeral) (isWhole : n.isWhole = true) : wholeNumber n.chars =
    if digitLimit < n.whole.chars.length then .error (.tooManyDigits n.whole.chars.length)
    else .ok (signed n.negative (asciiValue n.whole.chars)) := by
  obtain ⟨d, ws, whole, digit⟩ := Digits.exists_cons n.whole
  by_cases zero : n.whole.chars = ['0']
  · rw [wholeNumber_eq n isWhole, if_pos zero, zero]
    cases n.negative <;> rfl
  · have noZero : n.whole.chars.head? ≠ some '0' := by
      intro head
      rw [whole, List.head?_cons, Option.some.injEq] at head
      subst head
      rw [whole_of_zero n whole] at whole
      exact zero whole
    rw [wholeNumber_eq n isWhole, if_neg zero, wholeIn_digits n.whole noZero]
    by_cases long : digitLimit < n.whole.chars.length
    · rw [if_pos long, if_pos long]
      rfl
    · rw [if_neg long, if_neg long]
      cases n.negative <;> rfl

def smallExponent (e : Exponent) : Exponent := { e with marker := 'e', marks := .inl rfl }

theorem smallExponent_chars (e : Exponent) :
    (smallExponent e).chars = 'e' :: (e.signChars ++ e.digits.chars) := rfl

def small (n : Numeral) : Numeral := { n with exponent := n.exponent.map smallExponent }

theorem lower_of_all (small : ∀ y ∈ cs, lowerChar y = [y]) : cs.flatMap lowerChar = cs := by
  induction cs with
  | nil => rfl
  | cons y cs ih =>
    rw [List.flatMap_cons, small y (List.mem_cons_self ..),
      ih fun z mem => small z (List.mem_cons_of_mem y mem)]
    rfl

theorem lower_digits (ds : Digits) : ds.chars.flatMap lowerChar = ds.chars :=
  lower_of_all fun y mem => digit_of_all (fun y => lowerChar y = [y]) (by decide) (ds.digit y mem)

theorem lower_exponent (e : Exponent) : e.chars.flatMap lowerChar = (smallExponent e).chars := by
  have marker : lowerChar e.marker = ['e'] := by
    rcases e.marks with marks | marks <;> rw [marks] <;> rfl
  have sign : e.signChars.flatMap lowerChar = e.signChars := by
    rw [Exponent.signChars]
    cases e.sign with
    | none => rfl
    | some negative => cases negative <;> rfl
  rw [Exponent.chars, List.flatMap_append, List.flatMap_cons, marker, sign, lower_digits]
  rfl

theorem lower_chars (n : Numeral) : n.chars.flatMap lowerChar = (small n).chars := by
  obtain ⟨negative, whole, short, fraction, exponent⟩ := n
  simp only [Numeral.chars, Numeral.sizeChars, List.flatMap_append, lower_digits, small]
  congr 1
  · cases negative <;> rfl
  · congr 1
    · cases fraction with
      | none => rfl
      | some ds =>
        rw [Option.elim_some, List.flatMap_cons, lower_digits]
        rfl
    · cases exponent with
      | none => rfl
      | some e => exact lower_exponent e

theorem allOf_digits (ds : Digits) : allOf Char.isDigit ds.chars = true := by
  rw [allOf, List.all_eq_true.2 ds.digit, List.isEmpty_eq_false_iff.2 ds.nonempty]
  rfl

theorem splitSign_exponent (e : Exponent) :
    splitSign (e.signChars ++ e.digits.chars) = (e.sign.getD false, e.digits.chars) := by
  rw [Exponent.signChars]
  cases e.sign with
  | none =>
    rw [← List.append_nil (_ ++ _), List.append_assoc]
    exact splitSign_digits.trans (by rw [List.append_nil]; rfl)
  | some negative => cases negative <;> rfl

theorem decimalNumber?_small (n : Numeral) (negative : Bool) (pointed : n.fraction.isSome = true) :
    decimalNumber? negative (small n).sizeChars = some (n.float negative) := by
  obtain ⟨ds, fraction⟩ := Option.isSome_iff_exists.1 pointed
  have size : (small n).sizeChars =
      n.whole.chars ++ '.' :: (ds.chars ++ (small n).exponent.elim [] Exponent.chars) := by
    rw [sizeChars_eq, tailChars]
    simp [small, fraction]
  obtain ⟨places, behind⟩ := dropDigits_exponent ds (small n).exponent (p := Char.isDigit)
    (fun _ digit => digit) ⟨rfl, rfl⟩
  have nonempty : n.whole.chars.isEmpty = false := List.isEmpty_eq_false_iff.2 n.whole.nonempty
  rw [size, decimalNumber?, List.takeWhile_append_of_pos n.whole.digit,
    List.dropWhile_append_of_pos n.whole.digit, List.takeWhile_cons_of_neg (by decide),
    List.dropWhile_cons_of_neg (by decide), List.append_nil]
  simp only [places, behind, nonempty, Bool.false_and]
  simp only [small, Numeral.float, Numeral.places, fraction]
  cases n.exponent with
  | none => rfl
  | some e =>
    simp only [Option.map_some, Option.elim_some, smallExponent_chars, splitSign_exponent,
      allOf_digits, if_true]
    rfl

theorem neg_ofDecimal (digits : Nat) (exponent : Int) :
    (Binary64.ofDecimal false digits exponent).neg = .ofDecimal true digits exponent := by
  have carry (m : Nat) (q : Int) : (Binary64.carry false m q).neg = .carry true m q := by
    unfold Binary64.carry
    split
    rw [apply_ite Binary64.neg]
    rfl
  have ratio (a b : Nat) : (Binary64.ofRatio false a b).neg = .ofRatio true a b := by
    unfold Binary64.ofRatio
    split
    · rfl
    · exact carry _ _
  unfold Binary64.ofDecimal
  dsimp only
  split
  · rfl
  split
  · rfl
  split
  · rfl
  · exact ratio _ _

theorem asciiDigits_of_all (ascii : ∀ y ∈ cs, y ∈ numeralChars) : asciiDigits cs = cs := by
  have whole : asciiDigits numeralChars = numeralChars.map id := by decide
  have each := List.map_inj_left.1 whole
  calc asciiDigits cs = cs.map id := List.map_inj_left.2 fun y mem => each y (ascii y mem)
    _ = cs := List.map_id cs

theorem floatIn_small (n : Numeral) (pointed : n.fraction.isSome = true) :
    floatIn (small n).sizeChars = .ok (n.float false) := by
  obtain ⟨d, ds, starts, digit⟩ := sizeChars_cons (small n)
  have mem (y : Char) (inside : y ∈ (small n).sizeChars) : y ∈ numeralChars :=
    chars_mem_numeralChars (small n) y (List.mem_append_right _ inside)
  have stripped : strip (small n).sizeChars = (small n).sizeChars := strip_of_all fun y inside =>
    forall_of_all (p := fun y => isSpace y = false) (by decide) y (mem y inside)
  have noWord (word : List Char) (head : word.head?.all (!·.isDigit) = true) :
      (small n).sizeChars ≠ word := by
    intro same
    rw [starts] at same
    rw [← same, List.head?_cons, Option.all_some, digit] at head
    contradiction
  rw [floatIn, asciiDigits_of_all mem, stripped, starts, splitSign_digit digit, ← starts]
  simp only [noWord "inf".toList (by decide), noWord "infinity".toList (by decide),
    noWord "nan".toList (by decide), decimalNumber?_small n false pointed]
  rfl

theorem floatNumber_chars (n : Numeral) (pointed : n.fraction.isSome = true) :
    floatNumber n.chars = .ok (n.float n.negative) := by
  obtain ⟨y, cs, starts, -⟩ := chars_cons (small n)
  obtain ⟨d, ds, size, digit⟩ := sizeChars_cons (small n)
  have noPoint : d ≠ '.' := digit_of_all (· ≠ '.') (by decide) digit
  have noColon := noColon_sizeChars (small n)
  have sign : (small n).negative = n.negative := rfl
  have noWord (word : List Char) (head : word.head? = some '.') : (small n).sizeChars ≠ word := by
    rintro rfl
    rw [size] at head
    exact noPoint (Option.some.inj head)
  rw [floatNumber, ungroup_chars, lower_chars]
  split
  · rename_i empty
    rw [starts] at empty
    contradiction
  · simp only [splitSign_chars, sign]
    rw [if_neg (noWord _ rfl), if_neg (noWord _ rfl), if_neg (by simpa using noColon),
      floatIn_small n pointed,
      Numeral.float, Numeral.float]
    cases n.negative with
    | true =>
      rw [← neg_ofDecimal]
      rfl
    | false => rfl

/-- What a word of JSON text is for this reader; only a whole number that is too long is nothing. -/
theorem scalar_word (word : Bare) : ∃ tag, Tag.ofSpelling word.chars = tag ∧
    tag ∈ [Tag.null, .bool, .int, .float, .str] ∧
    (word.obeys readerRules = true → tag.ofChars word.chars = .ok (word.scalar dialect)) ∧
    (word.obeys readerRules = false → ∃ e, tag.ofChars word.chars = .error e) := by
  cases word with
  | null => exact ⟨.null, rfl, by decide, fun _ => rfl, fun obeys => absurd obeys (by decide)⟩
  | bool b =>
    cases b with
    | true => exact ⟨.bool, rfl, by decide, fun _ => rfl, fun obeys => absurd obeys (by decide)⟩
    | false => exact ⟨.bool, rfl, by decide, fun _ => rfl, fun obeys => absurd obeys (by decide)⟩
  | numeral n =>
    refine ⟨_, ofSpelling_chars n, ?_, ?_⟩
    · split
      · decide
      split
      · decide
      · decide
    · simp only [Bare.chars, Bare.obeys, Bare.scalar, readerRules, Numeral.isShort, dialect]
      cases isWhole : n.isWhole with
      | true =>
        rw [if_pos rfl, Tag.ofChars, wholeNumber_chars n isWhole, isResolved, isWhole, Numeral.scalar,
          if_pos isWhole]
        by_cases long : digitLimit < n.whole.chars.length
        · rw [if_pos long]
          refine ⟨fun short => ?_, fun _ => ⟨_, rfl⟩⟩
          simp only [Bool.not_true, Bool.false_or, decide_eq_true_eq] at short
          omega
        · rw [if_neg long]
          refine ⟨fun _ => rfl, fun short => ?_⟩
          simp only [Bool.not_true, Bool.false_or, decide_eq_false_iff_not] at short
          omega
      | false =>
        refine ⟨fun _ => ?_, fun short => absurd short (by simp)⟩
        rw [if_neg Bool.false_ne_true]
        cases resolved : isResolved n with
        | true =>
          have pointed : n.fraction.isSome = true := by
            rw [isResolved, isWhole, Bool.false_or, Bool.and_eq_true] at resolved
            exact resolved.1
          rw [if_pos rfl, if_pos rfl, Tag.ofChars, floatNumber_chars n pointed, Numeral.scalar,
            if_neg (by rw [isWhole]; decide)]
          rfl
        | false => rfl

end ApiModel.Yaml
