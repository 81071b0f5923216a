import ApiModel.Proofs.Json.Spelling
import Mathlib.Data.List.TakeWhile

namespace ApiModel.Json

open Text

def Blanks.front (cs : List Char) : Blanks :=
  ⟨cs.takeWhile isBlank, fun _ mem => List.mem_takeWhile_imp mem⟩

theorem Blanks.front_append (cs : List Char) : (Blanks.front cs).chars ++ skipBlanks cs = cs :=
  List.takeWhile_append_dropWhile

theorem readCodes_spelled {cs rest : List Char} {codes : List Nat}
    (read : readCodes cs = some (codes, rest)) :
    ∃ ps, cs = spell ps ++ '"' :: rest ∧ ps.map Piece.number = codes := by
  fun_induction readCodes cs generalizing codes with
  | case1 => contradiction
  | case2 r =>
    cases read
    exact ⟨[], rfl, rfl⟩
  | case3 a b c d r ih =>
    simp only [Option.bind_eq_bind, Option.bind_eq_some_iff, Option.pure_def, Option.some.injEq,
      Prod.exists, Prod.mk.injEq] at read
    obtain ⟨n, writes, more, rest', inner, rfl, rfl⟩ := read
    obtain ⟨ps, rfl, rfl⟩ := ih inner
    exact ⟨.code a b c d n writes :: ps, rfl, rfl⟩
  | case4 e r _ ih =>
    simp only [Option.bind_eq_bind, Option.bind_eq_some_iff, Option.pure_def, Option.some.injEq,
      Prod.exists, Prod.mk.injEq] at read
    obtain ⟨c, names, more, rest', inner, rfl, rfl⟩ := read
    obtain ⟨ps, rfl, rfl⟩ := ih inner
    exact ⟨.named e c names :: ps, rfl, rfl⟩
  | case5 => contradiction
  | case6 c r noQuote _ _ plain ih =>
    simp only [Option.bind_eq_bind, Option.bind_eq_some_iff, Option.pure_def, Option.some.injEq,
      Prod.exists, Prod.mk.injEq] at read
    obtain ⟨more, rest', inner, rfl, rfl⟩ := read
    obtain ⟨ps, rfl, rfl⟩ := ih inner
    simp only [Bool.or_eq_true, decide_eq_true_eq, not_or, Nat.not_lt] at plain
    exact ⟨.raw c ⟨plain.1, noQuote, plain.2⟩ :: ps, rfl, rfl⟩

theorem readString_spelled {cs rest : List Char} {s : Str}
    (read : readString cs = some (s, rest)) :
    ∃ ps, cs = spell ps ++ '"' :: rest ∧ Dialect.json.text ps = s := by
  simp only [readString, Option.map_eq_some_iff, Prod.exists, Prod.mk.injEq] at read
  obtain ⟨codes, rest', codesRead, rfl, rfl⟩ := read
  obtain ⟨ps, rfl, rfl⟩ := readCodes_spelled codesRead
  exact ⟨ps, rfl, rfl⟩

theorem readDigits_spelled {cs ds rest : List Char} (read : readDigits cs = some (ds, rest)) :
    ∃ digits : Digits, digits.chars = ds ∧ cs = ds ++ rest := by
  simp only [readDigits] at read
  split at read
  · contradiction
  · rename_i nonempty
    cases read
    refine ⟨⟨cs.takeWhile Char.isDigit, by simpa using nonempty, ?_⟩, rfl, ?_⟩
    · exact fun _ mem => List.mem_takeWhile_imp mem
    · exact List.takeWhile_append_dropWhile.symm

theorem readFraction_spelled {cs rest : List Char} {fraction : Option (List Char)}
    (read : readFraction cs = some (fraction, rest)) :
    ∃ digits : Option Digits, digits.map Digits.chars = fraction ∧
      cs = (digits.elim [] fun ds => '.' :: ds.chars) ++ rest := by
  unfold readFraction at read
  split at read
  · simp only [Option.map_eq_some_iff, Prod.exists, Prod.mk.injEq] at read
    obtain ⟨ds, r, digitsRead, rfl, rfl⟩ := read
    obtain ⟨digits, rfl, rfl⟩ := readDigits_spelled digitsRead
    exact ⟨some digits, rfl, rfl⟩
  · cases read
    exact ⟨none, rfl, rfl⟩

theorem splitSign_spelled (cs : List Char) :
    ∃ sign : Option Bool, (splitSign cs).1 = sign.getD false ∧
      cs = (match sign with
        | none => []
        | some negative => [if negative then '-' else '+']) ++ (splitSign cs).2 := by
  unfold splitSign
  split
  · exact ⟨some true, rfl, rfl⟩
  · exact ⟨some false, rfl, rfl⟩
  · exact ⟨none, rfl, rfl⟩

theorem readExponent_spelled {cs rest : List Char} {exponent : Option Int}
    (read : readExponent cs = some (exponent, rest)) :
    ∃ e : Option Exponent, e.map Exponent.value = exponent ∧
      cs = e.elim [] Exponent.chars ++ rest := by
  unfold readExponent at read
  split at read
  · cases read
    exact ⟨none, rfl, rfl⟩
  · rename_i c r
    split at read
    · rename_i marks
      obtain ⟨sign, signed, split⟩ := splitSign_spelled r
      simp only [Option.map_eq_some_iff, Prod.exists, Prod.mk.injEq] at read
      obtain ⟨ds, r', digitsRead, rfl, rfl⟩ := read
      obtain ⟨digits, rfl, follow⟩ := readDigits_spelled digitsRead
      refine ⟨some ⟨c, by simpa using marks, sign, digits⟩, by rw [signed]; rfl, ?_⟩
      rw [follow] at split
      simp only [Option.elim_some, Exponent.chars, Exponent.signChars, List.cons_append,
        List.append_assoc]
      exact congrArg (c :: ·) split
    · cases read
      exact ⟨none, rfl, rfl⟩

def readSize (negative : Bool) (cs : List Char) : Option (Scalar × List Char) := do
  let (whole, r) ← readDigits cs
  if whole.head? = some '0' && 1 < whole.length then none
  else
    let (fraction, r) ← readFraction r
    let (exponent, r) ← readExponent r
    if fraction.isNone && exponent.isNone then
      if digitLimit < whole.length then none
      else return (.int (signed negative (asciiValue whole)), r)
    else
      let places := fraction.getD []
      let number := Binary64.ofDecimal negative (asciiValue (whole ++ places))
        (exponent.getD 0 - places.length)
      return (.float number, r)

theorem readNumber_minus (r : List Char) : readNumber ('-' :: r) = readSize true r := by
  unfold readNumber readSize
  rfl

theorem readNumber_of_ne_minus {cs : List Char} (unsigned : ∀ r, cs ≠ '-' :: r) :
    readNumber cs = readSize false cs := by
  unfold readNumber readSize
  split
  rename_i same
  split at same
  · exact absurd rfl (unsigned _)
  · cases same
    rfl

theorem readSize_spelled {negative : Bool} {cs rest : List Char} {s : Scalar}
    (read : readSize negative cs = some (s, rest)) :
    ∃ n : Numeral, n.negative = negative ∧ cs = n.sizeChars ++ rest ∧ n.scalar = s := by
  unfold readSize at read
  obtain ⟨⟨_, afterWhole⟩, wholeRead, sized⟩ := Option.bind_eq_some_iff.1 read
  obtain ⟨whole, rfl, rfl⟩ := readDigits_spelled wholeRead
  dsimp only at sized
  split at sized
  · contradiction
  rename_i short
  obtain ⟨⟨_, afterFraction⟩, fractionRead, placed⟩ := Option.bind_eq_some_iff.1 sized
  obtain ⟨fraction, rfl, rfl⟩ := readFraction_spelled fractionRead
  obtain ⟨⟨_, afterExponent⟩, exponentRead, scaled⟩ := Option.bind_eq_some_iff.1 placed
  obtain ⟨exponent, rfl, rfl⟩ := readExponent_spelled exponentRead
  have alone (zero : whole.chars.head? = some '0') : whole.chars.length = 1 := by
    have some : 0 < whole.chars.length := List.length_pos_iff.2 whole.nonempty
    simp only [zero, decide_true, Bool.true_and, decide_eq_true_eq, Nat.not_lt] at short
    omega
  refine ⟨⟨negative, whole, alone, fraction, exponent⟩, rfl, ?_⟩
  simp only [Option.isNone_map] at scaled
  split at scaled
  · rename_i isWhole
    split at scaled
    · contradiction
    obtain ⟨rfl, rfl⟩ := Prod.mk.inj (Option.some.inj scaled)
    refine ⟨by simp only [Numeral.sizeChars, List.append_assoc], ?_⟩
    rw [Numeral.scalar, Numeral.isWhole, if_pos isWhole]
  · rename_i isWhole
    obtain ⟨rfl, rfl⟩ := Prod.mk.inj (Option.some.inj scaled)
    refine ⟨by simp only [Numeral.sizeChars, List.append_assoc], ?_⟩
    rw [Numeral.scalar, Numeral.isWhole, if_neg isWhole, Numeral.float, Numeral.places]
    cases exponent <;> rfl

theorem readNumber_spelled {cs rest : List Char} {s : Scalar}
    (read : readNumber cs = some (s, rest)) :
    ∃ n : Numeral, cs = n.chars ++ rest ∧ n.scalar = s := by
  by_cases minus : ∃ r, cs = '-' :: r
  · obtain ⟨r, rfl⟩ := minus
    rw [readNumber_minus] at read
    obtain ⟨n, negative, rfl, rfl⟩ := readSize_spelled read
    exact ⟨n, by simp only [Numeral.chars, negative]; rfl, rfl⟩
  · rw [readNumber_of_ne_minus (not_exists.1 minus)] at read
    obtain ⟨n, negative, rfl, rfl⟩ := readSize_spelled read
    exact ⟨n, by simp only [Numeral.chars, negative]; rfl, rfl⟩

theorem readBare_spelled {cs rest : List Char} {s : Scalar} (read : readBare cs = some (s, rest)) :
    ∃ word : Bare, cs = word.chars ++ rest ∧ word.scalar .json = s := by
  unfold readBare at read
  split at read
  · cases read
    exact ⟨.null, rfl, rfl⟩
  · cases read
    exact ⟨.bool true, rfl, rfl⟩
  · cases read
    exact ⟨.bool false, rfl, rfl⟩
  · obtain ⟨n, rfl, rfl⟩ := readNumber_spelled read
    exact ⟨.numeral n, rfl, rfl⟩

structure ReadsSpelled (fuel : Nat) : Prop where
  value : ∀ {cs v rest}, readValue fuel cs = some (v, rest) →
    ∃ t : Spelling, cs = t.render Blanks.chars ++ rest ∧ t.value .json = v
  items : ∀ {cs vs rest}, readItems fuel cs = some (vs, rest) → ∀ before : Blanks,
    ∃ items : Items, before.chars ++ cs = items.render Blanks.chars ++ ']' :: rest ∧
      items.values .json = vs
  members : ∀ {cs es rest}, readMembers fuel cs = some (es, rest) → ∀ before : Blanks,
    ∃ members : Members, before.chars ++ cs = members.render Blanks.chars ++ '\x7d' :: rest ∧
      members.entries .json = es

theorem readValue_spelled_succ {fuel : Nat} (ih : ReadsSpelled fuel) {cs rest : List Char} {v : Value}
    (read : readValue (fuel + 1) cs = some (v, rest)) :
    ∃ t : Spelling, cs = t.render Blanks.chars ++ rest ∧ t.value .json = v := by
  simp only [readValue] at read
  split at read
  case h_1 r =>
    obtain ⟨⟨s, _⟩, stringRead, same⟩ := Option.map_eq_some_iff.1 read
    cases same
    obtain ⟨ps, rfl, rfl⟩ := readString_spelled stringRead
    exact ⟨.quoted ps, by simp [Spelling.render], rfl⟩
  case h_2 r =>
    have front := Blanks.front_append r
    split at read
    · rename_i close
      cases read
      refine ⟨.emptyList (.front r), ?_, rfl⟩
      rw [close] at front
      simp [Spelling.render, front]
    · obtain ⟨⟨vs, _⟩, itemsRead, same⟩ := Option.map_eq_some_iff.1 read
      cases same
      obtain ⟨items, spelled, rfl⟩ := ih.items itemsRead (.front r)
      refine ⟨.list items, ?_, rfl⟩
      rw [front] at spelled
      simp [Spelling.render, spelled]
  case h_3 r =>
    have front := Blanks.front_append r
    split at read
    · rename_i close
      cases read
      refine ⟨.emptyObject (.front r), ?_, rfl⟩
      rw [close] at front
      simp [Spelling.render, front]
    · obtain ⟨⟨es, _⟩, membersRead, same⟩ := Option.map_eq_some_iff.1 read
      cases same
      obtain ⟨members, spelled, rfl⟩ := ih.members membersRead (.front r)
      refine ⟨.object members, ?_, rfl⟩
      rw [front] at spelled
      simp [Spelling.render, spelled]
  case h_4 =>
    obtain ⟨⟨s, _⟩, bareRead, same⟩ := Option.map_eq_some_iff.1 read
    cases same
    obtain ⟨word, rfl, rfl⟩ := readBare_spelled bareRead
    exact ⟨.bare word, rfl, rfl⟩

theorem readItems_spelled_succ {fuel : Nat} (ih : ReadsSpelled fuel) {cs rest : List Char}
    {vs : List Value} (read : readItems (fuel + 1) cs = some (vs, rest)) (before : Blanks) :
    ∃ items : Items, before.chars ++ cs = items.render Blanks.chars ++ ']' :: rest ∧
      items.values .json = vs := by
  simp only [readItems] at read
  obtain ⟨⟨v, r⟩, valueRead, follow⟩ := Option.bind_eq_some_iff.1 read
  obtain ⟨item, rfl, rfl⟩ := ih.value valueRead
  have front := Blanks.front_append r
  dsimp only at follow
  split at follow
  · rename_i close
    cases follow
    refine ⟨.last before item (.front r), ?_, rfl⟩
    rw [close] at front
    simp [Items.render, front]
  · rename_i comma
    obtain ⟨⟨more, _⟩, itemsRead, same⟩ := Option.bind_eq_some_iff.1 follow
    cases same
    obtain ⟨items, spelled, rfl⟩ := ih.items itemsRead (.front _)
    refine ⟨.more before item (.front r) items, ?_, rfl⟩
    rw [Blanks.front_append] at spelled
    rw [comma, spelled] at front
    simp [Items.render, front]
  · contradiction

theorem readMembers_spelled_succ {fuel : Nat} (ih : ReadsSpelled fuel) {cs rest : List Char}
    {es : List (Scalar × Value)} (read : readMembers (fuel + 1) cs = some (es, rest))
    (before : Blanks) :
    ∃ members : Members, before.chars ++ cs = members.render Blanks.chars ++ '\x7d' :: rest ∧
      members.entries .json = es := by
  simp only [readMembers] at read
  split at read
  · rename_i r
    obtain ⟨⟨key, afterKey⟩, keyRead, onKey⟩ := Option.bind_eq_some_iff.1 read
    obtain ⟨ps, rfl, rfl⟩ := readString_spelled keyRead
    have gap := Blanks.front_append afterKey
    dsimp only at onKey
    split at onKey
    · rename_i afterColon colon
      obtain ⟨⟨v, r⟩, valueRead, follow⟩ := Option.bind_eq_some_iff.1 onKey
      obtain ⟨value, spelledValue, rfl⟩ := ih.value valueRead
      have lead := Blanks.front_append afterColon
      have front := Blanks.front_append r
      rw [colon, ← lead, spelledValue] at gap
      dsimp only at follow
      split at follow
      · rename_i close
        cases follow
        refine ⟨.last ⟨before, ps, .front afterKey, .front afterColon⟩ value (.front r), ?_, rfl⟩
        rw [close] at front
        rw [← front] at gap
        simp [Members.render, Label.render, gap]
      · rename_i comma
        obtain ⟨⟨more, _⟩, membersRead, same⟩ := Option.bind_eq_some_iff.1 follow
        cases same
        obtain ⟨members, spelled, rfl⟩ := ih.members membersRead (.front _)
        refine ⟨.more ⟨before, ps, .front afterKey, .front afterColon⟩ value (.front r) members,
          ?_, rfl⟩
        rw [Blanks.front_append] at spelled
        rw [comma, spelled] at front
        rw [← front] at gap
        simp [Members.render, Label.render, gap]
      · contradiction
    · contradiction
  · contradiction

theorem reads_spelled (fuel : Nat) : ReadsSpelled fuel := by
  induction fuel with
  | zero => constructor <;> intro _ _ _ read <;> simp [readValue, readItems, readMembers] at read
  | succ fuel ih =>
    exact ⟨readValue_spelled_succ ih, readItems_spelled_succ ih, readMembers_spelled_succ ih⟩

theorem read_spelled {text : String} {v : Value} (read : read text = some v) :
    ∃ t : Whole, t.chars = text.toList ∧ t.body.value .json = v := by
  unfold Json.read at read
  dsimp only at read
  split at read
  · rename_i body r valueRead
    split at read
    · rename_i nothing
      cases read
      obtain ⟨t, spelled, rfl⟩ := (reads_spelled _).value valueRead
      have before := Blanks.front_append text.toList
      have after := Blanks.front_append r
      refine ⟨⟨.front text.toList, t, .front r⟩, ?_, rfl⟩
      rw [List.isEmpty_iff.1 nothing, List.append_nil] at after
      rw [Whole.chars, Whole.render, after, List.append_assoc, ← spelled, before]
    · contradiction
  · contradiction

end ApiModel.Json
