import ApiModel.Proofs.Json.Grammar
import ApiModel.Proofs.Json.Words

namespace ApiModel.Json

open Text

variable {r cs : List Char} {x : Char}

def Ends (r : List Char) : Prop :=
  ∀ x, r.head? = some x → isBlank x = true ∨ x = ',' ∨ x = ']' ∨ x = '\x7d'

theorem ends_nil : Ends [] := fun _ head => nomatch head

theorem ends_cons (ends : x = ',' ∨ x = ']' ∨ x = '\x7d') : Ends (x :: r) := by
  intro y head
  cases head
  exact .inr ends

theorem Ends.blanks (b : Blanks) (ends : Ends r) : Ends (b.chars ++ r) := by
  intro x head
  cases chars : b.chars with
  | nil =>
    rw [chars, List.nil_append] at head
    exact ends x head
  | cons y cs =>
    rw [chars] at head
    cases head
    exact .inl (b.blank x (chars ▸ List.mem_cons_self ..))

theorem Ends.of_all (p : Char → Prop) [DecidablePred p]
    (all : ([' ', '\n', '\r', '\t', ',', ']', '\x7d'].all fun y => decide (p y)) = true)
    (ends : Ends r) : ∀ x, r.head? = some x → p x := by
  intro x head
  refine of_decide_eq_true (List.all_eq_true.1 all x ?_)
  rcases ends x head with blank | rfl | rfl | rfl
  · simp only [isBlank, Bool.or_eq_true, decide_eq_true_eq] at blank
    rcases blank with ((rfl | rfl) | rfl) | rfl <;> simp
  · simp
  · simp
  · simp

theorem Ends.noDigit (ends : Ends r) : ∀ x, r.head? = some x → x.isDigit = false :=
  ends.of_all _ (by decide)

theorem skipBlanks_append (b : Blanks) (r : List Char) :
    skipBlanks (b.chars ++ r) = skipBlanks r :=
  List.dropWhile_append_of_pos b.blank

theorem skipBlanks_cons (noBlank : isBlank x = false) : skipBlanks (x :: r) = x :: r :=
  List.dropWhile_cons_of_neg (by rw [noBlank]; decide)

theorem skipBlanks_render (t : Spelling) (r : List Char) :
    skipBlanks (t.render Blanks.chars ++ r) = t.render Blanks.chars ++ r := by
  obtain ⟨x, cs, starts, noBlank⟩ := render_starts Blanks.chars t
  rw [starts, List.cons_append, skipBlanks_cons noBlank]

theorem readCodes_raw (plain : 0x20 ≤ x.toNat ∧ x ≠ '"' ∧ x ≠ '\\') :
    readCodes (x :: r) = (readCodes r).map fun (codes, rest) => (x.toNat :: codes, rest) := by
  have plainChar : (decide (x.toNat < 0x20) || decide (x = '\\')) = false := by
    rw [Bool.or_eq_false_iff, decide_eq_false_iff_not, decide_eq_false_iff_not]
    exact ⟨by omega, plain.2.2⟩
  rw [readCodes, plainChar]
  · cases readCodes r <;> rfl
  · exact plain.2.1
  · exact fun _ _ _ _ _ escape => absurd escape plain.2.2
  · exact fun _ _ escape => absurd escape plain.2.2

theorem readCodes_named {letter : Char} (names : namedEscape? letter = some x) :
    readCodes ('\\' :: letter :: r) =
      (readCodes r).map fun (codes, rest) => (x.toNat :: codes, rest) := by
  have noCode : letter ≠ 'u' := by
    rintro rfl
    contradiction
  rw [readCodes, names]
  · cases readCodes r <;> rfl
  · exact fun _ _ _ _ _ code => absurd code noCode

theorem readCodes_code {a b c d : Char} {n : Nat} (writes : hex4? a b c d = some n) :
    readCodes ('\\' :: 'u' :: a :: b :: c :: d :: r) =
      (readCodes r).map fun (codes, rest) => (n :: codes, rest) := by
  rw [readCodes, writes]
  cases readCodes r <;> rfl

theorem readCodes_spell (ps : List Piece) (r : List Char) :
    readCodes (spell ps ++ '"' :: r) = some (ps.map Piece.number, r) := by
  induction ps with
  | nil => rfl
  | cons p ps ih =>
    rw [spell, List.flatMap_cons, List.append_assoc, ← spell]
    cases p with
    | raw c plain => rw [Piece.chars, List.singleton_append, readCodes_raw plain, ih]; rfl
    | named letter c names =>
      rw [Piece.chars, List.cons_append, List.singleton_append, readCodes_named names, ih]
      rfl
    | code a b c d n writes =>
      simp only [Piece.chars, List.cons_append, List.nil_append]
      rw [readCodes_code writes, ih]
      rfl

theorem readString_spell (ps : List Piece) (r : List Char) :
    readString (spell ps ++ '"' :: r) = some (Dialect.json.text ps, r) := by
  rw [readString, readCodes_spell]
  rfl

theorem takeWhile_digits (ds : Digits) (stops : ∀ x, r.head? = some x → x.isDigit = false) :
    (ds.chars ++ r).takeWhile Char.isDigit = ds.chars ∧
      (ds.chars ++ r).dropWhile Char.isDigit = r := by
  rw [List.takeWhile_append_of_pos ds.digit, List.dropWhile_append_of_pos ds.digit]
  cases r with
  | nil => simp
  | cons x r => simp [stops x rfl]

theorem readDigits_chars (ds : Digits) (stops : ∀ x, r.head? = some x → x.isDigit = false) :
    readDigits (ds.chars ++ r) = some (ds.chars, r) := by
  obtain ⟨taken, dropped⟩ := takeWhile_digits ds stops
  rw [readDigits, taken, dropped]
  simp only [List.isEmpty_eq_false_iff.2 ds.nonempty, Bool.false_eq_true, if_false]

theorem readFraction_chars (fraction : Option Digits)
    (stops : ∀ x, r.head? = some x → x.isDigit = false ∧ x ≠ '.') :
    readFraction ((fraction.elim [] fun ds => '.' :: ds.chars) ++ r) =
      some (fraction.map Digits.chars, r) := by
  cases fraction with
  | some ds =>
    have read := readDigits_chars ds fun x head => (stops x head).1
    rw [Option.elim_some, List.cons_append, readFraction, read]
    rfl
  | none =>
    rw [Option.elim_none, List.nil_append, readFraction.eq_def]
    cases r with
    | nil => rfl
    | cons x r =>
      split
      · rename_i point
        exact absurd (List.cons.inj point).1 (stops x rfl).2
      · rfl

theorem splitSign_signed (e : Exponent) (r : List Char) :
    splitSign (e.signChars ++ (e.digits.chars ++ r)) =
      (e.sign.getD false, e.digits.chars ++ r) := by
  rw [Exponent.signChars]
  cases e.sign with
  | some negative => cases negative <;> rfl
  | none =>
    exact splitSign_digits

theorem readExponent_chars (exponent : Option Exponent) (ends : Ends r) :
    readExponent (exponent.elim [] Exponent.chars ++ r) =
      some (exponent.map Exponent.value, r) := by
  cases exponent with
  | some e =>
    have marked : (e.marker = 'e' || e.marker = 'E') = true := by
      rcases e.marks with marks | marks <;> simp [marks]
    rw [Option.elim_some, Exponent.chars, List.cons_append, List.cons_append, List.append_assoc,
      readExponent, if_pos marked, splitSign_signed]
    dsimp only
    rw [readDigits_chars e.digits ends.noDigit]
    rfl
  | none =>
    rw [Option.elim_none, List.nil_append]
    cases r with
    | nil => rfl
    | cons x r =>
      have noMarker := ends.of_all (fun y => (y = 'e' || y = 'E') = false) (by decide) x rfl
      rw [readExponent, noMarker]
      rfl

theorem head?_exponent (exponent : Option Exponent) (ends : Ends r) :
    ∀ x, (exponent.elim [] Exponent.chars ++ r).head? = some x → x.isDigit = false ∧ x ≠ '.' := by
  cases exponent with
  | none => exact ends.of_all _ (by decide)
  | some e =>
    intro x head
    cases head
    rcases e.marks with marks | marks <;> rw [marks] <;> decide

theorem head?_tail (n : Numeral) (ends : Ends r) :
    ∀ x, (tailChars n ++ r).head? = some x → x.isDigit = false := by
  intro x head
  rw [tailChars, List.append_assoc] at head
  cases places : n.fraction with
  | none =>
    rw [places, Option.elim_none, List.nil_append] at head
    exact (head?_exponent n.exponent ends x head).1
  | some ds =>
    rw [places] at head
    cases head
    rfl

theorem readSize_chars (n : Numeral) (few : n.isShort = true) (ends : Ends r) :
    readSize n.negative (n.sizeChars ++ r) = some (n.scalar, r) := by
  have whole := readDigits_chars n.whole (head?_tail n ends)
  have fraction := readFraction_chars n.fraction (head?_exponent n.exponent ends)
  have exponent := readExponent_chars n.exponent ends
  have short : (n.whole.chars.head? = some '0' && decide (1 < n.whole.chars.length)) = false := by
    rw [Bool.and_eq_false_imp, decide_eq_true_eq, decide_eq_false_iff_not]
    intro zero
    have one := n.short zero
    omega
  rw [sizeChars_eq, List.append_assoc]
  simp only [readSize, whole, Option.bind_eq_bind, Option.bind_some, short, Bool.false_eq_true,
    if_false]
  rw [tailChars, List.append_assoc]
  simp only [fraction, exponent, Option.bind_some, Option.isNone_map]
  rw [Numeral.isShort, Numeral.isWhole] at few
  rw [Numeral.scalar, Numeral.isWhole]
  split
  · rename_i isWhole
    rw [isWhole, Bool.not_true, Bool.false_or, decide_eq_true_eq] at few
    rw [if_neg (Nat.not_lt.2 few)]
    rfl
  · rw [Numeral.float, Numeral.places]
    cases n.exponent <;> rfl

theorem readNumber_chars (n : Numeral) (few : n.isShort = true) (ends : Ends r) :
    readNumber (n.chars ++ r) = some (n.scalar, r) := by
  have size := readSize_chars n few ends
  rw [Numeral.chars]
  cases negative : n.negative with
  | true =>
    rw [negative] at size
    exact (readNumber_minus _).trans size
  | false =>
    rw [negative] at size
    refine (readNumber_of_ne_minus ?_).trans size
    obtain ⟨d, cs, starts, digit⟩ := sizeChars_cons n
    intro r' same
    rw [starts] at same
    cases same
    contradiction

theorem readBare_chars (word : Bare) (few : word.obeys readerRules = true) (ends : Ends r) :
    readBare (word.chars ++ r) = some (word.scalar .json, r) := by
  cases word with
  | null => rfl
  | bool b => cases b <;> rfl
  | numeral n =>
    obtain ⟨x, cs, starts, letter⟩ : ∃ x cs, n.chars = x :: cs ∧ x ≠ 'n' ∧ x ≠ 't' ∧ x ≠ 'f' := by
      obtain ⟨d, cs, starts, digit⟩ := sizeChars_cons n
      rw [Numeral.chars, starts]
      cases n.negative with
      | true => exact ⟨'-', d :: cs, rfl, by decide⟩
      | false =>
        exact ⟨d, cs, rfl, digit_of_all (fun y => y ≠ 'n' ∧ y ≠ 't' ∧ y ≠ 'f') (by decide) digit⟩
    have read := readNumber_chars n few ends
    rw [Bare.chars, Bare.scalar]
    rw [starts, List.cons_append] at read ⊢
    rw [readBare, read]
    · rfl
    · exact fun _ same => absurd (List.cons.inj same).1 letter.1
    · exact fun _ same => absurd (List.cons.inj same).1 letter.2.1
    · exact fun _ same => absurd (List.cons.inj same).1 letter.2.2

theorem readValue_bare {fuel : Nat} (word : Bare) (few : word.obeys readerRules = true)
    (ends : Ends r) :
    readValue (fuel + 1) (word.chars ++ r) = some (.scalar (word.scalar .json), r) := by
  obtain ⟨x, cs, starts, other⟩ :=
    first_of_all (fun y => y ≠ '"' ∧ y ≠ '[' ∧ y ≠ '\x7b') word (by decide)
  have read := readBare_chars word few ends
  rw [starts, List.cons_append] at read ⊢
  rw [readValue, read]
  · rfl
  · exact fun _ same => absurd (List.cons.inj same).1 other.1
  · exact fun _ same => absurd (List.cons.inj same).1 other.2.1
  · exact fun _ same => absurd (List.cons.inj same).1 other.2.2

theorem render_length_pos (t : Spelling) : 0 < (t.render Blanks.chars).length := by
  obtain ⟨x, cs, starts, -⟩ := render_starts Blanks.chars t
  rw [starts, List.length_cons]
  omega

theorem readValue_list {fuel : Nat} {y : Char} (notClosed : y ≠ ']')
    (starts : skipBlanks r = y :: cs) :
    readValue (fuel + 1) ('[' :: r) =
      (readItems fuel (y :: cs)).map fun (items, r) => (.list items, r) := by
  rw [readValue, starts]
  split
  · rename_i same
    exact absurd (List.cons.inj same).1 notClosed
  · rfl

theorem readValue_object {fuel : Nat} (starts : skipBlanks r = '"' :: cs) :
    readValue (fuel + 1) ('\x7b' :: r) =
      (readMembers fuel ('"' :: cs)).map
        fun (members, r) => (.map (Entries.ofList members), r) := by
  rw [readValue, starts]
  rfl

theorem readItems_last {fuel : Nat} {v : Value} {after : List Char}
    (read : readValue fuel cs = some (v, after)) (closed : skipBlanks after = ']' :: r) :
    readItems (fuel + 1) cs = some ([v], r) := by
  rw [readItems, read]
  simp only [Option.bind_eq_bind, Option.bind_some, closed]
  rfl

theorem readItems_more {fuel : Nat} {v : Value} {after more : List Char}
    (read : readValue fuel cs = some (v, after)) (comma : skipBlanks after = ',' :: more) :
    readItems (fuel + 1) cs =
      (readItems fuel (skipBlanks more)).map fun (vs, r) => (v :: vs, r) := by
  rw [readItems, read]
  simp only [Option.bind_eq_bind, Option.bind_some, comma]
  cases readItems fuel (skipBlanks more) <;> rfl

def memberChars (key : List Piece) (gap : Blanks) (value : List Char) : List Char :=
  spell key ++ '"' :: (gap.chars ++ ':' :: value)

theorem readMembers_last {fuel : Nat} {key : List Piece} {gap : Blanks} {v : Value}
    {after : List Char} (read : readValue fuel (skipBlanks cs) = some (v, after))
    (closed : skipBlanks after = '\x7d' :: r) :
    readMembers (fuel + 1) ('"' :: memberChars key gap cs) =
      some ([(.str (Dialect.json.text key), v)], r) := by
  have colon : skipBlanks (gap.chars ++ ':' :: cs) = ':' :: cs := by
    rw [skipBlanks_append, skipBlanks_cons rfl]
  rw [readMembers, memberChars, readString_spell]
  simp only [Option.bind_eq_bind, Option.bind_some, colon, read, closed]
  rfl

theorem readMembers_more {fuel : Nat} {key : List Piece} {gap : Blanks} {v : Value}
    {after more : List Char} (read : readValue fuel (skipBlanks cs) = some (v, after))
    (comma : skipBlanks after = ',' :: more) :
    readMembers (fuel + 1) ('"' :: memberChars key gap cs) =
      (readMembers fuel (skipBlanks more)).map
        fun (es, r) => ((.str (Dialect.json.text key), v) :: es, r) := by
  have colon : skipBlanks (gap.chars ++ ':' :: cs) = ':' :: cs := by
    rw [skipBlanks_append, skipBlanks_cons rfl]
  rw [readMembers, memberChars, readString_spell]
  simp only [Option.bind_eq_bind, Option.bind_some, colon, read, comma]
  cases readMembers fuel (skipBlanks more) <;> rfl

theorem label_render (l : Label) (r : List Char) : l.render Blanks.chars ++ r =
    l.before.chars ++ '"' :: memberChars l.key l.gap (l.after.chars ++ r) := by
  simp only [Label.render, memberChars, List.append_assoc, List.cons_append]

theorem skipBlanks_label (l : Label) (r : List Char) : skipBlanks (l.render Blanks.chars ++ r) =
    '"' :: memberChars l.key l.gap (l.after.chars ++ r) := by
  rw [label_render, skipBlanks_append, skipBlanks_cons rfl]

theorem skipBlanks_items (items : Items) (r : List Char) :
    ∃ y cs, skipBlanks (items.render Blanks.chars ++ r) = y :: cs ∧ y ≠ ']' := by
  have front (before : Blanks) (item : Spelling) (r : List Char) :
      ∃ y cs, skipBlanks (before.chars ++ (item.render Blanks.chars ++ r)) = y :: cs ∧ y ≠ ']' := by
    rw [skipBlanks_append, skipBlanks_render]
    cases item with
    | bare word =>
      obtain ⟨x, cs, starts, other⟩ := first_of_all (· ≠ ']') word (by decide)
      exact ⟨x, cs ++ r, by rw [Spelling.render, starts, List.cons_append], other⟩
    | quoted | emptyList | list | emptyObject | object => exact ⟨_, _, rfl, by decide⟩
  cases items with
  | last before item after =>
    rw [Items.render, List.append_assoc, List.append_assoc]
    exact front before item _
  | more before item after rest =>
    simp only [Items.render, List.append_assoc]
    exact front before item _

theorem skipBlanks_members (members : Members) (r : List Char) :
    ∃ cs, skipBlanks (members.render Blanks.chars ++ r) = '"' :: cs := by
  cases members with
  | last label value after =>
    rw [Members.render, List.append_assoc, List.append_assoc]
    exact ⟨_, skipBlanks_label ..⟩
  | more label value after rest =>
    simp only [Members.render, List.append_assoc]
    exact ⟨_, skipBlanks_label ..⟩

mutual

theorem readValue_render (t : Spelling) (fuel : Nat) (r : List Char)
    (short : t.obeys readerRules = true) (room : (t.render Blanks.chars).length ≤ fuel)
    (ends : Ends r) :
    readValue fuel (t.render Blanks.chars ++ r) = some (t.value .json, r) := by
  obtain ⟨fuel, rfl⟩ : ∃ n, fuel = n + 1 :=
    ⟨fuel - 1, by have := render_length_pos t; omega⟩
  cases t with
  | bare word => exact readValue_bare word short ends
  | quoted ps =>
    simp only [Spelling.render, List.cons_append, List.append_assoc, List.nil_append]
    rw [readValue, readString_spell]
    rfl
  | emptyList inside =>
    simp only [Spelling.render, List.cons_append, List.append_assoc, List.nil_append]
    rw [readValue, skipBlanks_append, skipBlanks_cons rfl]
    rfl
  | emptyObject inside =>
    simp only [Spelling.render, List.cons_append, List.append_assoc, List.nil_append]
    rw [readValue, skipBlanks_append, skipBlanks_cons rfl]
    rfl
  | list items =>
    simp only [Spelling.render, List.cons_append, List.length_cons, List.length_append,
      List.append_assoc, List.nil_append, List.length_nil] at room ⊢
    have read := readItems_render items fuel r short (by omega)
    obtain ⟨y, cs, starts, notClosed⟩ := skipBlanks_items items (']' :: r)
    rw [readValue_list notClosed starts, ← starts, read]
    rfl
  | object members =>
    simp only [Spelling.render, List.cons_append, List.length_cons, List.length_append,
      List.append_assoc, List.nil_append, List.length_nil] at room ⊢
    have read := readMembers_render members fuel r short (by omega)
    obtain ⟨cs, starts⟩ := skipBlanks_members members ('\x7d' :: r)
    rw [readValue_object starts, ← starts, read]
    rfl

theorem readItems_render (items : Items) (fuel : Nat) (r : List Char)
    (short : items.obeys readerRules = true)
    (room : (items.render Blanks.chars).length + 1 ≤ fuel) :
    readItems fuel (skipBlanks (items.render Blanks.chars ++ ']' :: r)) =
      some (items.values .json, r) := by
  obtain ⟨fuel, rfl⟩ : ∃ n, fuel = n + 1 := ⟨fuel - 1, by omega⟩
  cases items with
  | last before item after =>
    simp only [Items.render, List.length_append] at room
    simp only [Items.obeys, Bool.and_eq_true] at short
    have value := readValue_render item fuel (after.chars ++ ']' :: r)
      short.1.2 (by omega) ((ends_cons (.inr (.inl rfl))).blanks after)
    rw [Items.render, List.append_assoc, List.append_assoc, skipBlanks_append, skipBlanks_render]
    exact readItems_last value (by rw [skipBlanks_append, skipBlanks_cons rfl])
  | more before item after rest =>
    simp only [Items.render, List.length_append, List.length_cons] at room
    simp only [Items.obeys, Bool.and_eq_true] at short
    have value := readValue_render item fuel (after.chars ++ ',' :: (rest.render Blanks.chars ++ ']' :: r))
      short.1.1.2 (by omega) ((ends_cons (.inl rfl)).blanks after)
    have others := readItems_render rest fuel r short.2 (by omega)
    simp only [Items.render, List.append_assoc, List.cons_append]
    rw [skipBlanks_append, skipBlanks_render,
      readItems_more value (by rw [skipBlanks_append, skipBlanks_cons rfl]), others]
    rfl

theorem readMembers_render (members : Members) (fuel : Nat) (r : List Char)
    (short : members.obeys readerRules = true)
    (room : (members.render Blanks.chars).length + 1 ≤ fuel) :
    readMembers fuel (skipBlanks (members.render Blanks.chars ++ '\x7d' :: r)) =
      some (members.entries .json, r) := by
  obtain ⟨fuel, rfl⟩ : ∃ n, fuel = n + 1 := ⟨fuel - 1, by omega⟩
  cases members with
  | last label value after =>
    simp only [Members.render, List.length_append] at room
    simp only [Members.obeys, Bool.and_eq_true] at short
    have read := readValue_render value fuel (after.chars ++ '\x7d' :: r)
      short.1.2 (by omega) ((ends_cons (.inr (.inr rfl))).blanks after)
    have closed : skipBlanks (after.chars ++ '\x7d' :: r) = '\x7d' :: r := by
      rw [skipBlanks_append, skipBlanks_cons rfl]
    simp only [Members.render, List.append_assoc]
    rw [skipBlanks_label]
    exact readMembers_last (by rw [skipBlanks_append, skipBlanks_render, read]) closed
  | more label value after rest =>
    simp only [Members.render, List.length_append, List.length_cons] at room
    simp only [Members.obeys, Bool.and_eq_true] at short
    have read := readValue_render value fuel (after.chars ++ ',' :: (rest.render Blanks.chars ++ '\x7d' :: r))
      short.1.1.2 (by omega) ((ends_cons (.inl rfl)).blanks after)
    have others := readMembers_render rest fuel r short.2 (by omega)
    simp only [Members.render, List.append_assoc, List.cons_append]
    rw [skipBlanks_label, readMembers_more (by rw [skipBlanks_append, skipBlanks_render, read])
      (by rw [skipBlanks_append, skipBlanks_cons rfl]), others]
    rfl

end

theorem read_chars (t : Whole) (short : t.body.obeys readerRules = true) :
    read (String.ofList t.chars) = some (t.body.value .json) := by
  have room : (t.body.render Blanks.chars).length ≤ t.chars.length + 1 := by
    rw [Whole.chars, Whole.render, List.length_append, List.length_append]
    omega
  have value := readValue_render t.body _ _ short room (ends_nil.blanks t.after)
  have front : skipBlanks t.chars = t.body.render Blanks.chars ++ (t.after.chars ++ []) := by
    rw [Whole.chars, Whole.render, List.append_assoc, skipBlanks_append, skipBlanks_render,
      List.append_nil]
  have behind : skipBlanks (t.after.chars ++ []) = [] := by rw [skipBlanks_append]; rfl
  simp only [read, String.toList_ofList, front, value, behind]
  rfl

end ApiModel.Json
