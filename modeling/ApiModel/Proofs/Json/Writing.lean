import ApiModel.Json.Quoted
import ApiModel.Proofs.Json.Completeness
import ApiModel.Proofs.Json.Data

namespace ApiModel

namespace Json

open Text

/-- The characters are a value of JSON text, and this is the value; the reader takes it unless a number
    in it is too long. -/
def Spells (cs : List Char) (v : Value) : Prop :=
  ∃ t : Spelling, t.render Blanks.chars = cs ∧ t.value .json = v ∧
    (v.hasLong = false → t.obeys readerRules = true)

variable {cs : List Char} {v : Value}

theorem Spells.whole (spells : Spells cs v) (before after : Blanks) {text : String}
    (same : text.toList = before.chars ++ cs ++ after.chars) :
    (v.hasLong = false → read text = some v) ∧
      ∃ t : Whole, t.chars = text.toList ∧ t.body.value .json = v := by
  obtain ⟨t, rfl, rfl, obeys⟩ := spells
  have chars : (Whole.mk before t after).chars = text.toList := same.symm
  refine ⟨fun short => ?_, _, chars, rfl⟩
  have read_ := read_chars ⟨before, t, after⟩ (obeys short)
  rwa [chars, String.ofList_toList] at read_

def Blanks.none : Blanks := ⟨[], fun _ mem => nomatch mem⟩

theorem hex4?_control : ∀ n < 0x20, ∃ a b c d, hexLower 4 n = [a, b, c, d] ∧
    hex4? a b c d = some n := by
  have digits : ∀ n < 0x20, hexLower 4 n = ['0', '0', (n / 16).digitChar, (n % 16).digitChar] ∧
      hex4? '0' '0' (n / 16).digitChar (n % 16).digitChar = some n := by decide
  intro n control
  exact ⟨_, _, _, _, digits n control⟩

theorem exists_piece (c : Char) : ∃ p : Piece, p.chars = encodeChar c ∧ p.number = c.toNat := by
  unfold encodeChar
  split
  · rename_i same
    exact ⟨.named '"' c (by rw [same]; rfl), by rw [Piece.chars], rfl⟩
  split
  · rename_i same
    exact ⟨.named '\\' c (by rw [same]; rfl), by rw [Piece.chars], rfl⟩
  split
  · rename_i same
    exact ⟨.named 'n' c (by rw [same]; rfl), by rw [Piece.chars], rfl⟩
  split
  · rename_i same
    exact ⟨.named 'r' c (by rw [same]; rfl), by rw [Piece.chars], rfl⟩
  split
  · rename_i same
    exact ⟨.named 't' c (by rw [same]; rfl), by rw [Piece.chars], rfl⟩
  split
  · rename_i same
    exact ⟨.named 'b' c (by rw [same]; rfl), by rw [Piece.chars], rfl⟩
  split
  · rename_i same
    exact ⟨.named 'f' c (by rw [same]; rfl), by rw [Piece.chars], rfl⟩
  split
  · rename_i control
    obtain ⟨a, b, d, e, digits, writes⟩ := hex4?_control c.toNat control
    exact ⟨.code a b d e c.toNat writes, by rw [Piece.chars, digits], rfl⟩
  · rename_i noQuote noBackslash _ _ _ _ _ visible
    exact ⟨.raw c ⟨by omega, noQuote, noBackslash⟩, rfl, rfl⟩

theorem exists_pieces (s : String) : ∃ ps : List Piece, '"' :: spell ps ++ ['"'] = quote s.toList ∧
    Dialect.json.text ps = s := by
  have pieces (cs : List Char) : ∃ ps : List Piece, spell ps = cs.flatMap encodeChar ∧
      ps.map Piece.number = cs.map Char.toNat := by
    induction cs with
    | nil => exact ⟨[], rfl, rfl⟩
    | cons c cs ih =>
      obtain ⟨p, chars, number⟩ := exists_piece c
      obtain ⟨ps, spelled, numbers⟩ := ih
      refine ⟨p :: ps, ?_, by rw [List.map_cons, List.map_cons, number, numbers]⟩
      rw [spell, List.flatMap_cons, chars, List.flatMap_cons, ← spell, spelled]
  obtain ⟨ps, spelled, numbers⟩ := pieces s.toList
  exact ⟨ps, by rw [spelled, quote], by simp only [Dialect.json, numbers, joinPairs_chars]; rfl⟩

theorem spells_null : Spells "null".toList .null := ⟨.bare .null, rfl, rfl, fun _ => rfl⟩

theorem spells_bool (b : Bool) : Spells (if b then "true".toList else "false".toList) (.bool b) := by
  cases b
  · exact ⟨.bare (.bool false), rfl, rfl, fun _ => rfl⟩
  · exact ⟨.bare (.bool true), rfl, rfl, fun _ => rfl⟩

theorem spells_text (s : String) : Spells (quote s.toList) (.str s) := by
  obtain ⟨ps, spelled, text⟩ := exists_pieces s
  exact ⟨.quoted ps, spelled, by rw [Spelling.value, text], fun _ => rfl⟩

theorem natDigits_head (n : Nat) : (natDigits n).head? = some '0' → (natDigits n).length = 1 := by
  unfold natDigits
  induction n using Nat.strong_induction_on with
  | _ n ih =>
    rw [Nat.toDigits_eq_if (by decide)]
    split
    · exact fun _ => rfl
    · rename_i big
      intro head
      have front : (Nat.toDigits 10 (n / 10) ++ [(n % 10).digitChar]).head? =
          (Nat.toDigits 10 (n / 10)).head? := by
        cases digits : Nat.toDigits 10 (n / 10) with
        | nil => exact absurd digits Nat.toDigits_ne_nil
        | cons d ds => rfl
      rw [front] at head
      have less : n / 10 < n := by omega
      have one := ih (n / 10) less head
      -- the digits in front are a zero alone, which a number of two digits has not
      rw [Nat.toDigits_eq_if (by decide)] at one head
      split at one
      · rename_i small
        rw [if_pos small, List.head?_cons, Option.some.injEq] at head
        have zero : ∀ d < 10, Nat.digitChar d = '0' → d = 0 := by decide
        have := zero (n / 10) small head
        omega
      · have front : 0 < (Nat.toDigits 10 (n / 10 / 10)).length := Nat.length_toDigits_pos
        rw [List.length_append, List.length_singleton] at one
        omega

theorem asciiValue_natDigits (n : Nat) : asciiValue (natDigits n) = n := by
  have value := Nat.ofDigitChars_toDigits (show 1 < 10 by decide) (show 10 ≤ 10 by decide) (n := n)
  rw [Nat.ofDigitChars] at value
  simpa only [asciiValue, natDigits, Nat.mul_comm] using value

def wholeNumeral (negative : Bool) (n : Nat) : Numeral where
  negative := negative
  whole := ⟨natDigits n, Nat.toDigits_ne_nil,
    fun _ mem => Nat.isDigit_of_mem_toDigits (by decide) (by decide) mem⟩
  short := natDigits_head n
  fraction := none
  exponent := none

theorem scalar_wholeNumeral (negative : Bool) (n : Nat) :
    (wholeNumeral negative n).scalar = .int (signed negative n) := by
  have whole : (wholeNumeral negative n).isWhole = true := rfl
  rw [Numeral.scalar, if_pos whole]
  exact congrArg (fun n => Scalar.int (signed negative n)) (asciiValue_natDigits n)

theorem length_natDigits_le {n k : Nat} (some : 0 < k) (small : n < Nat.pow 10 k) :
    (natDigits n).length ≤ k :=
  (Nat.length_toDigits_le_iff (by decide) some).2 small

theorem isShort_wholeNumeral {negative : Bool} {n : Nat}
    (short : (Scalar.int (signed negative n)).isLong = false) :
    (wholeNumeral negative n).isShort = true := by
  have size : (signed negative n).natAbs = n := by cases negative <;> simp [signed]
  rw [Scalar.isLong, size, decide_eq_false_iff_not, Nat.not_le] at short
  unfold firstLong at short
  rw [Numeral.isShort, Bool.or_eq_true, decide_eq_true_eq]
  exact .inr (length_natDigits_le (by decide) short)

theorem spells_int (n : Int) : Spells (intDigits n) (.int n) := by
  have numeral (negative : Bool) (n : Nat) :
      Spells (wholeNumeral negative n).chars (.int (signed negative n)) :=
    ⟨.bare (.numeral (wholeNumeral negative n)), rfl,
      congrArg Value.scalar (scalar_wholeNumeral negative n), fun short => isShort_wholeNumeral short⟩
  have chars (negative : Bool) (n : Nat) : (wholeNumeral negative n).chars =
      (if negative then ['-'] else []) ++ natDigits n := by
    cases negative <;> simp [Numeral.chars, Numeral.sizeChars, wholeNumeral]
  cases n with
  | ofNat n =>
    have spells := numeral false n
    rw [chars] at spells
    exact spells
  | negSucc n =>
    have spells := numeral true (n + 1)
    rw [chars] at spells
    exact spells

theorem intercalate_cons_cons {α : Type} (sep a b : List α) (r : List (List α)) :
    sep.intercalate (a :: b :: r) = a ++ (sep ++ sep.intercalate (b :: r)) := by
  simp [List.intercalate, List.intersperse]

theorem readerRules_blanks (b : Blanks) : readerRules.blanks b = true := rfl

theorem exists_items (before after : Blanks) {items : List (List Char)} {vs : List Value}
    (each : List.Forall₂ Spells items vs) (some_ : items ≠ []) :
    ∃ is : Items, is.render Blanks.chars =
        before.chars ++ (',' :: before.chars).intercalate items ++ after.chars ∧
      is.values .json = vs ∧ ((∀ v ∈ vs, v.hasLong = false) → is.obeys readerRules = true) := by
  induction each with
  | nil => contradiction
  | @cons item v items vs first others ih =>
    obtain ⟨t, rfl, rfl, takes⟩ := first
    cases items with
    | nil =>
      cases others
      refine ⟨.last before t after, ?_, rfl, fun short => ?_⟩
      · simp [Items.render, List.intercalate]
      · simp only [Items.obeys, takes (List.forall_mem_cons.1 short).1, readerRules_blanks, Bool.and_self]
    | cons item' items =>
      obtain ⟨is, rendered, rfl, obeys⟩ := ih (by simp)
      refine ⟨.more before t .none is, ?_, rfl, fun short => ?_⟩
      · rw [Items.render, rendered, intercalate_cons_cons]
        simp [Blanks.none]
      · obtain ⟨here, short⟩ := List.forall_mem_cons.1 short
        simp only [Items.obeys, takes here, obeys short, readerRules_blanks, Bool.and_self]

theorem spells_list (before after : Blanks) {items : List (List Char)} {vs : List Value}
    (each : List.Forall₂ Spells items vs) (some_ : items ≠ []) :
    Spells ('[' :: before.chars ++ (',' :: before.chars).intercalate items ++ after.chars ++ [']'])
      (.list vs) := by
  obtain ⟨is, rendered, rfl, obeys⟩ := exists_items before after each some_
  exact ⟨.list is, by rw [Spelling.render, rendered]; rfl, rfl,
    fun short => obeys (Value.haveLong_eq_false_iff.1 short)⟩

def SpellsMember (gap : Blanks) (cs : List Char) (e : Str × Value) : Prop :=
  ∃ (key : String) (value : List Char), e.1 = key ∧
    cs = quote key.toList ++ ':' :: (gap.chars ++ value) ∧ Spells value e.2

theorem exists_label (before gap : Blanks) (key : String) : ∃ l : Label,
    l.render Blanks.chars = before.chars ++ (quote key.toList ++ ':' :: gap.chars) ∧
      Dialect.json.text l.key = key ∧ l.obeys readerRules = true := by
  obtain ⟨ps, spelled, text⟩ := exists_pieces key
  refine ⟨⟨before, ps, .none, gap⟩, ?_, text, rfl⟩
  rw [← spelled]
  simp [Label.render, Blanks.none]

theorem exists_members (before gap after : Blanks) {members : List (List Char)}
    {fields : List (Str × Value)} (each : List.Forall₂ (SpellsMember gap) members fields)
    (some_ : members ≠ []) :
    ∃ ms : Members, ms.render Blanks.chars =
        before.chars ++ (',' :: before.chars).intercalate members ++ after.chars ∧
      ms.entries .json = Entries.ofFields fields ∧
      ((∀ f ∈ fields, f.2.hasLong = false) → ms.obeys readerRules = true) := by
  induction each with
  | nil => contradiction
  | @cons member e members fields first others ih =>
    obtain ⟨e, u⟩ := e
    obtain ⟨name, value, rfl, rfl, t, rfl, same, takes⟩ := first
    obtain ⟨l, labelled, key, obeysLabel⟩ := exists_label before gap name
    cases members with
    | nil =>
      cases others
      refine ⟨.last l t after, ?_, ?_, fun short => ?_⟩
      · rw [Members.render, labelled]
        simp [List.intercalate]
      · rw [Members.entries, key, same]
        rfl
      · simp only [Members.obeys, obeysLabel, takes (List.forall_mem_cons.1 short).1,
          readerRules_blanks, Bool.and_self]
    | cons member' members =>
      obtain ⟨ms, rendered, entries, obeys⟩ := ih (by simp)
      refine ⟨.more l t .none ms, ?_, ?_, fun short => ?_⟩
      · rw [Members.render, labelled, rendered, intercalate_cons_cons]
        simp [Blanks.none]
      · rw [Members.entries, key, same, entries]
        rfl
      · obtain ⟨here, short⟩ := List.forall_mem_cons.1 short
        simp only [Members.obeys, obeysLabel, takes here, obeys short, readerRules_blanks, Bool.and_self]

theorem spells_object (before gap after : Blanks) {members : List (List Char)}
    {fields : List (Str × Value)} (each : List.Forall₂ (SpellsMember gap) members fields)
    (some_ : members ≠ []) (nodup : (fields.map Prod.fst).Nodup) :
    Spells ('\x7b' :: before.chars ++ (',' :: before.chars).intercalate members ++ after.chars ++
      ['\x7d']) (.map (Entries.ofFields fields)) := by
  obtain ⟨ms, rendered, entries, obeys⟩ := exists_members before gap after each some_
  refine ⟨.object ms, by rw [Spelling.render, rendered]; rfl, ?_,
    fun short => obeys (Value.entriesHaveLong_ofFields_iff.1 short)⟩
  rw [Spelling.value, entries, Entries.ofList_of_nodup nodup]

theorem spells_emptyList : Spells ['[', ']'] (.list []) := ⟨.emptyList .none, rfl, rfl, fun _ => rfl⟩

theorem spells_emptyObject : Spells ['\x7b', '\x7d'] (.map []) := ⟨.emptyObject .none, rfl, rfl, fun _ => rfl⟩

end Json

end ApiModel
