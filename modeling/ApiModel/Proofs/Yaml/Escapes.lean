import ApiModel.Proofs.Yaml.Quoting
import Mathlib.Algebra.Group.Nat.Defs

namespace ApiModel.Yaml

open Text

variable {c d : Cursor} {cs r : List Char} {x : Char} {l : Letter}

theorem hexCode?_succ (n : Nat) (cs : List Char) (high : Nat) :
    hexCode? (n + 1) cs high = (hexCode? n cs high).bind fun v =>
      (cs.drop n).head?.bind fun c => (hexValue? c).map (v * 16 + ·) := by
  induction n generalizing cs high with
  | zero =>
    cases cs with
    | nil => rfl
    | cons c r =>
      simp only [hexCode?, List.drop_zero, List.head?_cons, Option.bind_some]
      cases hexValue? c <;> rfl
  | succ n ih =>
    cases cs with
    | nil => rfl
    | cons c r =>
      rw [hexCode?, hexCode?, List.drop_succ_cons]
      cases hexValue? c with
      | none => rfl
      | some v => exact ih r (high * 16 + v)

theorem hexLower_succ (width n : Nat) :
    hexLower (width + 2) n = hexLower (width + 1) (n / 16) ++ [(n % 16).digitChar] := by
  rw [hexLower, hexLower, padLeft, padLeft]
  by_cases small : n < 16
  · have zero : n / 16 = 0 := Nat.div_eq_of_lt small
    have digits : Nat.toDigits 16 n = [n.digitChar] := Nat.toDigits_of_lt_base small
    rw [zero, digits, Nat.mod_eq_of_lt small, Nat.toDigits_zero]
    simp [List.replicate_succ']
  · have digits : Nat.toDigits 16 n = Nat.toDigits 16 (n / 16) ++ [(n % 16).digitChar] := by
      rw [Nat.toDigits_eq_if (by decide), if_neg small]
    have width_ : width + 2 - ((Nat.toDigits 16 (n / 16)).length + 1) =
        width + 1 - (Nat.toDigits 16 (n / 16)).length := by omega
    rw [digits, List.length_append, List.length_singleton, width_, List.append_assoc]

theorem hexUpper_one {n : Nat} (fits : n < 16) : hexUpper 1 n = [n.digitChar.toUpper] := by
  rw [hexUpper, hexLower, padLeft, Nat.toDigits_of_lt_base fits]
  rfl

theorem hexUpper_succ (width n : Nat) :
    hexUpper (width + 2) n = hexUpper (width + 1) (n / 16) ++ [(n % 16).digitChar.toUpper] := by
  rw [hexUpper, hexLower_succ, List.map_append, hexUpper]
  rfl

theorem hexValue?_digitChar : ∀ n < 16, hexValue? n.digitChar.toUpper = some n := by decide

theorem hexCode?_hexUpper (width : Nat) {n : Nat} (fits : n < 16 ^ (width + 1)) (r : List Char) :
    (hexUpper (width + 1) n).length = width + 1 ∧
      hexCode? (width + 1) (hexUpper (width + 1) n ++ r) 0 = some n := by
  induction width generalizing n r with
  | zero =>
    rw [Nat.zero_add, Nat.pow_one] at fits
    rw [hexUpper_one fits]
    refine ⟨rfl, ?_⟩
    rw [List.singleton_append, Nat.zero_add, hexCode?, hexValue?_digitChar n fits]
    simp [hexCode?]
  | succ width ih =>
    have fits' : n / 16 < 16 ^ (width + 1) := by
      rw [Nat.pow_succ] at fits
      omega
    have last : hexValue? (n % 16).digitChar.toUpper = some (n % 16) :=
      hexValue?_digitChar _ (Nat.mod_lt _ (by decide))
    obtain ⟨length, read⟩ := ih fits' ((n % 16).digitChar.toUpper :: r)
    rw [hexUpper_succ, List.length_append, length, List.append_assoc, List.singleton_append]
    refine ⟨rfl, ?_⟩
    rw [hexCode?_succ, read, List.drop_left' length]
    simp only [Option.bind_some, List.head?_cons, last, Option.map_some, Option.some.injEq]
    omega

theorem namedEscape?_escapeLetter {letter : Char} (named : escapeLetter? x = some letter) :
    namedEscape? letter = some x := by
  unfold escapeLetter? at named
  split at named <;> cases named <;> rfl

theorem code_lt (l : Letter) : l.code < 0x110000 := by
  cases l with
  | char x => exact x.valid.elim (fun low => low.trans (by decide)) And.right
  | half offset =>
    have bound := offset.isLt
    rw [Letter.code]
    omega

theorem letterOfCode_code (l : Letter) : letterOfCode l.code = .ok l := by
  have bound := code_lt l
  rw [letterOfCode, if_neg (by omega), Letter.ofCode_code]

theorem piece_named {letter : Char} (named : namedEscape? letter = some x)
    (at_ : c.rest = '\\' :: letter :: r) :
    QuotePiece true c [.char x] c.next.next ∧ c.next.next.rest = r := by
  have behind := Cursor.next_rest at_
  refine ⟨piece_escape at_ (Cursor.passes_next behind).reaches fun fuel _ => ?_, Cursor.next_rest behind⟩
  rw [quotedEscape, Cursor.peek_eq behind]
  simp only [named]

theorem piece_code {letter : Char} (width : Nat) (unnamed : namedEscape? letter = none)
    (code : codeLength? letter = some (width + 1)) (fits : l.code < 16 ^ (width + 1))
    (at_ : c.rest = '\\' :: letter :: (hexUpper (width + 1) l.code ++ r)) :
    ∃ d, QuotePiece true c [l] d ∧ d.rest = r := by
  have behind := Cursor.next_rest at_
  obtain ⟨length, read⟩ := hexCode?_hexUpper width fits r
  have passes := Cursor.passes_forward (Cursor.next_rest behind)
  refine ⟨_, piece_escape at_ ((Cursor.passes_next behind).reaches.trans passes.reaches)
    fun fuel _ => ?_, Cursor.forward_rest (Cursor.next_rest behind)⟩
  rw [quotedEscape, Cursor.peek_eq behind]
  simp only [unnamed, code, Cursor.next_rest behind, read, letterOfCode_code, length]
  rfl

theorem escaped_eq (l : Letter) : ∃ e, escaped l = '\\' :: e := by
  unfold escaped
  split
  · exact ⟨_, rfl⟩
  · dsimp only
    split
    · exact ⟨_, rfl⟩
    split <;> exact ⟨_, rfl⟩

theorem piece_escaped (at_ : c.rest = escaped l ++ r) : ∃ d, QuotePiece true c [l] d ∧ d.rest = r := by
  unfold escaped at at_
  split at at_
  · rename_i letter named
    obtain ⟨x, char, named⟩ := Option.bind_eq_some_iff.1 named
    cases l with
    | half offset => contradiction
    | char y =>
      cases char
      exact ⟨_, piece_named (namedEscape?_escapeLetter named) at_⟩
  dsimp only at at_
  split at at_
  · rename_i small
    exact piece_code 1 rfl rfl (Nat.lt_succ_of_le small) at_
  split at at_
  · rename_i middle
    exact piece_code 3 rfl rfl (Nat.lt_succ_of_le middle) at_
  · exact piece_code 7 rfl rfl (Nat.lt_trans (code_lt l) (by decide)) at_

end ApiModel.Yaml
