import ApiModel.Proofs.Building.Identifiers

namespace ApiModel

open Text

inductive Stands : Letter → Letter → Prop
  | kept {l : Letter} (word : l.isOf isWordChar = true) : Stands l l
  | replaced {l : Letter} (other : l.isOf isWordChar = false) : Stands l (.char '_')

theorem stands_identifierLetters (ls : List Letter) : List.Forall₂ Stands ls (identifierLetters ls) := by
  induction ls with
  | nil => exact .nil
  | cons l ls ih =>
    rw [identifierLetters, List.map_cons]
    apply List.Forall₂.cons _ ih
    split
    · rename_i word
      exact .kept word
    · rename_i other
      exact .replaced (Bool.not_eq_true _ ▸ other)

theorem identifierLetters_of_word {ls : List Letter} (word : ∀ l ∈ ls, l.isOf isWordChar = true) :
    identifierLetters ls = ls := by
  have each : ∀ l ∈ ls, (if l.isOf isWordChar then l else .char '_') = l := fun l mem => if_pos (word l mem)
  rw [identifierLetters, List.map_congr_left each, List.map_id']

theorem length_identifierLetters (ls : List Letter) : (identifierLetters ls).length = ls.length :=
  List.length_map ..

def startsWithDigit (name : Str) : Bool := name.toList.head?.any (Letter.isOf Char.isDigit)

/-- Only the digits of ASCII are kept, so they are the only ones to be seen in front of what is kept. -/
theorem head?_identifierLetters (ls : List Letter) :
    (identifierLetters ls).head?.any (Letter.isOf Char.isDigit) =
      ls.head?.any (Letter.isOf Char.isDigit) := by
  cases ls with
  | nil => rfl
  | cons l ls =>
    rw [identifierLetters, List.map_cons, List.head?_cons, List.head?_cons, Option.any_some, Option.any_some]
    split
    · rfl
    · rename_i other
      have noDigit : l.isOf Char.isDigit = false := by
        by_contra digit
        exact other (Letter.isWord_of_isDigit (Bool.not_eq_false _ ▸ digit))
      rw [noDigit]
      decide

theorem toList_sanitizeName (name : Str) : (sanitizeName name).toList =
    if startsWithDigit name then .char '_' :: identifierLetters name.toList
    else identifierLetters name.toList := by
  rw [startsWithDigit, ← head?_identifierLetters]
  rfl

theorem eq_empty_iff_toList {name : Str} : name = "" ↔ name.toList = [] := Str.toList_inj.symm

theorem sanitizeName_eq_empty_iff {name : Str} : sanitizeName name = "" ↔ name = "" := by
  rw [eq_empty_iff_toList, eq_empty_iff_toList, toList_sanitizeName, startsWithDigit]
  cases name.toList with
  | nil => exact iff_of_true rfl rfl
  | cons l ls =>
    apply iff_of_false _ (List.cons_ne_nil l ls)
    split <;> exact List.cons_ne_nil _ _

theorem startsWithDigit_of_isIdentifier {name : Str} (identifier : isIdentifier name = true) :
    startsWithDigit name = false := by
  obtain ⟨l, ls, letters, -, start, -⟩ := isIdentifier_iff.1 identifier
  rw [startsWithDigit, letters, List.head?_cons, Option.any_some]
  exact start

theorem sanitizeName_of_isIdentifier {name : Str} (identifier : isIdentifier name = true) :
    sanitizeName name = name := by
  have word : ∀ l ∈ name.toList, l.isOf isWordChar = true := by
    have both := (Bool.and_eq_true _ _).mp identifier
    exact List.all_eq_true.mp both.2
  rw [← Str.toList_inj, toList_sanitizeName, startsWithDigit_of_isIdentifier identifier,
    identifierLetters_of_word word]
  rfl

theorem sanitizeName_eq_self_iff {name : Str} :
    sanitizeName name = name ↔ name = "" ∨ isIdentifier name = true := by
  constructor
  · intro same
    by_cases empty : name = ""
    · exact .inl empty
    · rw [← same]
      exact .inr (isIdentifier_sanitizeName fun none_ => empty (sanitizeName_eq_empty_iff.mp none_))
  · intro fixed
    rcases fixed with rfl | identifier
    · rfl
    · exact sanitizeName_of_isIdentifier identifier

theorem isIdentifier_sanitizeName_iff {name : Str} : isIdentifier (sanitizeName name) = true ↔ name ≠ "" := by
  constructor
  · intro identifier empty
    subst empty
    exact absurd identifier (by decide)
  · intro named
    exact isIdentifier_sanitizeName (mt sanitizeName_eq_empty_iff.mp named)

theorem length_sanitizeName (name : Str) :
    (sanitizeName name).toList.length = name.toList.length + if startsWithDigit name then 1 else 0 := by
  rw [toList_sanitizeName]
  split
  · rw [List.length_cons, length_identifierLetters]
  · rw [length_identifierLetters, Nat.add_zero]

/-- Names become identifiers, and identifiers stay what they are. A name keeps its characters in their places,
    with an underscore for each that no identifier has, and one more in front of a digit. -/
theorem sanitizeName_retracts (name : Str) :
    (sanitizeName name = "" ↔ name = "") ∧
    (isIdentifier (sanitizeName name) = true ↔ name ≠ "") ∧
    (sanitizeName name = name ↔ name = "" ∨ isIdentifier name = true) ∧
    sanitizeName (sanitizeName name) = sanitizeName name ∧
    (sanitizeName name).toList.length = name.toList.length + (if startsWithDigit name then 1 else 0) ∧
    ∃ ls, List.Forall₂ Stands name.toList ls ∧
      (sanitizeName name).toList = if startsWithDigit name then .char '_' :: ls else ls := by
  have again : sanitizeName (sanitizeName name) = sanitizeName name := by
    rw [sanitizeName_eq_self_iff, sanitizeName_eq_empty_iff, isIdentifier_sanitizeName_iff]
    exact Classical.em _
  exact ⟨sanitizeName_eq_empty_iff, isIdentifier_sanitizeName_iff, sanitizeName_eq_self_iff, again,
    length_sanitizeName name, _, stands_identifierLetters name.toList, toList_sanitizeName name⟩

example : sanitizeName "3 pets: ٣" = "_3_pets___" := by decide

end ApiModel
