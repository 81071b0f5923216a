import ApiModel.Plain.Basic
import ApiModel.Yaml.TextStyle

namespace ApiModel.Yaml

/-- A text in single quotes as a reader has it; `inBreaks` says that a line end comes before it. -/
def rereadSingle : (inBreaks : Bool) → List Char → List Char
  | _, [] => []
  | inBreaks, c :: r =>
    if c ≠ '\x85' then c :: rereadSingle (isBreak c) r
    else if inBreaks then '\n' :: rereadSingle true r
    else if r.head?.any isBreak then rereadSingle true r
    else ' ' :: rereadSingle true r

def isRefolded (l : Letter) : List Letter → Bool
  | .char ' ' :: _ :: _ => !l.isOf isBare
  | _ => false

def anyRefolded : List Letter → Bool
  | [] => false
  | l :: r => isRefolded l r || anyRefolded r

def refolded : List Letter → List Letter
  | [] => []
  | l :: r => if isRefolded l r then l :: .char '\\' :: .char ' ' :: refolded r else l :: refolded r

def rereadInner (indent : Nat) (ls : List Letter) : List Letter :=
  if lineWidth ≤ indent then refolded ls else ls

def rereadDouble (indent : Nat) : List Letter → List Letter
  | [] => []
  | l :: r => l :: rereadInner indent r

/-- A text that was written with further lines from column `indent` on, as a reader has it. -/
def reread (indent : Nat) (s : Str) : Str :=
  match s.chars? with
  | some cs =>
    if isPlainText cs then s
    else if isQuotable cs then String.ofList (rereadSingle false cs)
    else .ofList (rereadDouble indent s.toList)
  | none => .ofList (rereadDouble indent s.toList)

def isPlain (s : Str) : Bool := s.chars?.any isPlainText

def isKeptDouble (indent : Nat) (ls : List Letter) : Bool := indent < lineWidth || !anyRefolded ls.tail

def isKept (indent : Nat) (s : Str) : Bool :=
  match s.chars? with
  | some cs =>
    isPlainText cs || if isQuotable cs then !cs.contains '\x85' else isKeptDouble indent s.toList
  | none => isKeptDouble indent s.toList

variable {indent : Nat} {cs : List Char} {ls : List Letter}

theorem exists_of_isPlain {s : Str} (plain : isPlain s = true) :
    ∃ cs, s.chars? = some cs ∧ isPlainText cs = true := by
  rw [isPlain] at plain
  cases chars : s.chars? with
  | none => simp [chars] at plain
  | some cs => exact ⟨cs, rfl, by simpa [chars] using plain⟩

theorem not_mem_rereadSingle (inBreaks : Bool) (cs : List Char) :
    '\x85' ∉ rereadSingle inBreaks cs := by
  induction cs generalizing inBreaks with
  | nil => exact List.not_mem_nil
  | cons c r ih =>
    rw [rereadSingle]
    split
    · rename_i other
      exact fun mem => (List.mem_cons.1 mem).elim (fun same => other same.symm) (ih _)
    split
    · exact fun mem => (List.mem_cons.1 mem).elim (by decide) (ih _)
    split
    · exact ih _
    · exact fun mem => (List.mem_cons.1 mem).elim (by decide) (ih _)

theorem rereadSingle_eq_self (inBreaks : Bool) (none : '\x85' ∉ cs) :
    rereadSingle inBreaks cs = cs := by
  induction cs generalizing inBreaks with
  | nil => rfl
  | cons c r ih =>
    rw [List.mem_cons, not_or] at none
    rw [rereadSingle, if_pos (Ne.symm none.1), ih _ none.2]

theorem rereadSingle_eq_iff : rereadSingle false cs = cs ↔ '\x85' ∉ cs :=
  ⟨fun same => same ▸ not_mem_rereadSingle false cs, rereadSingle_eq_self false⟩

theorem length_le_refolded (ls : List Letter) : ls.length ≤ (refolded ls).length := by
  induction ls with
  | nil => exact Nat.le_refl _
  | cons l r ih =>
    rw [refolded]
    split <;> simp only [List.length_cons] <;> omega

theorem refolded_eq_iff : refolded ls = ls ↔ anyRefolded ls = false := by
  induction ls with
  | nil => exact ⟨fun _ => rfl, fun _ => rfl⟩
  | cons l r ih =>
    rw [refolded, anyRefolded]
    cases isRefolded l r with
    | true =>
      refine ⟨fun same => ?_, fun other => absurd other (by simp)⟩
      have length := congrArg List.length same
      have grows := length_le_refolded r
      simp only [if_true, List.length_cons] at length
      omega
    | false => simp [ih]

theorem rereadDouble_eq_iff : rereadDouble indent ls = ls ↔ isKeptDouble indent ls = true := by
  cases ls with
  | nil => simp [rereadDouble, isKeptDouble, anyRefolded]
  | cons l r =>
    rw [rereadDouble, rereadInner, isKeptDouble, List.tail_cons, Bool.or_eq_true, Bool.not_eq_true',
      ← refolded_eq_iff]
    by_cases deep : lineWidth ≤ indent
    · simp [deep, Nat.not_lt.2 deep]
    · simp [deep, Nat.not_le.1 deep]

theorem ofList_rereadDouble_eq_iff {s : Str} :
    Str.ofList (rereadDouble indent s.toList) = s ↔ isKeptDouble indent s.toList = true := by
  rw [← Str.toList_inj, rereadDouble_eq_iff]

theorem reread_eq_iff {s : Str} : reread indent s = s ↔ isKept indent s = true := by
  rw [reread, isKept]
  cases chars : s.chars? with
  | none => exact ofList_rereadDouble_eq_iff
  | some cs =>
    dsimp only
    cases isPlainText cs with
    | true => simp
    | false =>
      cases isQuotable cs with
      | false => simpa using ofList_rereadDouble_eq_iff
      | true =>
        rw [Str.chars?_eq_some_iff.1 chars]
        simp [rereadSingle_eq_iff, String.ofList_inj]

end ApiModel.Yaml

namespace ApiModel.Plain

open Yaml

mutual

/-- The data as a reader has it. Texts and records go on at column `inner`, the hyphens of lists stand
    at column `hyphens`. -/
def reread (hyphens inner : Nat) : Plain → Plain
  | null => null
  | bool b => bool b
  | text s => text (Yaml.reread inner s)
  | list items => list (rereadItems hyphens items)
  | record fields => record (rereadFields inner fields)

def rereadItems (indent : Nat) : List Plain → List Plain
  | [] => []
  | p :: r => p.reread (indent + 2) (indent + 2) :: rereadItems indent r

def rereadFields (indent : Nat) : List (String × Plain) → List (String × Plain)
  | [] => []
  | (name, p) :: r => (name, p.reread indent (indent + 2)) :: rereadFields indent r

end

mutual

def texts (hyphens inner : Nat) : Plain → List (Nat × Str)
  | null => []
  | bool _ => []
  | text s => [(inner, s)]
  | list items => itemTexts hyphens items
  | record fields => fieldTexts inner fields

def itemTexts (indent : Nat) : List Plain → List (Nat × Str)
  | [] => []
  | p :: r => p.texts (indent + 2) (indent + 2) ++ itemTexts indent r

def fieldTexts (indent : Nat) : List (String × Plain) → List (Nat × Str)
  | [] => []
  | (_, p) :: r => p.texts indent (indent + 2) ++ fieldTexts indent r

end

def Kept (texts : List (Nat × Str)) : Prop := ∀ t ∈ texts, isKept t.1 t.2 = true

instance (texts : List (Nat × Str)) : Decidable (Kept texts) :=
  inferInstanceAs (Decidable (∀ t ∈ texts, isKept t.1 t.2 = true))

theorem kept_append {a b : List (Nat × Str)} : Kept (a ++ b) ↔ Kept a ∧ Kept b :=
  List.forall_mem_append

mutual

theorem reread_toValue_iff (p : Plain) (hyphens inner : Nat) :
    (p.reread hyphens inner).toValue = p.toValue ↔ Kept (p.texts hyphens inner) := by
  cases p with
  | null | bool => simp [reread, texts, Kept]
  | text s =>
    have text : Kept ((text s).texts hyphens inner) ↔ isKept inner s = true :=
      List.forall_mem_singleton
    rw [text, ← reread_eq_iff]
    simp [reread, toValue, Value.str]
  | list items =>
    have items_ := rereadItems_toValues_iff items hyphens
    simpa [reread, toValue, texts] using items_
  | record fields =>
    have fields_ := rereadFields_toEntries_iff fields inner
    simpa [reread, toValue, texts] using fields_

theorem rereadItems_toValues_iff (items : List Plain) (indent : Nat) :
    toValues (rereadItems indent items) = toValues items ↔ Kept (itemTexts indent items) := by
  cases items with
  | nil => simp [rereadItems, itemTexts, Kept]
  | cons p r =>
    rw [rereadItems, toValues, toValues, itemTexts, kept_append, List.cons.injEq,
      reread_toValue_iff p, rereadItems_toValues_iff r]

theorem rereadFields_toEntries_iff (fields : List (String × Plain)) (indent : Nat) :
    toEntries (rereadFields indent fields) = toEntries fields ↔ Kept (fieldTexts indent fields) := by
  cases fields with
  | nil => simp [rereadFields, fieldTexts, Kept]
  | cons f r =>
    obtain ⟨name, p⟩ := f
    rw [rereadFields, toEntries, toEntries, fieldTexts, kept_append, List.cons.injEq, Prod.mk.injEq,
      reread_toValue_iff p, rereadFields_toEntries_iff r]
    simp

end

end ApiModel.Plain
