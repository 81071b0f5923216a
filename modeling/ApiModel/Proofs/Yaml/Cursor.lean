import ApiModel.Yaml.Cursor
import Mathlib.Data.List.TakeWhile

namespace ApiModel.Yaml

theorem forall_of_all {p : Char → Prop} [DecidablePred p] {cs : List Char}
    (all : (cs.all fun y => decide (p y)) = true) : ∀ y ∈ cs, p y := fun y mem =>
  of_decide_eq_true (List.all_eq_true.1 all y mem)

namespace Cursor

structure Passes (c : Cursor) (cs : List Char) (d : Cursor) : Prop where
  rest : c.rest = cs ++ d.rest
  index : d.index = c.index + cs.length
  line : d.line = c.line + cs.countP isBreak

variable {c d e : Cursor} {cs ds r : List Char} {x : Char}

theorem Passes.refl (c : Cursor) : c.Passes [] c := ⟨rfl, rfl, rfl⟩

theorem Passes.trans (first : c.Passes cs d) (second : d.Passes ds e) : c.Passes (cs ++ ds) e where
  rest := by rw [first.rest, second.rest, List.append_assoc]
  index := by rw [second.index, first.index, List.length_append, Nat.add_assoc]
  line := by rw [second.line, first.line, List.countP_append, Nat.add_assoc]

theorem passes_next (at_ : c.rest = x :: r) : c.Passes [x] c.next := by
  unfold next
  rw [at_]
  dsimp only
  split <;> rename_i breaks
  · exact ⟨at_, rfl, by simp [breaks]⟩
  · exact ⟨at_, rfl, by simp [breaks]⟩

theorem next_rest (at_ : c.rest = x :: r) : c.next.rest = r := by
  have passed := (passes_next at_).rest
  rw [at_] at passed
  exact (List.cons.inj passed).2.symm

theorem passes_forward (at_ : c.rest = cs ++ r) : c.Passes cs (c.forward cs.length) := by
  induction cs generalizing c with
  | nil => exact .refl c
  | cons x cs ih => exact (passes_next at_).trans (ih (next_rest at_))

theorem forward_rest (at_ : c.rest = cs ++ r) : (c.forward cs.length).rest = r := by
  have passed := (passes_forward at_).rest
  rw [at_] at passed
  exact (List.append_cancel_left passed).symm

theorem passes_skipWhile (p : Char → Bool) (c : Cursor) :
    c.Passes (c.rest.takeWhile p) (c.skipWhile p) :=
  passes_forward List.takeWhile_append_dropWhile.symm

theorem skipWhile_rest (p : Char → Bool) (c : Cursor) :
    (c.skipWhile p).rest = c.rest.dropWhile p :=
  forward_rest List.takeWhile_append_dropWhile.symm

theorem skipWhile_of_pos {p : Char → Bool} (at_ : c.rest = x :: r) (pos : p x = true) :
    c.skipWhile p = c.next.skipWhile p := by
  rw [skipWhile, skipWhile, next_rest at_, at_, List.takeWhile_cons_of_pos pos]
  rfl

theorem skipWhile_of_neg {p : Char → Bool} (at_ : c.rest = x :: r) (neg : p x = false) :
    c.skipWhile p = c := by
  rw [skipWhile, at_, List.takeWhile_cons_of_neg (by simp [neg])]
  rfl

theorem peek_eq (at_ : c.rest = x :: r) : c.peek = some x := by rw [peek, at_, List.head?_cons]

def Reaches (c d : Cursor) : Prop := ∃ cs, c.Passes cs d

theorem Passes.reaches (passes : c.Passes cs d) : c.Reaches d := ⟨cs, passes⟩

theorem Reaches.trans (first : c.Reaches d) (second : d.Reaches e) : c.Reaches e := by
  obtain ⟨cs, first⟩ := first
  obtain ⟨ds, second⟩ := second
  exact ⟨cs ++ ds, first.trans second⟩

theorem Reaches.passes (reaches : c.Reaches d) (at_ : c.rest = cs ++ d.rest) : c.Passes cs d := by
  obtain ⟨ds, passes⟩ := reaches
  have same : cs = ds := List.append_cancel_right (at_.symm.trans passes.rest)
  exact same ▸ passes

theorem Reaches.length_le (reaches : c.Reaches d) : d.rest.length ≤ c.rest.length := by
  obtain ⟨cs, passes⟩ := reaches
  rw [passes.rest, List.length_append]
  omega

theorem next_column (at_ : c.rest = x :: r) (same : isBreak x = false ∧ x ≠ '\ufeff') :
    c.next.column = c.column + 1 := by
  rw [next, at_]
  simp only [same.1, same.2, Bool.false_eq_true, if_false]

theorem next_column_break (at_ : c.rest = x :: r) (breaks : isBreak x = true) :
    c.next.column = 0 := by
  rw [next, at_]
  simp only [breaks, if_true]

theorem forward_column (same : ∀ y ∈ cs, isBreak y = false ∧ y ≠ '\ufeff')
    (at_ : c.rest = cs ++ r) : (c.forward cs.length).column = c.column + cs.length := by
  induction cs generalizing c with
  | nil => rfl
  | cons x cs ih =>
    rw [List.forall_mem_cons] at same
    rw [List.length_cons, forward, ih same.2 (next_rest at_), next_column at_ same.1]
    omega

theorem skipComment_of_ne (other : c.peek ≠ some '#') : c.skipComment = c := by
  rw [skipComment, isNext, if_neg (by simpa using other)]

theorem lineBreak?_eq_none (same : ∀ x, c.peek = some x → isBreak x = false) :
    c.lineBreak? = none := by
  unfold lineBreak?
  split
  · rename_i x next
    rw [same x next]
    rfl
  · rfl

theorem lineBreak?_eq_some (next : c.peek = some x) (breaks : isBreak x = true) :
    c.lineBreak? = some (if x = '\x85' then '\n' else x, c.next) := by
  simp only [lineBreak?, next, breaks, if_true]

theorem atMarker_iff (c : Cursor) : c.atMarker = true ↔
    (∃ r, c.rest = '-' :: '-' :: '-' :: r ∧ endsWord r.head? = true) ∨
      ∃ r, c.rest = '.' :: '.' :: '.' :: r ∧ endsWord r.head? = true := by
  unfold atMarker
  split <;> simp_all

end Cursor

end ApiModel.Yaml
