import ApiModel.Reading.Problem

namespace ApiModel

inductive Checked (α : Type)
  | ok (a : α)
  | bad (first : Problem) (others : List Problem)
  deriving DecidableEq

namespace Checked

variable {α β : Type}

def fail (cause : Cause) : Checked α := bad ⟨[], cause⟩ []

def problems : Checked α → List Problem
  | ok _ => []
  | bad p ps => p :: ps

def map (f : α → β) : Checked α → Checked β
  | ok a => ok (f a)
  | bad p ps => bad p ps

def apply : Checked (α → β) → Checked α → Checked β
  | ok f, ok a => ok (f a)
  | bad p ps, ok _ => bad p ps
  | ok _, bad q qs => bad q qs
  | bad p ps, bad q qs => bad p (ps ++ q :: qs)

instance : Applicative Checked where
  pure := ok
  map := map
  seq f a := apply f (a ())

def under (step : String) : Checked α → Checked α
  | ok a => ok a
  | bad p ps => bad (p.under step) (ps.map (Problem.under step))

def all : List (Checked α) → Checked (List α)
  | [] => ok []
  | c :: r => apply (c.map List.cons) (all r)

def indexed (start : Nat) : List (Checked α) → Checked (List α)
  | [] => ok []
  | c :: r => apply ((c.under (toString start)).map List.cons) (indexed (start + 1) r)

@[simp] theorem problems_ok (a : α) : (ok a).problems = [] := rfl

@[simp] theorem problems_fail (cause : Cause) : (fail cause : Checked α).problems = [⟨[], cause⟩] := rfl

@[simp] theorem problems_map (f : α → β) (c : Checked α) : (c.map f).problems = c.problems := by
  cases c <;> rfl

@[simp] theorem problems_apply (f : Checked (α → β)) (c : Checked α) :
    (apply f c).problems = f.problems ++ c.problems := by
  cases f <;> cases c <;> simp [apply, problems]

@[simp] theorem problems_under (step : String) (c : Checked α) :
    (c.under step).problems = c.problems.map (Problem.under step) := by
  cases c <;> rfl

@[simp] theorem problems_all (cs : List (Checked α)) : (all cs).problems = cs.flatMap problems := by
  induction cs with
  | nil => rfl
  | cons c r ih => simp [all, ih]

theorem problems_eq_nil_iff {c : Checked α} : c.problems = [] ↔ ∃ a, c = ok a := by
  cases c <;> simp [problems]

theorem map_eq_ok_iff {f : α → β} {c : Checked α} {b : β} :
    c.map f = ok b ↔ ∃ a, c = ok a ∧ f a = b := by
  cases c <;> simp [map]

theorem apply_eq_ok_iff {f : Checked (α → β)} {c : Checked α} {b : β} :
    apply f c = ok b ↔ ∃ g a, f = ok g ∧ c = ok a ∧ g a = b := by
  cases f <;> cases c <;> simp [apply]

theorem under_eq_ok_iff {step : String} {c : Checked α} {a : α} : c.under step = ok a ↔ c = ok a := by
  cases c <;> simp [under]

end Checked

end ApiModel
