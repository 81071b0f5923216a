import ApiModel.Proofs.Reading.Related
import ApiModel.Swagger.Reading

namespace ApiModel

variable {α β : Type}

namespace Checked

def Alike (c c' : Checked α) : Prop := ∀ a, c = ok a ↔ c' = ok a

namespace Alike

variable {c c' : Checked α} {cs cs' : List (Checked α)}

theorem refl (c : Checked α) : c.Alike c := fun _ => .rfl

theorem symm (alike : c.Alike c') : c'.Alike c := fun a => (alike a).symm

theorem equivalence : Equivalence (Alike (α := α)) :=
  ⟨refl, symm, fun first second a => (first a).trans (second a)⟩

theorem map (alike : c.Alike c') (f : α → β) : (c.map f).Alike (c'.map f) := by
  intro b
  rw [map_eq_ok_iff, map_eq_ok_iff]
  exact exists_congr fun a => and_congr_left fun _ => alike a

theorem under (alike : c.Alike c') (step step' : String) :
    (c.under step).Alike (c'.under step') := by
  intro a
  rw [under_eq_ok_iff, under_eq_ok_iff]
  exact alike a

theorem under_left (alike : c.Alike c') (step : String) : (c.under step).Alike c' := fun a =>
  under_eq_ok_iff.trans (alike a)

theorem apply {f f' : Checked (α → β)} (functions : f.Alike f') (alike : c.Alike c') :
    (Checked.apply f c).Alike (Checked.apply f' c') := by
  intro b
  rw [apply_eq_ok_iff, apply_eq_ok_iff]
  exact exists₂_congr fun g a => and_congr (functions g) (and_congr_left fun _ => alike a)

theorem all (each : List.Forall₂ Alike cs cs') : (Checked.all cs).Alike (Checked.all cs') := by
  induction each with
  | nil => exact refl _
  | cons first _ ih => exact (first.map List.cons).apply ih

theorem indexed (each : List.Forall₂ Alike cs cs') (start : Nat) :
    (Checked.indexed start cs).Alike (Checked.indexed start cs') := by
  induction each generalizing start with
  | nil => exact refl _
  | cons first _ ih => exact ((first.under _ _).map List.cons).apply (ih (start + 1))

end Alike

end Checked

open Checked

theorem forall₂_middle {R : α → α → Prop} (refl : ∀ a, R a a) {a a' : α} (related : R a a')
    (l r : List α) : List.Forall₂ R (l ++ a :: r) (l ++ a' :: r) :=
  List.rel_append (List.forall₂_same.2 fun b _ => refl b)
    (.cons related (List.forall₂_same.2 fun b _ => refl b))

theorem indexed_middle {read : Value → Checked α} {v v' : Value} (alike : (read v).Alike (read v'))
    (l r : List Value) :
    (indexed 0 ((l ++ v :: r).map read)).Alike (indexed 0 ((l ++ v' :: r).map read)) := by
  rw [List.map_append, List.map_append, List.map_cons, List.map_cons]
  exact .indexed (forall₂_middle .refl alike _ _) 0

namespace Entries

variable {read : Value → Checked α} {m m' : Entries} {v v' : Value}

def ReadAlike (read : Value → Checked α) : Entries → Entries → Prop :=
  List.Forall₂ fun e e' => e.1 = e'.1 ∧ (read e.2).Alike (read e'.2)

namespace ReadAlike

theorem middle (alike : (read v).Alike (read v')) (l : Entries) (k : Scalar) (r : Entries) :
    ReadAlike read (l ++ (k, v) :: r) (l ++ (k, v') :: r) :=
  forall₂_middle (fun e => ⟨rfl, .refl (read e.2)⟩) ⟨rfl, alike⟩ l r

theorem dropExtensions (alike : ReadAlike read m m') :
    ReadAlike read (Entries.dropExtensions m) (Entries.dropExtensions m') :=
  Related.dropExtensions (R := fun v v' => (read v).Alike (read v')) alike

theorem readTable (alike : ReadAlike read m m') :
    (Entries.readTable read m).Alike (Entries.readTable read m') := by
  refine Alike.map (.all ?_) _
  rw [List.forall₂_map_left_iff, List.forall₂_map_right_iff]
  refine alike.imp fun e e' same => ?_
  rw [readEntry, readEntry, same.1]
  exact (Alike.apply (.refl _) same.2).under _ _

theorem readNodesWithoutExtensions (alike : ReadAlike read m m') :
    (Value.readNodesWithoutExtensions read (.map m)).Alike
      (Value.readNodesWithoutExtensions read (.map m')) := by
  have keys : m.hasLongKey = m'.hasLongKey :=
    Related.hasLongKey_eq (R := fun v v' => (read v).Alike (read v')) alike
  rw [Value.readNodesWithoutExtensions, Value.readNodesWithoutExtensions, Value.entries?_map,
    Value.entries?_map]
  dsimp only
  rw [keys]
  split
  · exact .refl _
  · exact alike.dropExtensions.readTable

end ReadAlike

end Entries

end ApiModel
