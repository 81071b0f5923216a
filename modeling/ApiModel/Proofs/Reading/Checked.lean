import ApiModel.Reading.Checked

namespace ApiModel.Checked

variable {α β : Type}

def Succeeds (c : Checked α) : Prop := ∃ a, c = ok a

theorem seq_eq (f : Checked (α → β)) (c : Checked α) : f <*> c = apply f c := rfl

theorem fmap_eq (f : α → β) (c : Checked α) : f <$> c = c.map f := rfl

@[simp] theorem succeeds_ok (a : α) : (ok a).Succeeds := ⟨a, rfl⟩

@[simp] theorem not_succeeds_bad (p : Problem) (ps : List Problem) : ¬(bad p ps : Checked α).Succeeds := by
  rintro ⟨a, same⟩
  contradiction

@[simp] theorem not_succeeds_fail (cause : Cause) : ¬(fail cause : Checked α).Succeeds :=
  not_succeeds_bad _ _

@[simp] theorem succeeds_map {f : α → β} {c : Checked α} : (c.map f).Succeeds ↔ c.Succeeds := by
  cases c <;> simp [map]

@[simp] theorem succeeds_fmap {f : α → β} {c : Checked α} : (f <$> c).Succeeds ↔ c.Succeeds :=
  succeeds_map

@[simp] theorem succeeds_apply {f : Checked (α → β)} {c : Checked α} :
    (apply f c).Succeeds ↔ f.Succeeds ∧ c.Succeeds := by
  cases f <;> cases c <;> simp [apply]

@[simp] theorem succeeds_seq {f : Checked (α → β)} {c : Checked α} :
    (f <*> c).Succeeds ↔ f.Succeeds ∧ c.Succeeds := succeeds_apply

@[simp] theorem succeeds_under {step : String} {c : Checked α} :
    (c.under step).Succeeds ↔ c.Succeeds := by
  cases c <;> simp [under]

@[simp] theorem succeeds_indexed {start : Nat} {cs : List (Checked α)} :
    (indexed start cs).Succeeds ↔ ∀ c ∈ cs, c.Succeeds := by
  induction cs generalizing start with
  | nil => simp [indexed]
  | cons c cs ih => simp [indexed, ih]

@[simp] theorem succeeds_all {cs : List (Checked α)} : (all cs).Succeeds ↔ ∀ c ∈ cs, c.Succeeds := by
  induction cs with
  | nil => simp [all]
  | cons c cs ih => simp [all, ih]

def Gives (c : Checked α) (p : α → Prop) : Prop := ∃ a, c = ok a ∧ p a

theorem eq_ok_iff_gives {c : Checked α} {a : α} : c = ok a ↔ c.Gives (· = a) := by
  simp [Gives]

theorem gives_seq {f : Checked (α → β)} {c : Checked α} {p : β → Prop} :
    (f <*> c).Gives p ↔ f.Gives fun g => c.Gives fun a => p (g a) := by
  cases f <;> cases c <;> simp [Gives, seq_eq, apply]

theorem gives_fmap {f : α → β} {c : Checked α} {p : β → Prop} :
    (f <$> c).Gives p ↔ c.Gives fun a => p (f a) := by
  cases c <;> simp [Gives, fmap_eq, map]

theorem gives_and_left {c : Checked α} {p : Prop} {q : α → Prop} :
    (c.Gives fun a => p ∧ q a) ↔ p ∧ c.Gives q := by
  simp [Gives, and_left_comm]

theorem gives_eq_and {c : Checked α} {p : Prop} {b : α} :
    (c.Gives fun a => a = b ∧ p) ↔ c = ok b ∧ p := by
  simp [Gives, and_left_comm]

theorem gives_eq {c : Checked α} {b : α} : (c.Gives fun a => a = b) ↔ c = ok b := by
  simp [Gives]

theorem exists_of_indexed {read : β → Checked α} {vs : List β} {items : List α} {start : Nat}
    (reads : indexed start (vs.map read) = ok items) : ∀ a ∈ items, ∃ v ∈ vs, read v = ok a := by
  induction vs generalizing start items with
  | nil =>
    cases reads
    exact fun _ mem => nomatch mem
  | cons v vs ih =>
    rw [List.map_cons, indexed, apply_eq_ok_iff] at reads
    obtain ⟨g, rest, first, others, rfl⟩ := reads
    obtain ⟨a, read, rfl⟩ := map_eq_ok_iff.1 first
    refine List.forall_mem_cons.2 ⟨⟨v, List.mem_cons_self .., under_eq_ok_iff.1 read⟩, ?_⟩
    intro b mem
    obtain ⟨u, inside, reads⟩ := ih others b mem
    exact ⟨u, List.mem_cons_of_mem _ inside, reads⟩

theorem indexed_written {read : β → Checked α} {write : α → β} {items : List α}
    (each : ∀ a ∈ items, read (write a) = ok a) (start : Nat) :
    indexed start ((items.map write).map read) = ok items := by
  induction items generalizing start with
  | nil => rfl
  | cons a items ih =>
    obtain ⟨first, each⟩ := List.forall_mem_cons.1 each
    rw [List.map_cons, List.map_cons, indexed, first, ih each]
    rfl

end ApiModel.Checked
