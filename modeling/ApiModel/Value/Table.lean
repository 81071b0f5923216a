import ApiModel.Text.Str

namespace ApiModel

variable {α : Type}

/-- The entry takes the place of the one under the same text, or comes last. -/
def putEntry : List (Str × α) → Str → α → List (Str × α)
  | [], k, v => [(k, v)]
  | (k', v') :: r, k, v => if k' = k then (k', v) :: r else (k', v') :: putEntry r k v

theorem mem_keys_putEntry {es : List (Str × α)} {k key : Str} {v : α} :
    key ∈ (putEntry es k v).map Prod.fst ↔ key ∈ es.map Prod.fst ∨ key = k := by
  induction es with
  | nil => simp [putEntry]
  | cons e r ih =>
    obtain ⟨k', v'⟩ := e
    by_cases h : k' = k
    · subst h
      simp only [putEntry, if_pos, List.map_cons, List.mem_cons]
      constructor
      · exact Or.inl
      · rintro (h | h)
        · exact h
        · exact .inl h
    · simp only [putEntry, if_neg h, List.map_cons, List.mem_cons, ih, or_assoc]

theorem nodup_keys_putEntry {es : List (Str × α)} (k : Str) (v : α)
    (nodup : (es.map Prod.fst).Nodup) : ((putEntry es k v).map Prod.fst).Nodup := by
  induction es with
  | nil => simp [putEntry]
  | cons e r ih =>
    obtain ⟨k', v'⟩ := e
    simp only [List.map_cons, List.nodup_cons] at nodup
    by_cases h : k' = k
    · simpa only [putEntry, if_pos h, List.map_cons, List.nodup_cons] using nodup
    · simp only [putEntry, if_neg h, List.map_cons, List.nodup_cons]
      refine ⟨fun mem => ?_, ih nodup.2⟩
      rcases mem_keys_putEntry.1 mem with mem | same
      · exact nodup.1 mem
      · exact h same

theorem putEntry_of_not_mem {es : List (Str × α)} {k : Str} {v : α}
    (fresh : k ∉ es.map Prod.fst) : putEntry es k v = es ++ [(k, v)] := by
  induction es with
  | nil => rfl
  | cons e r ih =>
    obtain ⟨k', v'⟩ := e
    simp only [List.map_cons, List.mem_cons, not_or] at fresh
    rw [putEntry, if_neg (Ne.symm fresh.1), ih fresh.2, List.cons_append]

structure Table (α : Type) where
  entries : List (Str × α)
  nodup : (entries.map Prod.fst).Nodup

namespace Table

theorem ext_entries {s t : Table α} (h : s.entries = t.entries) : s = t := by
  cases s
  cases t
  cases h
  rfl

def empty : Table α := ⟨[], List.Pairwise.nil⟩

def put (t : Table α) (k : Str) (v : α) : Table α :=
  ⟨putEntry t.entries k v, nodup_keys_putEntry k v t.nodup⟩

/-- The entries in the order of their first mention, each with its last value. -/
def ofList (es : List (Str × α)) : Table α := es.foldl (fun t e => t.put e.1 e.2) empty

def size (t : Table α) : Nat := t.entries.length

theorem entries_foldl_put (t : Table α) {es : List (Str × α)}
    (nodup : ((t.entries ++ es).map Prod.fst).Nodup) :
    (es.foldl (fun t e => t.put e.1 e.2) t).entries = t.entries ++ es := by
  induction es generalizing t with
  | nil => simp
  | cons e r ih =>
    have fresh : e.1 ∉ t.entries.map Prod.fst := by
      intro mem
      simp only [List.map_append, List.map_cons] at nodup
      exact (List.nodup_append.1 nodup).2.2 _ mem _ (List.mem_cons_self ..) rfl
    have step : (t.put e.1 e.2).entries = t.entries ++ [e] := putEntry_of_not_mem fresh
    rw [List.foldl_cons, ih _ (by rw [step, List.append_assoc]; exact nodup), step,
      List.append_assoc, List.singleton_append]

theorem entries_ofList {es : List (Str × α)} (nodup : (es.map Prod.fst).Nodup) :
    (ofList es).entries = es :=
  entries_foldl_put empty nodup

@[simp] theorem ofList_entries (t : Table α) : ofList t.entries = t :=
  ext_entries (entries_ofList t.nodup)

end Table

end ApiModel
