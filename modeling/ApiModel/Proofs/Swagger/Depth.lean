import ApiModel.Proofs.Swagger.NodeParts

namespace ApiModel

open Value

variable {full : Bool} {v : Value} {n : Nat}

theorem height_node_le {slots : List Slot} {extras : List (Str × Value)}
    (values : ∀ s ∈ slots, s.value.height ≤ n) (unknown : ∀ e ∈ extras, e.2.height ≤ n) :
    (Value.map (nodeEntries full slots extras)).height ≤ n + 1 := by
  rw [height, Nat.add_le_add_iff_right, heightOfEntries_le_iff, nodeEntries, Entries.ofFields,
    List.forall_mem_map, List.forall_mem_append]
  refine ⟨fun f mem => ?_, unknown⟩
  obtain ⟨s, written, rfl⟩ := List.mem_map.1 mem
  exact values s (List.mem_filter.1 written).1

theorem extrasDepth_le_iff {extras : List (Str × Value)} :
    extrasDepth extras ≤ n ↔ ∀ e ∈ extras, e.2.height ≤ n := by
  induction extras with
  | nil => simp [extrasDepth]
  | cons e extras ih =>
    rw [List.forall_mem_cons, ← ih, ← Nat.max_le]
    rfl

namespace Schema

variable {s : Schema}

/-- What a schema is written as is at most twice as high as the value it was read from: a schema alone
    under `items` is written as a list. -/
theorem height_toValue_le (reads : ReadFrom v s) : (s.toValue full).height ≤ 2 * v.height := by
  induction s using induct generalizing v with
  | step s items properties additional =>
    have inside := reads.inside
    have high := one_le_height v
    have text (t : Str) : (Value.str t).height ≤ 2 * v.height - 1 := by
      have : (Value.str t).height = 1 := rfl
      omega
    have below {t : Schema} {u : Value} (here : v.Encloses u)
        (written : (t.toValue full).height ≤ 2 * u.height) :
        (t.toValue full).height ≤ 2 * v.height - 2 := by
      have := here.height
      omega
    have types : (Value.list (s.type.map .str)).height ≤ 2 * v.height - 1 := by
      cases given : s.type with
      | nil =>
        have : (Value.list []).height = 1 := rfl
        rw [List.map_nil, this]
        omega
      | cons t ts =>
        obtain ⟨u, here⟩ := inside.type (by simp [given])
        have all : heightOfItems ((t :: ts).map Value.str) ≤ 1 :=
          heightOfItems_le_iff.2 (List.forall_mem_map.2 fun _ _ => le_rfl)
        have := one_le_height u
        have := here.height
        rw [height]
        omega
    have listed : (Value.list (s.items.map (toValue full))).height ≤ 2 * v.height - 1 := by
      have all : heightOfItems (s.items.map (toValue full)) ≤ 2 * v.height - 2 :=
        heightOfItems_le_iff.2 (List.forall_mem_map.2 fun t mem => by
          obtain ⟨u, here, reads⟩ := inside.items t mem
          exact below here (items t mem reads))
      rw [height]
      omega
    have tabled : (Value.map (Entries.ofFields
        (s.properties.map fun p => (p.1, p.2.toValue full)))).height ≤ 2 * v.height - 1 := by
      have all : heightOfEntries (Entries.ofFields
          (s.properties.map fun p => (p.1, p.2.toValue full))) ≤ 2 * v.height - 2 := by
        refine heightOfEntries_le_iff.2 ?_
        rw [Entries.ofFields, List.forall_mem_map, List.forall_mem_map]
        intro p mem
        obtain ⟨-, u, here, reads⟩ := inside.properties p mem
        exact below here (properties p mem reads)
      rw [height]
      omega
    have further : ((additionalToValue? full s.additional).getD .null).height ≤ 2 * v.height - 1 := by
      cases given : s.additional with
      | absent => exact text ""
      | flag b => exact text ""
      | schema t =>
        obtain ⟨u, here, reads⟩ := inside.additional t given
        have := below here (additional t given reads)
        rw [additionalToValue?, Option.getD_some]
        omega
    have written : (s.toValue full).height ≤ 2 * v.height - 1 + 1 := by
      rw [toValue_eq]
      refine height_node_le ?_ fun e mem => ?_
      · simp only [slots, List.forall_mem_cons, List.not_mem_nil, false_implies, implies_true, and_true]
        exact ⟨text _, types, text _, text _, listed, tabled, further⟩
      · have := (inside.extras e mem).2.height
        omega
    omega

theorem depthOfItems_le_iff {ss : List Schema} :
    depthOfItems full ss ≤ n ↔ ∀ t ∈ ss, t.depth full ≤ n := by
  induction ss with
  | nil => simp [depthOfItems]
  | cons t ss ih => rw [depthOfItems, Nat.max_le, ih, List.forall_mem_cons]

theorem depthOfProperties_le_iff {ps : List (Str × Schema)} :
    depthOfProperties full ps ≤ n ↔ ∀ p ∈ ps, p.2.depth full ≤ n := by
  induction ps with
  | nil => simp [depthOfProperties]
  | cons p ps ih => rw [depthOfProperties, Nat.max_le, ih, List.forall_mem_cons]

theorem depth_le_iff : s.depth full ≤ n + 1 ↔
    (∀ t ∈ s.items, t.depth full ≤ n) ∧ (∀ p ∈ s.properties, p.2.depth full ≤ n) ∧
      ((additionalToValue? full s.additional).map Value.height).getD 0 ≤ n ∧
        ∀ e ∈ s.extras, e.2.height ≤ n := by
  cases s
  rw [depth, Nat.add_le_add_iff_right, Nat.max_le, Nat.max_le, Nat.max_le, depthOfItems_le_iff,
    depthOfProperties_le_iff, extrasDepth_le_iff, and_assoc]

theorem depth_le (reads : ReadFrom v s) : s.depth full ≤ 2 * v.height := by
  induction s using induct generalizing v with
  | step s items properties additional =>
    have inside := reads.inside
    have high := one_le_height v
    have limit : s.depth full ≤ 2 * v.height - 1 + 1 := by
      refine depth_le_iff.2 ⟨fun t mem => ?_, fun p mem => ?_, ?_, fun e mem => ?_⟩
      · obtain ⟨u, here, reads⟩ := inside.items t mem
        have := items t mem reads
        have := here.height
        omega
      · obtain ⟨-, u, here, reads⟩ := inside.properties p mem
        have := properties p mem reads
        have := here.height
        omega
      · cases given : s.additional with
        | absent => exact Nat.zero_le _
        | flag b =>
          have : ((Value.bool b).height) = 1 := rfl
          rw [additionalToValue?, Option.map_some, Option.getD_some]
          omega
        | schema t =>
          obtain ⟨u, here, reads⟩ := inside.additional t given
          have : (t.toValue full).height ≤ 2 * u.height := height_toValue_le reads
          have := here.height
          rw [additionalToValue?, Option.map_some, Option.getD_some]
          omega
      · have := (inside.extras e mem).2.height
        omega
    omega

end Schema

theorem Parameter.depth_le {room : Nat} {p : Parameter} (reads : read room v = .ok p) :
    p.depth full ≤ 2 * v.height := by
  refine Nat.max_le.2 ⟨?_, extrasDepth_le_iff.2 fun e mem => ?_⟩
  · cases given : p.schema with
    | none => exact Nat.zero_le _
    | some s =>
      obtain ⟨u, here, reads⟩ := exists_of_schema reads given
      have : s.depth full ≤ 2 * u.height := Schema.depth_le reads
      have := here.height
      simp only [schemaDepth, Option.map_some, Option.getD_some]
      omega
  · have := (extra_inside reads e mem).2.height
    omega

structure Value.Shallow (v : Value) : Prop where
  writable : v.Writable
  low : 2 * v.height ≤ nestingLimit

theorem Value.shallow_of_dump (written : v.dump.toOption.isSome = true)
    (low : 2 * v.height ≤ nestingLimit) : v.Shallow := by
  cases dumped : v.dump with
  | error fault => simp [dumped, Except.toOption] at written
  | ok cs => exact ⟨v.dump_ok_iff.1 ⟨cs, dumped⟩, low⟩

theorem Value.Shallow.part {u : Value} (shallow : v.Shallow) (has : v.Has u) : u.Shallow where
  writable := shallow.writable.part has
  low := by
    have := height_le_of_has has
    have := shallow.low
    omega

theorem Schema.ReadFrom.prints {s : Schema} (reads : ReadFrom v s) (shallow : v.Shallow) : s.Prints where
  writable := reads.writable shallow.writable
  depth := (depth_le reads).trans shallow.low

theorem Parameter.prints_of_read {room : Nat} {p : Parameter} (reads : read room v = .ok p)
    (shallow : v.Shallow) : p.Prints where
  writable := writable reads shallow.writable
  depth := (depth_le reads).trans shallow.low

end ApiModel
