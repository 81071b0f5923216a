import Mathlib.Order.Nat
import ApiModel.Proofs.Json.Writable

namespace ApiModel.Value

variable {m : Entries} {v u w : Value} {items : List Value} {n : Nat}

theorem heightOfItems_le_iff : heightOfItems items ≤ n ↔ ∀ u ∈ items, u.height ≤ n := by
  induction items with
  | nil => simp [heightOfItems]
  | cons u items ih => rw [heightOfItems, Nat.max_le, ih, List.forall_mem_cons]

theorem heightOfEntries_le_iff : heightOfEntries m ≤ n ↔ ∀ e ∈ m, e.2.height ≤ n := by
  induction m with
  | nil => simp [heightOfEntries]
  | cons e m ih => rw [heightOfEntries, Nat.max_le, ih, List.forall_mem_cons]

theorem one_le_height (v : Value) : 1 ≤ v.height := by
  cases v with
  | turn id content =>
    rw [height]
    exact one_le_height content
  | set members =>
    rw [height]
    split <;> omega
  | _ => simp [height]

theorem height_item (mem : u ∈ items) : u.height < (list items).height := by
  rw [height]
  exact Nat.lt_succ_of_le (heightOfItems_le_iff.1 le_rfl u mem)

theorem height_entry {k : Scalar} (mem : (k, u) ∈ m) : u.height < (map m).height := by
  rw [height]
  exact Nat.lt_succ_of_le (heightOfEntries_le_iff.1 le_rfl (k, u) mem)

theorem height_member {members : List Scalar} {s : Scalar} (mem : s ∈ members) :
    (scalar s).height < (set members).height := by
  cases members with
  | nil => contradiction
  | cons _ _ => simp [height]

theorem height_le_of_has (has : v.Has u) : u.height ≤ v.height := by
  obtain ⟨ids, part⟩ := has
  induction part with
  | self => rfl
  | item mem _ ih => exact ih.trans (height_item mem).le
  | first _ ih | second _ ih =>
    rw [height]
    omega
  | entry mem _ ih => exact ih.trans (height_entry mem).le
  | member mem => exact (height_member mem).le
  | turn _ ih => rwa [height]

structure Encloses (v u : Value) : Prop where
  has : v.Has u
  height : u.height < v.height

theorem Encloses.trans_has (first : v.Encloses u) (second : u.Has w) : v.Encloses w :=
  ⟨first.has.trans second, (height_le_of_has second).trans_lt first.height⟩

theorem Has.trans_encloses (first : v.Has u) (second : u.Encloses w) : v.Encloses w :=
  ⟨first.trans second.has, second.height.trans_le (height_le_of_has first)⟩

theorem encloses_entry {k : Scalar} (mem : (k, u) ∈ m) : (map m).Encloses u :=
  ⟨⟨[], .entry mem (.self u)⟩, height_entry mem⟩

theorem encloses_item (mem : u ∈ items) : (list items).Encloses u :=
  ⟨⟨[], .item mem (.self u)⟩, height_item mem⟩

theorem encloses_member {members : List Scalar} {s : Scalar} (mem : s ∈ members) :
    (set members).Encloses (scalar s) :=
  ⟨⟨[], .member mem⟩, height_member mem⟩

def nestedLists : Nat → Value
  | 0 => null
  | n + 1 => list [nestedLists n]

theorem isJson_nestedLists {floats : Binary64 → Prop} (n : Nat) : (nestedLists n).IsJson floats := by
  induction n with
  | zero => exact .null
  | succ n ih => exact .list _ (List.forall_mem_singleton.2 ih)

end ApiModel.Value
