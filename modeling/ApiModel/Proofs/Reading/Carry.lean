import ApiModel.Proofs.Reading.Related
import ApiModel.Swagger.Reading

namespace ApiModel

variable {α β : Type} {f : α → β}

namespace Table

def map (f : α → β) (t : Table α) : Table β where
  entries := t.entries.map fun e => (e.1, f e.2)
  nodup := by
    rw [List.map_map]
    exact t.nodup

theorem map_put (f : α → β) (t : Table α) (k : Str) (v : α) : (t.put k v).map f = (t.map f).put k (f v) := by
  refine ext_entries ?_
  show (putEntry t.entries k v).map _ = putEntry (t.entries.map fun e => (e.1, f e.2)) k (f v)
  induction t.entries with
  | nil => rfl
  | cons e r ih =>
    obtain ⟨k', v'⟩ := e
    by_cases same : k' = k <;> simp [putEntry, same, ih]

theorem map_ofList (f : α → β) (es : List (Str × α)) :
    (ofList es).map f = ofList (es.map fun e => (e.1, f e.2)) := by
  have run (t : Table α) : (es.foldl (fun t e => t.put e.1 e.2) t).map f =
      (es.map fun e => (e.1, f e.2)).foldl (fun t e => t.put e.1 e.2) (t.map f) := by
    induction es generalizing t with
    | nil => rfl
    | cons e es ih => rw [List.foldl_cons, ih, map_put, List.map_cons, List.foldl_cons]
  exact run empty

end Table

namespace Checked

def Carries (f : α → β) (c : Checked α) (c' : Checked β) : Prop := ∀ a, c = ok a → c' = ok (f a)

namespace Carries

variable {c : Checked α} {c' : Checked β} {cs : List (Checked α)} {cs' : List (Checked β)}

theorem refl (c : Checked α) : Carries id c c := fun _ reads => reads

theorem of_ok {a : α} (same : c' = ok (f a)) : Carries f (ok a) c' := by
  rintro _ ⟨⟩
  exact same

theorem under (carries : Carries f c c') (step step' : String) :
    Carries f (c.under step) (c'.under step') := by
  intro a reads
  exact under_eq_ok_iff.2 (carries a (under_eq_ok_iff.1 reads))

theorem all (each : List.Forall₂ (Carries f) cs cs') :
    Carries (List.map f) (Checked.all cs) (Checked.all cs') := by
  induction each with
  | nil => exact of_ok rfl
  | cons first _ ih =>
    intro as reads
    obtain ⟨_, rest, head, others, rfl⟩ := apply_eq_ok_iff.1 reads
    obtain ⟨a, value, rfl⟩ := map_eq_ok_iff.1 head
    rw [Checked.all, first a value, ih rest others]
    rfl

theorem indexed (each : List.Forall₂ (Carries f) cs cs') (start : Nat) :
    Carries (List.map f) (Checked.indexed start cs) (Checked.indexed start cs') := by
  induction each generalizing start with
  | nil => exact of_ok rfl
  | cons first _ ih =>
    intro as reads
    obtain ⟨_, rest, head, others, rfl⟩ := apply_eq_ok_iff.1 reads
    obtain ⟨a, value, rfl⟩ := map_eq_ok_iff.1 head
    rw [Checked.indexed, first.under _ _ a value, ih (start + 1) rest others]
    rfl

theorem readEntry (carries : Carries f c c') (k : Scalar) :
    Carries (fun e => (e.1, f e.2)) (Entries.readEntry k c) (Entries.readEntry k c') := by
  refine under (fun e reads => ?_) _ _
  obtain ⟨_, a, head, value, rfl⟩ := apply_eq_ok_iff.1 reads
  obtain ⟨s, key, rfl⟩ := map_eq_ok_iff.1 head
  rw [key, carries a value]
  rfl

end Carries

end Checked

open Checked

variable {read : Value → Checked α} {read' : Value → Checked β}

theorem Entries.Related.readTable_carries {m m' : Entries}
    (related : Related (fun v v' => Carries f (read v) (read' v')) m m') :
    Carries (Table.map f) (Entries.readTable read m) (Entries.readTable read' m') := by
  intro t reads
  obtain ⟨es, entries, rfl⟩ := map_eq_ok_iff.1 reads
  have each : List.Forall₂ (Carries fun e => (e.1, f e.2)) (m.map fun e => readEntry e.1 (read e.2))
      (m'.map fun e => readEntry e.1 (read' e.2)) := by
    rw [List.forall₂_map_left_iff, List.forall₂_map_right_iff]
    refine related.imp fun e e' same => ?_
    rw [same.1]
    exact same.2.readEntry _
  rw [Entries.readTable, Carries.all each es entries, Checked.map, Table.map_ofList]

namespace Value

def mapItems (change : Value → Value) (v : Value) : Value :=
  match v.items? with
  | some items => .list (items.map change)
  | none => v

variable {change : Value → Value}

@[simp] theorem items?_mapItems (v : Value) :
    (v.mapItems change).items? = v.items?.map (List.map change) := by
  unfold mapItems
  split
  · rename_i found
    rw [found]
    rfl
  · rename_i none_
    rw [none_]
    rfl

variable (each : ∀ v, Carries f (read v) (read' (change v)))

include each

theorem carries_readList (v : Value) :
    Carries (List.map f) (v.readList read) ((v.mapItems change).readList read') := by
  rw [readList, readList, items?_mapItems]
  cases v.items? with
  | none => exact fun _ reads => nomatch reads
  | some items =>
    dsimp only [Option.map_some]
    refine .indexed ?_ 0
    rw [List.map_map, List.forall₂_map_left_iff, List.forall₂_map_right_iff]
    exact List.forall₂_same.2 fun v _ => each v

theorem carries_readNodesWithoutExtensions (v : Value) :
    Carries (Table.map f) (v.readNodesWithoutExtensions read)
      ((v.mapEntries (Entries.mapValues change)).readNodesWithoutExtensions read') := by
  rw [readNodesWithoutExtensions, readNodesWithoutExtensions, entries?_mapEntries]
  cases v.entries? with
  | none => exact fun _ reads => nomatch reads
  | some m =>
    have related : Entries.Related (fun v v' => Carries f (read v) (read' v')) m (m.mapValues change) :=
      Entries.related_mapValues each m
    dsimp only [Option.map_some]
    rw [← related.hasLongKey_eq]
    split
    · exact fun _ reads => nomatch reads
    · exact related.dropExtensions.readTable_carries

omit each in
theorem carries_readNode {kind : String} {ofMapping : Entries → Checked α}
    {ofMapping' : Entries → Checked β} {inside : Entries → Entries}
    (keys : ∀ m, m.hasTornKey = false → (inside m).hasTornKey = false)
    (each : ∀ m, Carries f (ofMapping m) (ofMapping' (inside m))) (v : Value) :
    Carries f (v.readNode kind ofMapping) ((v.mapEntries inside).readNode kind ofMapping') := by
  rw [readNode, readNode, entries?_mapEntries]
  cases v.entries? with
  | none => exact fun _ reads => nomatch reads
  | some m =>
    intro a reads
    obtain ⟨whole, reads⟩ := Entries.readWhole_eq_ok_iff.1 reads
    exact Entries.readWhole_eq_ok_iff.2 ⟨keys m whole, each m a reads⟩

omit each in
theorem carries_readOptional {v v' : Value} (null : v'.isNull = v.isNull)
    (carries : Carries f (read v) (read' v')) :
    Carries (Option.map f) (v.readOptional read) (v'.readOptional read') := by
  rw [readOptional, readOptional, null]
  split
  · exact .of_ok rfl
  · intro o reads
    obtain ⟨a, value, rfl⟩ := map_eq_ok_iff.1 reads
    rw [carries a value]
    rfl

end Value

end ApiModel
