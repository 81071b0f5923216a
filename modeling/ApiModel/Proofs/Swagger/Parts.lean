import ApiModel.Proofs.Swagger.Acceptance
import ApiModel.Proofs.Swagger.NodeFields
import ApiModel.Proofs.Value.Height

namespace ApiModel

open Checked

namespace Value

variable {m : Entries} {v : Value}

theorem has_peel (v : Value) : v.Has v.peel := by
  fun_induction peel v with
  | case1 id content ih =>
    obtain ⟨ids, part⟩ := ih
    exact ⟨_, .turn part⟩
  | case2 v => exact .refl v

theorem has_of_entries? (given : v.entries? = some m) : v.Has (.map m) := by
  have peeled := has_peel v
  unfold entries? at given
  split at given
  · rename_i entries same
    cases given
    exact same ▸ peeled
  · contradiction

theorem encloses_of_items? {items : List Value} (given : v.items? = some items) :
    ∀ u ∈ items, v.Encloses u := by
  have peeled := has_peel v
  unfold items? at given
  split at given
  · rename_i items same
    cases given
    exact fun u mem => peeled.trans_encloses (same ▸ encloses_item mem)
  · rename_i members same
    cases given
    exact List.forall_mem_map.2 fun s mem => peeled.trans_encloses (same ▸ encloses_member mem)
  · contradiction

theorem has_of_list? {u : Value} (mem : u ∈ v.list?.getD [v]) : v.Has u := by
  have peeled := has_peel v
  unfold list? at mem
  split at mem
  · rename_i items same
    rw [same] at peeled
    exact peeled.trans (encloses_item mem).has
  · rw [Option.getD_none, List.mem_singleton] at mem
    exact mem ▸ .refl v

end Value

section Fields

variable {α : Type} {m : Entries} {v : Value} {names : List String} {absent : Checked α}
  {reader : Value → Checked α}

theorem Entries.mem_of_field? {name : String} {u : Value} (found : field? m names = some (name, u)) :
    (.str name, u) ∈ m := by
  have get := (field?_mem found).2
  rw [get?, Option.map_eq_some_iff] at get
  obtain ⟨e, first, rfl⟩ := get
  have same : e.1 = .str name := by simpa using List.find?_some first
  exact same ▸ List.mem_of_find?_eq_some first

/-- What was read for a field was read from a part of the mapping, unless it is what an absent field
    is. -/
theorem Entries.exists_of_read {a : α} (reads : m.read names absent reader = .ok a) :
    absent = .ok a ∨ ∃ u, (Value.map m).Encloses u ∧ reader u = .ok a := by
  rw [Entries.read] at reads
  split at reads
  · rename_i name u found
    exact .inr ⟨u, Value.encloses_entry (mem_of_field? found), under_eq_ok_iff.1 reads⟩
  · exact .inl reads

theorem Entries.mem_of_readExtras {fields : List (List String)} {extras : List (Str × Value)}
    (reads : m.readExtras fields = .ok extras) : ∀ e ∈ extras, (.str e.1, e.2) ∈ m := by
  have sub : ∀ e ∈ Entries.extras m fields, e ∈ m := fun e mem => (List.mem_filter.1 mem).1
  rw [Entries.readExtras] at reads
  generalize Entries.extras m fields = left at sub reads
  induction left generalizing extras with
  | nil =>
    cases reads
    exact List.forall_mem_nil _
  | cons e left ih =>
    obtain ⟨here, sub⟩ := List.forall_mem_cons.1 sub
    rw [List.map_cons, Checked.all, apply_eq_ok_iff] at reads
    obtain ⟨_, rest, first, others, rfl⟩ := reads
    obtain ⟨kept, entry, rfl⟩ := map_eq_ok_iff.1 first
    refine List.forall_mem_cons.2 ⟨?_, ih sub others⟩
    obtain ⟨key, u⟩ := e
    cases key with
    | str s =>
      cases entry
      exact here
    | _ => cases entry

theorem exists_of_readNode {kind : String} {read : Entries → Checked α} {a : α}
    (reads : v.readNode kind read = .ok a) : ∃ m, v.Has (.map m) ∧ read m = .ok a := by
  rw [Value.readNode] at reads
  split at reads
  · rename_i m given
    exact ⟨m, Value.has_of_entries? given, (Entries.readWhole_eq_ok_iff.1 reads).2⟩
  · contradiction

variable {read : Value → Checked α}

theorem exists_of_readOption {o : Option α} (reads : v.readOptional read = .ok o) :
    ∀ a, o = some a → read v = .ok a := by
  rw [Value.readOptional] at reads
  split at reads
  · cases reads
    rintro a ⟨⟩
  · obtain ⟨b, inside, rfl⟩ := map_eq_ok_iff.1 reads
    rintro a ⟨⟩
    exact inside

theorem exists_of_readLoose {as : List α} (reads : v.readLoose read = .ok as) :
    ∀ a ∈ as, ∃ u, v.Has u ∧ read u = .ok a := by
  rw [Value.readLoose] at reads
  split at reads
  · cases reads
    exact List.forall_mem_nil _
  · intro a mem
    obtain ⟨u, inside, reads⟩ := exists_of_indexed reads a mem
    exact ⟨u, Value.has_of_list? inside, reads⟩

theorem exists_of_readItems {as : List α} (reads : v.readList read = .ok as) :
    ∀ a ∈ as, ∃ u, v.Encloses u ∧ read u = .ok a := by
  rw [Value.readList] at reads
  split at reads
  · rename_i items given
    intro a mem
    obtain ⟨u, inside, reads⟩ := exists_of_indexed reads a mem
    exact ⟨u, Value.encloses_of_items? given u inside, reads⟩
  · contradiction

theorem exists_of_readEntries {entries : List (Str × α)}
    (reads : Checked.all (m.map fun e => Entries.readEntry e.1 (read e.2)) = .ok entries) :
    ∀ e ∈ entries, ∃ k u, (k, u) ∈ m ∧ k.readText = .ok e.1 ∧ read u = .ok e.2 := by
  induction m generalizing entries with
  | nil =>
    cases reads
    exact List.forall_mem_nil _
  | cons e m ih =>
    rw [List.map_cons, Checked.all, apply_eq_ok_iff] at reads
    obtain ⟨_, rest, first, others, rfl⟩ := reads
    obtain ⟨_, entry, rfl⟩ := map_eq_ok_iff.1 first
    obtain ⟨_, a, key, value, rfl⟩ := apply_eq_ok_iff.1 (under_eq_ok_iff.1 entry)
    obtain ⟨s, name, rfl⟩ := map_eq_ok_iff.1 key
    have here : ∃ k u, (k, u) ∈ e :: m ∧ k.readText = .ok s ∧ read u = .ok a :=
      ⟨e.1, e.2, List.mem_cons_self .., under_eq_ok_iff.1 name, value⟩
    refine List.forall_mem_cons.2 ⟨here, fun entry mem => ?_⟩
    obtain ⟨k, u, inside, reads⟩ := ih others entry mem
    exact ⟨k, u, List.mem_cons_of_mem _ inside, reads⟩

theorem Entries.exists_of_readTable {t : Table α} (reads : m.readTable read = .ok t) :
    ∀ e ∈ t.entries, ∃ k u, (k, u) ∈ m ∧ read u = .ok e.2 := by
  obtain ⟨entries, all, rfl⟩ := map_eq_ok_iff.1 reads
  intro e mem
  obtain ⟨k, u, inside, -, reads⟩ := exists_of_readEntries all e (mem_of_mem_ofList mem)
  exact ⟨k, u, inside, reads⟩

theorem exists_of_readNodesOrNull {t : Table α} (reads : v.readNodesOrNull read = .ok t) :
    ∀ e ∈ t.entries, ∃ u, v.Encloses u ∧ read u = .ok e.2 := by
  rw [Value.readNodesOrNull] at reads
  split at reads
  · cases reads
    exact List.forall_mem_nil _
  rw [Value.readNodes] at reads
  split at reads
  · rename_i m given
    intro e mem
    obtain ⟨k, u, inside, reads⟩ := Entries.exists_of_readTable reads e mem
    exact ⟨u, (Value.has_of_entries? given).trans_encloses (Value.encloses_entry inside), reads⟩
  · contradiction

theorem Entries.mem_dropExtensions {k : Scalar} {u : Value} (mem : (k, u) ∈ dropExtensions m) :
    ∃ k', (k', u) ∈ m := by
  have fields (es : List (Str × Value)) : (es.filterMap fun e =>
      if e.1.startsWith "x-" then none else some (Scalar.str e.1, e.2)) =
        Entries.ofFields (es.filter fun e => !e.1.startsWith "x-") := by
    induction es with
    | nil => rfl
    | cons e es ih =>
      rw [List.filterMap_cons, ih, List.filter_cons]
      cases e.1.startsWith "x-" <;> rfl
  rw [dropExtensions, fields, ofList_ofFields] at mem
  obtain ⟨f, inside, same⟩ := List.mem_map.1 mem
  have kept := mem_of_mem_ofList inside
  obtain ⟨original, here, rfl⟩ := List.mem_map.1 (List.mem_filter.1 kept).1
  cases same
  exact ⟨original.1, here⟩

theorem exists_of_readNodesWithoutExtensions {t : Table α}
    (reads : v.readNodesWithoutExtensions read = .ok t) :
    ∀ e ∈ t.entries, ∃ u, v.Encloses u ∧ read u = .ok e.2 := by
  rw [Value.readNodesWithoutExtensions] at reads
  split at reads
  · rename_i m given
    split at reads
    · contradiction
    intro e mem
    obtain ⟨k, u, inside, reads⟩ := Entries.exists_of_readTable reads e mem
    obtain ⟨k', inside⟩ := Entries.mem_dropExtensions inside
    exact ⟨u, (Value.has_of_entries? given).trans_encloses (Value.encloses_entry inside), reads⟩
  · contradiction

end Fields

end ApiModel
