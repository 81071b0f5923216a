import ApiModel.Proofs.Swagger.Acceptance
import ApiModel.Proofs.Swagger.NodeFields

namespace ApiModel

open Checked

variable {α β : Type} {floats : Binary64 → Prop} {kind k : NodeKind} {m : Entries} {v u : Value}
  {fields : List (Str × Value)} {full : Bool}

/-- A property of every mapping that is read as a node when the value is read as a node of the kind. -/
def Everywhere (p : NodeKind → Entries → Prop) (kind : NodeKind) (v : Value) : Prop :=
  ∀ k m, ReadAs kind v k m → p k m

namespace NodeKind

def names (kind : NodeKind) : List (List String) := kind.fields.map FieldRule.names

def PlainUnknowns (kind : NodeKind) (m : Entries) : Prop :=
  ∀ e ∈ Entries.extras m kind.names, e.2.IsJson fun _ => False

def SingleNames (kind : NodeKind) (m : Entries) : Prop :=
  ∀ f ∈ kind.fields, ∀ a ∈ f.names, ∀ b ∈ f.names,
    Entries.get? m a ≠ none → Entries.get? m b ≠ none → a = b

def Restorable (full : Bool) (kind : NodeKind) (m : Entries) : Prop :=
  kind.PlainUnknowns m ∧ (full = true ∨ kind.SingleNames m)

def Child (kind : NodeKind) (m : Entries) (k : NodeKind) (u : Value) : Prop :=
  ∃ f ∈ kind.fields, ∃ v, f.given? m = some v ∧ f.shape.Holds v k u

theorem nodup_names (kind : NodeKind) : kind.names.flatten.Nodup := by
  cases kind <;> decide

theorem singleNames_of_length
    (few : ∀ f ∈ kind.fields, (f.names.filter fun a : String => (Entries.get? m a).isSome).length ≤ 1) :
    kind.SingleNames m := by
  intro f mem a nameA b nameB givenA givenB
  have given {c : String} (name : c ∈ f.names) (given : Entries.get? m c ≠ none) :
      c ∈ f.names.filter fun a : String => (Entries.get? m a).isSome :=
    List.mem_filter.2 ⟨name, Option.isSome_iff_ne_none.2 given⟩
  have inA := given nameA givenA
  have inB := given nameB givenB
  have one := few f mem
  cases names : f.names.filter fun a : String => (Entries.get? m a).isSome with
  | nil => simp [names] at inA
  | cons c cs =>
    rw [names] at inA inB one
    have empty : cs = [] := List.eq_nil_of_length_eq_zero (by simpa using one)
    rw [empty, List.mem_singleton] at inA inB
    rw [inA, inB]

end NodeKind

theorem Everywhere.child {p : NodeKind → Entries → Prop} (all : Everywhere p kind (.map m))
    (child : kind.Child m k u) : Everywhere p k u := by
  intro k' m' below
  obtain ⟨f, mem, v, given, holds⟩ := child
  exact all k' m' (.inside mem given holds below)

namespace Shape.Holds

variable {shape : Shape}

theorem isJson (holds : shape.Holds v k u) (json : v.IsJson floats) : u.IsJson floats := by
  have entry {m : Entries} {key : Str} (json : (Value.map m).IsJson floats)
      (mem : (.str key, u) ∈ m) : u.IsJson floats := by
    cases json with
    | map fields nodup all => exact all _ (Entries.mem_ofFields.1 mem)
  have item {items : List Value} (json : (Value.list items).IsJson floats) (mem : u ∈ items) :
      u.IsJson floats := by
    cases json with
    | list _ all => exact all u mem
  cases holds with
  | node | optional | onlyItem | additional => exact json
  | item _ items _ mem | looseItem _ items _ mem => exact item json mem
  | entry _ m key _ mem | keptEntry _ m key _ mem => exact entry json mem

end Shape.Holds

namespace NodeKind.Child

theorem isJson (child : kind.Child (Entries.ofFields fields) k u)
    (all : ∀ f ∈ fields, f.2.IsJson floats) : u.IsJson floats := by
  obtain ⟨f, -, v, given, holds⟩ := child
  obtain ⟨key, mem⟩ := FieldRule.mem_of_given given
  exact holds.isJson (all _ mem)

end NodeKind.Child

theorem Fresh.of_readExtras {slots : List Slot} {extras : List (Str × Value)}
    (names : slots.map Slot.names = kind.names) (nodup : (fields.map Prod.fst).Nodup)
    (whole : (Entries.ofFields fields).hasTornKey = false)
    (read : Entries.readExtras (Entries.ofFields fields) kind.names = .ok extras)
    (single : full = true ∨ kind.SingleNames (Entries.ofFields fields)) :
    Fresh full slots extras ∧
      Entries.extras (Entries.ofFields fields) kind.names = Entries.ofFields extras := by
  have kept := Entries.extras_ofFields fields kind.names
  rw [Entries.readExtras_eq kept] at read
  cases read
  have given {o : String} (mem : (o : Str) ∈ (fields.filter fun f =>
      f.1 ∉ (Entries.taken (Entries.ofFields fields) kind.names).map Str.ofString).map Prod.fst) :
      o ∉ Entries.taken (Entries.ofFields fields) kind.names ∧
        ∃ v, Entries.get? (Entries.ofFields fields) o = some v := by
    obtain ⟨f, kept, same⟩ := List.mem_map.1 mem
    obtain ⟨inside, free⟩ := List.mem_filter.1 kept
    rw [same, decide_eq_true_eq] at free
    exact ⟨fun taken => free (List.mem_map_of_mem taken), f.2,
      same ▸ Entries.get?_of_mem nodup inside⟩
  have taken {s : Slot} (mem : s ∈ slots) {name : String} {v : Value}
      (found : Entries.field? (Entries.ofFields fields) s.names = some (name, v)) :
      name ∈ Entries.taken (Entries.ofFields fields) kind.names := by
    refine List.mem_filterMap.2 ⟨s.names, names ▸ List.mem_map_of_mem mem, ?_⟩
    rw [found]
    rfl
  refine ⟨⟨fun e mem => ?_, ?_, nodup.sublist (List.filter_sublist.map _), fun s mem extra => ?_, ?_⟩,
    kept⟩
  · exact Entries.hasTornKey_ofFields_iff.1 whole e (List.mem_filter.1 mem).1
  · rw [List.flatMap, names]
    exact kind.nodup_names
  · obtain ⟨free, v, found⟩ := given extra
    have first : Entries.field? (Entries.ofFields fields) s.names = some (s.name, v) := by
      rw [Slot.names, Entries.field?, found]
    exact free (taken mem first)
  · refine single.imp_right fun single s mem o other extra => ?_
    obtain ⟨free, v, found⟩ := given extra
    have rule : s.names ∈ kind.names := names ▸ List.mem_map_of_mem mem
    obtain ⟨f, field, same⟩ := List.mem_map.1 rule
    have inside : o ∈ s.names := List.mem_cons_of_mem _ other
    cases first : Entries.field? (Entries.ofFields fields) s.names with
    | none =>
      have nowhere := Entries.field?_map_snd (Entries.ofFields fields) s.names
      rw [first, Option.map_none, eq_comm, List.findSome?_eq_none_iff] at nowhere
      simp [nowhere o inside] at found
    | some e =>
      obtain ⟨name, get⟩ := Entries.field?_mem first
      have one := single f field e.1 (same ▸ name) o (same ▸ inside) (by simp [get]) (by simp [found])
      exact free (one ▸ taken mem first)

theorem Fresh.of_restorable (kind : NodeKind) (slots : List Slot) {extras : List (Str × Value)}
    (names : slots.map Slot.names = kind.names) (nodup : (fields.map Prod.fst).Nodup)
    (whole : (Entries.ofFields fields).hasTornKey = false)
    (read : Entries.readExtras (Entries.ofFields fields) kind.names = .ok extras)
    (restorable : kind.Restorable full (Entries.ofFields fields)) :
    Fresh full slots extras ∧ ∀ e ∈ extras, e.2.IsJson fun _ => False := by
  obtain ⟨fresh, kept⟩ := of_readExtras names nodup whole read restorable.2
  exact ⟨fresh, fun e mem => restorable.1 (.str e.1, e.2) (kept ▸ Entries.mem_ofFields.2 mem)⟩

structure Returns (write : α → Value) (read : Value → Checked α) (n : α) : Prop where
  json : (write n).IsJson fun _ => False
  reads : read (write n) = .ok n

namespace Returns

variable {write : α → Value} {read : Value → Checked α}

theorem list {ns : List α} (each : ∀ n ∈ ns, Returns write read n) :
    (Value.list (ns.map write)).IsJson (fun _ => False) ∧
      (Value.list (ns.map write)).readList read = .ok ns :=
  ⟨.list _ (List.forall_mem_map.2 fun n mem => (each n mem).json),
    indexed_written (fun n mem => (each n mem).reads) 0⟩

theorem option {o : Option α} (some_ : ∀ n, (write n).isNull = false)
    (each : ∀ n ∈ o.toList, Returns write read n) :
    ((o.map write).getD .null).IsJson (fun _ => False) ∧
      ((o.map write).getD .null).readOptional read = .ok o := by
  cases o with
  | none => exact ⟨.null, rfl⟩
  | some n =>
    have returns := each n (List.mem_singleton.2 rfl)
    refine ⟨returns.json, ?_⟩
    rw [Option.map_some, Option.getD_some, Value.readOptional, some_, returns.reads]
    rfl

theorem tableValue_eq (t : Table α) :
    tableValue write t = .map (Entries.ofFields (t.entries.map fun e => (e.1, write e.2))) := by
  rw [tableValue, Entries.ofFields, List.map_map]
  rfl

theorem table {t : Table α} (each : ∀ n ∈ t.entries.map Prod.snd, Returns write read n) :
    (tableValue write t).IsJson (fun _ => False) ∧
      Entries.readTable read (Entries.ofFields (t.entries.map fun e => (e.1, write e.2))) = .ok t := by
  rw [List.forall_mem_map] at each
  constructor
  · rw [tableValue_eq]
    refine .map _ ?_ (List.forall_mem_map.2 fun e mem => (each e mem).json)
    rw [List.map_map]
    exact t.nodup
  · have entries (es : List (Str × α)) (each : ∀ e ∈ es, Returns write read e.2) :
        Checked.all ((Entries.ofFields (es.map fun e => (e.1, write e.2))).map fun e =>
          Entries.readEntry e.1 (read e.2)) = .ok es := by
      induction es with
      | nil => rfl
      | cons e es ih =>
        obtain ⟨first, each⟩ := List.forall_mem_cons.1 each
        rw [List.map_cons, Entries.ofFields_cons, List.map_cons, Checked.all, ih each, first.reads]
        rfl
    rw [Entries.readTable, entries t.entries each, map_ok, Table.ofList_entries]

end Returns

/-- What was read for a field was read from the value that is given, unless it is what an absent field
    is. -/
theorem FieldRule.cases_of_read {f : FieldRule} {absent : Checked α} {reader : Value → Checked α} {a : α}
    (reads : Entries.read m f.names absent reader = .ok a) :
    absent = .ok a ∨ ∃ v, f.given? m = some v ∧ reader v = .ok a := by
  have given := Entries.field?_map_snd m f.names
  rw [Entries.read] at reads
  cases found : Entries.field? m f.names with
  | none =>
    rw [found] at reads
    exact .inl reads
  | some e =>
    rw [found] at reads given
    exact .inr ⟨e.2, given.symm, under_eq_ok_iff.1 reads⟩

def Restores (full : Bool) (kind : NodeKind) (write : α → Value) (read : Value → Checked α) : Prop :=
  ∀ v n, v.IsJson (fun _ => True) → read v = .ok n → Everywhere (NodeKind.Restorable full) kind v →
    Returns write read n

theorem exists_child {f : FieldRule} (field : f ∈ kind.fields) (all : ∀ e ∈ fields, e.2.IsJson floats)
    {absent : Checked α} {reader : Value → Checked α} {a : α} {read : Value → Checked β} {ns : List β}
    (reads : Entries.read (Entries.ofFields fields) f.names absent reader = .ok a)
    (without : absent = .ok a → ns = [])
    (holds : ∀ v, v.IsJson floats → reader v = .ok a →
      ∀ n ∈ ns, ∃ u, f.shape.Holds v k u ∧ read u = .ok n) :
    ∀ n ∈ ns, ∃ u, kind.Child (Entries.ofFields fields) k u ∧ read u = .ok n := by
  rcases FieldRule.cases_of_read reads with absent_ | ⟨v, given, reads⟩
  · rw [without absent_]
    exact fun _ mem => nomatch mem
  · obtain ⟨key, mem⟩ := FieldRule.mem_of_given given
    intro n inside
    obtain ⟨u, holds, node⟩ := holds v (all _ mem) reads n inside
    exact ⟨u, ⟨f, field, v, given, holds⟩, node⟩

section Inside

variable {read : Value → Checked α}

theorem exists_of_readTable {t : Table α} (nodup : (fields.map Prod.fst).Nodup)
    (reads : Entries.readTable read (Entries.ofFields fields) = .ok t) :
    ∀ e ∈ t.entries, ∃ f ∈ fields, f.1 = e.1 ∧ read f.2 = .ok e.2 := by
  have entries (fields : List (Str × Value)) (es : List (Str × α))
      (reads : Checked.all ((Entries.ofFields fields).map fun e =>
        Entries.readEntry e.1 (read e.2)) = .ok es) :
      es.map Prod.fst = fields.map Prod.fst ∧
        ∀ e ∈ es, ∃ f ∈ fields, f.1 = e.1 ∧ read f.2 = .ok e.2 := by
    induction fields generalizing es with
    | nil =>
      cases reads
      exact ⟨rfl, fun _ mem => nomatch mem⟩
    | cons f fields ih =>
      rw [Entries.ofFields_cons, List.map_cons, Checked.all, apply_eq_ok_iff] at reads
      obtain ⟨_, rest, first, others, rfl⟩ := reads
      obtain ⟨e, entry, rfl⟩ := map_eq_ok_iff.1 first
      obtain ⟨_, a, key, value, rfl⟩ := apply_eq_ok_iff.1 (under_eq_ok_iff.1 entry)
      cases key
      obtain ⟨keys, each⟩ := ih rest others
      refine ⟨by rw [List.map_cons, List.map_cons, keys], List.forall_mem_cons.2 ⟨?_, ?_⟩⟩
      · exact ⟨f, List.mem_cons_self .., rfl, value⟩
      · intro e mem
        obtain ⟨g, inside, same⟩ := each e mem
        exact ⟨g, List.mem_cons_of_mem _ inside, same⟩
  obtain ⟨es, read_, rfl⟩ := map_eq_ok_iff.1 reads
  obtain ⟨keys, each⟩ := entries fields es read_
  rw [Table.entries_ofList (keys ▸ nodup)]
  exact each

theorem holds_of_readOptional {o : Option α} (maps : ∀ n, read v = .ok n → ∃ m, v = .map m)
    (reads : v.readOptional read = .ok o) :
    ∀ n ∈ o.toList, (Shape.optional k).Holds v k v ∧ read v = .ok n := by
  rw [Value.readOptional] at reads
  split at reads
  · cases reads
    exact List.forall_mem_nil _
  · obtain ⟨n, node, rfl⟩ := map_eq_ok_iff.1 reads
    obtain ⟨m, rfl⟩ := maps n node
    exact List.forall_mem_singleton.2 ⟨.optional k m, node⟩

theorem holds_of_readList {ns : List α} (json : v.IsJson floats) (reads : v.readList read = .ok ns) :
    ∀ n ∈ ns, ∃ u, (Shape.nodes k).Holds v k u ∧ read u = .ok n := by
  cases json with
  | list items all =>
    intro n mem
    obtain ⟨u, inside, reads⟩ := exists_of_indexed reads n mem
    exact ⟨u, .item k items u inside, reads⟩
  | null | bool b | int n | float x allowed | str s | map fields nodup all => cases reads

theorem holds_of_readNodesOrNull {t : Table α} (json : v.IsJson floats)
    (reads : v.readNodesOrNull read = .ok t) :
    ∀ n ∈ t.entries.map Prod.snd, ∃ u, (Shape.table k).Holds v k u ∧ read u = .ok n := by
  cases json with
  | null =>
    cases reads
    exact fun _ mem => nomatch mem
  | map fields nodup all =>
    refine List.forall_mem_map.2 fun e mem => ?_
    obtain ⟨f, inside, -, value⟩ := exists_of_readTable nodup reads e mem
    exact ⟨f.2, .entry k _ f.1 f.2 (Entries.mem_ofFields.2 inside), value⟩
  | bool b | int n | float x allowed | str s | list items all => cases reads

theorem holds_of_readNodesWithoutExtensions {t : Table α} (json : v.IsJson floats)
    (reads : v.readNodesWithoutExtensions read = .ok t) :
    (∀ e ∈ t.entries, e.1.startsWith "x-" = false) ∧
      ∀ n ∈ t.entries.map Prod.snd, ∃ u, (Shape.tableBesideExtensions k).Holds v k u ∧ read u = .ok n := by
  cases json with
  | map fields nodup all =>
    have dropped : Entries.readTable read (Entries.ofFields (fields.filter fun f =>
        !f.1.startsWith "x-")) = .ok t := by
      rw [← Value.dropExtensions_ofFields nodup, ← Value.readNodesWithoutExtensions_ofFields]
      exact reads
    have each := exists_of_readTable (nodup.sublist (List.filter_sublist.map _)) dropped
    refine ⟨fun e mem => ?_, List.forall_mem_map.2 fun e mem => ?_⟩
    · obtain ⟨f, inside, key, -⟩ := each e mem
      simpa [key] using (List.mem_filter.1 inside).2
    · obtain ⟨f, inside, -, value⟩ := each e mem
      obtain ⟨mem, kept⟩ := List.mem_filter.1 inside
      exact ⟨f.2, .keptEntry k _ f.1 f.2 (Entries.mem_ofFields.2 mem) (by simpa using kept), value⟩
  | null | bool b | int n | float x allowed | str s | list items all => cases reads

end Inside

theorem Value.isJson_str (s : Str) : (Value.str s).IsJson fun _ => False := .str s

theorem Value.isJson_texts (ss : List Str) : (Value.list (ss.map .str)).IsJson fun _ => False :=
  .list _ (List.forall_mem_map.2 fun s _ => .str s)

theorem Value.readList_texts (ss : List Str) :
    (Value.list (ss.map .str)).readList readText = .ok ss :=
  indexed_written (fun s _ => readText_str s) 0

theorem Value.readLoose_texts (ss : List Str) :
    (Value.list (ss.map .str)).readLoose readText = .ok ss := readList_texts ss

end ApiModel
