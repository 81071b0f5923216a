import ApiModel.Proofs.Json.Data
import ApiModel.Value.Dump

namespace ApiModel

open Text

namespace Scalar

def IsText : Scalar → Prop
  | str s => s.hasHalf = false
  | bytes bs => ∃ cs, decodeUtf8 bs = .ok cs
  | _ => True

def IsKey (s : Scalar) : Prop := s.IsText ∧ s.isLong = false

variable {s : Scalar}

theorem dump_ok_iff : (∃ cs, s.dump = .ok cs) ↔ s.IsText := by
  cases s with
  | str s =>
    rw [dump, IsText, ← Str.exists_encode_iff]
    cases s.encode with
    | ok cs => exact iff_of_true ⟨_, rfl⟩ ⟨cs, rfl⟩
    | error e => constructor <;> rintro ⟨_, ⟨⟩⟩
  | bytes bs =>
    rw [dump, IsText]
    cases decoded : decodeUtf8 bs <;> simp
  | _ => exact iff_of_true ⟨_, rfl⟩ trivial

theorem dumpKey_ok_iff : (∃ key, s.dumpKey = .ok key) ↔ s.IsKey := by
  cases s with
  | str s =>
    rw [dumpKey, IsKey, IsText, ← Str.exists_encode_iff]
    cases s.encode with
    | ok cs => exact iff_of_true ⟨_, rfl⟩ ⟨⟨cs, rfl⟩, rfl⟩
    | error e =>
      constructor
      · rintro ⟨_, ⟨⟩⟩
      · rintro ⟨⟨_, ⟨⟩⟩, -⟩
  | bytes bs =>
    rw [dumpKey, IsKey, IsText, isLong]
    cases decoded : decodeUtf8 bs with
    | ok cs => simp
    | error e => cases e <;> simp
    all_goals simp
  | int n =>
    rw [dumpKey, IsKey, IsText]
    cases long : (int n).isLong <;> simp
    all_goals simp
  | _ => exact iff_of_true ⟨_, rfl⟩ ⟨trivial, rfl⟩

end Scalar

namespace Value

/-- The value has a part that is met inside the containers of these numbers, the outermost last. -/
inductive HasPart : Value → List Nat → Value → Prop
  | self (v : Value) : HasPart v [] v
  | item {items : List Value} {u w : Value} {ids : List Nat} (mem : u ∈ items)
      (below : HasPart u ids w) : HasPart (.list items) ids w
  | first {k u w : Value} {ids : List Nat} (below : HasPart k ids w) : HasPart (.pair k u) ids w
  | second {k u w : Value} {ids : List Nat} (below : HasPart u ids w) : HasPart (.pair k u) ids w
  | entry {m : Entries} {k : Scalar} {u w : Value} {ids : List Nat} (mem : (k, u) ∈ m)
      (below : HasPart u ids w) : HasPart (.map m) ids w
  | member {members : List Scalar} {s : Scalar} (mem : s ∈ members) :
      HasPart (.set members) [] (.scalar s)
  | turn {id : Nat} {content w : Value} {ids : List Nat} (below : HasPart content ids w) :
      HasPart (.turn id content) (ids ++ [id]) w

def Has (v u : Value) : Prop := ∃ ids, v.HasPart ids u

/-- At this place, inside the containers of these numbers, nothing stands that JSON cannot say. -/
def Fine (outer : List Nat) : Value → Prop
  | scalar s => s.IsText
  | map m => ∀ e ∈ m, e.1.IsKey
  | turn id _ => id ∉ outer
  | cut => False
  | list _ | pair _ _ | set _ => True

def WritableIn (outer : List Nat) (v : Value) : Prop := ∀ ids u, v.HasPart ids u → u.Fine (ids ++ outer)

def Writable (v : Value) : Prop := ∀ ids u, v.HasPart ids u → u.Fine ids

theorem HasPart.trans {u v w : Value} {ids ids' : List Nat} (first : u.HasPart ids v)
    (second : v.HasPart ids' w) : u.HasPart (ids' ++ ids) w := by
  induction first with
  | self => simpa using second
  | item mem _ ih => exact .item mem (ih second)
  | first _ ih => exact .first (ih second)
  | second _ ih => exact .second (ih second)
  | entry mem _ ih => exact .entry mem (ih second)
  | member mem =>
    cases second
    exact .member mem
  | turn _ ih =>
    rw [← List.append_assoc]
    exact .turn (ih second)

theorem Fine.mono {u : Value} {outer inner : List Nat} (fine : u.Fine outer) (sub : inner ⊆ outer) :
    u.Fine inner := by
  cases u with
  | turn id content => exact fun inside => fine (sub inside)
  | _ => exact fine

variable {outer : List Nat} {v : Value}

theorem writableIn_nil_iff : v.WritableIn [] ↔ v.Writable := by
  simp only [WritableIn, Writable, List.append_nil]

theorem Writable.part {u : Value} (writable : v.Writable) (part : v.Has u) : u.Writable := by
  obtain ⟨ids, part⟩ := part
  intro inner w below
  exact (writable _ w (part.trans below)).mono (List.subset_append_left ..)

theorem Has.refl (v : Value) : v.Has v := ⟨[], .self v⟩

theorem Has.trans {u w : Value} (first : v.Has u) (second : u.Has w) : v.Has w := by
  obtain ⟨ids, first⟩ := first
  obtain ⟨ids', second⟩ := second
  exact ⟨ids' ++ ids, first.trans second⟩

theorem writableIn_scalar {s : Scalar} : (scalar s).WritableIn outer ↔ s.IsText := by
  constructor
  · exact fun writable => writable [] _ (.self _)
  · intro text ids u part
    cases part
    exact text

theorem writableIn_set {members : List Scalar} :
    (set members).WritableIn outer ↔ ∀ s ∈ members, s.IsText := by
  constructor
  · exact fun writable s mem => writable [] _ (.member mem)
  · intro text ids u part
    cases part with
    | self => trivial
    | member mem => exact text _ mem

theorem writableIn_list {items : List Value} :
    (list items).WritableIn outer ↔ ∀ u ∈ items, u.WritableIn outer := by
  constructor
  · exact fun writable u mem ids w below => writable ids w (.item mem below)
  · intro all ids w part
    cases part with
    | self => trivial
    | item mem below => exact all _ mem ids w below

theorem writableIn_pair {k u : Value} :
    (pair k u).WritableIn outer ↔ k.WritableIn outer ∧ u.WritableIn outer := by
  constructor
  · exact fun writable => ⟨fun ids w below => writable ids w (.first below),
      fun ids w below => writable ids w (.second below)⟩
  · rintro ⟨key, value⟩ ids w part
    cases part with
    | self => trivial
    | first below => exact key ids w below
    | second below => exact value ids w below

theorem writableIn_map {m : Entries} :
    (map m).WritableIn outer ↔ ∀ e ∈ m, e.1.IsKey ∧ e.2.WritableIn outer := by
  constructor
  · intro writable e mem
    exact ⟨writable [] _ (.self _) e mem, fun ids w below => writable ids w (.entry mem below)⟩
  · intro all ids w part
    cases part with
    | self => exact fun e mem => (all e mem).1
    | entry mem below => exact (all _ mem).2 ids w below

theorem writableIn_turn {id : Nat} {content : Value} :
    (turn id content).WritableIn outer ↔ id ∉ outer ∧ content.WritableIn (id :: outer) := by
  constructor
  · intro writable
    refine ⟨writable [] _ (.self _), fun ids w below => ?_⟩
    simpa using writable _ w (.turn below)
  · rintro ⟨first, inside⟩ ids w part
    cases part with
    | self => exact first
    | turn below => simpa using inside _ w below

theorem not_writableIn_cut : ¬ cut.WritableIn outer := fun writable => writable [] _ (.self _)

theorem map_ok_iff {α β : Type} {f : α → β} {x : Except DumpFault α} :
    (∃ b, x.map f = .ok b) ↔ ∃ a, x = .ok a := by
  cases x <;> simp [Except.map]

theorem bind_ok_iff {α β : Type} {f : α → Except DumpFault β} {x : Except DumpFault α} {b : β} :
    (x >>= f) = .ok b ↔ ∃ a, x = .ok a ∧ f a = .ok b := by
  cases x <;> simp [bind, Except.bind]

theorem mapM_dump_ok_iff {members : List Scalar} :
    (∃ css, members.mapM Scalar.dump = .ok css) ↔ ∀ s ∈ members, s.IsText := by
  induction members with
  | nil => exact iff_of_true ⟨[], rfl⟩ (List.forall_mem_nil _)
  | cons s members ih =>
    rw [List.forall_mem_cons, ← ih, ← Scalar.dump_ok_iff]
    simp only [List.mapM_cons, bind_ok_iff]
    constructor
    · rintro ⟨_, cs, first, css, rest, -⟩
      exact ⟨⟨cs, first⟩, css, rest⟩
    · rintro ⟨⟨cs, first⟩, css, rest⟩
      exact ⟨_, cs, first, css, rest, rfl⟩

mutual

theorem dumpIn_ok_iff (outer : List Nat) (v : Value) :
    (∃ cs, v.dumpIn outer = .ok cs) ↔ v.WritableIn outer := by
  cases v with
  | scalar s =>
    rw [dumpIn, writableIn_scalar]
    exact s.dump_ok_iff
  | list items =>
    rw [dumpIn, writableIn_list, map_ok_iff]
    exact dumpsIn_ok_iff outer items
  | pair k u =>
    rw [writableIn_pair, ← dumpIn_ok_iff outer k, ← dumpIn_ok_iff outer u]
    simp only [dumpIn, bind_ok_iff]
    constructor
    · rintro ⟨_, key, first, value, second, -⟩
      exact ⟨⟨key, first⟩, value, second⟩
    · rintro ⟨⟨key, first⟩, value, second⟩
      exact ⟨_, key, first, value, second, rfl⟩
  | set members =>
    rw [dumpIn, writableIn_set, map_ok_iff]
    exact mapM_dump_ok_iff
  | map m =>
    rw [dumpIn, writableIn_map, map_ok_iff]
    exact dumpEntriesIn_ok_iff outer m
  | turn id content =>
    rw [dumpIn, writableIn_turn, ← dumpIn_ok_iff (id :: outer) content]
    by_cases again : id ∈ outer <;> simp [again]
  | cut =>
    rw [dumpIn]
    exact iff_of_false (by simp) not_writableIn_cut

theorem dumpsIn_ok_iff (outer : List Nat) (items : List Value) :
    (∃ css, dumpsIn outer items = .ok css) ↔ ∀ u ∈ items, u.WritableIn outer := by
  cases items with
  | nil => exact iff_of_true ⟨[], rfl⟩ (List.forall_mem_nil _)
  | cons u items =>
    rw [List.forall_mem_cons, ← dumpIn_ok_iff outer u, ← dumpsIn_ok_iff outer items]
    simp only [dumpsIn, bind_ok_iff]
    constructor
    · rintro ⟨_, cs, first, css, rest, -⟩
      exact ⟨⟨cs, first⟩, css, rest⟩
    · rintro ⟨⟨cs, first⟩, css, rest⟩
      exact ⟨_, cs, first, css, rest, rfl⟩

theorem dumpEntriesIn_ok_iff (outer : List Nat) (m : Entries) :
    (∃ css, dumpEntriesIn outer m = .ok css) ↔ ∀ e ∈ m, e.1.IsKey ∧ e.2.WritableIn outer := by
  cases m with
  | nil => exact iff_of_true ⟨[], rfl⟩ (List.forall_mem_nil _)
  | cons e m =>
    obtain ⟨k, u⟩ := e
    rw [List.forall_mem_cons, ← k.dumpKey_ok_iff, ← dumpIn_ok_iff outer u,
      ← dumpEntriesIn_ok_iff outer m]
    simp only [dumpEntriesIn, bind_ok_iff]
    constructor
    · rintro ⟨_, key, first, cs, second, css, rest, -⟩
      exact ⟨⟨⟨key, first⟩, cs, second⟩, css, rest⟩
    · rintro ⟨⟨⟨key, first⟩, cs, second⟩, css, rest⟩
      exact ⟨_, key, first, cs, second, css, rest, rfl⟩

end

theorem dump_ok_iff (v : Value) : (∃ cs, v.dump = .ok cs) ↔ v.Writable := by
  rw [dump, dumpIn_ok_iff, writableIn_nil_iff]

end Value

end ApiModel
