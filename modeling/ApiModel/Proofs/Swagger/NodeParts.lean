import ApiModel.Proofs.Swagger.Parts
import ApiModel.Proofs.Swagger.NodeTexts

namespace ApiModel

open Checked

namespace Value

variable {m : Entries} {v u : Value} {t : Str}

/-- The text has no half of a pair, if all of the value can be written. -/
def KeepsWhole (v : Value) (t : Str) : Prop := v.Writable → t.hasHalf = false

theorem Has.keepsWhole (has : v.Has u) (keeps : u.KeepsWhole t) : v.KeepsWhole t :=
  fun writable => keeps (writable.part has)

theorem keepsWhole_coe (v : Value) (a : String) : v.KeepsWhole a := fun _ => Str.hasHalf_coe a

theorem whole_of_readText {k : Scalar} (text : k.IsText) (reads : k.readText = .ok t) :
    t.hasHalf = false := by
  cases k with
  | str s =>
    cases reads
    exact text
  | bytes bs =>
    rw [Scalar.readText] at reads
    split at reads
    · cases reads
      exact Str.hasHalf_coe _
    · contradiction
  | _ => contradiction

theorem keepsWhole_of_readText (reads : v.readText = .ok t) : v.KeepsWhole t := by
  intro writable
  cases v with
  | scalar k => exact whole_of_readText (writable [] _ (.self _)) reads
  | _ => contradiction

theorem keepsWhole_key {k : Scalar} (mem : (k, u) ∈ m) (reads : k.readText = .ok t) :
    (map m).KeepsWhole t :=
  fun writable => whole_of_readText (writable [] _ (.self _) (k, u) mem).1 reads

end Value

section Texts

variable {m : Entries} {names : List String} {t : Str}

theorem Entries.keepsWhole_text (reads : m.readText names = .ok t) : (Value.map m).KeepsWhole t := by
  rcases exists_of_read reads with absent | ⟨u, here, reads⟩
  · exact ok.inj absent ▸ Value.keepsWhole_coe _ _
  · exact here.has.keepsWhole (Value.keepsWhole_of_readText reads)

theorem Entries.keepsWhole_extra {fields : List (List String)} {extras : List (Str × Value)}
    (reads : m.readExtras fields = .ok extras) : ∀ e ∈ extras, (Value.map m).KeepsWhole e.1 :=
  fun e mem => Value.keepsWhole_key (mem_of_readExtras reads e mem) rfl

theorem Value.Writable.extras {v : Value} {extras : List (Str × Value)} (writable : v.Writable)
    (parts : ∀ e ∈ extras, v.KeepsWhole e.1 ∧ v.Encloses e.2) : WritableFields extras :=
  fun e mem => ⟨(parts e mem).1 writable, writable.part (parts e mem).2.has⟩

end Texts

namespace Schema

variable {room : Nat} {outer : List Nat} {v : Value} {s : Schema}

theorem exists_of_readEach? {v : Value} {c : Checked (List Schema)}
    (found : readEach? room outer v = some c) {ss : List Schema} (reads : c = .ok ss) :
    ∀ s ∈ ss, ∃ u, v.Has u ∧ readIn room outer u = .ok s := by
  cases v with
  | turn id content =>
    rw [readEach?] at found
    intro s mem
    obtain ⟨u, ⟨ids, part⟩, reads⟩ := exists_of_readEach? found reads s mem
    exact ⟨u, ⟨_, .turn part⟩, reads⟩
  | list items =>
    rw [readEach?, Option.some.injEq] at found
    subst found
    rw [readEach_eq] at reads
    intro s mem
    obtain ⟨u, inside, reads⟩ := exists_of_indexed reads s mem
    exact ⟨u, (Value.encloses_item inside).has, reads⟩
  | _ => simp [readEach?] at found

theorem exists_of_readTable? {v : Value} {c : Checked (List (Str × Schema))}
    (found : readTable? room outer v = some c) {ps : List (Str × Schema)} (reads : c = .ok ps) :
    ∀ p ∈ ps, v.KeepsWhole p.1 ∧ ∃ u, v.Has u ∧ readIn room outer u = .ok p.2 := by
  cases v with
  | turn id content =>
    rw [readTable?] at found
    intro p mem
    have here : (Value.turn id content).Has content := ⟨_, .turn (.self content)⟩
    obtain ⟨key, u, part, reads⟩ := exists_of_readTable? found reads p mem
    exact ⟨here.keepsWhole key, u, here.trans part, reads⟩
  | map m =>
    rw [readTable?, Option.some.injEq] at found
    subst found
    obtain ⟨entries, all, rfl⟩ := map_eq_ok_iff.1 reads
    rw [readEntries_eq] at all
    intro p mem
    obtain ⟨k, u, inside, key, reads⟩ := exists_of_readEntries all p (Entries.mem_of_mem_ofList mem)
    exact ⟨Value.keepsWhole_key inside key, u, (Value.encloses_entry inside).has, reads⟩
  | _ => simp [readTable?] at found

theorem exists_of_itemsIn {ss : List Schema} (reads : itemsIn room outer v = .ok ss) :
    ∀ s ∈ ss, ∃ u, v.Has u ∧ readIn room outer u = .ok s := by
  rw [itemsIn] at reads
  split at reads
  · cases reads
    exact List.forall_mem_nil _
  cases found : readEach? room outer v with
  | some c =>
    rw [found] at reads
    exact exists_of_readEach? found reads
  | none =>
    rw [found] at reads
    have single : Checked.indexed 0 ([v].map (readIn room outer)) = .ok ss := reads
    intro s mem
    obtain ⟨u, inside, reads⟩ := exists_of_indexed single s mem
    cases List.mem_singleton.1 inside
    exact ⟨v, .refl v, reads⟩

theorem exists_of_propertiesIn {ps : List (Str × Schema)}
    (reads : propertiesIn room outer v = .ok ps) :
    ∀ p ∈ ps, v.KeepsWhole p.1 ∧ ∃ u, v.Has u ∧ readIn room outer u = .ok p.2 := by
  rw [propertiesIn] at reads
  split at reads
  · cases reads
    exact List.forall_mem_nil _
  cases found : readTable? room outer v with
  | some c =>
    rw [found] at reads
    exact exists_of_readTable? found reads
  | none =>
    rw [found] at reads
    contradiction

theorem readIn_of_additionalIn (reads : additionalIn room outer v = .ok (.schema s)) :
    readIn room outer v = .ok s := by
  unfold additionalIn orFlag at reads
  split at reads
  · cases reads
  split at reads
  · rename_i read
    cases reads
    exact read
  · split at reads
    · cases reads
    · simp only [apply_eq_ok_iff, map_eq_ok_iff] at reads
      obtain ⟨_, b, ⟨_, _, rfl⟩, -, same⟩ := reads
      cases same

def ReadFrom (v : Value) (s : Schema) : Prop := ∃ room outer, readIn room outer v = .ok s

structure Inside (v : Value) (s : Schema) : Prop where
  texts : ∀ t ∈ s.texts, v.KeepsWhole t
  type : s.type ≠ [] → ∃ u, v.Encloses u
  items : ∀ t ∈ s.items, ∃ u, v.Encloses u ∧ ReadFrom u t
  properties : ∀ p ∈ s.properties, v.KeepsWhole p.1 ∧ ∃ u, v.Encloses u ∧ ReadFrom u p.2
  additional : ∀ t, s.additional = .schema t → ∃ u, v.Encloses u ∧ ReadFrom u t
  extras : ∀ e ∈ s.extras, v.KeepsWhole e.1 ∧ v.Encloses e.2

theorem inside_map {m : Entries} (reads : readIn (room + 1) outer (.map m) = .ok s) :
    Inside (.map m) s := by
  obtain ⟨-, ref, type, format, description, items, properties, additional, extras⟩ :=
    readIn_map_eq_ok_iff.1 reads
  constructor
  case texts =>
    rw [Schema.texts]
    refine List.forall_mem_cons.2 ⟨Entries.keepsWhole_text ref, List.forall_mem_cons.2
      ⟨Entries.keepsWhole_text format, List.forall_mem_cons.2 ⟨Entries.keepsWhole_text description, ?_⟩⟩⟩
    intro t mem
    rcases Entries.exists_of_read type with absent | ⟨u, here, reads⟩
    · rw [← ok.inj absent] at mem
      contradiction
    · obtain ⟨x, below, reads⟩ := exists_of_readLoose reads t mem
      exact (here.has.trans below).keepsWhole (Value.keepsWhole_of_readText reads)
  case type =>
    intro given
    rcases Entries.exists_of_read type with absent | ⟨u, here, -⟩
    · exact absurd (ok.inj absent).symm given
    · exact ⟨u, here⟩
  case items =>
    intro t mem
    rcases Entries.exists_of_read items with absent | ⟨u, here, reads⟩
    · rw [← ok.inj absent] at mem
      contradiction
    · obtain ⟨x, below, reads⟩ := exists_of_itemsIn reads t mem
      exact ⟨x, here.trans_has below, _, _, reads⟩
  case properties =>
    intro p mem
    rcases Entries.exists_of_read properties with absent | ⟨u, here, reads⟩
    · rw [← ok.inj absent] at mem
      contradiction
    · obtain ⟨key, x, below, reads⟩ := exists_of_propertiesIn reads p mem
      exact ⟨here.has.keepsWhole key, x, here.trans_has below, _, _, reads⟩
  case additional =>
    intro t given
    rcases Entries.exists_of_read additional with absent | ⟨u, here, reads⟩
    · rw [given] at absent
      cases absent
    · rw [given] at reads
      exact ⟨u, here, _, _, readIn_of_additionalIn reads⟩
  case extras =>
    exact fun e mem => ⟨Entries.keepsWhole_extra extras e mem,
      Value.encloses_entry (Entries.mem_of_readExtras extras e mem)⟩

theorem Inside.turn {id : Nat} {content : Value} (inside : Inside content s) :
    Inside (.turn id content) s := by
  have here : (Value.turn id content).Has content := ⟨_, .turn (.self content)⟩
  exact {
    texts := fun t mem => here.keepsWhole (inside.texts t mem)
    type := fun given => (inside.type given).imp fun _ => here.trans_encloses
    items := fun t mem => (inside.items t mem).imp fun _ found => ⟨here.trans_encloses found.1, found.2⟩
    properties := fun p mem => ⟨here.keepsWhole (inside.properties p mem).1,
      (inside.properties p mem).2.imp fun _ found => ⟨here.trans_encloses found.1, found.2⟩⟩
    additional := fun t given =>
      (inside.additional t given).imp fun _ found => ⟨here.trans_encloses found.1, found.2⟩
    extras := fun e mem => ⟨here.keepsWhole (inside.extras e mem).1,
      here.trans_encloses (inside.extras e mem).2⟩ }

theorem ReadFrom.inside {v : Value} (reads : ReadFrom v s) : Inside v s := by
  obtain ⟨room, outer, reads⟩ := reads
  cases room with
  | zero => simp [readIn_zero, fail] at reads
  | succ room =>
    cases v with
    | turn id content =>
      rw [readIn] at reads
      split at reads
      · contradiction
      · exact (ReadFrom.inside ⟨_, _, reads⟩).turn
    | map m => exact inside_map reads
    | _ => exact absurd reads (by simp [readIn, fail])

theorem ReadFrom.of_holds {t : Schema} (reads : ReadFrom v s) (holds : s.Holds t) :
    ∃ u, v.Has u ∧ ReadFrom u t := by
  induction holds generalizing v with
  | self => exact ⟨v, .refl v, reads⟩
  | item mem _ ih =>
    obtain ⟨u, here, reads⟩ := reads.inside.items _ mem
    exact (ih reads).imp fun _ found => ⟨here.has.trans found.1, found.2⟩
  | property mem _ ih =>
    obtain ⟨-, u, here, reads⟩ := reads.inside.properties _ mem
    exact (ih reads).imp fun _ found => ⟨here.has.trans found.1, found.2⟩
  | additional given _ ih =>
    obtain ⟨u, here, reads⟩ := reads.inside.additional _ given
    exact (ih reads).imp fun _ found => ⟨here.has.trans found.1, found.2⟩

theorem ReadFrom.writable {full : Bool} (reads : ReadFrom v s) (writable : v.Writable) :
    (s.toValue full).Writable := by
  induction s using induct generalizing v with
  | step s items properties additional =>
    have inside := reads.inside
    refine writable_toValue_iff.2 ⟨⟨fun t mem => inside.texts t mem writable, fun t mem => ?_,
      fun p mem => ⟨(inside.properties p mem).1 writable, ?_⟩, fun t given => ?_⟩,
      writable.extras inside.extras⟩
    · obtain ⟨u, here, reads⟩ := inside.items t mem
      exact items t mem reads (writable.part here.has)
    · obtain ⟨u, here, reads⟩ := (inside.properties p mem).2
      exact properties p mem reads (writable.part here.has)
    · obtain ⟨u, here, reads⟩ := inside.additional t given
      exact additional t given reads (writable.part here.has)

end Schema

section Nodes

variable {room : Nat} {v : Value}

theorem Entries.exists_of_readOption {α : Type} {m : Entries} {names : List String}
    {read : Value → Checked α} {o : Option α}
    (reads : m.read names (.ok none) (Value.readOptional read) = .ok o) :
    ∀ a, o = some a → ∃ u, (Value.map m).Encloses u ∧ read u = .ok a := by
  rintro a rfl
  rcases exists_of_read reads with absent | ⟨u, here, reads⟩
  · cases absent
  · exact ⟨u, here, ApiModel.exists_of_readOption reads a rfl⟩

theorem Parameter.keepsWhole_text {p : Parameter} (reads : read room v = .ok p) :
    ∀ t ∈ p.texts, v.KeepsWhole t := by
  obtain ⟨m, whole, reads⟩ := exists_of_readNode reads
  obtain ⟨ref, name, location, description, -, type, format, -, -⟩ := ofEntries_eq_ok_iff.1 reads
  simp only [texts, List.forall_mem_cons, List.not_mem_nil, false_implies, implies_true, and_true]
  exact ⟨whole.keepsWhole (Entries.keepsWhole_text ref), whole.keepsWhole (Entries.keepsWhole_text name),
    whole.keepsWhole (Entries.keepsWhole_text location),
    whole.keepsWhole (Entries.keepsWhole_text description),
    whole.keepsWhole (Entries.keepsWhole_text type), whole.keepsWhole (Entries.keepsWhole_text format)⟩

theorem Parameter.extra_inside {p : Parameter} (reads : read room v = .ok p) :
    ∀ e ∈ p.extras, v.KeepsWhole e.1 ∧ v.Encloses e.2 := by
  obtain ⟨m, whole, reads⟩ := exists_of_readNode reads
  obtain ⟨-, -, -, -, -, -, -, -, extras⟩ := ofEntries_eq_ok_iff.1 reads
  exact fun e mem => ⟨whole.keepsWhole (Entries.keepsWhole_extra extras e mem),
    whole.trans_encloses (Value.encloses_entry (Entries.mem_of_readExtras extras e mem))⟩

theorem Parameter.exists_of_schema {p : Parameter} (reads : read room v = .ok p) {s : Schema}
    (given : p.schema = some s) : ∃ u, v.Encloses u ∧ Schema.ReadFrom u s := by
  obtain ⟨m, whole, reads⟩ := exists_of_readNode reads
  obtain ⟨-, -, -, -, -, -, -, schema, -⟩ := ofEntries_eq_ok_iff.1 reads
  obtain ⟨u, here, reads⟩ := Entries.exists_of_readOption schema s given
  exact ⟨u, whole.trans_encloses here, _, _, reads⟩

theorem Parameter.writable {full : Bool} {p : Parameter} (reads : read room v = .ok p)
    (writable : v.Writable) : (p.toValue full).Writable := by
  refine writable_toValue_iff.2 ⟨⟨fun t mem => keepsWhole_text reads t mem writable, fun s given => ?_⟩,
    writable.extras (extra_inside reads)⟩
  obtain ⟨u, here, reads⟩ := exists_of_schema reads given
  exact reads.writable (writable.part here.has)

theorem Response.exists_of_schema {r : Response} (reads : read room v = .ok r) {s : Schema}
    (given : r.schema = some s) : ∃ u, v.Has u ∧ Schema.ReadFrom u s := by
  obtain ⟨m, whole, reads⟩ := exists_of_readNode reads
  obtain ⟨-, -, schema, -⟩ := ofEntries_eq_ok_iff.1 reads
  obtain ⟨u, here, reads⟩ := Entries.exists_of_readOption schema s given
  exact ⟨u, whole.trans here.has, _, _, reads⟩

theorem exists_of_readParameters {m : Entries} {names : List String} {ps : List Parameter}
    (reads : m.read names (.ok []) (Value.readList (Parameter.read room)) = .ok ps) {p : Parameter}
    (mem : p ∈ ps) : ∃ u, (Value.map m).Has u ∧ Parameter.read room u = .ok p := by
  rcases Entries.exists_of_read reads with absent | ⟨u, here, reads⟩
  · rw [← ok.inj absent] at mem
    contradiction
  · obtain ⟨x, below, reads⟩ := exists_of_readItems reads p mem
    exact ⟨x, here.has.trans below.has, reads⟩

namespace Operation

variable {o : Operation}

theorem exists_of_parameter (reads : read room v = .ok o) {p : Parameter} (mem : p ∈ o.parameters) :
    ∃ room u, v.Has u ∧ Parameter.read room u = .ok p := by
  obtain ⟨m, whole, reads⟩ := exists_of_readNode reads
  obtain ⟨-, -, -, -, parameters, -, -⟩ := ofEntries_eq_ok_iff.1 reads
  obtain ⟨u, here, reads⟩ := exists_of_readParameters parameters mem
  exact ⟨_, u, whole.trans here, reads⟩

theorem exists_of_response (reads : read room v = .ok o) {e : Str × Response}
    (mem : e ∈ o.responses.entries) : ∃ room u, v.Has u ∧ Response.read room u = .ok e.2 := by
  obtain ⟨m, whole, reads⟩ := exists_of_readNode reads
  obtain ⟨-, -, -, -, -, responses, -⟩ := ofEntries_eq_ok_iff.1 reads
  rcases Entries.exists_of_read responses with absent | ⟨u, here, reads⟩
  · rw [← ok.inj absent] at mem
    contradiction
  · obtain ⟨x, below, reads⟩ := exists_of_readNodesWithoutExtensions reads e mem
    exact ⟨_, x, whole.trans (here.has.trans below.has), reads⟩

end Operation

namespace PathItem

variable {item : PathItem}

theorem exists_of_operation (reads : read room v = .ok item) {o : Operation} (mem : o ∈ item.operations) :
    ∃ room u, v.Has u ∧ Operation.read room u = .ok o := by
  obtain ⟨m, whole, reads⟩ := exists_of_readNode reads
  obtain ⟨-, get, put, post, delete, options, head, patch, -⟩ := ofEntries_eq_ok_iff.1 reads
  have inside {name : String} {verb : Option Operation} (reads : readVerb room m name = .ok verb)
      (given : verb = some o) : ∃ room u, v.Has u ∧ Operation.read room u = .ok o := by
    obtain ⟨u, here, reads⟩ := Entries.exists_of_readOption reads o given
    exact ⟨_, u, whole.trans here.has, reads⟩
  simp only [operations, List.mem_filterMap, List.mem_cons, List.not_mem_nil, or_false, id] at mem
  obtain ⟨verb, listed, given⟩ := mem
  rcases listed with rfl | rfl | rfl | rfl | rfl | rfl | rfl
  · exact inside get given
  · exact inside put given
  · exact inside post given
  · exact inside delete given
  · exact inside options given
  · exact inside head given
  · exact inside patch given

theorem exists_of_parameter (reads : read room v = .ok item) {p : Parameter} (mem : p ∈ item.parameters) :
    ∃ room u, v.Has u ∧ Parameter.read room u = .ok p := by
  obtain ⟨m, whole, reads⟩ := exists_of_readNode reads
  obtain ⟨-, -, -, -, -, -, -, -, parameters, -⟩ := ofEntries_eq_ok_iff.1 reads
  obtain ⟨u, here, reads⟩ := exists_of_readParameters parameters mem
  exact ⟨_, u, whole.trans here, reads⟩

end PathItem

namespace Document

variable {d : Document} (reads : ofValue v = .ok d)
include reads

theorem exists_of_path {e : Str × PathItem} (mem : e ∈ d.paths.entries) :
    ∃ room u, v.Has u ∧ PathItem.read room u = .ok e.2 := by
  obtain ⟨m, whole, reads⟩ := exists_of_readNode (ofValue_eq_ok_iff.1 reads)
  obtain ⟨-, -, paths, -, -⟩ := ofEntries_eq_ok_iff.1 reads
  rcases Entries.exists_of_read paths with absent | ⟨u, here, reads⟩
  · simp [fail, under] at absent
  · obtain ⟨x, below, reads⟩ := exists_of_readNodesWithoutExtensions reads e mem
    exact ⟨_, x, whole.trans (here.has.trans below.has), reads⟩

theorem exists_of_definition {e : Str × Schema} (mem : e ∈ d.definitions.entries) :
    ∃ u, v.Has u ∧ Schema.ReadFrom u e.2 := by
  obtain ⟨m, whole, reads⟩ := exists_of_readNode (ofValue_eq_ok_iff.1 reads)
  obtain ⟨-, -, -, definitions, -⟩ := ofEntries_eq_ok_iff.1 reads
  rcases Entries.exists_of_read definitions with absent | ⟨u, here, reads⟩
  · rw [← ok.inj absent] at mem
    contradiction
  · obtain ⟨x, below, reads⟩ := exists_of_readNodesOrNull reads e mem
    exact ⟨x, whole.trans (here.has.trans below.has), _, _, reads⟩

theorem exists_of_hasOperation {o : Operation} (has : d.HasOperation o) :
    ∃ room u, v.Has u ∧ Operation.read room u = .ok o := by
  obtain ⟨e, entry, mem⟩ := has
  obtain ⟨room, u, here, reads⟩ := exists_of_path reads entry
  obtain ⟨room, x, below, reads⟩ := PathItem.exists_of_operation reads mem
  exact ⟨room, x, here.trans below, reads⟩

/-- Each parameter of a document was read from a part of the value that the document was read from. -/
theorem exists_of_hasParameters {ps : List Parameter} (has : d.HasParameters ps) {p : Parameter}
    (mem : p ∈ ps) : ∃ room u, v.Has u ∧ Parameter.read room u = .ok p := by
  cases has with
  | operation has =>
    obtain ⟨room, u, here, reads⟩ := exists_of_hasOperation reads has
    obtain ⟨room, x, below, reads⟩ := Operation.exists_of_parameter reads mem
    exact ⟨room, x, here.trans below, reads⟩
  | path entry =>
    obtain ⟨room, u, here, reads⟩ := exists_of_path reads entry
    obtain ⟨room, x, below, reads⟩ := PathItem.exists_of_parameter reads mem
    exact ⟨room, x, here.trans below, reads⟩

/-- Each schema of a document was read from a part of the value that the document was read from. -/
theorem exists_of_contains {s : Schema} (contains : d.Contains s) :
    ∃ u, v.Has u ∧ Schema.ReadFrom u s := by
  have below {u : Value} {t : Schema} (here : v.Has u) (reads : Schema.ReadFrom u t) (holds : t.Holds s) :
      ∃ u, v.Has u ∧ Schema.ReadFrom u s :=
    (reads.of_holds holds).imp fun _ found => ⟨here.trans found.1, found.2⟩
  cases contains with
  | definition mem holds =>
    obtain ⟨u, here, reads⟩ := exists_of_definition reads mem
    exact below here reads holds
  | parameter has mem schema holds =>
    obtain ⟨room, u, here, reads⟩ := exists_of_hasParameters reads has mem
    obtain ⟨x, inside, reads⟩ := Parameter.exists_of_schema reads schema
    exact below (here.trans inside.has) reads holds
  | response has mem schema holds =>
    obtain ⟨room, u, here, reads⟩ := exists_of_hasOperation reads has
    obtain ⟨room, x, inside, reads⟩ := Operation.exists_of_response reads mem
    obtain ⟨y, deeper, reads⟩ := Response.exists_of_schema reads schema
    exact below (here.trans (inside.trans deeper)) reads holds

end Document

end Nodes

end ApiModel
