import ApiModel.Proofs.Json.Printing
import ApiModel.Proofs.Swagger.NodeReturns
import ApiModel.Proofs.Swagger.NodeTexts
import ApiModel.Proofs.Value.Height

namespace ApiModel

open Checked

variable {α β : Type} {floats : Binary64 → Prop} {kind k : NodeKind} {m : Entries} {v u : Value}
  {fields : List (Str × Value)} {full : Bool}

/-- How a text of a node, which is of some depth and written as a value, gives back the node. There is a
    text exactly if all of the value can be written and not too much stands inside each other; it is JSON
    text for the value, which gives the node again, and a reader takes it unless a number in it is too
    long. -/
structure ReadsBack (text : Except DumpFault String) (depth : Nat) (written : Value)
    (gives : Value → Prop) : Prop where
  exists_text : (∃ s, text = .ok s) ↔ Prints depth written
  spells : ∀ s, text = .ok s → ∃ t : Json.Whole, t.chars = s.toList ∧ t.body.value .json = written
  read : ∀ s, text = .ok s → written.hasLong = false → Json.read s = some written
  gives : gives written

theorem Returns.readsBack {write : α → Value} {read : Value → Checked α} {n : α}
    (returns : Returns write read n) (depth : Nat) :
    ReadsBack (dumpText depth (write n)) depth (write n) fun w => read w = .ok n := by
  have spelled {s : String} (dumped : dumpText depth (write n) = .ok s) :
      ((write n).hasLong = false → Json.read s = some (write n)) ∧
        ∃ t : Json.Whole, t.chars = s.toList ∧ t.body.value .json = write n := by
    obtain ⟨cs, text, decoded, t, chars, value⟩ :=
      Value.read_dump returns.json (dumpText_ok_iff.1 ⟨s, dumped⟩).writable
    have same : s = String.ofList cs := by
      obtain ⟨cs', text', limited⟩ := Value.bind_ok_iff.1 dumped
      cases text.symm.trans text'
      split at limited
      · contradiction
      · exact (Except.ok.inj limited).symm
    exact ⟨fun short => same ▸ decoded short, t, by rw [chars, same, String.toList_ofList], value⟩
  exact {
    exists_text := dumpText_ok_iff
    spells := fun s dumped => (spelled dumped).2
    read := fun s dumped => (spelled dumped).1
    gives := returns.reads }

theorem readsBack_of_restores {write : Bool → α → Value} {read : Value → Checked α}
    (restores : ∀ full, Restores full kind (write full) read) (json : v.IsJson fun _ => True) {n : α}
    (reads : read v = .ok n) (plain : Everywhere NodeKind.PlainUnknowns kind v) (depth : Bool → Nat) :
    (ReadsBack (dumpText (depth true) (write true n)) (depth true) (write true n) fun w => read w = .ok n) ∧
      (Everywhere NodeKind.SingleNames kind v →
        ReadsBack (dumpText (depth false) (write false n)) (depth false) (write false n) fun w =>
          read w = .ok n) := by
  constructor
  · exact (restores true v n json reads fun k m inside => ⟨plain k m inside, .inl rfl⟩).readsBack _
  · intro single
    exact (restores false v n json reads fun k m inside =>
      ⟨plain k m inside, .inr (single k m inside)⟩).readsBack _

theorem ReadAs.isJson (inside : ReadAs kind v k m) (json : v.IsJson floats) :
    (Value.map m).IsJson floats := by
  induction inside with
  | whole => exact json
  | inside mem given holds below ih =>
    cases json with
    | map fields nodup all =>
      obtain ⟨key, field⟩ := FieldRule.mem_of_given given
      exact ih (holds.isJson (all _ field))

theorem plainUnknowns_of_isJson (json : v.IsJson fun _ => False) :
    Everywhere NodeKind.PlainUnknowns kind v := by
  intro k m inside e mem
  cases inside.isJson json with
  | map fields nodup all =>
    obtain ⟨f, field, rfl⟩ := List.mem_map.1 (List.mem_filter.1 mem).1
    exact all f field

theorem Everywhere.of_children {p : NodeKind → Entries → Prop} (here : p kind m)
    (children : ∀ k u, kind.Child m k u → Everywhere p k u) : Everywhere p kind (.map m) := by
  intro k m' inside
  cases inside with
  | whole => exact here
  | inside mem given holds below => exact children _ _ ⟨_, mem, _, given, holds⟩ _ _ below

def nicknamedSchema : Value := .object
  [("ref", .str "A"), ("enum", .list [.int (10 ^ 30), .null]),
    ("additional_properties", .object [("type", .str "string")])]

theorem isJson_nicknamedSchema : nicknamedSchema.IsJson fun _ => False := by
  have number (n : Int) : (Value.int n).IsJson fun _ => False := .int n
  have nothing : Value.null.IsJson fun _ => False := .null
  have enum : (Value.list [.int (10 ^ 30), .null]).IsJson fun _ => False :=
    .list _ (by simp [number, nothing])
  have inner : (Value.object [("type", .str "string")]).IsJson fun _ => False :=
    .map [("type", .str "string")] (by simp) (List.forall_mem_singleton.2 (Value.isJson_str "string"))
  refine .map [("ref", .str "A"), ("enum", .list [.int (10 ^ 30), .null]),
    ("additional_properties", .object [("type", .str "string")])] (by simp) ?_
  simp only [List.forall_mem_cons, Value.isJson_str, enum, inner, true_and]
  exact nofun

theorem singleNames_nicknamedSchema : Everywhere NodeKind.SingleNames .schema nicknamedSchema := by
  refine .of_children (NodeKind.singleNames_of_length (by decide +kernel)) ?_
  rintro k u ⟨f, mem, v, given, holds⟩
  simp only [NodeKind.fields, List.mem_cons, List.not_mem_nil, or_false] at mem
  rcases mem with rfl | rfl | rfl | rfl | rfl | rfl | rfl
  all_goals simp [FieldRule.given?] at given
  all_goals subst given
  all_goals cases holds
  -- what is left is the schema of further properties, which holds no other
  refine .of_children (NodeKind.singleNames_of_length (by decide +kernel)) ?_
  rintro k u ⟨f, mem, v, given, holds⟩
  simp only [NodeKind.fields, List.mem_cons, List.not_mem_nil, or_false] at mem
  rcases mem with rfl | rfl | rfl | rfl | rfl | rfl | rfl
  all_goals simp [FieldRule.given?] at given
  all_goals subst given
  all_goals cases holds

def nestedSchema : Value := .object [("x", .nestedLists 254)]

end ApiModel
