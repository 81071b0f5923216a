import Mathlib.Data.List.TakeWhile
import ApiModel.Building.Inference
import ApiModel.Proofs.Swagger.NodeTexts

namespace ApiModel

/-- The name is what stands behind the last slash of the reference, or all of it if there is none. -/
def IsLastPart (name ref : Str) : Prop :=
  .char '/' ∉ name.toList ∧ (ref = name ∨ ∃ folder : Str, ref = folder ++ "/" ++ name)

theorem isLastPart_nameForRef (ref : Str) : IsLastPart (nameForRef ref) ref := by
  have behind : (nameForRef ref).toList = (ref.toList.reverse.takeWhile (· ≠ .char '/')).reverse := rfl
  have whole : ref.toList =
      (ref.toList.reverse.dropWhile (· ≠ .char '/')).reverse ++ (nameForRef ref).toList := by
    rw [behind, ← List.reverse_append, List.takeWhile_append_dropWhile, List.reverse_reverse]
  constructor
  · rw [behind, List.mem_reverse]
    intro mem
    simpa using List.mem_takeWhile_imp mem
  · cases front : ref.toList.reverse.dropWhile (· ≠ .char '/') with
    | nil =>
      rw [front, List.reverse_nil, List.nil_append] at whole
      exact .inl (Str.ext whole)
    | cons l others =>
      have slash : l = .char '/' := by
        have stops := List.head?_dropWhile_not (· ≠ .char '/') ref.toList.reverse
        rw [front] at stops
        simpa using stops
      refine .inr ⟨.ofList others.reverse, Str.ext ?_⟩
      rw [whole, front, slash]
      simp [Str.toList_coe]

inductive Additional.SameRef : Additional Schema → Additional Schema → Prop
  | absent : SameRef .absent .absent
  | flag (allowed allowed' : Bool) : SameRef (.flag allowed) (.flag allowed')
  | schema (s s' : Schema) (ref : s.ref = s'.ref) : SameRef (.schema s) (.schema s')

namespace Schema

variable {s s' : Schema}

def DeclaresType (s : Schema) : Prop :=
  ∃ declared, s.type = [declared] ∧
    ((declared = "string" ∨ declared = "integer" ∨ declared = "number") ∨
      (declared = "array" ∧ ∃ item, s.items = [item] ∧ item.ref ≠ "") ∨
      (declared = "object" ∧ s.additional = .absent))

structure Unmapped (s : Schema) : Prop where
  ref : s.ref = ""
  additional : ¬∃ a, s.additional = .schema a ∧ a.ref ≠ ""
  declared : ¬s.DeclaresType

structure SameOutline (s s' : Schema) : Prop where
  ref : s.ref = s'.ref
  type : s.type = s'.type
  format : s.format = s'.format
  itemCount : s.items.length = s'.items.length
  onlyItem : ∀ item item', s.items = [item] → s'.items = [item'] → item.ref = item'.ref
  additional : s.additional.SameRef s'.additional

/-- A type that the mapping gives to the schema, with the part of the schema that it stands for. -/
inductive MapsTo (s : Schema) : TypeRef → Prop
  | reference (given : s.ref ≠ "") : MapsTo s (.named (nameForRef s.ref))
  | primitive (name : Str) : MapsTo s (.primitive name)
  | array (item : Schema) (only : s.items = [item]) (given : item.ref ≠ "") :
      MapsTo s (.array (nameForRef item.ref))
  | anything : MapsTo s (.map none)
  | table (a : Schema) (additional : s.additional = .schema a) (given : a.ref ≠ "") :
      MapsTo s (.map (some (nameForRef a.ref)))

theorem additionalRef?_eq_some_iff {ref : Str} :
    s.additionalRef? = some ref ↔ ∃ a, s.additional = .schema a ∧ a.ref ≠ "" ∧ a.ref = ref := by
  unfold additionalRef?
  cases s.additional with
  | absent | flag allowed => simp
  | schema a =>
    by_cases empty : a.ref.isEmpty = true
    · simp [← Str.isEmpty_iff, empty]
    · simp [← Str.isEmpty_iff, empty]

theorem isOnly_iff {type : String} : s.isOnly type = true ↔ s.type = [(type : Str)] := decide_eq_true_iff

theorem mapsTo_of_declaredTypeRef? {r : TypeRef} (found : s.declaredTypeRef? = some r) : s.MapsTo r := by
  unfold declaredTypeRef? at found
  split_ifs at found with string integer format number array object
  · exact Option.some.inj found ▸ .primitive _
  · exact Option.some.inj found ▸ .primitive _
  · exact Option.some.inj found ▸ .primitive _
  · exact Option.some.inj found ▸ .primitive _
  · split at found
    · rename_i item only
      split_ifs at found with empty
      exact Option.some.inj found ▸ .array item only fun missing => empty (Str.isEmpty_iff.2 missing)
    · contradiction
  · split at found
    · exact Option.some.inj found ▸ .anything
    · contradiction

theorem mapsTo_of_typeRef? {r : TypeRef} (found : s.typeRef? = some r) : s.MapsTo r := by
  unfold typeRef? at found
  split at found
  · rename_i filled
    cases found
    exact .reference (by simpa [← Str.isEmpty_iff] using filled)
  · split at found
    · rename_i declared
      cases found
      exact mapsTo_of_declaredTypeRef? declared
    · obtain ⟨ref, additional, rfl⟩ := Option.map_eq_some_iff.1 found
      obtain ⟨a, given, filled, rfl⟩ := additionalRef?_eq_some_iff.1 additional
      exact .table a given filled

theorem declaredTypeRef?_eq_none_iff : s.declaredTypeRef? = none ↔ ¬s.DeclaresType := by
  unfold declaredTypeRef? DeclaresType
  split_ifs with string integer number array object
  · simp [isOnly_iff.1 string]
  · simp [isOnly_iff.1 integer]
  · simp [isOnly_iff.1 number]
  · split
    · rename_i item only
      simp [isOnly_iff.1 array, only, Str.isEmpty_iff]
    · rename_i several
      have noItem : ¬∃ item, s.items = [item] ∧ item.ref ≠ "" := fun ⟨item, only, _⟩ => several item only
      simp [isOnly_iff.1 array, noItem]
  · split
    · rename_i absent
      simp [isOnly_iff.1 object, absent]
    · rename_i given
      simpa [isOnly_iff.1 object] using given
  · refine iff_of_true rfl ?_
    rintro ⟨declared, type, (rfl | rfl | rfl) | ⟨rfl, -⟩ | ⟨rfl, -⟩⟩
    · exact string (isOnly_iff.2 type)
    · exact integer (isOnly_iff.2 type)
    · exact number (isOnly_iff.2 type)
    · exact array (isOnly_iff.2 type)
    · exact object (isOnly_iff.2 type)

theorem typeRef?_eq_none_iff : s.typeRef? = none ↔ s.Unmapped := by
  have additional : s.additionalRef? = none ↔ ¬∃ a, s.additional = .schema a ∧ a.ref ≠ "" := by
    rw [Option.eq_none_iff_forall_ne_some]
    simp only [ne_eq, additionalRef?_eq_some_iff]
    grind
  unfold typeRef?
  by_cases filled : s.ref = ""
  · rw [if_neg (by simp [filled, Str.isEmpty_iff])]
    cases declared : s.declaredTypeRef? with
    | some r =>
      refine iff_of_false nofun fun unmapped => ?_
      rw [declaredTypeRef?_eq_none_iff.2 unmapped.declared] at declared
      contradiction
    | none =>
      rw [Option.map_eq_none_iff, additional]
      exact ⟨fun other => ⟨filled, other, declaredTypeRef?_eq_none_iff.1 declared⟩, Unmapped.additional⟩
  · rw [if_pos (by simpa [← Str.isEmpty_iff] using filled)]
    exact iff_of_false nofun fun unmapped => filled unmapped.ref

theorem SameOutline.additionalRef? (same : s.SameOutline s') :
    s'.additionalRef? = s.additionalRef? := by
  unfold Schema.additionalRef?
  generalize s.additional = given, s'.additional = given', same.additional = related
  cases related with
  | absent | flag allowed allowed' => rfl
  | schema a a' ref => simp only [ref]

theorem SameOutline.items (same : s.SameOutline s') :
    (∃ item item', s.items = [item] ∧ s'.items = [item'] ∧ item.ref = item'.ref) ∨
      (∀ item, s.items ≠ [item]) ∧ ∀ item, s'.items ≠ [item] := by
  by_cases single : s.items.length = 1
  · obtain ⟨item, only⟩ := List.length_eq_one_iff.1 single
    obtain ⟨item', only'⟩ := List.length_eq_one_iff.1 (same.itemCount ▸ single)
    exact .inl ⟨item, item', only, only', same.onlyItem item item' only only'⟩
  · refine .inr ⟨fun item only => single (by rw [only]; rfl), fun item only => single ?_⟩
    rw [same.itemCount, only]
    rfl

theorem SameOutline.declaredTypeRef? (same : s.SameOutline s') :
    s'.declaredTypeRef? = s.declaredTypeRef? := by
  have only (type : String) : s'.isOnly type = s.isOnly type := by rw [isOnly, isOnly, same.type]
  unfold Schema.declaredTypeRef?
  simp only [only, ← same.format]
  split_ifs with string integer format number array object
  · rfl
  · rfl
  · rfl
  · rfl
  · rcases same.items with ⟨item, item', only, only', ref⟩ | ⟨several, several'⟩
    · simp only [only, only', ref]
    · split
      · rename_i item only
        exact absurd only (several' item)
      · rfl
  · generalize s.additional = given, s'.additional = given', same.additional = related
    cases related <;> rfl
  · rfl

theorem SameOutline.typeRef? (same : s.SameOutline s') : s'.typeRef? = s.typeRef? := by
  rw [Schema.typeRef?, Schema.typeRef?, same.ref, same.declaredTypeRef?, same.additionalRef?]

theorem typeRef_of_mapped {r : TypeRef} (found : s.typeRef? = some r) : s.typeRef.result = .ok r := by
  rw [typeRef, found]
  rfl

theorem typeRef_of_unmapped (unmapped : s.Unmapped) :
    s.typeRef.result = s.dump.map fun raw => .unsupported raw := by
  rw [typeRef, typeRef?_eq_none_iff.2 unmapped]
  cases dumped : s.dump <;> rfl

/-- The type of a schema comes from the mapping, or the mapping does not know the schema and it is its
    text. -/
theorem typeRef_cases {r : TypeRef} (built : s.typeRef.result = .ok r) :
    (¬s.Unmapped ∧ s.MapsTo r) ∨ (s.Unmapped ∧ ∃ raw, s.dump = .ok raw ∧ r = .unsupported raw) := by
  cases found : s.typeRef? with
  | some known =>
    rw [typeRef_of_mapped found] at built
    cases built
    have mapped : ¬s.Unmapped := by
      rw [← typeRef?_eq_none_iff, found]
      nofun
    exact .inl ⟨mapped, mapsTo_of_typeRef? found⟩
  | none =>
    rw [typeRef, found] at built
    obtain ⟨raw, dumped, rest⟩ := Traced.result_bind_eq_ok.1 built
    obtain ⟨-, -, returned⟩ := Traced.result_bind_eq_ok.1 rest
    cases returned
    exact .inr ⟨typeRef?_eq_none_iff.1 found, raw, dumped, rfl⟩

theorem exists_typeRef_of_mapped (mapped : ¬s.Unmapped) :
    ∃ r, s.typeRef? = some r ∧ s.typeRef.result = .ok r ∧ s.MapsTo r := by
  cases found : s.typeRef? with
  | none => exact absurd (typeRef?_eq_none_iff.1 found) mapped
  | some r => exact ⟨r, rfl, typeRef_of_mapped found, mapsTo_of_typeRef? found⟩

theorem MapsTo.ne_unsupported {r : TypeRef} (maps : s.MapsTo r) (raw : Str) : r ≠ .unsupported raw := by
  rintro rfl
  cases maps

/-- The type is no pointer, and each name of a type in it is the last part of the reference that the name
    stands for. -/
structure Explains (s : Schema) (r : TypeRef) : Prop where
  pointer : ∀ target, r ≠ .pointer target
  named : ∀ name, r = .named name → IsLastPart name s.ref
  array : ∀ name, r = .array name → ∃ item, s.items = [item] ∧ IsLastPart name item.ref
  map : ∀ name, r = .map (some name) → ∃ a, s.additional = .schema a ∧ IsLastPart name a.ref

theorem MapsTo.explains {r : TypeRef} (maps : s.MapsTo r) : s.Explains r where
  pointer := by
    rintro target rfl
    cases maps
  named := by
    rintro name rfl
    cases maps with
    | reference => exact isLastPart_nameForRef s.ref
  array := by
    rintro name rfl
    cases maps with
    | array item only => exact ⟨item, only, isLastPart_nameForRef item.ref⟩
  map := by
    rintro name rfl
    cases maps with
    | table a additional => exact ⟨a, additional, isLastPart_nameForRef a.ref⟩

theorem explains_unsupported (raw : Str) : s.Explains (.unsupported raw) := ⟨nofun, nofun, nofun, nofun⟩

/-- The type of a schema is its own text exactly if the mapping does not know the schema, and only the text
    may then be missing. Any type is no pointer and has its names from the ends of references, and that of a
    schema which the mapping knows depends on nothing but what the mapping looks at. -/
theorem typeRef_determined (s : Schema) :
    (s.typeRef.result = s.dump.map (fun raw => .unsupported raw) ↔ s.Unmapped) ∧
    ((∃ r, s.typeRef.result = .ok r) ↔ (s.Unmapped → s.Prints)) ∧
    (∀ r, s.typeRef.result = .ok r → s.Explains r ∧ ((∃ raw, r = .unsupported raw) ↔ s.Unmapped)) ∧
    ∀ s', s.SameOutline s' → ¬s.Unmapped → s'.typeRef.result = s.typeRef.result := by
  refine ⟨⟨fun text => ?_, typeRef_of_unmapped⟩, ?_, fun r built => ?_, fun s' same mapped => ?_⟩
  · by_contra mapped
    obtain ⟨r, -, built, maps⟩ := exists_typeRef_of_mapped mapped
    rw [built] at text
    cases dumped : s.dump with
    | error fault =>
      rw [dumped] at text
      contradiction
    | ok raw =>
      rw [dumped] at text
      exact maps.ne_unsupported raw (Except.ok.inj text)
  · by_cases unmapped : s.Unmapped
    · rw [typeRef_of_unmapped unmapped, imp_iff_right unmapped, ← s.dump_ok_iff]
      cases s.dump <;> simp [Except.map]
    · obtain ⟨r, -, built, -⟩ := exists_typeRef_of_mapped unmapped
      exact iff_of_true ⟨r, built⟩ fun other => absurd other unmapped
  · rcases typeRef_cases built with ⟨mapped, maps⟩ | ⟨unmapped, raw, -, rfl⟩
    · exact ⟨maps.explains, iff_of_false (fun ⟨raw, text⟩ => maps.ne_unsupported raw text) mapped⟩
    · exact ⟨explains_unsupported raw, iff_of_true ⟨raw, rfl⟩ unmapped⟩
  · obtain ⟨r, found, built, -⟩ := exists_typeRef_of_mapped mapped
    rw [typeRef_of_mapped (same.typeRef?.trans found), built]

def textList (additional : Additional Schema) : Schema :=
  ⟨"", ["array"], "", "", [⟨"", ["string"], "", "", [], [], .absent, []⟩], [], additional, []⟩

def pageReference : Schema := ⟨"#/definitions/Page", [], "", "", [], [], .absent, []⟩

/-- A list of texts is its own text, unless its further properties are a reference. -/
theorem textList_determined :
    ((textList .absent).Unmapped ∧ (textList .absent).typeRef.result = .ok (.unsupported
      "\x7b\"type\":[\"array\"],\"items\":[\x7b\"type\":[\"string\"]\x7d]\x7d")) ∧
    ¬(textList (.schema pageReference)).Unmapped ∧ IsLastPart "Page" "#/definitions/Page" ∧
    ∀ description properties extras,
      { textList (.schema pageReference) with description, properties, extras }.typeRef.result =
        .ok (.map (some "Page")) := by
  obtain ⟨text, -, -, -⟩ := typeRef_determined (textList .absent)
  obtain ⟨-, -, types, others⟩ := typeRef_determined (textList (.schema pageReference))
  have built : (textList (.schema pageReference)).typeRef.result = .ok (.map (some "Page")) := rfl
  obtain ⟨explains, unsupported⟩ := types _ built
  have mapped : ¬(textList (.schema pageReference)).Unmapped := by
    intro unmapped
    obtain ⟨raw, same⟩ := unsupported.2 unmapped
    contradiction
  refine ⟨⟨text.1 rfl, by decide +kernel⟩, mapped, ?_, fun description properties extras => ?_⟩
  · obtain ⟨a, given, last⟩ := explains.map "Page" rfl
    cases given
    exact last
  · rw [others { textList (.schema pageReference) with description, properties, extras } _ mapped, built]
    exact ⟨rfl, rfl, rfl, rfl, fun _ _ only only' => by rw [only] at only'; cases only'; rfl, .schema _ _ rfl⟩

end Schema

end ApiModel
