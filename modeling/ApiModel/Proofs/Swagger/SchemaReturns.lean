import ApiModel.Proofs.Swagger.Lossless

namespace ApiModel

open Checked

variable {floats : Binary64 → Prop} {m : Entries} {v : Value} {fields : List (Str × Value)} {full : Bool}

namespace Schema

variable {room : Nat} {outer : List Nat}

theorem holds_of_itemsIn {ss : List Schema} (json : v.IsJson floats)
    (reads : itemsIn room outer v = .ok ss) :
    ∀ s ∈ ss, ∃ u, (Shape.looseNodes .schema).Holds v .schema u ∧ readIn room outer u = .ok s := by
  cases json with
  | null =>
    cases reads
    exact fun _ mem => nomatch mem
  | list items all =>
    intro s mem
    rw [itemsIn_list] at reads
    obtain ⟨u, inside, reads⟩ := exists_of_indexed reads s mem
    exact ⟨u, .looseItem _ items u inside, reads⟩
  | map fields nodup all =>
    intro s mem
    have single : indexed 0 ([Value.map (Entries.ofFields fields)].map (readIn room outer)) = .ok ss := by
      rw [← reads, itemsIn_map]
      rfl
    obtain ⟨u, inside, node⟩ := exists_of_indexed single s mem
    obtain rfl := List.mem_singleton.1 inside
    exact ⟨_, .onlyItem _ _, node⟩
  | bool b | int n | float x allowed | str s =>
    simp [itemsIn, Value.isNull, readEach?, readIn, indexed, fail, under, map, apply] at reads

theorem holds_of_propertiesIn {ps : List (Str × Schema)} (json : v.IsJson floats)
    (reads : propertiesIn room outer v = .ok ps) :
    (ps.map Prod.fst).Nodup ∧
      ∀ s ∈ ps.map Prod.snd, ∃ u, (Shape.table .schema).Holds v .schema u ∧
        readIn room outer u = .ok s := by
  cases json with
  | null =>
    cases reads
    exact ⟨List.nodup_nil, fun _ mem => nomatch mem⟩
  | map fields nodup all =>
    rw [propertiesIn_map] at reads
    obtain ⟨t, table, rfl⟩ := map_eq_ok_iff.1 reads
    refine ⟨t.nodup, List.forall_mem_map.2 fun e mem => ?_⟩
    obtain ⟨f, inside, -, value⟩ := exists_of_readTable nodup table e mem
    exact ⟨f.2, .entry .schema _ f.1 f.2 (Entries.mem_ofFields.2 inside), value⟩
  | bool b | int n | float x allowed | str s | list items all =>
    simp [propertiesIn, Value.isNull, readTable?, fail] at reads

theorem holds_of_additionalIn {s : Schema} (json : v.IsJson floats)
    (reads : additionalIn room outer v = .ok (.schema s)) :
    Shape.additional.Holds v .schema v ∧ readIn room outer v = .ok s := by
  have whole : readIn room outer v = .ok s := by
    unfold additionalIn orFlag at reads
    split at reads
    · cases reads
    cases node : readIn room outer v with
    | ok s' =>
      rw [node] at reads
      cases reads
      rfl
    | bad first others =>
      cases flag : v.readBool <;> simp [node, flag, under, map, apply] at reads
  obtain ⟨m, rfl⟩ := ((succeeds_readIn json).1 ⟨s, whole⟩).exists_map
  exact ⟨.additional m, whole⟩

theorem returns_of_parts {s : Schema} (fresh : Fresh full (s.slots full) s.extras)
    (extras : ∀ e ∈ s.extras, e.2.IsJson fun _ => False)
    (items : ∀ i ∈ s.items, Returns (toValue full) (readIn room outer) i)
    (nodup : (s.properties.map Prod.fst).Nodup)
    (properties : ∀ p ∈ s.properties.map Prod.snd, Returns (toValue full) (readIn room outer) p)
    (additional : ∀ a, s.additional = .schema a → Returns (toValue full) (readIn room outer) a) :
    Returns (toValue full) (readIn (room + 1) outer) s := by
  obtain ⟨itemsJson, itemsRead⟩ := Returns.list items
  obtain ⟨tableJson, tableRead⟩ := Returns.table (t := ⟨s.properties, nodup⟩) properties
  rw [Returns.tableValue_eq] at tableJson
  have additionalJson : ((additionalToValue? full s.additional).getD .null).IsJson fun _ => False := by
    cases same : s.additional with
    | absent => exact .null
    | flag b => exact .bool b
    | schema a => exact (additional a same).json
  have additionalRead :
      additionalIn room outer ((additionalToValue? full s.additional).getD .null) = .ok s.additional := by
    cases same : s.additional with
    | absent => rfl
    | flag b => rfl
    | schema a =>
      have whole := (additional a same).reads
      rw [additionalToValue?, Option.getD_some, additionalIn, whole, toValue_eq]
      rfl
  have additionalAbsent (none_ : (additionalToValue? full s.additional).isNone = true) :
      Checked.ok .absent = .ok s.additional := by
    cases same : s.additional <;> simp [same, additionalToValue?] at none_ ⊢
  constructor
  · rw [toValue_eq]
    refine fresh.isJson ?_ extras
    simp [slots, Value.isJson_str, Value.isJson_texts, itemsJson, tableJson, additionalJson]
  · rw [toValue_eq, readIn_map_eq_ok_iff]
    refine ⟨fresh.hasTornKey, fresh.readText_slot (by simp [slots]), ?_,
      fresh.readText_slot (by simp [slots]), fresh.readText_slot (by simp [slots]), ?_, ?_, ?_,
      fresh.readExtras_slots⟩
    · exact fresh.readList_slot (by simp [slots]) (Value.readLoose_texts s.type)
    · refine fresh.readList_slot (v := .list (s.items.map (toValue full))) (by simp [slots]) ?_
      rw [itemsIn_list]
      exact itemsRead
    · refine fresh.readList_slot (v := .map (Entries.ofFields (s.properties.map fun p =>
        (p.1, p.2.toValue full)))) (by simp [slots]) ?_
      rw [propertiesIn_map, tableRead]
      rfl
    · exact fresh.read_slot (by simp [slots]) additionalRead additionalAbsent

theorem restores : Restores full .schema (toValue full) (readIn room outer) := by
  intro v s json reads restorable
  induction room generalizing v s with
  | zero => simp [readIn_zero, fail] at reads
  | succ room ih =>
    cases json with
    | map fields nodup all =>
      have below {ss : List Schema}
          (each : ∀ s ∈ ss, ∃ u, NodeKind.schema.Child (Entries.ofFields fields) .schema u ∧
            readIn room outer u = .ok s) : ∀ s ∈ ss, Returns (toValue full) (readIn room outer) s := by
        intro s mem
        obtain ⟨u, child, node⟩ := each s mem
        exact ih u s (child.isJson all) node (restorable.child child)
      obtain ⟨whole, -, -, -, -, items, properties, additional, extras⟩ := readIn_map_eq_ok_iff.1 reads
      obtain ⟨fresh, plain⟩ := Fresh.of_restorable .schema (s.slots full) rfl nodup whole extras
        (restorable _ _ (.whole _ _))
      refine returns_of_parts fresh plain (below ?_) ?_ (below ?_) ?_
      · exact exists_child (f := ⟨["items"], .looseNodes .schema, false⟩) (by simp [NodeKind.fields]) all
          items (fun absent => (ok.inj absent).symm) fun v json reads => holds_of_itemsIn json reads
      · rcases FieldRule.cases_of_read (f := ⟨["properties"], .table .schema, false⟩) properties with
          absent | ⟨v, given, reads⟩
        · rw [← ok.inj absent]
          exact List.nodup_nil
        · obtain ⟨key, mem⟩ := FieldRule.mem_of_given given
          exact (holds_of_propertiesIn (all _ mem) reads).1
      · refine exists_child (f := ⟨["properties"], .table .schema, false⟩) (by simp [NodeKind.fields])
          all properties (fun absent => ?_) fun v json reads => (holds_of_propertiesIn json reads).2
        rw [← ok.inj absent, List.map_nil]
      · intro a same
        rw [same] at additional
        have inside : ∀ s ∈ [a], ∃ u, NodeKind.schema.Child (Entries.ofFields fields) .schema u ∧
            readIn room outer u = .ok s :=
          exists_child (f := ⟨["additionalProperties", "additional_properties"], .additional, false⟩)
            (by simp [NodeKind.fields]) all additional (by simp) fun v json reads =>
              List.forall_mem_singleton.2 ⟨v, holds_of_additionalIn json reads⟩
        exact below inside a (List.mem_singleton.2 rfl)
    | null | bool b | int n | float x allowed | str s | list items all =>
      simp [readIn, fail] at reads

end Schema

end ApiModel
