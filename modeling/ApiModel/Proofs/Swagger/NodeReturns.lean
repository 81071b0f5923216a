import ApiModel.Proofs.Swagger.SchemaReturns

namespace ApiModel

open Checked

variable {α : Type} {room : Nat} {kind k : NodeKind} {m : Entries} {v : Value} {fields : List (Str × Value)}
  {full : Bool}

section Fields

variable {write : α → Value} {read : Value → Checked α} (restores : Restores full k write read)
  (all : ∀ e ∈ fields, e.2.IsJson fun _ => True)
  (restorable : Everywhere (NodeKind.Restorable full) kind (.map (Entries.ofFields fields)))

include restores all restorable

theorem Restores.each {ns : List α}
    (inside : ∀ n ∈ ns, ∃ u, kind.Child (Entries.ofFields fields) k u ∧ read u = .ok n) :
    ∀ n ∈ ns, Returns write read n := by
  intro n mem
  obtain ⟨u, child, node⟩ := inside n mem
  exact restores u n (child.isJson all) node (restorable.child child)

theorem Restores.option {names : List String} (field : ⟨names, .optional k, false⟩ ∈ kind.fields)
    (maps : ∀ v n, v.IsJson (fun _ => True) → read v = .ok n → ∃ m, v = .map m) {o : Option α}
    (reads : Entries.read (Entries.ofFields fields) names (.ok none) (Value.readOptional read) = .ok o) :
    ∀ n ∈ o.toList, Returns write read n := by
  refine restores.each all restorable (exists_child field all reads (fun absent => ?_) ?_)
  · rw [← ok.inj absent]
    rfl
  · exact fun v json reads n mem => ⟨v, holds_of_readOptional (fun n => maps v n json) reads n mem⟩

theorem Restores.list {names : List String} (field : ⟨names, .nodes k, false⟩ ∈ kind.fields)
    {ns : List α}
    (reads : Entries.read (Entries.ofFields fields) names (.ok []) (Value.readList read) = .ok ns) :
    ∀ n ∈ ns, Returns write read n :=
  restores.each all restorable (exists_child field all reads (fun absent => (ok.inj absent).symm)
    fun _ json reads => holds_of_readList json reads)

theorem Restores.tableOrNull {names : List String} (field : ⟨names, .table k, false⟩ ∈ kind.fields)
    {t : Table α}
    (reads : Entries.read (Entries.ofFields fields) names (.ok .empty) (Value.readNodesOrNull read) =
      .ok t) : ∀ n ∈ t.entries.map Prod.snd, Returns write read n := by
  refine restores.each all restorable (exists_child field all reads (fun absent => ?_)
    fun _ json reads => holds_of_readNodesOrNull json reads)
  rw [← ok.inj absent]
  rfl

theorem Restores.tableBesideExtensions {names : List String} (required : Bool)
    (field : ⟨names, .tableBesideExtensions k, required⟩ ∈ kind.fields) {absent : Checked (Table α)}
    (without : ∀ t, absent = .ok t → t = .empty) {t : Table α}
    (reads : Entries.read (Entries.ofFields fields) names absent
      (Value.readNodesWithoutExtensions read) = .ok t) :
    (∀ e ∈ t.entries, e.1.startsWith "x-" = false) ∧
      ∀ n ∈ t.entries.map Prod.snd, Returns write read n := by
  constructor
  · rcases FieldRule.cases_of_read (f := ⟨names, .tableBesideExtensions k, required⟩) reads with
      absent_ | ⟨v, given, reads⟩
    · rw [without t absent_]
      exact fun _ mem => nomatch mem
    · obtain ⟨key, mem⟩ := FieldRule.mem_of_given given
      exact (holds_of_readNodesWithoutExtensions (k := k) (all _ mem) reads).1
  · refine restores.each all restorable (exists_child field all reads (fun absent_ => ?_)
      fun _ json reads => (holds_of_readNodesWithoutExtensions json reads).2)
    rw [without t absent_]
    rfl

end Fields

theorem Returns.nodes {write : α → Value} {read : Value → Checked α} {t : Table α}
    (each : ∀ n ∈ t.entries.map Prod.snd, Returns write read n)
    (kept : ∀ e ∈ t.entries, e.1.startsWith "x-" = false) :
    (tableValue write t).readNodesWithoutExtensions read = .ok t := by
  have nodup : ((t.entries.map fun e => (e.1, write e.2)).map Prod.fst).Nodup := by
    rw [List.map_map]
    exact t.nodup
  have whole : (t.entries.map fun e => (e.1, write e.2)).filter (fun f => !f.1.startsWith "x-") =
      t.entries.map fun e => (e.1, write e.2) := by
    refine List.filter_eq_self.2 (List.forall_mem_map.2 fun e mem => ?_)
    rw [kept e mem]
    rfl
  rw [tableValue_eq, Value.readNodesWithoutExtensions_ofFields, Value.dropExtensions_ofFields nodup, whole]
  exact (Returns.table each).2

theorem Schema.isNull_toValue (s : Schema) : (s.toValue full).isNull = false := by
  rw [toValue_eq]
  rfl

theorem Schema.maps_of_read (v : Value) (s : Schema) (json : v.IsJson fun _ => True)
    (reads : Schema.read room v = .ok s) : ∃ m, v = .map m :=
  ((succeeds_readIn json).1 ⟨s, reads⟩).exists_map

theorem Parameter.restores : Restores full .parameter (toValue full) (read room) := by
  intro v p json reads restorable
  cases json with
  | map fields nodup all =>
    obtain ⟨whole, reads⟩ := Entries.readWhole_eq_ok_iff.1 reads
    obtain ⟨-, -, -, -, -, -, -, schema, extras⟩ := ofEntries_eq_ok_iff.1 reads
    obtain ⟨fresh, plain⟩ := Fresh.of_restorable .parameter (p.slots full) rfl nodup whole extras
      (restorable _ _ (.whole _ _))
    obtain ⟨schemaJson, schemaRead⟩ := Returns.option Schema.isNull_toValue
      (Schema.restores.option all restorable (by simp [NodeKind.fields]) Schema.maps_of_read schema)
    constructor
    · rw [toValue_eq]
      refine fresh.isJson ?_ plain
      have flag : (Value.bool p.required).IsJson fun _ => False := .bool _
      simp [slots, Value.isJson_str, flag, schemaJson]
    · rw [toValue_eq]
      refine Entries.readWhole_eq_ok_iff.2 ⟨fresh.hasTornKey, ofEntries_eq_ok_iff.2 ?_⟩
      exact ⟨fresh.readText_slot (by simp [slots]),
        fresh.readText_slot (by simp [slots]), fresh.readText_slot (by simp [slots]),
        fresh.readText_slot (by simp [slots]), fresh.readFlag_slot (by simp [slots]),
        fresh.readText_slot (by simp [slots]), fresh.readText_slot (by simp [slots]),
        fresh.readOption_slot (by simp [slots]) schemaRead, fresh.readExtras_slots⟩
  | null | bool b | int n | float x allowed | str s | list items all => cases reads

theorem Response.restores : Restores full .response (toValue full) (read room) := by
  intro v r json reads restorable
  cases json with
  | map fields nodup all =>
    obtain ⟨whole, reads⟩ := Entries.readWhole_eq_ok_iff.1 reads
    obtain ⟨-, -, schema, extras⟩ := ofEntries_eq_ok_iff.1 reads
    obtain ⟨fresh, plain⟩ := Fresh.of_restorable .response (r.slots full) rfl nodup whole extras
      (restorable _ _ (.whole _ _))
    obtain ⟨schemaJson, schemaRead⟩ := Returns.option Schema.isNull_toValue
      (Schema.restores.option all restorable (by simp [NodeKind.fields]) Schema.maps_of_read schema)
    constructor
    · rw [toValue_eq]
      refine fresh.isJson ?_ plain
      simp [slots, Value.isJson_str, schemaJson]
    · rw [toValue_eq]
      refine Entries.readWhole_eq_ok_iff.2 ⟨fresh.hasTornKey, ofEntries_eq_ok_iff.2 ?_⟩
      exact ⟨fresh.readText_slot (by simp [slots]),
        fresh.readText_slot (by simp [slots]), fresh.readOption_slot (by simp [slots]) schemaRead,
        fresh.readExtras_slots⟩
  | null | bool b | int n | float x allowed | str s | list items all => cases reads

theorem Operation.restores : Restores full .operation (toValue full) (read room) := by
  intro v o json reads restorable
  cases json with
  | map fields nodup all =>
    obtain ⟨whole, reads⟩ := Entries.readWhole_eq_ok_iff.1 reads
    obtain ⟨-, -, -, -, parameters, responses, extras⟩ := ofEntries_eq_ok_iff.1 reads
    obtain ⟨fresh, plain⟩ := Fresh.of_restorable .operation (o.slots full) rfl nodup whole extras
      (restorable _ _ (.whole _ _))
    obtain ⟨listJson, listRead⟩ := Returns.list
      (Parameter.restores.list all restorable (by simp [NodeKind.fields]) parameters)
    obtain ⟨kept, each⟩ := Response.restores.tableBesideExtensions all restorable false
      (by simp [NodeKind.fields]) (fun t absent => (ok.inj absent).symm) responses
    have table := (Returns.table each).1
    constructor
    · rw [toValue_eq]
      refine fresh.isJson ?_ plain
      simp [slots, Value.isJson_str, Value.isJson_texts, listJson, table]
    · rw [toValue_eq]
      refine Entries.readWhole_eq_ok_iff.2 ⟨fresh.hasTornKey, ofEntries_eq_ok_iff.2 ?_⟩
      exact ⟨fresh.readText_slot (by simp [slots]),
        fresh.readText_slot (by simp [slots]), fresh.readText_slot (by simp [slots]),
        fresh.readList_slot (by simp [slots]) (Value.readList_texts o.tags),
        fresh.readList_slot (by simp [slots]) listRead,
        fresh.readTable_slot (by simp [slots]) (Returns.nodes each kept), fresh.readExtras_slots⟩
  | null | bool b | int n | float x allowed | str s | list items all => cases reads

theorem Operation.isNull_toValue (o : Operation) : (o.toValue full).isNull = false := by
  rw [toValue_eq]
  rfl

theorem Operation.maps_of_read (v : Value) (o : Operation) (json : v.IsJson fun _ => True)
    (reads : read room v = .ok o) : ∃ m, v = .map m := by
  cases json with
  | map fields nodup all => exact ⟨_, rfl⟩
  | null | bool b | int n | float x allowed | str s | list items all => cases reads

theorem PathItem.restores : Restores full .pathItem (toValue full) (read room) := by
  intro v p json reads restorable
  cases json with
  | map fields nodup all =>
    obtain ⟨whole, reads⟩ := Entries.readWhole_eq_ok_iff.1 reads
    obtain ⟨-, get, put, post, delete, options, head, patch, parameters, extras⟩ :=
      ofEntries_eq_ok_iff.1 reads
    obtain ⟨fresh, plain⟩ := Fresh.of_restorable .pathItem (p.slots full) rfl nodup whole extras
      (restorable _ _ (.whole _ _))
    obtain ⟨listJson, listRead⟩ := Returns.list
      (Parameter.restores.list all restorable (by simp [NodeKind.fields]) parameters)
    have operations : Restores full .operation (Operation.toValue full) (Operation.read (room - 1)) :=
      Operation.restores
    have verb {name : String} {o : Option Operation}
        (field : ⟨[name], .optional .operation, false⟩ ∈ NodeKind.pathItem.fields)
        (reads : readVerb room (Entries.ofFields fields) name = .ok o) :=
      Returns.option Operation.isNull_toValue
        (operations.option all restorable field Operation.maps_of_read reads)
    have get := verb (by simp [NodeKind.fields]) get
    have put := verb (by simp [NodeKind.fields]) put
    have post := verb (by simp [NodeKind.fields]) post
    have delete := verb (by simp [NodeKind.fields]) delete
    have options := verb (by simp [NodeKind.fields]) options
    have head := verb (by simp [NodeKind.fields]) head
    have patch := verb (by simp [NodeKind.fields]) patch
    constructor
    · rw [toValue_eq]
      refine fresh.isJson ?_ plain
      simp [slots, verbSlot, Value.isJson_str, listJson, get.1, put.1, post.1, delete.1, options.1,
        head.1, patch.1]
    · rw [toValue_eq]
      have slot {name : String} {o : Option Operation} (mem : verbSlot full name o ∈ p.slots full)
          (reads : ((o.map (Operation.toValue full)).getD .null).readOptional
            (Operation.read (room - 1)) = .ok o) :
          readVerb room (nodeEntries full (p.slots full) p.extras) name = .ok o :=
        fresh.readOption_slot mem reads
      refine Entries.readWhole_eq_ok_iff.2 ⟨fresh.hasTornKey, ofEntries_eq_ok_iff.2 ?_⟩
      exact ⟨fresh.readText_slot (by simp [slots]), slot (by simp [slots]) get.2,
        slot (by simp [slots]) put.2, slot (by simp [slots]) post.2, slot (by simp [slots]) delete.2,
        slot (by simp [slots]) options.2, slot (by simp [slots]) head.2, slot (by simp [slots]) patch.2,
        fresh.readList_slot (by simp [slots]) listRead, fresh.readExtras_slots⟩
  | null | bool b | int n | float x allowed | str s | list items all => cases reads

theorem Info.restores : Restores full .info (toValue full) read := by
  intro v i json reads restorable
  cases json with
  | map fields nodup all =>
    obtain ⟨whole, reads⟩ := Entries.readWhole_eq_ok_iff.1 reads
    obtain ⟨-, -, -, extras⟩ := ofEntries_eq_ok_iff.1 reads
    obtain ⟨fresh, plain⟩ := Fresh.of_restorable .info i.slots rfl nodup whole extras
      (restorable _ _ (.whole _ _))
    constructor
    · rw [toValue_eq]
      refine fresh.isJson ?_ plain
      simp [slots, Value.isJson_str]
    · rw [toValue_eq]
      have version : (Value.str i.version).readAnyOrNull = .ok i.version := rfl
      have unset (empty : i.version.isEmpty = true) : ok ("" : Str) = ok i.version := by
        rw [Str.isEmpty_iff.1 empty]
      refine Entries.readWhole_eq_ok_iff.2 ⟨fresh.hasTornKey, ofEntries_eq_ok_iff.2 ?_⟩
      exact ⟨fresh.require_slot (by simp [slots]) (Value.readText_str i.title),
        fresh.read_slot (by simp [slots]) version unset, fresh.readText_slot (by simp [slots]),
        fresh.readExtras_slots⟩
  | null | bool b | int n | float x allowed | str s | list items all => cases reads

theorem Info.maps_of_read (v : Value) (i : Info) (json : v.IsJson fun _ => True)
    (reads : read v = .ok i) : ∃ m, v = .map m := by
  cases json with
  | map fields nodup all => exact ⟨_, rfl⟩
  | null | bool b | int n | float x allowed | str s | list items all => cases reads

theorem Document.restores : Restores full .document (toValue full) read := by
  intro v d json reads restorable
  cases json with
  | map fields nodup all =>
    obtain ⟨whole, reads⟩ := Entries.readWhole_eq_ok_iff.1 reads
    obtain ⟨-, info, paths, definitions, extras⟩ := ofEntries_eq_ok_iff.1 reads
    obtain ⟨fresh, plain⟩ := Fresh.of_restorable .document (d.slots full) rfl nodup whole extras
      (restorable _ _ (.whole _ _))
    have infos : ∀ i ∈ [d.info], Returns (Info.toValue full) Info.read i := by
      refine Info.restores.each all restorable (exists_child (f := ⟨["info"], .node .info, true⟩)
        (by simp [NodeKind.fields]) all info (fun absent => by simp [fail, under] at absent)
        fun v json reads => ?_)
      obtain ⟨m, rfl⟩ := Info.maps_of_read v d.info json reads
      exact List.forall_mem_singleton.2 ⟨_, .node .info m, reads⟩
    have infoBack := infos d.info (List.mem_singleton.2 rfl)
    obtain ⟨kept, each⟩ := PathItem.restores.tableBesideExtensions all restorable true
      (by simp [NodeKind.fields]) (fun _ absent => by simp [fail, under] at absent) paths
    have pathsJson := (Returns.table each).1
    obtain ⟨schemasJson, schemasRead⟩ := Returns.table
      (Schema.restores.tableOrNull all restorable (by simp [NodeKind.fields]) definitions)
    constructor
    · rw [toValue_eq]
      refine fresh.isJson ?_ plain
      simp [slots, Value.isJson_str, infoBack.json, pathsJson, schemasJson]
    · rw [toValue_eq]
      have version : (Value.str d.swagger).readAny = .ok d.swagger := rfl
      have unset (standard : decide (d.swagger = defaultVersion) = true) :
          ok (defaultVersion : Str) = ok d.swagger := by
        rw [of_decide_eq_true standard]
      have schemasBack : (tableValue (Schema.toValue full) d.definitions).readNodesOrNull
          (Schema.read (nestingLimit - 1)) = .ok d.definitions := by
        rw [Returns.tableValue_eq]
        exact schemasRead
      refine Entries.readWhole_eq_ok_iff.2 ⟨fresh.hasTornKey, ofEntries_eq_ok_iff.2 ?_⟩
      exact ⟨fresh.read_slot (by simp [slots]) version unset,
        fresh.require_slot (by simp [slots]) infoBack.reads,
        fresh.require_slot (by simp [slots]) (Returns.nodes each kept),
        fresh.readTable_slot (by simp [slots]) schemasBack, fresh.readExtras_slots⟩
  | null | bool b | int n | float x allowed | str s | list items all => cases reads

end ApiModel
