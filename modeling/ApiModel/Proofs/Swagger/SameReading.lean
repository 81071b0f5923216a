import ApiModel.Proofs.Swagger.FieldSpelling

namespace ApiModel

open Checked

variable {α : Type} {kind k : NodeKind} {m m' l r : Entries} {v v' : Value} {names : List String}
  {required : Bool} {absent : Checked α} {reader : Value → Checked α}

structure NodeKind.Agree (kind : NodeKind) (m m' : Entries) : Prop where
  read : ∀ f ∈ kind.fields, ∀ {α : Type} {absent : Checked α} {reader : Value → Checked α},
    f.Suits kind absent reader →
      (Entries.read m f.names absent reader).Alike (Entries.read m' f.names absent reader)
  extras : Entries.extras m kind.names = Entries.extras m' kind.names
  keys : m.hasTornKey = m'.hasTornKey

namespace NodeKind.Agree

variable {f : FieldRule} {a b : String}

theorem hasTornKey_insert (l r : Entries) (a : String) (v : Value) :
    (l ++ (.str a, v) :: r).hasTornKey = (l ++ r).hasTornKey := by
  simp [Entries.hasTornKey, Scalar.isTorn]

theorem of_field (field : f ∈ kind.fields) (once : f.given? (l ++ r) = none) (nameA : a ∈ f.names)
    (nameB : b ∈ f.names)
    (alike : ∀ {α : Type} {absent : Checked α} {reader : Value → Checked α},
      f.Suits kind absent reader → (reader v).Alike (reader v')) :
    kind.Agree (l ++ (.str a, v) :: r) (l ++ (.str b, v') :: r) where
  read g fieldG _ absent reader suits := by
    by_cases same : g = f
    · subst same
      rw [Entries.read, Entries.read, Entries.field?_once once nameA, Entries.field?_once once nameB]
      exact (alike suits).under _ _
    · rw [Entries.read, Entries.read, field?_other field once nameA fieldG same,
        field?_other field once nameB fieldG same]
      exact .refl _
  extras := (extras_once field once nameA).trans (extras_once field once nameB).symm
  keys := by rw [hasTornKey_insert, hasTornKey_insert]

theorem of_blank (field : f ∈ kind.fields) (once : f.given? (l ++ r) = none) (name : a ∈ f.names)
    (free : f.required = false) (blank : f.shape.Blank kind v) :
    kind.Agree (l ++ r) (l ++ (.str a, v) :: r) where
  read g fieldG _ absent reader suits := by
    by_cases same : g = f
    · subst same
      have nothing : Entries.field? (l ++ r) g.names = none :=
        Option.map_eq_none_iff.1 ((Entries.field?_map_snd (l ++ r) g.names).trans once)
      rw [Entries.read, Entries.read, nothing, Entries.field?_once once name]
      exact (suits.blank free v blank).under_left a |>.symm
    · rw [Entries.read, Entries.read, field?_other field once name fieldG same]
      exact .refl _
  extras := (extras_once field once name).symm
  keys := (hasTornKey_insert l r a v).symm

theorem of_perm (perm : m.Perm m') (unknown : kind.unknowns m = kind.unknowns m')
    (single : kind.SingleNames m) (nodup : (m.map Prod.fst).Nodup) : kind.Agree m m' where
  read f _ _ absent reader _ := by
    have same : Entries.field? m f.names = Entries.field? m' f.names :=
      Entries.field?_congr fun a _ => Entries.get?_perm perm nodup a
    rw [Entries.read, Entries.read, same]
    exact .refl _
  extras := by
    have single' : kind.SingleNames m' := by
      intro f field a nameA b nameB
      rw [← Entries.get?_perm perm nodup a, ← Entries.get?_perm perm nodup b]
      exact single f field a nameA b nameB
    rw [extras_eq_unknowns single, extras_eq_unknowns single', unknown]
  keys := perm.any_eq

theorem readText (agree : kind.Agree m m') {names : List String}
    (field : ⟨names, .text, false⟩ ∈ kind.fields) (s : Str) :
    Entries.readText m names = .ok s ↔ Entries.readText m' names = .ok s :=
  agree.read _ field (.text fun _ => rfl) s

theorem readExtras (agree : kind.Agree m m') :
    Entries.readExtras m kind.names = Entries.readExtras m' kind.names := by
  rw [Entries.readExtras, Entries.readExtras, agree.extras]

theorem readWhole (agree : kind.Agree m m') {c c' : Checked α} (alike : c.Alike c') :
    (m.readWhole c).Alike (m'.readWhole c') := by
  intro a
  rw [Entries.readWhole_eq_ok_iff, Entries.readWhole_eq_ok_iff, agree.keys]
  exact and_congr_right fun _ => alike a

end NodeKind.Agree

section Kinds

attribute [local simp] NodeKind.fields

theorem Schema.alike (agree : NodeKind.schema.Agree m m') (room : Nat) (outer : List Nat) :
    (readIn room outer (.map m)).Alike (readIn room outer (.map m')) := by
  intro s
  cases room with
  | zero => rw [readIn_zero, readIn_zero]
  | succ room =>
  rw [readIn_map_eq_ok_iff, readIn_map_eq_ok_iff, agree.keys]
  refine and_congr_right fun _ => and_congr (agree.readText (by simp) _) <|
    and_congr (agree.read _ ?_ .looseTexts _) <| and_congr (agree.readText (by simp) _) <|
    and_congr (agree.readText (by simp) _) <| and_congr (agree.read _ ?_ .items _) <|
    and_congr (agree.read _ ?_ .properties _) <|
    and_congr (agree.read _ ?_ .additional _) (Eq.congr_left agree.readExtras)
  all_goals simp

theorem Parameter.alike (agree : NodeKind.parameter.Agree m m') (room : Nat) :
    (ofEntries room m).Alike (ofEntries room m') := by
  intro p
  rw [ofEntries_eq_ok_iff, ofEntries_eq_ok_iff]
  refine and_congr (agree.readText (by simp) _) <| and_congr (agree.readText (by simp) _) <|
    and_congr (agree.readText (by simp) _) <| and_congr (agree.readText (by simp) _) <|
    and_congr (agree.read _ ?_ .truth _) <| and_congr (agree.readText (by simp) _) <|
    and_congr (agree.readText (by simp) _) <|
    and_congr (agree.read _ ?_ .schema _) (Eq.congr_left agree.readExtras)
  all_goals simp

theorem Response.alike (agree : NodeKind.response.Agree m m') (room : Nat) :
    (ofEntries room m).Alike (ofEntries room m') := by
  intro r
  rw [ofEntries_eq_ok_iff, ofEntries_eq_ok_iff]
  refine and_congr (agree.readText (by simp) _) <| and_congr (agree.readText (by simp) _) <|
    and_congr (agree.read _ ?_ .schema _) (Eq.congr_left agree.readExtras)
  simp

theorem Operation.alike (agree : NodeKind.operation.Agree m m') (room : Nat) :
    (ofEntries room m).Alike (ofEntries room m') := by
  intro o
  rw [ofEntries_eq_ok_iff, ofEntries_eq_ok_iff]
  refine and_congr (agree.readText (by simp) _) <| and_congr (agree.readText (by simp) _) <|
    and_congr (agree.readText (by simp) _) <| and_congr (agree.read _ ?_ .texts _) <|
    and_congr (agree.read _ ?_ .parameters _) <|
    and_congr (agree.read _ ?_ .responses _)
      (Eq.congr_left agree.readExtras)
  all_goals simp

theorem PathItem.alike (agree : NodeKind.pathItem.Agree m m') (room : Nat) :
    (ofEntries room m).Alike (ofEntries room m') := by
  intro p
  have verb {name : String} (field : ⟨[name], .optional .operation, false⟩ ∈ NodeKind.pathItem.fields)
      (o : Option Operation) : readVerb room m name = .ok o ↔ readVerb room m' name = .ok o := by
    rw [readVerb, readVerb]
    exact agree.read _ field .verb o
  rw [ofEntries_eq_ok_iff, ofEntries_eq_ok_iff]
  refine and_congr (agree.readText (by simp) _) <| and_congr (verb (by simp) _) <|
    and_congr (verb (by simp) _) <| and_congr (verb (by simp) _) <| and_congr (verb (by simp) _) <|
    and_congr (verb (by simp) _) <| and_congr (verb (by simp) _) <| and_congr (verb (by simp) _) <|
    and_congr (agree.read _ ?_ .parameters _) (Eq.congr_left agree.readExtras)
  simp

theorem Info.alike (agree : NodeKind.info.Agree m m') : (ofEntries m).Alike (ofEntries m') := by
  intro i
  rw [ofEntries_eq_ok_iff, ofEntries_eq_ok_iff]
  refine and_congr (agree.read _ ?_ .title _) <| and_congr (agree.read _ ?_ .version _) <|
    and_congr (agree.readText (by simp) _) (Eq.congr_left agree.readExtras)
  all_goals simp

theorem Document.alike (agree : NodeKind.document.Agree m m') :
    (ofEntries m).Alike (ofEntries m') := by
  intro d
  rw [ofEntries_eq_ok_iff, ofEntries_eq_ok_iff]
  refine and_congr (agree.read _ ?_ .swagger _) <|
    and_congr (agree.read _ ?_ .info _) <|
    and_congr (agree.read _ ?_ .paths _) <|
    and_congr (agree.read _ ?_ .definitions _) (Eq.congr_left agree.readExtras)
  all_goals simp

end Kinds

/-- Mappings that agree in their fields and in what is no field are read as the same node. -/
theorem NodeKind.Agree.sameRead (agree : kind.Agree m m') : kind.SameRead (.map m) (.map m') := by
  cases kind with
  | schema => exact Schema.alike agree
  | parameter => exact fun room => agree.readWhole (Parameter.alike agree room)
  | response => exact fun room => agree.readWhole (Response.alike agree room)
  | operation => exact fun room => agree.readWhole (Operation.alike agree room)
  | pathItem => exact fun room => agree.readWhole (PathItem.alike agree room)
  | info => exact agree.readWhole (Info.alike agree)
  | document => exact agree.readWhole (Document.alike agree)

theorem Respells.sameRead (step : Respells kind v v') : kind.SameRead v v' := by
  -- by the depth of the rewriting: around the node that changes, the mappings differ in one field only
  induction step with
  | order kind m m' perm unknown single nodup =>
    exact (NodeKind.Agree.of_perm perm unknown single nodup).sameRead
  | name kind f field l r once a b nameA nameB v =>
    exact (NodeKind.Agree.of_field field once nameA nameB fun _ => .refl _).sameRead
  | blank kind f field l r once a name free v blank =>
    exact (NodeKind.Agree.of_blank field once name free blank).sameRead
  | form kind f field l r once a name v v' respelled =>
    exact (NodeKind.Agree.of_field field once name name fun suits => suits.form v v' respelled).sameRead
  | inside kind f field l r once a name k hole place u u' below ih =>
    obtain ⟨m, m', rfl, rfl⟩ := below.maps
    exact (NodeKind.Agree.of_field field once name name fun suits =>
      suits.inside k hole place m m' ih).sameRead

namespace Document

theorem read_alike (same : SameUpToSpelling .document v v') : (read v).Alike (read v') := by
  have steps := same.mono (p := fun v v' => (read v).Alike (read v')) fun _ _ step => step.sameRead
  exact (Alike.equivalence.comap read).eqvGen_iff.1 steps

/-- However a document is spelled, it is accepted or not, it is the same document, it has the same texts
    and the same model is built of it. -/
theorem ofValue_upToSpelling (same : SameUpToSpelling .document v v') :
    ((∃ d, ofValue v = .ok d) ↔ ∃ d, ofValue v' = .ok d) ∧
      ∀ d d', ofValue v = .ok d → ofValue v' = .ok d' → d = d' ∧
        (∀ full, d.dumpWith full = d'.dumpWith full) ∧ d.toModel = d'.toModel := by
  have alike (d : Document) : ofValue v = .ok d ↔ ofValue v' = .ok d := by
    rw [ofValue_eq_ok_iff, ofValue_eq_ok_iff]
    exact read_alike same d
  refine ⟨exists_congr alike, fun d d' reads reads' => ?_⟩
  have one : Except.ok d = Except.ok d' := ((alike d).1 reads).symm.trans reads'
  cases one
  exact ⟨rfl, fun _ => rfl, rfl⟩

def catalog (schema : Value) : Value := .object
  [("info", .object [("title", .str "Pets")]), ("paths", .object []),
    ("definitions", .object [("Pet", schema)])]

theorem catalog_respells (step : Respells .schema v v') :
    Respells .document (catalog v) (catalog v') :=
  .inside .document ⟨["definitions"], .table .schema, false⟩ (by simp [NodeKind.fields])
    [(.str "info", .object [("title", .str "Pets")]), (.str "paths", .object [])] []
    (by simp [FieldRule.given?]) "definitions" (by simp) .schema _ (.entry .schema [] "Pet" []) v v' step

def shortSchema : Value := .object
  [("type", .str "array"), ("items", .object []), ("x-note", .int 1),
    ("additional_properties", .str "No")]

def longSchema : Value := .object
  [("type", .list [.str "array"]), ("items", .list [.object []]), ("additionalProperties", .bool false),
    ("x-note", .int 1), ("description", .str "")]

theorem shortSchema_upToSpelling :
    SameUpToSpelling .document (catalog shortSchema) (catalog longSchema) := by
  let additional : FieldRule :=
    ⟨["additionalProperties", "additional_properties"], .additional, false⟩
  have type := Respells.form .schema ⟨["type"], .looseTexts, false⟩ (by simp [NodeKind.fields])
    [] [(.str "items", .object []), (.str "x-note", .int 1),
      (.str "additional_properties", .str "No")]
    (by simp [FieldRule.given?]) "type" (by simp) _ _ (.bareText "array")
  have items := Respells.form .schema ⟨["items"], .looseNodes .schema, false⟩
    (by simp [NodeKind.fields]) [(.str "type", .list [.str "array"])]
    [(.str "x-note", .int 1), (.str "additional_properties", .str "No")]
    (by simp [FieldRule.given?]) "items" (by simp) _ _ (.bareNode .schema [])
  have name := Respells.name .schema additional (by simp [NodeKind.fields, additional])
    [(.str "type", .list [.str "array"]), (.str "items", .list [.object []]),
      (.str "x-note", .int 1)] []
    (by simp [FieldRule.given?, additional]) "additional_properties" "additionalProperties"
    (by simp [additional]) (by simp [additional]) (.str "No")
  have flag := Respells.form .schema additional (by simp [NodeKind.fields, additional])
    [(.str "type", .list [.str "array"]), (.str "items", .list [.object []]),
      (.str "x-note", .int 1)] []
    (by simp [FieldRule.given?, additional]) "additionalProperties" (by simp [additional])
    (.str "No") (.bool false) (.flag _ _ false (.word "No" false (by decide)) (.bool false))
  have blank := Respells.blank .schema ⟨["description"], .text, false⟩ (by simp [NodeKind.fields])
    [(.str "type", .list [.str "array"]), (.str "items", .list [.object []]), (.str "x-note", .int 1),
      (.str "additionalProperties", .bool false)] []
    (by simp [FieldRule.given?]) "description" (by simp) rfl (.str "") rfl
  have order := Respells.order .schema
    [(.str "type", .list [.str "array"]), (.str "items", .list [.object []]), (.str "x-note", .int 1),
      (.str "additionalProperties", .bool false), (.str "description", .str "")]
    [(.str "type", .list [.str "array"]), (.str "items", .list [.object []]),
      (.str "additionalProperties", .bool false), (.str "x-note", .int 1), (.str "description", .str "")]
    (((List.Perm.swap ..).cons _).cons _) rfl
    (NodeKind.singleNames_of_length (by decide +kernel)) (by decide)
  exact .trans _ _ _ (.rel _ _ (catalog_respells type)) <|
    .trans _ _ _ (.rel _ _ (catalog_respells items)) <|
    .trans _ _ _ (.rel _ _ (catalog_respells name)) <|
    .trans _ _ _ (.rel _ _ (catalog_respells flag)) <|
    .trans _ _ _ (.rel _ _ (catalog_respells blank)) (.rel _ _ (catalog_respells order))

theorem shortSchema_read_like_longSchema :
    SameUpToSpelling .document (catalog shortSchema) (catalog longSchema) ∧
      ∃ d, ofValue (catalog shortSchema) = .ok d ∧ ofValue (catalog longSchema) = .ok d := by
  obtain ⟨accepts, one⟩ := ofValue_upToSpelling shortSchema_upToSpelling
  have problems : (read (catalog shortSchema)).problems = [] := by decide +kernel
  obtain ⟨d, reads⟩ := Checked.problems_eq_nil_iff.1 problems
  have reads := ofValue_eq_ok_iff.2 reads
  obtain ⟨d', reads'⟩ := accepts.1 ⟨d, reads⟩
  exact ⟨shortSchema_upToSpelling, d, reads, (one d d' reads reads').1 ▸ reads'⟩

end Document

end ApiModel
