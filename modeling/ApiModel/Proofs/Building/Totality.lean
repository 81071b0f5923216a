import ApiModel.Proofs.Building.DocumentOrder
import ApiModel.Proofs.Building.Fields
import ApiModel.Proofs.Swagger.Depth

namespace ApiModel

open Checked

inductive Shown
  | schema (s : Schema)
  | parameter (p : Parameter)

def Shown.Prints : Shown → Prop
  | schema s => s.Prints
  | parameter p => p.Prints

def Schema.Shows (s : Schema) (x : Shown) : Prop := s.typeRef? = none ∧ x = .schema s

def Parameter.Shows (p : Parameter) (x : Shown) : Prop :=
  match p.fieldPosition?, p.schema with
  | some .body, some s => s.Shows x
  | some .body, none => x = .parameter p
  | some _, _ => False
  | none, _ => x = .parameter p

def Response.Shows (r : Response) (x : Shown) : Prop := ∃ s, r.fieldSchema? = some s ∧ s.Shows x

def Operation.Shows (o : Operation) (x : Shown) : Prop :=
  (∃ p ∈ o.parameters, p.Shows x) ∨ ∃ e ∈ o.responses.entries, e.2.Shows x

def Document.Shows (d : Document) (x : Shown) : Prop :=
  (∃ e ∈ d.definitions.entries, ∃ p ∈ e.2.properties, p.2.Shows x) ∨
    ∃ op ∈ d.operations, op.2.2.Shows x

/-- The text of the node is written for some schema or some parameters, whether the model of the document
    needs them or not. -/
def Document.ShowsAnywhere (d : Document) (x : Shown) : Prop :=
  (∃ s, d.Contains s ∧ s.Shows x) ∨ ∃ ps, d.HasParameters ps ∧ ∃ p ∈ ps, p.Shows x

namespace Schema

variable {s : Schema}

theorem typeRef_ok_iff : (∃ r, s.typeRef.result = .ok r) ↔ ∀ x, s.Shows x → x.Prints := by
  unfold typeRef Shows
  cases found : s.typeRef? with
  | some r => exact iff_of_true ⟨r, rfl⟩ nofun
  | none =>
    simp only [true_and, forall_eq]
    rw [Shown.Prints, ← s.dump_ok_iff]
    constructor
    · rintro ⟨r, built⟩
      obtain ⟨raw, dumped, -⟩ := Traced.result_bind_eq_ok.1 built
      exact ⟨raw, dumped⟩
    · rintro ⟨raw, dumped⟩
      exact ⟨.unsupported raw, Traced.result_bind_eq_ok.2 ⟨raw, dumped, rfl⟩⟩

theorem Shows.prints {v : Value} (reads : ReadFrom v s) (shallow : v.Shallow) {x : Shown}
    (shows_ : s.Shows x) : x.Prints := by
  obtain ⟨-, rfl⟩ := shows_
  exact reads.prints shallow

theorem propertyField_ok_iff {property : Str} :
    (∃ f, (propertyField property s).result = .ok f) ↔ ∀ x, s.Shows x → x.Prints := by
  rw [← typeRef_ok_iff]
  exact Traced.exists_result_bind_pure_iff

theorem definitionType_ok_iff {name : Str} : (∃ t, (s.definitionType name).result = .ok t) ↔
    ∀ p ∈ s.properties, ∀ x, p.2.Shows x → x.Prints := by
  refine Traced.exists_result_bind_pure_iff.trans ?_
  simp only [Traced.result_mapM, mapM_eq_ok_iff, exists_forall₂_iff]
  exact forall₂_congr fun p _ => propertyField_ok_iff

end Schema

namespace Parameter

variable {p : Parameter}

theorem typeRef_ok_iff {position : Position} (found : p.fieldPosition? = some position) :
    (∃ r, (p.typeRef position).result = .ok r) ↔ ∀ x, p.Shows x → x.Prints := by
  unfold typeRef Shows
  rw [found]
  cases position with
  | body =>
    cases schema : p.schema with
    | some s => exact Schema.typeRef_ok_iff
    | none =>
      refine Traced.exists_result_bind_pure_iff.trans ?_
      rw [Traced.result_ofExcept, p.dump_ok_iff]
      exact ⟨fun prints x same => same ▸ prints, fun all => all _ rfl⟩
  | header | query | path | formData => exact iff_of_true ⟨.primitive p.type, rfl⟩ nofun

theorem toField_ok_iff {position : Position} (found : p.fieldPosition? = some position) :
    (∃ f, (p.toField position).result = .ok f) ↔ ∀ x, p.Shows x → x.Prints := by
  rw [← typeRef_ok_iff found]
  exact Traced.exists_result_bind_pure_iff

theorem dump_ok_iff_shows (found : p.fieldPosition? = none) :
    (∃ raw, p.dump = .ok raw) ↔ ∀ x, p.Shows x → x.Prints := by
  rw [p.dump_ok_iff]
  unfold Shows
  rw [found]
  exact ⟨fun prints x same => same ▸ prints, fun all => all _ rfl⟩

theorem toFields_ok_iff {typeName : Str} {ps : List Parameter} :
    (∃ fields, (toFields typeName ps).result = .ok fields) ↔
      ∀ p ∈ ps, ∀ x, p.Shows x → x.Prints := by
  have each : (∃ fields, List.Forall₂ (fun e f => (e.1.toField e.2).result = .ok f) (placed ps) fields) ↔
      ∀ p ∈ ps, p.fieldPosition? ≠ none → ∀ x, p.Shows x → x.Prints := by
    rw [exists_forall₂_iff]
    constructor
    · intro all p mem some_
      obtain ⟨position, found⟩ := Option.ne_none_iff_exists'.1 some_
      exact (toField_ok_iff found).1 (all _ (mem_placed.2 ⟨mem, found⟩))
    · rintro all ⟨p, position⟩ placed
      obtain ⟨mem, found⟩ := mem_placed.1 placed
      exact (toField_ok_iff found).2 (all p mem (by simp [found]))
  simp only [toFields_eq_ok_iff, exists_and_left, each]
  constructor
  · rintro ⟨left, placed⟩ p mem
    by_cases found : p.fieldPosition? = none
    · exact (dump_ok_iff_shows found).1 (left p mem found)
    · exact placed p mem found
  · intro all
    exact ⟨fun p mem found => (dump_ok_iff_shows found).2 (all p mem), fun p mem _ => all p mem⟩

theorem Shows.prints {room : Nat} {v : Value} (reads : read room v = .ok p) (shallow : v.Shallow)
    {x : Shown} (shows_ : p.Shows x) : x.Prints := by
  unfold Shows at shows_
  split at shows_
  · rename_i s _ given
    obtain ⟨u, here, reads⟩ := exists_of_schema reads given
    exact shows_.prints reads (shallow.part here.has)
  · cases shows_
    exact prints_of_read reads shallow
  · contradiction
  · cases shows_
    exact prints_of_read reads shallow

end Parameter

theorem Operation.Shows.prints {room : Nat} {v : Value} {o : Operation} (reads : read room v = .ok o)
    (shallow : v.Shallow) {x : Shown} (shows_ : o.Shows x) : x.Prints := by
  rcases shows_ with ⟨p, mem, shows_⟩ | ⟨e, mem, s, found, shows_⟩
  · obtain ⟨room, u, here, reads⟩ := exists_of_parameter reads mem
    exact shows_.prints reads (shallow.part here)
  · obtain ⟨room, u, here, reads⟩ := exists_of_response reads mem
    obtain ⟨w, inside, reads⟩ := Response.exists_of_schema reads (Response.schema_of_field found)
    exact shows_.prints reads (shallow.part (here.trans inside))

theorem Document.Shows.anywhere {d : Document} {x : Shown} (shows_ : d.Shows x) : d.ShowsAnywhere x := by
  rcases shows_ with ⟨e, mem, p, property, shows_⟩ | ⟨⟨path, verb, o⟩, mem, shows_⟩
  · exact .inl ⟨p.2, .definition mem (.property property (.self p.2)), shows_⟩
  · have has := hasOperation_of_mem mem
    rcases shows_ with ⟨p, mem, shows_⟩ | ⟨e, mem, s, found, shows_⟩
    · exact .inr ⟨o.parameters, .operation has, p, mem, shows_⟩
    · exact .inl ⟨s, .response has mem (Response.schema_of_field found) (.self s), shows_⟩

theorem parametersType_ok_iff {method : Str} {ps : List Parameter} :
    (∃ t, (parametersType method ps).result = .ok t) ↔ ∀ p ∈ ps, ∀ x, p.Shows x → x.Prints :=
  Traced.exists_result_bind_pure_iff.trans Parameter.toFields_ok_iff

theorem Response.toField_ok_iff {code : Str} {s : Schema} :
    (∃ f, (toField code s).result = .ok f) ↔ ∀ x, s.Shows x → x.Prints := by
  rw [← Schema.typeRef_ok_iff]
  exact Traced.exists_result_bind_pure_iff

theorem responsesType_ok_iff {method : Str} {responses : Table Response} :
    (∃ t, (responsesType method responses).result = .ok t) ↔
      ∀ e ∈ responses.entries, ∀ x, e.2.Shows x → x.Prints := by
  refine Traced.exists_result_bind_pure_iff.trans ?_
  simp only [Response.toFields_eq_ok_iff, exists_forall₂_iff, Response.toField_ok_iff]
  constructor
  · rintro all ⟨code, r⟩ mem x ⟨s, found, shows_⟩
    exact all (code, s) (Response.mem_carried.2 ⟨r, mem, found⟩) x shows_
  · rintro all ⟨code, s⟩ carried x shows_
    obtain ⟨r, mem, found⟩ := Response.mem_carried.1 carried
    exact all (code, r) mem x ⟨s, found, shows_⟩

/-- An operation has both its types, whatever its method is called, exactly if what their texts would
    show can be written. -/
theorem Operation.typeIn_ok_iff {o : Operation} : (∀ role method, ∃ made, o.typeIn role method = .ok made) ↔
    ∀ x, o.Shows x → x.Prints := by
  constructor
  · rintro all x (⟨p, mem, shows_⟩ | ⟨e, mem, shows_⟩)
    · exact parametersType_ok_iff.1 (all .parameters "") p mem x shows_
    · exact responsesType_ok_iff.1 (all .responses "") e mem x shows_
  · intro all role method
    cases role with
    | parameters =>
      exact parametersType_ok_iff.2 fun p mem x shows_ => all x (.inl ⟨p, mem, shows_⟩)
    | responses =>
      exact responsesType_ok_iff.2 fun e mem x shows_ => all x (.inr ⟨e, mem, shows_⟩)

namespace Document

variable {d : Document}

theorem definitionTypes_ok_iff : (∃ definitions, d.definitionTypes = .ok definitions) ↔
    ∀ e ∈ d.definitions.entries, ∀ p ∈ e.2.properties, ∀ x, p.2.Shows x → x.Prints := by
  simp only [definitionTypes, mapM_eq_ok_iff, exists_forall₂_iff, Schema.definitionType_ok_iff]

theorem translates_iff : d.Translates ↔ ∀ x, d.Shows x → x.Prints := by
  simp only [Translates, definitionTypes_ok_iff, Operation.typeIn_ok_iff]
  constructor
  · rintro ⟨definitions, operations⟩ x (⟨e, mem, p, property, shows_⟩ | ⟨op, mem, shows_⟩)
    · exact definitions e mem p property x shows_
    · exact operations op mem x shows_
  · intro all
    exact ⟨fun e mem p property x shows_ => all x (.inl ⟨e, mem, p, property, shows_⟩),
      fun op mem x shows_ => all x (.inr ⟨op, mem, shows_⟩)⟩

theorem ofValue_of_load {bytes : List UInt8} {v : Value} (spells : readFile bytes = .ok v)
    (loads : load bytes = .ok d) : ofValue v = .ok d := by
  rw [load, spells] at loads
  dsimp only at loads
  split at loads
  · cases loads
    assumption
  · contradiction

theorem toModel_ok_iff : (∃ m, d.toModel.result = .ok m) ↔ ∀ x, d.Shows x → x.Prints :=
  d.toModel_succeeds_iff.trans translates_iff

/-- There is a model of the document, and everything in the document has a type on its own, also what
    the model leaves out. -/
structure TranslatesWhole (d : Document) : Prop where
  model : ∃ m, d.toModel.result = .ok m
  schema : ∀ s, d.Contains s → ∃ r, s.typeRef.result = .ok r
  definition : ∀ s, d.Contains s → ∀ name, ∃ t, (s.definitionType name).result = .ok t
  parameters : ∀ ps, d.HasParameters ps → ∀ method, ∃ t, (parametersType method ps).result = .ok t
  responses : ∀ o, d.HasOperation o → ∀ method, ∃ t, (responsesType method o.responses).result = .ok t

theorem Contains.below {s t : Schema} (contains : d.Contains s) (holds : s.Holds t) : d.Contains t := by
  cases contains with
  | definition mem above => exact .definition mem (above.trans holds)
  | parameter has mem schema above => exact .parameter has mem schema (above.trans holds)
  | response has mem schema above => exact .response has mem schema (above.trans holds)

theorem translatesWhole_iff : d.TranslatesWhole ↔ ∀ x, d.ShowsAnywhere x → x.Prints := by
  constructor
  · rintro whole x (⟨s, contains, shows_⟩ | ⟨ps, has, p, mem, shows_⟩)
    · exact Schema.typeRef_ok_iff.1 (whole.schema s contains) x shows_
    · exact parametersType_ok_iff.1 (whole.parameters ps has "") p mem x shows_
  · intro all
    have schemas (s : Schema) (contains : d.Contains s) (x : Shown) (shows_ : s.Shows x) : x.Prints :=
      all x (.inl ⟨s, contains, shows_⟩)
    exact {
      model := toModel_ok_iff.2 fun x shows_ => all x shows_.anywhere
      schema := fun s contains => Schema.typeRef_ok_iff.2 (schemas s contains)
      definition := fun s contains name => Schema.definitionType_ok_iff.2 fun p property =>
        schemas p.2 (contains.below (.property property (.self p.2)))
      parameters := fun ps has method => parametersType_ok_iff.2 fun p mem x shows_ =>
        all x (.inr ⟨ps, has, p, mem, shows_⟩)
      responses := fun o has method => responsesType_ok_iff.2 fun e mem x ⟨s, found, shows_⟩ =>
        schemas s (.response has mem (Response.schema_of_field found) (.self s)) x shows_ }

theorem ShowsAnywhere.prints {v : Value} (reads : ofValue v = .ok d) (shallow : v.Shallow) {x : Shown}
    (shows_ : d.ShowsAnywhere x) : x.Prints := by
  rcases shows_ with ⟨s, contains, shows_⟩ | ⟨ps, has, p, mem, shows_⟩
  · obtain ⟨u, here, reads⟩ := exists_of_contains reads contains
    exact shows_.prints reads (shallow.part here)
  · obtain ⟨room, u, here, reads⟩ := exists_of_hasParameters reads has mem
    exact shows_.prints reads (shallow.part here)

end Document

def cookieFile (bytes : String) : List UInt8 := Text.encodeUtf8 (
  "swagger: '2.0'\ninfo: \x7btitle: x\x7d\npaths: \x7b/p: \x7bget: \x7bparameters: ".toList ++
    "[\x7bname: a, in: cookie, x: !!binary ".toList ++ bytes.toList ++ "\x7d]\x7d\x7d\x7d\n".toList)

theorem exists_of_toOption_map {ε α β : Type} {x : Except ε α} {f : α → β} {b : β}
    (found : x.toOption.map f = some b) : ∃ a, x = .ok a ∧ f a = b := by
  cases x with
  | error e => contradiction
  | ok a => exact ⟨a, rfl, Option.some.inj found⟩

end ApiModel
