import ApiModel.Proofs.Building.Run

namespace ApiModel

/-- What is related to the members of a list can be moved along when these are put in another order. -/
theorem forall₂_reordered {α β : Type} {R : α → β → Prop} {xs xs' : List α}
    (reordered : xs'.Perm xs) {ys : List β} (related : List.Forall₂ R xs ys) :
    ∃ ys', List.Forall₂ R xs' ys' ∧ (xs'.zip ys').Perm (xs.zip ys) := by
  induction reordered generalizing ys with
  | nil => exact ⟨ys, related, .refl _⟩
  | cons x _ ih =>
    obtain ⟨y, ys, first, rest, rfl⟩ := List.forall₂_cons_left_iff.1 related
    obtain ⟨ys', others, pairs⟩ := ih rest
    exact ⟨y :: ys', .cons first others, pairs.cons (x, y)⟩
  | swap x x' xs =>
    obtain ⟨y, _, first, rest, rfl⟩ := List.forall₂_cons_left_iff.1 related
    obtain ⟨y', ys, second, others, rfl⟩ := List.forall₂_cons_left_iff.1 rest
    exact ⟨y' :: y :: ys, .cons second (.cons first others), .swap (x, y) (x', y') (xs.zip ys)⟩
  | trans _ _ ihLeft ihRight =>
    obtain ⟨between, relatedBetween, pairsRight⟩ := ihRight related
    obtain ⟨ys', related', pairsLeft⟩ := ihLeft relatedBetween
    exact ⟨ys', related', pairsLeft.trans pairsRight⟩

theorem exists_and_related {ε α β : Type} {x : Except ε α} {y : Except ε β} {R : α → β → Prop}
    (there : ∀ a, x = .ok a → ∃ b, y = .ok b ∧ R a b) (back : ∀ b, y = .ok b → ∃ a, x = .ok a) :
    ((∃ b, y = .ok b) ↔ ∃ a, x = .ok a) ∧ ∀ a b, x = .ok a → y = .ok b → R a b := by
  constructor
  · constructor
    · intro ⟨b, right⟩
      exact back b right
    · intro ⟨a, left⟩
      obtain ⟨b, right, -⟩ := there a left
      exact ⟨b, right⟩
  · intro a b left right
    obtain ⟨other, found, related⟩ := there a left
    cases Except.ok.inj (found.symm.trans right)
    exact related

namespace Builder

variable {b b' : Builder}

theorem isTaken_eq_of_perm (same : b'.taken.Perm b.taken) (name : Str) :
    b'.isTaken name = b.isTaken name := by
  rw [Bool.eq_iff_iff, isTaken_iff, isTaken_iff]
  simp only [same.mem_iff]

theorem uniqueName_eq_of_perm (same : b'.taken.Perm b.taken) (name : Str) :
    b'.uniqueName name = b.uniqueName name := by
  have search (fuel k : Nat) : b'.firstFree name fuel k = b.firstFree name fuel k := by
    induction fuel generalizing k with
    | zero => rfl
    | succ fuel ih => rw [firstFree, firstFree, isTaken_eq_of_perm same, ih]
  rw [uniqueName, uniqueName, same.length_eq, search]

theorem Run.of_perm {operations : List (Str × String × Operation)} {cs : List Contribution}
    {after : Builder} (run : Run b operations cs after) (b' : Builder) (same : b'.taken.Perm b.taken) :
    ∃ after', Run b' operations cs after' := by
  induction run generalizing b' with
  | done b => exact ⟨b', .done b'⟩
  | @step b after path verb o c operations more made named rest ih =>
    -- both builders collect the same contribution, so their names stay the same up to order
    have next : (b'.collect c).taken.Perm (b.collect c).taken := by
      rw [collect_taken, collect_taken]
      exact same.append_right _
    obtain ⟨after', rest'⟩ := ih (b'.collect c) next
    exact ⟨after', .step made (named.trans (uniqueName_eq_of_perm same _).symm) rest'⟩

end Builder

namespace Document

theorem definitionTypes_reordered {d d' : Document} {types : List CompositeType}
    (reordered : d'.definitions.entries.Perm d.definitions.entries) (built : d.definitionTypes = .ok types) :
    ∃ types', d'.definitionTypes = .ok types' ∧
      (d'.definitions.entries.zip types').Perm (d.definitions.entries.zip types) := by
  obtain ⟨types', built', pairs⟩ := forall₂_reordered reordered (mapM_eq_ok_iff.1 built)
  exact ⟨types', mapM_eq_ok_iff.2 built', pairs⟩

theorem zip_definitionTypes {d : Document} {types : List CompositeType}
    (built : d.definitionTypes = .ok types)
    (others : List CompositeType) :
    d.definitions.entries.zip (types ++ others) = d.definitions.entries.zip types := by
  have lengths : d.definitions.entries.length = types.length := by
    simpa using (congrArg List.length (definitionTypes_names built)).symm
  calc d.definitions.entries.zip (types ++ others)
    _ = (d.definitions.entries ++ []).zip (types ++ others) := by rw [List.append_nil]
    _ = d.definitions.entries.zip types ++ [].zip others := List.zip_append lengths
    _ = d.definitions.entries.zip types := by rw [List.zip_nil_left, List.append_nil]

/-- A model is there whatever the order of the definitions. Name, methods and the types of operations do not
    depend on that order, and each definition keeps its type. -/
theorem exists_model_reordered (d d' : Document) (title : d'.info.title = d.info.title)
    (operations : d'.operations = d.operations)
    (reordered : d'.definitions.entries.Perm d.definitions.entries) {m : Model}
    (built : d.toModel.result = .ok m) :
    ∃ m', d'.toModel.result = .ok m' ∧ m'.name = m.name ∧ m'.methods = m.methods ∧
      m'.types.drop d'.definitions.size = m.types.drop d.definitions.size ∧
      (d'.definitions.entries.zip m'.types).Perm (d.definitions.entries.zip m.types) := by
  obtain ⟨types, cs, after, defined, run, rfl⟩ := toModel_eq_ok_iff.1 built
  obtain ⟨types', defined', pairs⟩ := definitionTypes_reordered reordered defined
  have taken : (types'.map (·.name)).Perm (types.map (·.name)) := by
    rw [definitionTypes_names defined', definitionTypes_names defined]
    exact reordered.map _
  obtain ⟨after', run'⟩ := run.of_perm (.ofTypes d'.info.title types') taken
  obtain ⟨name, allTypes, methods, -⟩ := run.result
  obtain ⟨name', allTypes', methods', -⟩ := run'.result
  refine ⟨after'.build, toModel_eq_ok_iff.2 ⟨types', cs, after', defined', operations ▸ run', rfl⟩,
    ?_, ?_, ?_, ?_⟩
  · exact (name'.trans title).trans name.symm
  · exact methods'.trans methods.symm
  · exact (drop_definitionTypes defined' run').trans (drop_definitionTypes defined run).symm
  · show (_ : List _).Perm (d.definitions.entries.zip after.types)
    rw [Builder.build, allTypes', allTypes]
    rw [Builder.ofTypes, Builder.ofTypes, zip_definitionTypes defined', zip_definitionTypes defined]
    exact pairs

/-- The order of definitions does not touch operations: with the definitions in another order a document has
    a model if it had one, with the same methods and the same types of operations, all in the same order,
    and with the same type for each definition. -/
theorem toModel_definitions_reordered (d : Document) (definitions : Table Schema)
    (reordered : definitions.entries.Perm d.definitions.entries) :
    ((∃ m', { d with definitions }.toModel.result = .ok m') ↔ ∃ m, d.toModel.result = .ok m) ∧
    ∀ m m', d.toModel.result = .ok m → { d with definitions }.toModel.result = .ok m' →
      m'.name = m.name ∧ m'.methods = m.methods ∧
      m'.types.drop definitions.size = m.types.drop d.definitions.size ∧
      (definitions.entries.zip m'.types).Perm (d.definitions.entries.zip m.types) := by
  apply exists_and_related
  · intro m built
    exact exists_model_reordered d { d with definitions } rfl rfl reordered built
  · intro m' built'
    obtain ⟨m, built, -⟩ := exists_model_reordered { d with definitions } d rfl rfl reordered.symm built'
    exact ⟨m, built⟩

/-- Definitions of which one takes the first suffix for the second of two operations with one name. -/
def reservedNames : List (Str × Schema) :=
  [("Pet", ⟨"", ["object"], "", "", [], [("name", ⟨"", ["string"], "", "", [], [], .absent, []⟩)],
    .absent, []⟩),
    ("list_2Responses", ⟨"", ["object"], "", "", [], [], .absent, []⟩)]

theorem colliding_definitions_reordered :
    (Table.ofList reservedNames.reverse).entries.Perm (Table.ofList reservedNames).entries ∧
    ∃ m m', { colliding with definitions := .ofList reservedNames }.toModel.result = .ok m ∧
      { colliding with definitions := .ofList reservedNames.reverse }.toModel.result = .ok m' ∧
      m.types.map (·.name) = [("Pet" : Str), "list_2Responses", "listParameters", "listResponses"] ∧
      m'.types.map (·.name) = [("list_2Responses" : Str), "Pet", "listParameters", "listResponses"] ∧
      m'.methods = m.methods ∧ m'.types.drop 2 = m.types.drop 2 := by
  have reordered : (Table.ofList reservedNames.reverse).entries.Perm (Table.ofList reservedNames).entries :=
    List.reverse_perm reservedNames
  obtain ⟨-, same⟩ := toModel_definitions_reordered { colliding with definitions := .ofList reservedNames }
    (.ofList reservedNames.reverse) reordered
  obtain ⟨-, methods, types, -⟩ := same _ _ rfl rfl
  exact ⟨reordered, _, _, rfl, rfl, rfl, rfl, methods, types⟩

end Document

end ApiModel
