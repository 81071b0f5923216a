import ApiModel.Building.Session
import ApiModel.Proofs.Building.Totality
import ApiModel.Proofs.Building.UniqueNames

namespace ApiModel

namespace Builder

variable {b b' : Builder}

def collected (b : Builder) : List Str := b.types.map (·.name) ++ b.methods.map (·.name)

def Consistent (b : Builder) : Prop := ∀ s, s ∈ b.taken ↔ s ∈ b.collected

/-- Types and methods were added behind those that were there, and their names to the taken ones. -/
structure Grows (b b' : Builder) : Prop where
  types : b.types <+: b'.types
  methods : b.methods <+: b'.methods
  consistent : b.Consistent → b'.Consistent

theorem consistent_empty (name : Str) : (empty name).Consistent := fun _ => Iff.rfl

theorem Grows.refl (b : Builder) : b.Grows b := ⟨List.prefix_refl _, List.prefix_refl _, id⟩

theorem Grows.trans {b'' : Builder} (first : b.Grows b') (second : b'.Grows b'') : b.Grows b'' where
  types := first.types.trans second.types
  methods := first.methods.trans second.methods
  consistent := second.consistent ∘ first.consistent

theorem grows_addType (b : Builder) (t : CompositeType) : b.Grows (b.addType t) where
  types := List.prefix_append ..
  methods := List.prefix_refl _
  consistent consistent s := by
    simp only [addType, collected, List.mem_append, List.map_append, List.map_singleton,
      List.mem_singleton, consistent s]
    tauto

theorem grows_addType? (b : Builder) (t : Option CompositeType) : b.Grows (b.addType? t) := by
  cases t with
  | none => exact .refl b
  | some t => exact b.grows_addType t

theorem grows_addMethod (b : Builder) (m : Method) : b.Grows (b.addMethod m) where
  types := List.prefix_refl _
  methods := List.prefix_append ..
  consistent consistent s := by
    simp only [addMethod, collected, List.mem_append, List.map_append, List.map_singleton,
      List.mem_singleton, consistent s]
    tauto

theorem grows_collect (b : Builder) (c : Contribution) : b.Grows (b.collect c) :=
  ((b.grows_addType? _).trans (grows_addType? ..)).trans (grows_addMethod ..)

theorem grows_leftBy (b : Builder) (o : Operation) (verb path : Str) :
    b.Grows (b.leftBy o verb path) := by
  unfold leftBy
  dsimp only
  split
  · exact b.grows_addType? _
  · exact .refl b

theorem grows_onRead {α : Type} {c : Checked α} {go : α → Builder × Except StepFault StepAnswer}
    (grows : ∀ a, b.Grows (go a).1) : b.Grows (b.onRead c go).1 := by
  unfold onRead
  split
  · exact grows _
  · exact .refl b

theorem grows_step (b : Builder) (s : Step) : b.Grows (b.step s).1 := by
  cases s with
  | addType type => exact grows_onRead fun t => b.grows_addType? t
  | addDefinition name schema =>
    refine grows_onRead fun s => ?_
    split
    · exact b.grows_addType _
    · exact .refl b
  | addMethod method => exact grows_onRead fun m => b.grows_addMethod m
  | uniqueName name => exact .refl b
  | addOperation operation verb path =>
    refine grows_onRead fun o => ?_
    split
    · rename_i added
      obtain ⟨c, -, -, same⟩ := addOperation_eq_ok.1 added
      cases same
      exact b.grows_collect c
    · exact b.grows_leftBy o verb path
  | build => exact .refl b

theorem grows_after (b : Builder) (steps : List Step) : b.Grows (b.after steps) := by
  induction steps generalizing b with
  | nil => exact .refl b
  | cons s steps ih => exact (b.grows_step s).trans (ih _)

theorem consistent_after (name : Str) (steps : List Step) :
    ((empty name).after steps).Consistent :=
  (grows_after _ steps).consistent (consistent_empty name)

def Step.Shallow : Step → Prop
  | addType v | addDefinition _ v | addMethod v | addOperation v _ _ => v.Shallow
  | uniqueName _ | build => True

/-- The type of the parameters of an operation is left behind: it is added before the type of the responses
    is looked for, and that one is not found. -/
inductive Strands (b b' : Builder) : Step → Prop
  | parameters {operation : Value} {verb path : Str} {o : Operation} {t : CompositeType}
      {fault : DumpFault} (reads : Operation.read nestingLimit operation = .ok o)
      (found : (parametersType (b.uniqueName (baseName o.operationId verb path)) o.parameters).result =
        .ok (some t))
      (missing : (responsesType (b.uniqueName (baseName o.operationId verb path)) o.responses).result =
        .error fault) (left : b' = b.addType t) : Strands b b' (.addOperation operation verb path)

theorem leftBy_cases {v : Value} {o : Operation} (reads : Operation.read nestingLimit v = .ok o)
    {verb path : Str} {fault : DumpFault} (fails : (b.addOperation o verb path).result = .error fault) :
    b.leftBy o verb path = b ∨ b.Strands (b.leftBy o verb path) (.addOperation v verb path) := by
  generalize named : b.uniqueName (baseName o.operationId verb path) = name
  unfold leftBy
  dsimp only
  rw [named]
  cases found : (parametersType name o.parameters).result with
  | error _ => exact .inl rfl
  | ok parameters =>
    cases parameters with
    | none => exact .inl rfl
    | some t =>
      cases missing : (responsesType name o.responses).result with
      | error _ => exact .inr (.parameters reads (named ▸ found) (named ▸ missing) rfl)
      | ok responses =>
        have added : ∃ added, (b.addOperation o verb path).result = .ok added :=
          ⟨_, Traced.result_bind_eq_ok.2 ⟨some t, named ▸ found,
            Traced.result_bind_eq_ok.2 ⟨responses, named ▸ missing, rfl⟩⟩⟩
        obtain ⟨added, success⟩ := added
        rw [success] at fails
        contradiction

theorem onRead_fails {α : Type} {c : Checked α} {go : α → Builder × Except StepFault StepAnswer}
    {p : Builder → Prop} {fault : StepFault} (same : p b) (fails : (b.onRead c go).2 = .error fault)
    (keeps : ∀ a, c = .ok a → (go a).2 = .error fault → p (go a).1) : p (b.onRead c go).1 := by
  unfold onRead at fails ⊢
  split at fails
  · exact keeps _ rfl fails
  · exact same

theorem step_fails {s : Step} {fault : StepFault} (fails : (b.step s).2 = .error fault) :
    (b.step s).1 = b ∨ b.Strands (b.step s).1 s := by
  cases s with
  | addType type => exact onRead_fails (p := fun b' => b' = b ∨ _) (.inl rfl) fails fun _ _ => nofun
  | addDefinition name schema =>
    refine onRead_fails (p := fun b' => b' = b ∨ _) (.inl rfl) fails fun s _ fails => ?_
    split at fails
    · contradiction
    · exact .inl rfl
  | addMethod method => exact onRead_fails (p := fun b' => b' = b ∨ _) (.inl rfl) fails fun _ _ => nofun
  | uniqueName name => exact .inl rfl
  | addOperation operation verb path =>
    refine onRead_fails (p := fun b' => b' = b ∨ b.Strands b' _) (.inl rfl) fails fun o reads fails => ?_
    split at fails
    · contradiction
    · rename_i missing
      exact leftBy_cases reads missing
  | build => exact .inl rfl

theorem step_fails_of_shallow {s : Step} (shallow : s.Shallow) {fault : StepFault}
    (fails : (b.step s).2 = .error fault) : (b.step s).1 = b := by
  refine (step_fails fails).resolve_right fun strands => ?_
  cases strands with
  | parameters reads found missing =>
    have translates := Operation.typeIn_ok_iff.2 fun _ shows_ => shows_.prints reads shallow
    obtain ⟨made, typed⟩ := translates .responses _
    exact nomatch typed.symm.trans missing

/-- One method was added, and in front of it at most the types of its parameters and responses, all under
    names of their own that nothing had. -/
structure Adds (b : Builder) (o : Operation) (verb path : Str) (m : Method) (b' : Builder)
    (c : Contribution) : Prop where
  made : c.Of path verb o
  method : c.method = m
  types : b'.types = b.types ++ (c.parameters.toList ++ c.responses.toList)
  methods : b'.methods = b.methods ++ [m]
  taken : b'.taken = b.taken ++ c.names
  nodup : c.names.Nodup
  fresh : ∀ s ∈ c.names, s ∉ b.collected

theorem onRead_ok {α : Type} {c : Checked α} {go : α → Builder × Except StepFault StepAnswer}
    {answer : StepAnswer} (success : (b.onRead c go).2 = .ok answer) :
    ∃ a, c = .ok a ∧ b.onRead c go = go a ∧ (go a).2 = .ok answer := by
  unfold onRead at success ⊢
  split at success
  · exact ⟨_, rfl, rfl, success⟩
  · contradiction

theorem adds_of_step (consistent : b.Consistent) {operation : Value} {verb path : Str} {m : Method}
    (success : (b.step (.addOperation operation verb path)).2 = .ok (.method m)) :
    ∃ o, Operation.read nestingLimit operation = .ok o ∧
      ∃ c, b.Adds o verb path m (b.step (.addOperation operation verb path)).1 c := by
  obtain ⟨o, reads, same, success⟩ := onRead_ok success
  refine ⟨o, reads, ?_⟩
  rw [step, same]
  split at success
  · rename_i added
    obtain ⟨c, made, named, pair⟩ := addOperation_eq_ok.1 added
    cases pair
    cases success
    have fresh : ∀ s ∈ c.names, s ∉ b.collected := fun s mem old =>
      uniqueName_free b _ s (named ▸ made.names_derived s mem) ((consistent s).2 old)
    have nodup : c.names.Nodup := made.names_sublist.nodup (derivedNames_nodup _)
    exact ⟨c, made, rfl, collect_types b c, collect_methods b c, collect_taken b c, nodup, fresh⟩
  · contradiction

/-- What a step does after a run: the taken names are those of types and methods, nothing that was
    collected goes, a step that fails changes nothing or leaves the type of parameters behind, a step that
    only asks changes nothing, and an operation comes in under names that are new. -/
structure StepKeeps (b : Builder) (s : Step) : Prop where
  consistent : (b.step s).1.Consistent
  types : b.types <+: (b.step s).1.types
  methods : b.methods <+: (b.step s).1.methods
  fails : ∀ fault, (b.step s).2 = .error fault → (b.step s).1 = b ∨ b.Strands (b.step s).1 s
  failsShallow : s.Shallow → ∀ fault, (b.step s).2 = .error fault → (b.step s).1 = b
  asks : s = .build ∨ (∃ name, s = .uniqueName name) ∨ s = .addType .null → (b.step s).1 = b
  adds : ∀ operation verb path m, s = .addOperation operation verb path →
    (b.step s).2 = .ok (.method m) →
      ∃ o, Operation.read nestingLimit operation = .ok o ∧ ∃ c, b.Adds o verb path m (b.step s).1 c

/-- A type and a method that are in the way of the next operation, and an operation that is none. -/
def clashingSteps : List Step := [
  .addType (.map (Entries.ofFields [("name", .str "listParameters")])),
  .addMethod (.map (Entries.ofFields [("name", .str "list"), ("path", .str "/"),
    ("http_method", .str "GET")])),
  .addOperation (.int 3) "GET" "/pets"]

def listPets : Step := .addOperation (.map (Entries.ofFields [("operationId", .str "list"),
  ("parameters", .list [.map (Entries.ofFields [("name", .str "tag"), ("in", .str "query"),
    ("type", .str "string")])])])) "GET" "/pets"

theorem listPets_shallow : listPets.Shallow := Value.shallow_of_dump (by decide +kernel) (by decide)

/-- An operation with a parameter, and a response with many lists inside each other in its schema. -/
def listNested : Step := .addOperation (.map (Entries.ofFields [("operationId", .str "list"),
  ("parameters", .list [.map (Entries.ofFields [("name", .str "tag"), ("in", .str "query")])]),
  ("responses", .map (Entries.ofFields [("200", .map (Entries.ofFields [("schema",
    .map (Entries.ofFields [("x", .nestedLists 254)]))]))]))])) "GET" "/pets"

end Builder

end ApiModel
