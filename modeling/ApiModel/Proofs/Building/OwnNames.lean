import ApiModel.Proofs.Building.DefinitionOrder
import ApiModel.Proofs.Building.UniqueNames

namespace ApiModel

def Operation.ownName : Str × String × Operation → Str
  | (path, verb, o) => baseName o.operationId verb path

/-- No two operations could bring in the same name, and none could bring in one that is taken. -/
structure Separate (taken : List Str) (operations : List (Str × String × Operation)) : Prop where
  apart : operations.Pairwise fun op other =>
    ∀ s ∈ derivedNames (Operation.ownName op), s ∉ derivedNames (Operation.ownName other)
  free : ∀ op ∈ operations, ∀ s ∈ derivedNames (Operation.ownName op), s ∉ taken

structure Contribution.OwnOf (op : Str × String × Operation) (c : Contribution) : Prop where
  made : c.Of op.1 op.2.1 op.2.2
  named : c.method.name = Operation.ownName op

theorem Contribution.own_names {operations : List (Str × String × Operation)} {cs : List Contribution}
    (own : List.Forall₂ (fun op c => OwnOf op c) operations cs) :
    cs.map (fun c => (c.method.origin, c.method.name)) =
      operations.map fun op => (Operation.origin op, Operation.ownName op) := by
  induction own with
  | nil => rfl
  | cons first _ ih => rw [List.map_cons, List.map_cons, ih, first.made.origin, first.named]

namespace Separate

variable {taken : List Str} {operations : List (Str × String × Operation)}

theorem perm (separate : Separate taken operations) {operations' : List (Str × String × Operation)}
    (reordered : operations'.Perm operations) : Separate taken operations' := by
  constructor
  · apply (reordered.pairwise_iff ?_).2 separate.apart
    intro op other apart s right left
    exact apart s left right
  · intro op mem
    exact separate.free op (reordered.mem_iff.1 mem)

theorem head {op : Str × String × Operation} (separate : Separate taken (op :: operations)) :
    ∀ s ∈ derivedNames (Operation.ownName op), s ∉ taken :=
  separate.free op (List.mem_cons_self ..)

/-- What the first operation contributes under its own name takes nothing from the others. -/
theorem tail {op : Str × String × Operation} (separate : Separate taken (op :: operations))
    {c : Contribution} (own : c.OwnOf op) : Separate (taken ++ c.names) operations := by
  obtain ⟨others, apart⟩ := List.pairwise_cons.1 separate.apart
  refine ⟨apart, fun other mem s derived => ?_⟩
  intro collected
  rcases List.mem_append.1 collected with old | new
  · exact separate.free other (List.mem_cons_of_mem _ mem) s derived old
  · have first := own.made.names_derived s new
    rw [own.named] at first
    exact others other mem s first derived

end Separate

namespace Builder

variable {b : Builder} {operations : List (Str × String × Operation)} {cs : List Contribution}

theorem Run.own {after : Builder} (run : Run b operations cs after) (separate : Separate b.taken operations) :
    List.Forall₂ (fun op c => c.OwnOf op) operations cs := by
  induction run with
  | done b => exact .nil
  | @step b after path verb o c operations more made named rest ih =>
    have own : c.OwnOf (path, verb, o) := ⟨made, named.trans (uniqueName_of_free separate.head)⟩
    apply List.Forall₂.cons own
    apply ih
    rw [collect_taken]
    exact separate.tail own

theorem exists_run_of_own (own : List.Forall₂ (fun op c => Contribution.OwnOf op c) operations cs)
    (separate : Separate b.taken operations) : ∃ after, Run b operations cs after := by
  induction own generalizing b with
  | nil => exact ⟨b, .done b⟩
  | @cons op c operations more first _ ih =>
    have rest : Separate (b.collect c).taken operations := by
      rw [collect_taken]
      exact separate.tail first
    obtain ⟨after, run⟩ := ih rest
    exact ⟨after, .step first.made (first.named.trans (uniqueName_of_free separate.head).symm) run⟩

theorem Run.reordered {after : Builder} (run : Run b operations cs after)
    (separate : Separate b.taken operations) {operations' : List (Str × String × Operation)}
    (reordered : operations'.Perm operations) :
    ∃ cs' after', cs'.Perm cs ∧ Run b operations' cs' after' := by
  have own := run.own separate
  obtain ⟨cs', own', pairs⟩ := forall₂_reordered reordered own
  obtain ⟨after', run'⟩ := exists_run_of_own own' (separate.perm reordered)
  refine ⟨cs', after', ?_, run'⟩
  have contributions := pairs.map Prod.snd
  rwa [List.map_snd_zip own'.length_eq.ge, List.map_snd_zip own.length_eq.ge] at contributions

end Builder

namespace Document

/-- No name that an operation could bring in is that of a definition, or could come from another one. -/
def Collisionless (d : Document) : Prop := Separate (d.definitions.entries.map Prod.fst) d.operations

theorem Collisionless.start {d : Document} (collisionless : d.Collisionless) {types : List CompositeType}
    (built : d.definitionTypes = .ok types) :
    Separate (Builder.ofTypes d.info.title types).taken d.operations := by
  rw [Builder.ofTypes, definitionTypes_names built]
  exact collisionless

theorem operations_perm {d d' : Document} (reordered : d'.paths.entries.Perm d.paths.entries) :
    d'.operations.Perm d.operations :=
  reordered.flatMap_right _

theorem exists_model_of_paths (d d' : Document) (title : d'.info.title = d.info.title)
    (definitions : d'.definitions = d.definitions) (reordered : d'.paths.entries.Perm d.paths.entries)
    (collisionless : d.Collisionless) {m : Model} (built : d.toModel.result = .ok m) :
    ∃ m', d'.toModel.result = .ok m' ∧ m'.name = m.name ∧ m'.methods.Perm m.methods ∧
      m'.types.Perm m.types := by
  obtain ⟨types, cs, after, defined, run, rfl⟩ := toModel_eq_ok_iff.1 built
  obtain ⟨cs', after', contributions, run'⟩ :=
    run.reordered (collisionless.start defined) (operations_perm reordered)
  have defined' : d'.definitionTypes = .ok types := by rwa [definitionTypes, definitions]
  obtain ⟨name, allTypes, methods, -⟩ := run.result
  obtain ⟨name', allTypes', methods', -⟩ := run'.result
  rw [← title] at run'
  refine ⟨after'.build, toModel_eq_ok_iff.2 ⟨types, cs', after', defined', run', rfl⟩, ?_, ?_, ?_⟩
  · exact name'.trans name.symm
  · rw [Builder.build, Builder.build, methods, methods']
    exact (contributions.map _).append_left _
  · rw [Builder.build, Builder.build, allTypes, allTypes']
    exact (contributions.flatMap_right _).append_left _

/-- Without collisions every method has its operation's own name, and with the paths in another order the
    document has a model if it had one, with the same methods and types up to order. -/
theorem toModel_own_names (d : Document) (collisionless : d.Collisionless) :
    (∀ m, d.toModel.result = .ok m →
      m.methods.map (fun method => (method.origin, method.name)) =
        d.operations.map fun op => (Operation.origin op, Operation.ownName op)) ∧
    ∀ paths : Table PathItem, paths.entries.Perm d.paths.entries →
      ((∃ m', { d with paths }.toModel.result = .ok m') ↔ ∃ m, d.toModel.result = .ok m) ∧
      ∀ m m', d.toModel.result = .ok m → { d with paths }.toModel.result = .ok m' →
        m'.name = m.name ∧ m'.methods.Perm m.methods ∧ m'.types.Perm m.types := by
  constructor
  · intro m built
    obtain ⟨types, cs, after, defined, run, rfl⟩ := toModel_eq_ok_iff.1 built
    have methods : after.methods = cs.map Contribution.method := by
      simpa [Builder.ofTypes] using run.result.2.2.1
    have own := run.own (collisionless.start defined)
    rw [Builder.build, methods, List.map_map]
    exact Contribution.own_names own
  · intro paths reordered
    have collisionless' : { d with paths }.Collisionless := collisionless.perm (operations_perm reordered)
    apply exists_and_related
    · intro m built
      exact exists_model_of_paths d { d with paths } rfl rfl reordered collisionless built
    · intro m' built'
      obtain ⟨m, built, -⟩ :=
        exists_model_of_paths { d with paths } d rfl rfl reordered.symm collisionless' built'
      exact ⟨m, built⟩

/-- Paths whose operations have names of their own or none, and one that is not modelled. -/
def separatePaths : List (Str × PathItem) :=
  [("/pets", {
    ref := ""
    get := some ⟨"list", "", "", [], [⟨"", "limit", "query", "", false, "integer", "", none, []⟩], .empty, []⟩
    put := none
    post := some ⟨"list_2", "", "", [], [], .ofList [("200", ⟨"", "",
      some ⟨"#/definitions/Pet", [], "", "", [], [], .absent, []⟩, []⟩)], []⟩
    delete := none, options := none, head := none, patch := none
    parameters := []
    extras := [] }),
  ("/pets/\x7bid\x7d", {
    ref := ""
    get := some ⟨"", "", "", [], [⟨"", "id", "path", "", true, "string", "", none, []⟩], .empty, []⟩
    put := none, post := none, delete := none, options := none
    head := some ⟨"list", "", "", [], [], .empty, []⟩
    patch := none
    parameters := []
    extras := [] })]

def separateNames : Document where
  swagger := defaultVersion
  info := ⟨"Pets", "", "", []⟩
  paths := .ofList separatePaths
  definitions := .ofList [("Pet", ⟨"", ["object"], "", "", [], [], .absent, []⟩)]
  extras := []

theorem separateNames_keeps_names :
    (separateNames.Collisionless ∧
      (Table.ofList separatePaths.reverse).entries.Perm separateNames.paths.entries) ∧
    ∃ m m', separateNames.toModel.result = .ok m ∧
      { separateNames with paths := .ofList separatePaths.reverse }.toModel.result = .ok m' ∧
      m.methods.map (·.name) = [("list" : Str), "list_2", "get_pets_id"] ∧
      m'.methods.map (·.name) = [("get_pets_id" : Str), "list", "list_2"] ∧
      m.methods.map (fun method => (method.origin, method.name)) =
        separateNames.operations.map (fun op => (Operation.origin op, Operation.ownName op)) ∧
      m'.methods.Perm m.methods ∧ m'.types.Perm m.types := by
  have collisionless : separateNames.Collisionless := ⟨by decide, by decide⟩
  have reordered : (Table.ofList separatePaths.reverse).entries.Perm separateNames.paths.entries :=
    List.reverse_perm separatePaths
  obtain ⟨names, paths⟩ := toModel_own_names separateNames collisionless
  obtain ⟨-, same⟩ := paths _ reordered
  obtain ⟨-, methods, types⟩ := same _ _ rfl rfl
  exact ⟨⟨collisionless, reordered⟩, _, _, rfl, rfl, rfl, rfl, names _ rfl, methods, types⟩

end Document

end ApiModel
