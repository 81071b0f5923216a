import ApiModel.Proofs.Building.Run

namespace ApiModel

namespace Builder

variable {b after : Builder} {operations : List (Str × String × Operation)} {cs : List Contribution}

/-- A run over a longer list of operations first does what the run over the shorter one does. -/
theorem Run.of_prefix {first : List (Str × String × Operation)} (run : Run b operations cs after)
    (grown : first <+: operations) :
    ∃ left between, Run b first left between ∧ between.types <+: after.types ∧
      between.methods <+: after.methods := by
  obtain ⟨later, rfl⟩ := grown
  obtain ⟨left, right, between, rfl, runFirst, runLater⟩ := run.split
  obtain ⟨-, types, methods, -⟩ := runLater.result
  exact ⟨left, between, runFirst, ⟨_, types.symm⟩, ⟨_, methods.symm⟩⟩

end Builder

namespace Document

/-- If a document goes on where another with the same title and definitions ends, the other has a model
    whenever it has one, and the types and methods of that come first in its own. -/
theorem toModel_grows (d d' : Document) (title : d.info.title = d'.info.title)
    (definitions : d.definitions = d'.definitions) (grown : d.operations <+: d'.operations) (m' : Model)
    (built : d'.toModel.result = .ok m') :
    ∃ m, d.toModel.result = .ok m ∧ m.name = m'.name ∧ m.types <+: m'.types ∧ m.methods <+: m'.methods := by
  obtain ⟨types, cs, after, defined, run, rfl⟩ := toModel_eq_ok_iff.1 built
  obtain ⟨left, between, runFirst, typesPrefix, methodsPrefix⟩ := run.of_prefix grown
  have name : between.name = after.name := runFirst.result.1.trans run.result.1.symm
  have same : d.definitionTypes = d'.definitionTypes := by
    rw [definitionTypes, definitionTypes, definitions]
  rw [← title] at runFirst
  rw [← same] at defined
  exact ⟨between.build, toModel_eq_ok_iff.2 ⟨types, left, between, defined, runFirst, rfl⟩, name,
    typesPrefix, methodsPrefix⟩

/-- The colliding operations, and behind them one under the name that the second of them was given and one
    more under the name that they share. -/
def collidingLater : Document where
  swagger := defaultVersion
  info := ⟨"Pets", "2", "", []⟩
  paths := .ofList (colliding.paths.entries ++ [(("/later" : Str), {
    ref := ""
    get := some ⟨"list_3", "", "", [], [⟨"", "limit", "query", "", false, "integer", "", none, []⟩],
      .empty, []⟩
    put := some ⟨"list", "", "", [], [], .empty, []⟩
    post := none, delete := none, options := none, head := none, patch := none
    parameters := []
    extras := [] })])
  definitions := colliding.definitions
  extras := []

theorem colliding_grows :
    (colliding.info.title = collidingLater.info.title ∧
      colliding.definitions = collidingLater.definitions ∧
      colliding.operations <+: collidingLater.operations) ∧
    ∃ m', collidingLater.toModel.result = .ok m' ∧
      m'.methods.map (·.name) = ["list", "list_3", "delete_pets", "list_3_2", "list_4"] ∧
      ∃ m, colliding.toModel.result = .ok m ∧ m.name = m'.name ∧ m.types <+: m'.types ∧
        m.methods <+: m'.methods :=
  have later : colliding.operations <+: collidingLater.operations := ⟨_, rfl⟩
  ⟨⟨rfl, rfl, later⟩, _, rfl, rfl, toModel_grows colliding collidingLater rfl rfl later _ rfl⟩

end Document

end ApiModel
