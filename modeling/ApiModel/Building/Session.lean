import ApiModel.Building.Builder
import ApiModel.Model.Reading
import ApiModel.Swagger.Reading

namespace ApiModel

namespace Builder

/-- Something that is asked of a builder: to collect what a value is, or to answer. -/
inductive Step
  | addType (type : Value)
  | addDefinition (name : Str) (schema : Value)
  | addMethod (method : Value)
  | uniqueName (name : Str)
  | addOperation (operation : Value) (verb path : Str)
  | build

/-- Why a step fails: a value is not what it should be, or it cannot be translated. -/
inductive StepFault
  | invalid (first : Problem) (others : List Problem)
  | dump (fault : DumpFault)
  deriving DecidableEq

inductive StepAnswer
  | name (s : Str)
  | nothing
  | method (m : Method)
  | model (m : Model)
  deriving DecidableEq

def onRead {α : Type} (b : Builder) (c : Checked α)
    (go : α → Builder × Except StepFault StepAnswer) : Builder × Except StepFault StepAnswer :=
  match c with
  | .ok a => go a
  | .bad first others => (b, .error (.invalid first others))

/-- What an operation leaves that fails on the way: the type of its parameters if that was found, as it
    is added before the responses are looked at. -/
def leftBy (b : Builder) (o : Operation) (verb path : Str) : Builder :=
  let name := b.uniqueName (baseName o.operationId verb path)
  match (parametersType name o.parameters).result with
  | .ok parameters => b.addType? parameters
  | .error _ => b

def step (b : Builder) : Step → Builder × Except StepFault StepAnswer
  | .addType type => b.onRead (type.readOptional CompositeType.read) fun t =>
    (b.addType? t, .ok (.name (nameOf? t)))
  | .addDefinition name schema => b.onRead (Schema.read nestingLimit schema) fun s =>
    match (s.definitionType name).result with
    | .ok t => (b.addType t, .ok (.name t.name))
    | .error e => (b, .error (.dump e))
  | .addMethod method => b.onRead (Method.read method) fun m => (b.addMethod m, .ok .nothing)
  | .uniqueName name => (b, .ok (.name (b.uniqueName name)))
  | .addOperation operation verb path => b.onRead (Operation.read nestingLimit operation) fun o =>
    match (b.addOperation o verb path).result with
    | .ok (b, m) => (b, .ok (.method m))
    | .error e => (b.leftBy o verb path, .error (.dump e))
  | .build => (b, .ok (.model b.build))

def after (b : Builder) (steps : List Step) : Builder := steps.foldl (fun b s => (b.step s).1) b

end Builder

end ApiModel
