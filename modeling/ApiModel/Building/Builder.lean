import ApiModel.Building.Composite

namespace ApiModel

structure Builder where
  name : Str
  types : List CompositeType
  methods : List Method
  taken : List Str

namespace Builder

def empty (name : Str) : Builder := ⟨name, [], [], []⟩

def addType (b : Builder) (t : CompositeType) : Builder :=
  { b with types := b.types ++ [t], taken := b.taken ++ [t.name] }

def addType? (b : Builder) (t : Option CompositeType) : Builder :=
  match t with
  | some t => b.addType t
  | none => b

def addMethod (b : Builder) (m : Method) : Builder :=
  { b with methods := b.methods ++ [m], taken := b.taken ++ [m.name] }

/-- A method of this name would collide, or one of the types that belong to it. -/
def isTaken (b : Builder) (name : Str) : Bool :=
  b.taken.contains name || b.taken.contains (parametersTypeName name) ||
    b.taken.contains (responsesTypeName name)

def candidate (name : Str) (k : Nat) : Str :=
  if k ≤ 1 then name else name ++ "_" ++ toString k

/-- The first free candidate from the `k`-th on, of which at most `fuel` are taken. -/
def firstFree (b : Builder) (name : Str) : (fuel k : Nat) → Str
  | 0, k => candidate name k
  | fuel + 1, k =>
    if b.isTaken (candidate name k) then firstFree b name fuel (k + 1) else candidate name k

/-- The name itself if it is free, else the first free of the name with `_2`, `_3` and so on. -/
def uniqueName (b : Builder) (name : Str) : Str := b.firstFree name b.taken.length 1

def nameOf? (t : Option CompositeType) : Str := (t.map (·.name)).getD ""

/-- Adds the types and the method of an operation under a name that was free. -/
def addOperation (b : Builder) (o : Operation) (verb path : Str) : Traced (Builder × Method) := do
  let name := b.uniqueName (baseName o.operationId verb path)
  let parameters ← parametersType name o.parameters
  let responses ← responsesType name o.responses
  let method : Method := {
    name
    operation := o.operationId
    path
    httpMethod := verb
    description := o.description
    parametersTypeName := nameOf? parameters
    responsesTypeName := nameOf? responses }
  return (((b.addType? parameters).addType? responses).addMethod method, method)

def build (b : Builder) : Model := ⟨b.name, b.types, b.methods⟩

end Builder

namespace PathItem

def modelled (p : PathItem) : List (String × Operation) :=
  [("GET", p.get), ("POST", p.post), ("PUT", p.put), ("DELETE", p.delete)].filterMap
    fun (verb, o) => o.map (verb, ·)

def notModelled (p : PathItem) : List String :=
  [("OPTIONS", p.options), ("HEAD", p.head), ("PATCH", p.patch)].filterMap
    fun (verb, o) => o.map fun _ => verb

end PathItem

namespace Document

def operations (d : Document) : List (Str × String × Operation) :=
  d.paths.entries.flatMap fun (path, item) => item.modelled.map (path, ·)

def addDefinitions : Builder → List (Str × Schema) → Traced Builder
  | b, [] => pure b
  | b, (name, s) :: r => do
    let t ← s.definitionType name
    addDefinitions (b.addType t) r

def addOperations (path : Str) : Builder → List (String × Operation) → Traced Builder
  | b, [] => pure b
  | b, (verb, o) :: r => do
    let (b, _) ← b.addOperation o verb path
    addOperations path b r

def noteLeftOut (path : Str) : List String → Traced Unit
  | [] => pure ()
  | verb :: r => do
    Traced.note (.notModelled verb path)
    noteLeftOut path r

def addPaths : Builder → List (Str × PathItem) → Traced Builder
  | b, [] => pure b
  | b, (path, item) :: r => do
    let b ← addOperations path b item.modelled
    noteLeftOut path item.notModelled
    addPaths b r

/-- The model of a document: its definitions, then its operations, in document order. -/
def toModel (d : Document) : Traced Model := do
  let b ← addDefinitions (.empty d.info.title) d.definitions.entries
  let b ← addPaths b d.paths.entries
  let m := b.build
  Traced.note (.built m.name m.types.length m.methods.length)
  return m

end Document

end ApiModel
