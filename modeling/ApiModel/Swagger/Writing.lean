import ApiModel.Swagger.Reading
import ApiModel.Value.Dump

namespace ApiModel

/-- One field of a node that is written: always in full, otherwise unless it is at its default. -/
def writtenField (full : Bool) (name : String) (isDefault : Bool) (v : Value) : List (Scalar × Value) :=
  if full || !isDefault then [(.str name, v)] else []

def writtenText (full : Bool) (name : String) (s : Str) : List (Scalar × Value) :=
  writtenField full name s.isEmpty (.str s)

def writtenTexts (full : Bool) (name : String) (ss : List Str) : List (Scalar × Value) :=
  writtenField full name ss.isEmpty (.list (ss.map .str))

def writtenExtras (extras : List (Str × Value)) : List (Scalar × Value) :=
  extras.map fun e => (.str e.1, e.2)

def writtenOption (full : Bool) (name : String) (v : Option Value) : List (Scalar × Value) :=
  writtenField full name v.isNone (v.getD .null)

namespace Schema

mutual

def toValue (full : Bool) : Schema → Value
  | ⟨ref, type, format, description, items, properties, additional, extras⟩ =>
    .map (writtenText full "$ref" ref
      ++ writtenTexts full "type" type
      ++ writtenText full "format" format
      ++ writtenText full "description" description
      ++ writtenField full "items" items.isEmpty (.list (listToValues full items))
      ++ writtenField full "properties" properties.isEmpty (.map (tableToEntries full properties))
      ++ writtenOption full "additionalProperties" (additionalToValue? full additional)
      ++ writtenExtras extras)

def listToValues (full : Bool) : List Schema → List Value
  | [] => []
  | s :: r => s.toValue full :: listToValues full r

def tableToEntries (full : Bool) : List (Str × Schema) → List (Scalar × Value)
  | [] => []
  | (k, s) :: r => (.str k, s.toValue full) :: tableToEntries full r

def additionalToValue? (full : Bool) : Additional Schema → Option Value
  | .absent => none
  | .flag b => some (.bool b)
  | .schema s => some (s.toValue full)

end

end Schema

def Parameter.toValue (full : Bool) (p : Parameter) : Value :=
  .map (writtenText full "$ref" p.ref
    ++ writtenText full "name" p.name
    ++ writtenText full "in" p.location
    ++ writtenText full "description" p.description
    ++ writtenField full "required" (!p.required) (.bool p.required)
    ++ writtenText full "type" p.type
    ++ writtenText full "format" p.format
    ++ writtenOption full "schema" (p.schema.map (Schema.toValue full))
    ++ writtenExtras p.extras)

def Response.toValue (full : Bool) (r : Response) : Value :=
  .map (writtenText full "$ref" r.ref
    ++ writtenText full "description" r.description
    ++ writtenOption full "schema" (r.schema.map (Schema.toValue full))
    ++ writtenExtras r.extras)

def writtenList {α : Type} (full : Bool) (name : String) (write : α → Value) (nodes : List α) :
    List (Scalar × Value) :=
  writtenField full name nodes.isEmpty (.list (nodes.map write))

def tableValue {α : Type} (write : α → Value) (nodes : Table α) : Value :=
  .map (nodes.entries.map fun e => (.str e.1, write e.2))

def Operation.toValue (full : Bool) (o : Operation) : Value :=
  .map (writtenText full "operationId" o.operationId
    ++ writtenText full "summary" o.summary
    ++ writtenText full "description" o.description
    ++ writtenTexts full "tags" o.tags
    ++ writtenList full "parameters" (Parameter.toValue full) o.parameters
    ++ writtenField full "responses" (o.responses.size = 0) (tableValue (Response.toValue full) o.responses)
    ++ writtenExtras o.extras)

def PathItem.toValue (full : Bool) (p : PathItem) : Value :=
  let verb (name : String) (o : Option Operation) : List (Scalar × Value) :=
    writtenOption full name (o.map (Operation.toValue full))
  .map (writtenText full "$ref" p.ref
    ++ verb "get" p.get
    ++ verb "put" p.put
    ++ verb "post" p.post
    ++ verb "delete" p.delete
    ++ verb "options" p.options
    ++ verb "head" p.head
    ++ verb "patch" p.patch
    ++ writtenList full "parameters" (Parameter.toValue full) p.parameters
    ++ writtenExtras p.extras)

def Info.toValue (full : Bool) (i : Info) : Value :=
  .map ([(.str "title", .str i.title)]
    ++ writtenText full "version" i.version
    ++ writtenText full "description" i.description
    ++ writtenExtras i.extras)

def Document.toValue (full : Bool) (d : Document) : Value :=
  .map (writtenField full "swagger" (d.swagger = defaultVersion) (.str d.swagger)
    ++ [(.str "info", d.info.toValue full),
      (.str "paths", tableValue (PathItem.toValue full) d.paths)]
    ++ writtenField full "definitions" (d.definitions.size = 0)
      (tableValue (Schema.toValue full) d.definitions)
    ++ writtenExtras d.extras)

def extrasDepth (extras : List (Str × Value)) : Nat :=
  (extras.map fun e => e.2.height).foldr max 0

namespace Schema

mutual

/-- How many schemas and values stand inside each other. Of the fields only further schemas count, and
    those of further properties count as the values that they are written as. -/
def depth (full : Bool) : Schema → Nat
  | ⟨_, _, _, _, items, properties, additional, extras⟩ =>
    max (max (depthOfItems full items) (depthOfProperties full properties))
      (max (((additionalToValue? full additional).map Value.height).getD 0) (extrasDepth extras)) + 1

def depthOfItems (full : Bool) : List Schema → Nat
  | [] => 0
  | s :: r => max (s.depth full) (depthOfItems full r)

def depthOfProperties (full : Bool) : List (Str × Schema) → Nat
  | [] => 0
  | (_, s) :: r => max (s.depth full) (depthOfProperties full r)

end

end Schema

/-- How deep the schema of another node is: it counts once more than alone. -/
def schemaDepth (full : Bool) (s : Option Schema) : Nat := (s.map fun s => s.depth full + 1).getD 0

def Parameter.depth (full : Bool) (p : Parameter) : Nat :=
  max (schemaDepth full p.schema) (extrasDepth p.extras)

def Response.depth (full : Bool) (r : Response) : Nat :=
  max (schemaDepth full r.schema) (extrasDepth r.extras)

def Operation.depth (full : Bool) (o : Operation) : Nat :=
  max (max ((o.parameters.map (Parameter.depth full)).foldr max 0)
    ((o.responses.entries.map fun e => e.2.depth full).foldr max 0)) (extrasDepth o.extras)

def PathItem.depth (full : Bool) (p : PathItem) : Nat :=
  let operations := [p.get, p.put, p.post, p.delete, p.options, p.head, p.patch].filterMap id
  max (max ((operations.map fun o => o.depth full + 1).foldr max 0)
    ((p.parameters.map (Parameter.depth full)).foldr max 0)) (extrasDepth p.extras)

def Document.depth (full : Bool) (d : Document) : Nat :=
  max (max (max ((d.paths.entries.map fun e => e.2.depth full).foldr max 0)
    ((d.definitions.entries.map fun e => e.2.depth full + 1).foldr max 0)) (extrasDepth d.info.extras))
    (extrasDepth d.extras)

def dumpText (depth : Nat) (v : Value) : Except DumpFault String := do
  let text ← v.dump
  if nestingLimit < depth then .error .deep else return String.ofList text

def Schema.dumpWith (full : Bool) (s : Schema) : Except DumpFault String :=
  dumpText (s.depth full) (s.toValue full)

def Parameter.dumpWith (full : Bool) (p : Parameter) : Except DumpFault String :=
  dumpText (p.depth full) (p.toValue full)

def Response.dumpWith (full : Bool) (r : Response) : Except DumpFault String :=
  dumpText (r.depth full) (r.toValue full)

def Document.dumpWith (full : Bool) (d : Document) : Except DumpFault String :=
  dumpText (d.depth full) (d.toValue full)

def Schema.dump (s : Schema) : Except DumpFault String := s.dumpWith false

def Parameter.dump (p : Parameter) : Except DumpFault String := p.dumpWith false

end ApiModel
