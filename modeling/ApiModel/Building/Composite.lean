import ApiModel.Building.Inference

namespace ApiModel

/-- The type of a definition. Properties make a struct; a schema without properties whose further
    properties are a reference makes a map; any other gives a type with no kind and no fields. -/
def Schema.definitionType (name : Str) (s : Schema) : Traced CompositeType := do
  let fields ← s.properties.mapM fun (property, schema) => do
    let type ← schema.typeRef
    return { name := property, type, serialize := true : Field }
  let target := if fields.isEmpty then s.additionalRef? else none
  let kind := if !fields.isEmpty then some .struct else target.map fun _ => .map
  return {
    name
    description := "implements the service definition of " ++ name
    kind
    fields
    mapValueType := target.map fun ref => .named (nameForRef ref) }

def structOf? (name description : Str) (fields : List Field) : Option CompositeType :=
  if fields.isEmpty then none else some { name, description, kind := some .struct, fields }

namespace Parameter

def position? (p : Parameter) : Option Position :=
  if p.location = "body" then some .body
  else if p.location = "header" then some .header
  else if p.location = "query" then some .query
  else if p.location = "path" then some .path
  else if p.location = "formData" then some .formData
  else none

/-- The type of a parameter: that of its schema in the body, the declared one elsewhere. -/
def typeRef (p : Parameter) (position : Position) : Traced TypeRef :=
  match position, p.schema with
  | .body, some s => s.typeRef
  | .body, none => do return .unsupported (← .ofExcept p.dump)
  | _, _ => pure (.primitive p.type)

/-- The position of a parameter that becomes a field: it is no reference, and its location is known. -/
def fieldPosition? (p : Parameter) : Option Position :=
  if p.ref.isEmpty then p.position? else none

/-- The field of a parameter; only parameters in the path keep their format. -/
def toField (p : Parameter) (position : Position) : Traced Field := do
  let type ← p.typeRef position
  return {
    name := p.name
    type
    format := if position = .path then p.format else ""
    position := some position
    serialize := true }

/-- The fields of parameters; the others are noted under the name of the type. -/
def toFields (typeName : Str) : List Parameter → Traced (List Field)
  | [] => pure []
  | p :: r => match p.fieldPosition? with
    | some position => do
      let f ← p.toField position
      return f :: (← toFields typeName r)
    | none => do
      Traced.note (.skippedParameter typeName (← .ofExcept p.dump))
      toFields typeName r

end Parameter

def parametersTypeName (method : Str) : Str := method ++ "Parameters"

def responsesTypeName (method : Str) : Str := method ++ "Responses"

/-- The type that holds the parameters of a method, if any becomes a field. -/
def parametersType (method : Str) (parameters : List Parameter) : Traced (Option CompositeType) := do
  let name := parametersTypeName method
  let fields ← Parameter.toFields name parameters
  return structOf? name (name ++ " holds parameters to " ++ method) fields

namespace Response

/-- The schema of a response that becomes a field: the response is no reference and no file. -/
def fieldSchema? (r : Response) : Option Schema :=
  if r.ref.isEmpty then r.schema.filter (!·.isOnly "file") else none

def toField (code : Str) (s : Schema) : Traced Field := do
  let type ← s.typeRef
  return { name := code, type := .pointer type, valueType := some type }

/-- The fields of responses; the others are noted under the name of the type. -/
def toFields (typeName : Str) : List (Str × Response) → Traced (List Field)
  | [] => pure []
  | (code, response) :: r => match response.fieldSchema? with
    | some s => do
      let f ← toField code s
      return f :: (← toFields typeName r)
    | none => do
      Traced.note (.noResponseSchema typeName code)
      toFields typeName r

end Response

def responsesType (method : Str) (responses : Table Response) :
    Traced (Option CompositeType) := do
  let name := responsesTypeName method
  let fields ← Response.toFields name responses.entries
  return structOf? name (name ++ " holds responses of " ++ method) fields

end ApiModel
