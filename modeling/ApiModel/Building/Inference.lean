import ApiModel.Model.Basic
import ApiModel.Swagger.Writing
import ApiModel.Building.Naming
import ApiModel.Building.Traced

namespace ApiModel

namespace Schema

/-- The schema declares this type and no other. -/
def isOnly (s : Schema) (type : String) : Bool := s.type = [(type : Str)]

/-- The type that the only declared type of a schema stands for. A number is a whole number here, and
    an array or object needs a reference to say of what. -/
def declaredTypeRef? (s : Schema) : Option TypeRef :=
  if s.isOnly "string" then some (.primitive "string")
  else if s.isOnly "integer" then some (.primitive (if s.format = "int32" then "int32" else "int"))
  else if s.isOnly "number" then some (.primitive "int")
  else if s.isOnly "array" then match s.items with
    | [item] => if item.ref.isEmpty then none else some (.array (nameForRef item.ref))
    | _ => none
  else if s.isOnly "object" then match s.additional with
    | .absent => some (.map none)
    | _ => none
  else none

/-- The type of a schema, if the mapping knows it: a reference first, then the declared type, then a
    table by the reference of further properties. -/
def typeRef? (s : Schema) : Option TypeRef :=
  if !s.ref.isEmpty then some (.named (nameForRef s.ref))
  else match s.declaredTypeRef? with
    | some r => some r
    | none => s.additionalRef?.map fun ref => .map (some (nameForRef ref))

def typeRef (s : Schema) : Traced TypeRef :=
  match s.typeRef? with
  | some r => pure r
  | none => do
    let raw ← .ofExcept s.dump
    Traced.note (.noMapping raw)
    return .unsupported raw

end Schema

end ApiModel
