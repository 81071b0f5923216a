import ApiModel.Model.Basic
import ApiModel.Plain.Basic

namespace ApiModel

namespace TypeRef

def namedPlain (name : Str) : Plain :=
  .record [("variant", .text "named"), ("name", .text name)]

def toPlain : TypeRef → Plain
  | primitive name => .record [("variant", .text "primitive"), ("name", .text name)]
  | named name => namedPlain name
  | array item => .record [("variant", .text "array"), ("item", namedPlain item)]
  | map value => .record [("variant", .text "map"), ("value", (value.map namedPlain).getD .null)]
  | pointer target => .record [("variant", .text "pointer"), ("target", target.toPlain)]
  | unsupported raw => .record [("variant", .text "unsupported"), ("raw", .text raw)]

def depth : TypeRef → Nat
  | pointer target => target.depth + 1
  | _ => 1

def optionToPlain (r : Option TypeRef) : Plain := (r.map toPlain).getD .null

end TypeRef

def Field.toPlain (f : Field) : Plain :=
  .record [("name", .text f.name),
    ("type", f.type.toPlain),
    ("value_type", TypeRef.optionToPlain f.valueType),
    ("format", .text f.format),
    ("position", .ofText? (f.position.map Position.word)),
    ("serialize", .bool f.serialize)]

def CompositeType.toPlain (t : CompositeType) : Plain :=
  .record [("name", .text t.name),
    ("description", .text t.description),
    ("kind", .ofText? (t.kind.map Kind.word)),
    ("fields", .list (t.fields.map Field.toPlain)),
    ("map_value_type", TypeRef.optionToPlain t.mapValueType)]

def Method.toPlain (m : Method) : Plain :=
  .record [("name", .text m.name),
    ("operation", .text m.operation),
    ("path", .text m.path),
    ("http_method", .text m.httpMethod),
    ("description", .text m.description),
    ("parameters_type_name", .text m.parametersTypeName),
    ("responses_type_name", .text m.responsesTypeName)]

def Model.parts (m : Model) : List (String × Plain) :=
  [("name", .text m.name),
    ("types", .list (m.types.map CompositeType.toPlain)),
    ("methods", .list (m.methods.map Method.toPlain))]

def Model.toPlain (m : Model) : Plain := .record m.parts

def CompositeType.refs (t : CompositeType) : List TypeRef :=
  t.fields.flatMap (fun f => f.type :: f.valueType.toList) ++ t.mapValueType.toList

/-- Too many references stand inside each other for the model to be written. -/
def Model.isDeep (m : Model) : Bool :=
  m.types.any fun t => t.refs.any fun r => nestingLimit < r.depth

end ApiModel
