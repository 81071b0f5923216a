import ApiModel.Model.Basic

namespace ApiModel

def Field.describe (f : Field) : Str :=
  "  " ++ f.name ++ ": " ++ f.type.text ++
    ((f.position.map fun p => " [" ++ p.word ++ "]").getD "" : String)

def CompositeType.describe (t : CompositeType) : List Str :=
  [t.name ++ (" (" ++ (t.kind.map Kind.word).getD "-" ++ ")" : String)] ++
    (t.mapValueType.map fun r => ("  map of " : Str) ++ r.text).toList ++ t.fields.map Field.describe

def namedLine (label : String) (name : Str) : List Str :=
  if name.isEmpty then [] else [("  " ++ label ++ ": " : String) ++ name]

def Method.describe (m : Method) : List Str :=
  [m.httpMethod ++ " " ++ m.path ++ " -> " ++ m.name] ++
    namedLine "parameters" m.parametersTypeName ++ namedLine "responses" m.responsesTypeName

def Model.describe (m : Model) : List Str :=
  ["# " ++ m.name, "", "## Types"] ++ m.types.flatMap CompositeType.describe ++
    [("" : Str), "## Methods"] ++ m.methods.flatMap Method.describe

end ApiModel
