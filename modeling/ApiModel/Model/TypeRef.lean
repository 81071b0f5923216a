import ApiModel.Text.Str

namespace ApiModel

inductive TypeRef
  | primitive (name : Str)
  | named (name : Str)
  | array (item : Str)
  /-- A table from texts to a type of the model, or to anything. -/
  | map (value : Option Str)
  | pointer (target : TypeRef)
  /-- A shape that no other reference describes, as its own text. -/
  | unsupported (raw : Str)
  deriving DecidableEq

namespace TypeRef

/-- The reference as a type expression; an unsupported one is its raw text. -/
def text : TypeRef → Str
  | primitive name | named name => name
  | array item => "[]" ++ item
  | map value => "map[string]" ++ value.getD "any"
  | pointer target => "*" ++ target.text
  | unsupported raw => raw

end TypeRef

end ApiModel
