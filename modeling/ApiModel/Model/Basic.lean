import ApiModel.Model.TypeRef

namespace ApiModel

inductive Kind
  | struct
  | map
  deriving DecidableEq

inductive Position
  | body
  | header
  | query
  | path
  | formData
  deriving DecidableEq

structure Field where
  name : Str
  type : TypeRef
  /-- For fields of responses, whose type is a pointer to it. -/
  valueType : Option TypeRef := none
  format : Str := ""
  position : Option Position := none
  serialize : Bool := false
  deriving DecidableEq

structure CompositeType where
  name : Str
  description : Str := ""
  kind : Option Kind := none
  fields : List Field := []
  mapValueType : Option TypeRef := none
  deriving DecidableEq

structure Method where
  name : Str
  /-- The name that the document gives to the operation; empty if it gives none. -/
  operation : Str := ""
  path : Str
  httpMethod : Str
  description : Str := ""
  parametersTypeName : Str := ""
  responsesTypeName : Str := ""
  deriving DecidableEq

structure Model where
  name : Str
  types : List CompositeType
  methods : List Method
  deriving DecidableEq

namespace Kind

def word : Kind → String
  | struct => "STRUCT"
  | map => "MAP"

end Kind

namespace Position

def word : Position → String
  | body => "BODY"
  | header => "HEADER"
  | query => "QUERY"
  | path => "PATH"
  | formData => "FORMDATA"

end Position

namespace Model

def typeNamed (m : Model) (name : Str) : Option CompositeType := m.types.find? (·.name = name)

def methodNamed (m : Model) (name : Str) : Option Method := m.methods.find? (·.name = name)

end Model

end ApiModel
