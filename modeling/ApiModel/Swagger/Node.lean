import ApiModel.Value.Basic
import ApiModel.Value.Table

namespace ApiModel

inductive Additional (α : Type)
  | absent
  | flag (allowed : Bool)
  | schema (s : α)

structure Schema where
  ref : Str
  type : List Str
  format : Str
  description : Str
  items : List Schema
  properties : List (Str × Schema)
  additional : Additional Schema
  extras : List (Str × Value)

structure Parameter where
  ref : Str
  name : Str
  /-- Where the parameter is sent, as the document spells it. -/
  location : Str
  description : Str
  required : Bool
  type : Str
  format : Str
  schema : Option Schema
  extras : List (Str × Value)

structure Response where
  ref : Str
  description : Str
  schema : Option Schema
  extras : List (Str × Value)

structure Operation where
  operationId : Str
  summary : Str
  description : Str
  tags : List Str
  parameters : List Parameter
  responses : Table Response
  extras : List (Str × Value)

structure PathItem where
  ref : Str
  get : Option Operation
  put : Option Operation
  post : Option Operation
  delete : Option Operation
  options : Option Operation
  head : Option Operation
  patch : Option Operation
  parameters : List Parameter
  extras : List (Str × Value)

structure Info where
  title : Str
  version : Str
  description : Str
  extras : List (Str × Value)

structure Document where
  swagger : Str
  info : Info
  paths : Table PathItem
  definitions : Table Schema
  extras : List (Str × Value)

/-- The schema of further properties, if there is one that is a reference: the reference. -/
def Schema.additionalRef? (s : Schema) : Option Str :=
  match s.additional with
  | .schema a => if a.ref.isEmpty then none else some a.ref
  | _ => none

end ApiModel
