import ApiModel.Value.Basic

namespace ApiModel

inductive Plain
  | null
  | bool (b : Bool)
  | text (s : Str)
  | list (items : List Plain)
  | record (fields : List (String × Plain))

namespace Plain

def ofText? : Option String → Plain
  | some s => text s
  | none => null

mutual

def toValue : Plain → Value
  | null => .null
  | bool b => .bool b
  | text s => .str s
  | list items => .list (toValues items)
  | record fields => .map (toEntries fields)

def toValues : List Plain → List Value
  | [] => []
  | p :: r => p.toValue :: toValues r

def toEntries : List (String × Plain) → List (Scalar × Value)
  | [] => []
  | (k, p) :: r => (.str k, p.toValue) :: toEntries r

end

end Plain

end ApiModel
