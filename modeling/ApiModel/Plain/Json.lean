import ApiModel.Json.Quoted
import ApiModel.Plain.Basic

namespace ApiModel.Plain

def lineAt (level : Nat) : List Letter := .char '\n' :: List.replicate (2 * level) (.char ' ')

/-- Items on lines of their own, one level deeper than the brackets; no line is broken for none. -/
def block (level : Nat) (left : Char) (items : List (List Letter)) (right : Char) : List Letter :=
  if items.isEmpty then [.char left, .char right]
  else .char left :: lineAt (level + 1) ++ (.char ',' :: lineAt (level + 1)).intercalate items ++
    lineAt level ++ [.char right]

mutual

def indented (level : Nat) : Plain → List Letter
  | null => ("null" : Str).toList
  | bool b => if b then ("true" : Str).toList else ("false" : Str).toList
  | text s => Json.quoteText s
  | list items => block level '[' (indentedItems (level + 1) items) ']'
  | record fields => block level '\x7b' (indentedFields (level + 1) fields) '\x7d'

def indentedItems (level : Nat) : List Plain → List (List Letter)
  | [] => []
  | p :: r => p.indented level :: indentedItems level r

def indentedFields (level : Nat) : List (String × Plain) → List (List Letter)
  | [] => []
  | (k, p) :: r => (Json.quoteText k ++ .char ':' :: .char ' ' :: p.indented level) :: indentedFields level r

end

def toJson (p : Plain) : Str := .ofList (p.indented 0 ++ [.char '\n'])

end ApiModel.Plain
