import ApiModel.Plain.Basic
import ApiModel.Yaml.TextStyle

namespace ApiModel.Plain

open Yaml

mutual

/-- What stands behind the colon of a field of a record that is indented by `indent`; `column` is
    where the colon ends. -/
def fieldYaml (indent column : Nat) : Plain → List Char
  | null => " null".toList
  | bool b => if b then " true".toList else " false".toList
  | text s => ' ' :: writeText (indent + 2) (column + 1) s
  | list [] => " []".toList
  | record [] => " \x7b\x7d".toList
  | list (p :: r) => newLine indent ++ itemsYaml indent (p :: r)
  | record (f :: r) => newLine (indent + 2) ++ fieldsYaml (indent + 2) (f :: r)

def itemYaml (indent : Nat) : Plain → List Char
  | null => " null".toList
  | bool b => if b then " true".toList else " false".toList
  | text s => ' ' :: writeText (indent + 2) (indent + 2) s
  | list [] => " []".toList
  | record [] => " \x7b\x7d".toList
  | list (p :: r) => ' ' :: itemsYaml (indent + 2) (p :: r)
  | record (f :: r) => ' ' :: fieldsYaml (indent + 2) (f :: r)

def itemsYaml (indent : Nat) : List Plain → List Char
  | [] => []
  | [p] => '-' :: itemYaml indent p
  | p :: r => '-' :: itemYaml indent p ++ newLine indent ++ itemsYaml indent r

def fieldsYaml (indent : Nat) : List (String × Plain) → List Char
  | [] => []
  | [(name, p)] => name.toList ++ ':' :: fieldYaml indent (indent + name.length + 1) p
  | (name, p) :: r => name.toList ++ ':' :: fieldYaml indent (indent + name.length + 1) p ++
      newLine indent ++ fieldsYaml indent r

end

def recordToYaml (fields : List (String × Plain)) : String :=
  String.ofList (fieldsYaml 0 fields ++ ['\n'])

end ApiModel.Plain
