import ApiModel.Yaml.Fault

namespace ApiModel.Yaml

inductive Directive
  /-- The version of the language; only its first number counts. -/
  | version (major : Nat)
  | shorthand (handle full : String)
  | unknown
  deriving DecidableEq

inductive Token
  | directive (d : Directive)
  | documentStart
  | documentEnd
  | blockSequenceStart
  | blockMappingStart
  | blockEnd
  | flowSequenceStart
  | flowSequenceEnd
  | flowMappingStart
  | flowMappingEnd
  | blockEntry
  | flowEntry
  | key
  | value
  | alias (name : String)
  | anchor (name : String)
  | tag (handle : Option String) (rest : String)
  | scalar (text : Str) (plain : Bool)
  deriving DecidableEq

structure Tokens where
  list : List Token
  fault : Option Fault

def Tokens.ending (t : Tokens) : Fault := t.fault.getD .malformed

/-- The words before the first reference to a name that nothing before it has, or the first name
    given twice; none if there is no such place. -/
def cutAtBadName (seen : List String) : List Token → Option (List Token)
  | [] => none
  | t :: r =>
    match t with
    | .anchor name =>
      if seen.contains name then some [] else (cutAtBadName (name :: seen) r).map (t :: ·)
    | .alias name => if seen.contains name then (cutAtBadName seen r).map (t :: ·) else some []
    | _ => (cutAtBadName seen r).map (t :: ·)

def Tokens.checkNames (t : Tokens) : Tokens :=
  match cutAtBadName [] t.list with
  | some list => ⟨list, some .malformed⟩
  | none => t

end ApiModel.Yaml
