import ApiModel.Number.Binary64
import ApiModel.Text.Str
import ApiModel.Value.Calendar

namespace ApiModel

inductive Scalar
  | null
  | bool (b : Bool)
  | int (n : Int)
  | float (x : Binary64)
  | str (s : Str)
  | bytes (bs : List UInt8)
  | date (d : Date)
  | moment (m : Moment)
  deriving DecidableEq

inductive Value
  | scalar (s : Scalar)
  | list (items : List Value)
  | pair (key value : Value)
  | set (members : List Scalar)
  | map (entries : List (Scalar × Value))
  /-- A turn of a container that contains itself, under the number of the container. -/
  | turn (id : Nat) (content : Value)
  | cut

abbrev Entries := List (Scalar × Value)

/-- How many nodes, or values in what no field takes, may stand inside each other. -/
def nestingLimit : Nat := 255

namespace Scalar

/-- The number a scalar stands for when keys are compared; truth values are 0 and 1. -/
def number? : Scalar → Option (Int ⊕ Binary64)
  | bool b => some (.inl (if b then 1 else 0))
  | int n => some (.inl n)
  | float x => some (match x.toInt? with
    | some n => .inl n
    | none => .inr x)
  | _ => none

/-- Two scalars are the same key: numbers by value, moments by instant, all else by identity. -/
def same (a b : Scalar) : Bool :=
  match a.number?, b.number? with
  | some x, some y => x = y
  | none, none => match a, b with
    | moment m, moment n => m.same n
    | _, _ => a = b
  | _, _ => false

end Scalar

namespace Value

def null : Value := .scalar .null
def bool (b : Bool) : Value := .scalar (.bool b)
def int (n : Int) : Value := .scalar (.int n)
def str (s : Str) : Value := .scalar (.str s)

def object (fields : List (Str × Value)) : Value :=
  .map (fields.map fun f => (.str f.1, f.2))

def peel : Value → Value
  | .turn _ v => v.peel
  | v => v

def entries? (v : Value) : Option Entries :=
  match v.peel with
  | .map m => some m
  | _ => none

end Value

namespace Entries

def put : Entries → Scalar → Value → Entries
  | [], k, v => [(k, v)]
  | (k', v') :: r, k, v => if k'.same k then (k', v) :: r else (k', v') :: put r k v

def ofList (entries : List (Scalar × Value)) : Entries :=
  entries.foldl (fun m e => put m e.1 e.2) []

def get? (m : Entries) (key : Str) : Option Value :=
  (m.find? fun e => e.1 = .str key).map (·.2)

end Entries

def putMember (members : List Scalar) (s : Scalar) : List Scalar :=
  if members.any (·.same s) then members else members ++ [s]

end ApiModel
