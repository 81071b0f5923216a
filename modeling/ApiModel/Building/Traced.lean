import ApiModel.Value.Dump

namespace ApiModel

inductive Note
  | parsed (title : Str) (paths definitions : Nat)
  | noMapping (raw : String)
  | skippedParameter (typeName : Str) (raw : String)
  | noResponseSchema (typeName code : Str)
  | notModelled (verb : String) (path : Str)
  | built (name : Str) (types methods : Nat)
  deriving DecidableEq

inductive Level
  | debug
  | info
  | warning
  deriving DecidableEq

namespace Level

def word : Level → String
  | debug => "DEBUG"
  | info => "INFO"
  | warning => "WARNING"

def rank : Level → Nat
  | debug => 0
  | info => 1
  | warning => 2

end Level

namespace Note

def level : Note → Level
  | built .. => .info
  | _ => .debug

/-- The text of a note, with an escape in place of what is no character. -/
def message : Note → String
  | parsed title paths definitions => "openapi_surface.parser.swagger: parsed " ++
      (Value.str title).literal ++ ": " ++ toString paths ++ " paths, " ++ toString definitions ++
      " definitions"
  | noMapping raw => "openapi_surface.surface.types: no type mapping for schema " ++ raw
  | skippedParameter typeName raw => "openapi_surface.surface.parameters: " ++ typeName.escaped ++
      ": skipping parameter " ++ raw
  | noResponseSchema typeName code => "openapi_surface.surface.responses: " ++ typeName.escaped ++
      ": no schema for response " ++ code.escaped
  | notModelled verb path => "openapi_surface.surface.builder: not modelling " ++ verb ++ " " ++ path.escaped
  | built name types methods => "openapi_surface.surface.builder: built model " ++
      (Value.str name).literal ++ ": " ++ toString types ++ " types, " ++ toString methods ++ " methods"

def line (n : Note) : String := n.level.word ++ " " ++ n.message

end Note

structure Traced (α : Type) where
  notes : List Note
  result : Except DumpFault α

namespace Traced

variable {α β : Type}

def pure (a : α) : Traced α := ⟨[], .ok a⟩

def bind (x : Traced α) (f : α → Traced β) : Traced β :=
  match x.result with
  | .ok a =>
    let y := f a
    ⟨x.notes ++ y.notes, y.result⟩
  | .error e => ⟨x.notes, .error e⟩

instance : Monad Traced where
  pure := Traced.pure
  bind := Traced.bind

instance : LawfulMonad Traced := LawfulMonad.mk' Traced
  (by
    intro α x
    rcases x with ⟨notes, e | a⟩ <;> simp [Functor.map, bind, pure])
  (by
    intro α β a f
    simp [Bind.bind, Pure.pure, bind, pure])
  (by
    intro α β γ x f g
    rcases x with ⟨notes, e | a⟩
    · rfl
    · simp only [Bind.bind, bind]
      split <;> simp)

def note (n : Note) : Traced Unit := ⟨[n], .ok ()⟩

def ofExcept (x : Except DumpFault α) : Traced α := ⟨[], x⟩

@[simp] theorem result_pure (a : α) : (Pure.pure a : Traced α).result = .ok a := rfl

@[simp] theorem result_note (n : Note) : (note n).result = .ok () := rfl

@[simp] theorem result_ofExcept (x : Except DumpFault α) : (ofExcept x).result = x := rfl

/-- The record does not touch the result: results follow each other as those without a record do. -/
@[simp] theorem result_bind (x : Traced α) (f : α → Traced β) :
    (x >>= f).result = x.result >>= fun a => (f a).result := by
  rcases x with ⟨notes, e | a⟩ <;> rfl

theorem result_bind_eq_ok {x : Traced α} {f : α → Traced β} {b : β} :
    (x >>= f).result = .ok b ↔ ∃ a, x.result = .ok a ∧ (f a).result = .ok b := by
  rcases x with ⟨notes, e | a⟩
  · simp [Bind.bind, bind]
  · simp [Bind.bind, bind]

/-- A last stage that only makes something of the result does not decide whether there is one. -/
theorem exists_result_bind_pure_iff {x : Traced α} {f : α → β} :
    (∃ b, (x >>= fun a => Pure.pure (f a)).result = .ok b) ↔ ∃ a, x.result = .ok a := by
  constructor
  · rintro ⟨b, built⟩
    obtain ⟨a, first, -⟩ := result_bind_eq_ok.1 built
    exact ⟨a, first⟩
  · rintro ⟨a, first⟩
    exact ⟨f a, result_bind_eq_ok.2 ⟨a, first, rfl⟩⟩

end Traced

end ApiModel
