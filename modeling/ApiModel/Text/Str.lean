import ApiModel.Text.Numeral

namespace ApiModel

/-- What a text of the program consists of: characters, and halves of surrogate pairs, which stand for
    no character. -/
inductive Letter
  | char (c : Char)
  | half (offset : Fin 0x800)
  deriving DecidableEq

namespace Letter

instance : Coe Char Letter := ⟨char⟩

def ofCode (code : Nat) : Letter :=
  if bounds : 0xD800 ≤ code ∧ code < 0xE000 then half ⟨code - 0xD800, by omega⟩
  else char (Char.ofNat code)

def code : Letter → Nat
  | char c => c.toNat
  | half offset => 0xD800 + offset

/-- It is a character of some kind. -/
def isOf (kind : Char → Bool) : Letter → Bool
  | char c => kind c
  | half _ => false

def char? : Letter → Option Char
  | char c => some c
  | half _ => none

def isHalf : Letter → Bool
  | char _ => false
  | half _ => true

def lower : Letter → List Letter
  | char c => (Text.lowerChar c).map char
  | half offset => [half offset]

theorem toNat_outside (c : Char) : c.toNat < 0xD800 ∨ 0xE000 ≤ c.toNat := c.valid.imp id And.left

theorem ofCode_code (l : Letter) : ofCode l.code = l := by
  cases l with
  | char c =>
    have outside := toNat_outside c
    rw [code, ofCode, dif_neg (by omega), Char.ofNat_toNat]
  | half offset =>
    have bound := offset.isLt
    rw [code, ofCode, dif_pos (by omega)]
    simp

/-- The characters of a list that has no halves of pairs. -/
def chars? : List Letter → Option (List Char)
  | [] => some []
  | char c :: r => (chars? r).map (c :: ·)
  | half _ :: _ => none

theorem chars?_eq_some_iff {ls : List Letter} {cs : List Char} :
    chars? ls = some cs ↔ ls = cs.map char := by
  induction ls generalizing cs with
  | nil => cases cs <;> simp [chars?]
  | cons l r ih =>
    cases l with
    | char c =>
      cases cs with
      | nil => simp [chars?]
      | cons d cs =>
        simp only [chars?, Option.map_eq_some_iff, ih, List.map_cons, List.cons.injEq, char.injEq]
        constructor
        · rintro ⟨ds, rfl, rfl, rfl⟩
          exact ⟨rfl, rfl⟩
        · rintro ⟨rfl, rfl⟩
          exact ⟨cs, rfl, rfl, rfl⟩
    | half offset => cases cs <;> simp [chars?]

@[simp] theorem chars?_map (cs : List Char) : chars? (cs.map char) = some cs :=
  chars?_eq_some_iff.2 rfl

theorem chars?_eq_none_iff {ls : List Letter} : chars? ls = none ↔ ls.any isHalf = true := by
  induction ls with
  | nil => simp [chars?]
  | cons l r ih => cases l <;> simp [chars?, isHalf, ih]

end Letter

/-- A text of the program. -/
structure Str where
  ofList ::
  toList : List Letter
  deriving DecidableEq, Inhabited

namespace Str

@[coe] def ofString (s : String) : Str := ofList (s.toList.map .char)

instance : Coe String Str := ⟨ofString⟩

instance : Append Str := ⟨fun s t => ofList (s.toList ++ t.toList)⟩

def isEmpty (s : Str) : Bool := s.toList.isEmpty

def startsWith (s : Str) (front : String) : Bool := (ofString front).toList.isPrefixOf s.toList

/-- The characters of a text that has no halves of pairs. -/
def chars? (s : Str) : Option (List Char) := Letter.chars? s.toList

def hasHalf (s : Str) : Bool := s.toList.any Letter.isHalf

def lower (s : Str) : Str := ofList (s.toList.flatMap Letter.lower)

/-- What stands in a text where it cannot be written as bytes: the halves of pairs that follow each
    other there, by the place and the code of the first. -/
structure EncodeFault where
  start : Nat
  code : Nat
  others : Nat
  deriving DecidableEq

def EncodeFault.message (f : EncodeFault) : String :=
  "'utf-8' codec can't encode character" ++
    (if f.others = 0 then
      " '\\u" ++ String.ofList (Text.hexLower 4 f.code) ++ "' in position " ++ toString f.start
    else "s in position " ++ toString f.start ++ "-" ++ toString (f.start + f.others)) ++
    ": surrogates not allowed"

def encodeFault (s : Str) : EncodeFault :=
  let torn := s.toList.dropWhile (!·.isHalf)
  ⟨s.toList.length - torn.length, (torn.head?.map Letter.code).getD 0,
    (torn.tail.takeWhile Letter.isHalf).length⟩

def encode (s : Str) : Except EncodeFault (List Char) :=
  match s.chars? with
  | some cs => .ok cs
  | none => .error s.encodeFault

/-- The text with signs in place of what is no character. -/
def shown (s : Str) : String := String.ofList (s.toList.flatMap fun l => match l with
  | .char c => [c]
  | .half _ => ['\ufffd', '\ufffd', '\ufffd'])

/-- The text with an escape in place of what is no character. -/
def escaped (s : Str) : String := String.ofList (s.toList.flatMap fun l => match l with
  | .char c => [c]
  | .half offset => '\\' :: 'u' :: Text.hexLower 4 (0xD800 + offset))

variable {s t : Str} {a b : String}

theorem ext (same : s.toList = t.toList) : s = t := by
  cases s
  cases t
  cases same
  rfl

theorem toList_inj : s.toList = t.toList ↔ s = t := ⟨ext, congrArg toList⟩

@[simp] theorem toList_append (s t : Str) : (s ++ t).toList = s.toList ++ t.toList := rfl

theorem isEmpty_iff : s.isEmpty = true ↔ s = "" := by
  rw [isEmpty, List.isEmpty_iff, ← toList_inj]
  rfl

theorem isEmpty_eq_false_iff : s.isEmpty = false ↔ s ≠ "" := by
  rw [← Bool.not_eq_true, isEmpty_iff]

theorem toList_coe (a : String) : (a : Str).toList = a.toList.map .char := rfl

@[simp] theorem coe_inj : (a : Str) = b ↔ a = b := by
  rw [← toList_inj, toList_coe, toList_coe, List.map_inj_right fun _ _ => Letter.char.inj,
    String.toList_inj]

@[simp] theorem chars?_coe (a : String) : (a : Str).chars? = some a.toList := Letter.chars?_map _

theorem chars?_eq_some_iff {cs : List Char} : s.chars? = some cs ↔ s = (String.ofList cs : String) := by
  rw [chars?, Letter.chars?_eq_some_iff, ← toList_inj, toList_coe, String.toList_ofList]

theorem chars?_eq_none_iff : s.chars? = none ↔ s.hasHalf = true := Letter.chars?_eq_none_iff

theorem hasHalf_eq_false_iff : s.hasHalf = false ↔ ∃ a : String, s = a := by
  rw [← Bool.not_eq_true, ← chars?_eq_none_iff, ← ne_eq, Option.ne_none_iff_exists']
  constructor
  · rintro ⟨cs, chars⟩
    exact ⟨_, chars?_eq_some_iff.1 chars⟩
  · rintro ⟨a, rfl⟩
    exact ⟨_, chars?_coe a⟩

@[simp] theorem hasHalf_coe (a : String) : (a : Str).hasHalf = false := hasHalf_eq_false_iff.2 ⟨a, rfl⟩

@[simp] theorem encode_coe (a : String) : (a : Str).encode = .ok a.toList := by simp [encode]

theorem encode_eq_ok_iff {cs : List Char} : s.encode = .ok cs ↔ s = (String.ofList cs : String) := by
  rw [← chars?_eq_some_iff, encode]
  cases s.chars? <;> simp

theorem exists_encode_iff : (∃ cs, s.encode = .ok cs) ↔ s.hasHalf = false := by
  rw [hasHalf_eq_false_iff]
  constructor
  · rintro ⟨cs, encoded⟩
    exact ⟨_, encode_eq_ok_iff.1 encoded⟩
  · rintro ⟨a, rfl⟩
    exact ⟨_, encode_coe a⟩

end Str

end ApiModel
