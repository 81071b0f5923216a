namespace ApiModel.Text

/-- Where bytes stop being UTF-8: after `start` good bytes there are `length` bytes that begin no
    character, or the text ends inside one. -/
inductive Utf8Fault
  | invalid (start length : Nat)
  | incomplete (start : Nat)
  deriving DecidableEq

def continuation? (b : UInt8) : Option Nat :=
  if 0x80 ≤ b && b < 0xC0 then some (b.toNat - 0x80) else none

/-- The least and greatest second byte after a leading byte, as the strict form allows them. -/
def secondRange (lead : UInt8) : UInt8 × UInt8 :=
  if lead = 0xE0 then (0xA0, 0xBF)
  else if lead = 0xED then (0x80, 0x9F)
  else if lead = 0xF0 then (0x90, 0xBF)
  else if lead = 0xF4 then (0x80, 0x8F)
  else (0x80, 0xBF)

inductive Utf8Head
  | char (c : Char) (rest : List UInt8)
  | invalid (length : Nat)
  | incomplete

def utf8Head (lead : UInt8) (rest : List UInt8) : Utf8Head :=
  let (lo, hi) := secondRange lead
  if lead < 0x80 then .char (Char.ofNat lead.toNat) rest
  else if 0xC2 ≤ lead && lead < 0xE0 then
    match rest with
    | [] => .incomplete
    | b :: r => match continuation? b with
      | none => .invalid 1
      | some x => .char (Char.ofNat ((lead.toNat - 0xC0) * 64 + x)) r
  else if 0xE0 ≤ lead && lead < 0xF0 then
    match rest with
    | [] => .incomplete
    | b :: r =>
      if b < lo || hi < b then .invalid 1
      else match r with
      | [] => .incomplete
      | c :: r => match continuation? c with
        | none => .invalid 2
        | some y => .char (Char.ofNat (((lead.toNat - 0xE0) * 64 + (b.toNat - 0x80)) * 64 + y)) r
  else if 0xF0 ≤ lead && lead < 0xF5 then
    match rest with
    | [] => .incomplete
    | b :: r =>
      if b < lo || hi < b then .invalid 1
      else match r with
      | [] => .incomplete
      | c :: r => match continuation? c with
        | none => .invalid 2
        | some y => match r with
          | [] => .incomplete
          | d :: r => match continuation? d with
            | none => .invalid 3
            | some z => .char (Char.ofNat
                ((((lead.toNat - 0xF0) * 64 + (b.toNat - 0x80)) * 64 + y) * 64 + z)) r
  else .invalid 1

def decodeUtf8From : (fuel start : Nat) → List UInt8 → Except Utf8Fault (List Char)
  | 0, _, _ | _, _, [] => .ok []
  | fuel + 1, start, b :: r => match utf8Head b r with
    | .invalid length => .error (.invalid start length)
    | .incomplete => .error (.incomplete start)
    | .char c rest => (decodeUtf8From fuel (start + c.utf8Size) rest).map (c :: ·)

def decodeUtf8 (bytes : List UInt8) : Except Utf8Fault (List Char) :=
  decodeUtf8From bytes.length 0 bytes

def continuing (n : Nat) : UInt8 := UInt8.ofNat (0x80 + n % 64)

def encodeChar (c : Char) : List UInt8 :=
  let n := c.toNat
  if n < 0x80 then [UInt8.ofNat n]
  else if n < 0x800 then [UInt8.ofNat (0xC0 + n / 64), continuing n]
  else if n < 0x10000 then [UInt8.ofNat (0xE0 + n / 4096), continuing (n / 64), continuing n]
  else [UInt8.ofNat (0xF0 + n / 262144), continuing (n / 4096), continuing (n / 64),
    continuing n]

def encodeUtf8 (cs : List Char) : List UInt8 := cs.flatMap encodeChar

/-- Line ends written as a carriage return, alone or before a line feed, become line feeds. -/
def normalizeLineEnds : List Char → List Char
  | [] => []
  | '\r' :: '\n' :: r => '\n' :: normalizeLineEnds r
  | c :: r => (if c = '\r' then '\n' else c) :: normalizeLineEnds r

end ApiModel.Text
