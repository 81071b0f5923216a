namespace ApiModel.Text

def base64Value? (c : Char) : Option Nat :=
  let n := c.toNat
  if 'A' ≤ c && c ≤ 'Z' then some (n - 'A'.toNat)
  else if 'a' ≤ c && c ≤ 'z' then some (n - 'a'.toNat + 26)
  else if '0' ≤ c && c ≤ '9' then some (n - '0'.toNat + 52)
  else if c = '+' then some 62
  else if c = '/' then some 63
  else none

/-- The bytes of the rest of a text, of which `seen` digits of the current group were read, the last
    of them leaving `carry`, and `pads` padding signs since. -/
def decodeBase64From (seen carry pads : Nat) : List Char → Option (List UInt8)
  | [] => if seen = 0 then some [] else none
  | '=' :: r =>
    if 2 ≤ seen && 4 ≤ seen + pads + 1 then some []
    else decodeBase64From seen carry (if 2 ≤ seen then pads + 1 else pads) r
  | c :: r => match base64Value? c with
    | none => decodeBase64From seen carry pads r
    | some v => match seen with
      | 0 => decodeBase64From 1 v 0 r
      | 1 => (decodeBase64From 2 (v % 16) 0 r).map (UInt8.ofNat (carry * 4 + v / 16) :: ·)
      | 2 => (decodeBase64From 3 (v % 4) 0 r).map (UInt8.ofNat (carry * 16 + v / 4) :: ·)
      | _ => (decodeBase64From 0 0 0 r).map (UInt8.ofNat (carry * 64 + v) :: ·)

def decodeBase64 (cs : List Char) : Option (List UInt8) := decodeBase64From 0 0 0 cs

end ApiModel.Text
