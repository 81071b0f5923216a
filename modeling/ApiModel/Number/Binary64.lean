namespace ApiModel

def pow2 (n : Nat) : Nat := Nat.pow 2 n

def pow10 (n : Nat) : Nat := Nat.pow 10 n

/-- `finite` is `±m · 2^q` in canonical form: `m < 2^53`, `-1074 ≤ q`, and `2^52 ≤ m` unless
    `q = -1074`. -/
inductive Binary64
  | nan
  | infinite (negative : Bool)
  | finite (negative : Bool) (m : Nat) (q : Int)
  deriving DecidableEq

namespace Binary64

def zero (negative : Bool) : Binary64 := .finite negative 0 (-1074)

/-- The number with a mantissa that may have reached `2^53` by rounding up. -/
def carry (negative : Bool) (m : Nat) (q : Int) : Binary64 :=
  let (m, q) := if m = pow2 53 then (pow2 52, q + 1) else (m, q)
  if 971 < q then .infinite negative else .finite negative m q

def scaleDown (num den : Nat) (q : Int) : Nat × Nat :=
  (num * pow2 (-q).toNat, den * pow2 q.toNat)

/-- A quotient rounded to the nearest whole number, a half to the even neighbour. -/
def roundHalfEven (num den : Nat) : Nat :=
  let whole := num / den
  let twice := 2 * (num % den)
  if twice < den then whole
  else if den < twice then whole + 1
  else whole + whole % 2

def ofRatio (negative : Bool) (num den : Nat) : Binary64 :=
  if num = 0 then zero negative
  else
    let low : Int := num.log2 - den.log2 - 53
    let (n, d) := scaleDown num den low
    let exact := if pow2 53 * d ≤ n then low + 1 else low
    let q := max exact (-1074)
    let (n, d) := scaleDown num den q
    carry negative (roundHalfEven n d) q

def ofDecimal (negative : Bool) (digits : Nat) (exponent : Int) : Binary64 :=
  let size : Int := (Nat.toDigits 10 digits).length
  if digits = 0 then zero negative
  else if 310 < size + exponent then .infinite negative
  else if size + exponent < -330 then zero negative
  else ofRatio negative (digits * pow10 exponent.toNat) (pow10 (-exponent).toNat)

def ofInt (n : Int) : Binary64 := ofRatio (n < 0) n.natAbs 1

def neg : Binary64 → Binary64
  | nan => nan
  | infinite s => infinite !s
  | finite s m q => finite (!s) m q

def steps (negative : Bool) (m : Nat) (q r : Int) : Int :=
  let n : Int := (m * pow2 (q - r).toNat : Nat)
  if negative then -n else n

def ofSteps (zeroNegative : Bool) (n r : Int) : Binary64 :=
  if n = 0 then zero zeroNegative
  else ofRatio (n < 0) (n.natAbs * pow2 r.toNat) (pow2 (-r).toNat)

def add : Binary64 → Binary64 → Binary64
  | nan, _ | _, nan => nan
  | infinite s, infinite t => if s = t then infinite s else nan
  | infinite s, _ | _, infinite s => infinite s
  | finite s m q, finite t n r =>
    let low := min q r
    ofSteps (s && t) (steps s m q low + steps t n r low) low

def mul : Binary64 → Binary64 → Binary64
  | nan, _ | _, nan => nan
  | infinite s, infinite t => infinite (s != t)
  | infinite s, finite t m _ | finite t m _, infinite s => if m = 0 then nan else infinite (s != t)
  | finite s m q, finite t n r =>
    ofSteps (s != t) (steps (s != t) (m * n) 0 0) (q + r)

def toInt? : Binary64 → Option Int
  | finite s m q =>
    if 0 ≤ q then some (steps s m q 0)
    else if m % pow2 (-q).toNat = 0 then
      let n : Int := (m / pow2 (-q).toNat : Nat)
      some (if s then -n else n)
    else none
  | _ => none

end Binary64

end ApiModel
