import ApiModel.Number.Binary64

namespace ApiModel

/-- A positive number `0.d₁d₂…dₙ · 10^point`, by its digits without zeros at either end. -/
structure Decimal where
  digits : List Char
  point : Int
  deriving DecidableEq

namespace Binary64

def powerAtMost (e : Int) (num den : Nat) : Bool :=
  pow10 e.toNat * den ≤ num * pow10 (-e).toNat

/-- The exponent of the leading digit of `num / den`, a quotient between `2^low` and `2^(low+1)`. -/
def leadingExponent (num den : Nat) (low : Int) : Int :=
  let e := low * 30103 / 100000
  if !powerAtMost e num den then e - 1
  else if powerAtMost (e + 1) num den then e + 1
  else e

def decimalOf (n : Nat) (scale : Int) : Decimal :=
  let ds := Nat.toDigits 10 n
  ⟨(ds.reverse.dropWhile (· = '0')).reverse, ds.length + scale⟩

/-- Of the two neighbours of `m · 2^q` on the grid of steps `10^scale` the nearer one that lies in the
    interval which rounds to `m · 2^q`; ends count if `m` is even, and a tie goes to the even one. -/
def nearOnGrid (m : Nat) (q scale : Int) : Option Nat :=
  -- the number, its neighbours' midpoints and the grid step in units of 2^(q-2) / 10^|scale|
  let unit := pow2 (q - 2).toNat * pow10 (-scale).toNat
  let step := pow2 (2 - q).toNat * pow10 scale.toNat
  let value := 4 * m * unit
  let below := if m = pow2 52 && -1074 < q then value - unit else value - 2 * unit
  let above := value + 2 * unit
  let inside (n : Nat) : Bool :=
    if m % 2 = 0 then below ≤ n && n ≤ above else below < n && n < above
  let k := value / step
  let lowGap := value - k * step
  let highGap := (k + 1) * step - value
  let lowFits := 0 < k && inside (k * step)
  let highFits := inside ((k + 1) * step)
  if lowFits && (!highFits || lowGap < highGap || (lowGap = highGap && k % 2 = 0)) then some k
  else if highFits then some (k + 1)
  else none

def shortestFrom (m : Nat) (q : Int) : (fuel : Nat) → (scale : Int) → Decimal
  | 0, _ => ⟨['0'], 0⟩
  | fuel + 1, scale => match nearOnGrid m q scale with
    | some k => decimalOf k scale
    | none => shortestFrom m q fuel (scale - 1)

/-- The fewest digits that read back as `m · 2^q`, and of those the nearest; 17 always do. -/
def shortest (m : Nat) (q : Int) : Decimal :=
  shortestFrom m q 17 (leadingExponent (m * pow2 q.toNat) (pow2 (-q).toNat) (m.log2 + q))

end Binary64

structure FloatLayout where
  /-- The smallest exponent of the leading digit that is written without an exponent. -/
  leastPositional : Int
  exponentWidth : Nat
  nan : String
  infinity : String

/-- Numbers in JSON text: positional from `1e-5` to below `1e16`, bare exponents, no name for the
    numbers that JSON lacks. -/
def FloatLayout.json : FloatLayout := ⟨-5, 1, "null", "null"⟩

/-- Numbers as literals: positional from `1e-4` to below `1e16`, exponents of two digits. -/
def FloatLayout.literal : FloatLayout := ⟨-4, 2, "nan", "inf"⟩

namespace Decimal

def positional (d : Decimal) : List Char :=
  if d.point ≤ 0 then '0' :: '.' :: (List.replicate (-d.point).toNat '0' ++ d.digits)
  else
    let whole := d.digits.take d.point.toNat
    let fraction := d.digits.drop d.point.toNat
    whole ++ List.replicate (d.point.toNat - whole.length) '0' ++
      '.' :: (if fraction.isEmpty then ['0'] else fraction)

/-- One digit before the point, no point if nothing follows it, and a signed exponent. -/
def scientific (d : Decimal) (width : Nat) : List Char :=
  let e := d.point - 1
  let exponent := Nat.toDigits 10 e.natAbs
  d.digits.take 1 ++ (if d.digits.length ≤ 1 then [] else '.' :: d.digits.drop 1) ++
    ['e', if e < 0 then '-' else '+'] ++ List.replicate (width - exponent.length) '0' ++ exponent

end Decimal

def FloatLayout.text (layout : FloatLayout) : Binary64 → List Char
  | .nan => layout.nan.toList
  | .infinite negative =>
    if negative && layout.infinity != "null" then '-' :: layout.infinity.toList
    else layout.infinity.toList
  | .finite negative m q =>
    let sign := if negative then ['-'] else []
    if m = 0 then sign ++ ['0', '.', '0']
    else
      let d := Binary64.shortest m q
      let e := d.point - 1
      sign ++ if layout.leastPositional ≤ e && e ≤ 15 then d.positional
        else d.scientific layout.exponentWidth

end ApiModel
