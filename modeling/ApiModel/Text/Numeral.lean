import ApiModel.Text.Classes

namespace ApiModel.Text

def natDigits (n : Nat) : List Char := Nat.toDigits 10 n

def intDigits : Int → List Char
  | .ofNat n => natDigits n
  | .negSucc n => '-' :: natDigits (n + 1)

def padLeft (width : Nat) (digits : List Char) : List Char :=
  List.replicate (width - digits.length) '0' ++ digits

def paddedNat (width n : Nat) : String := String.ofList (padLeft width (natDigits n))

def hexLower (width n : Nat) : List Char := padLeft width (Nat.toDigits 16 n)

def hexUpper (width n : Nat) : List Char := (hexLower width n).map Char.toUpper

/-- The greatest count of decimal digits that a whole number is read from or written with. -/
def digitLimit : Nat := 4300

def firstLong : Nat := Nat.pow 10 digitLimit

def digitLimitMessage : String :=
  "Exceeds the limit (" ++ toString digitLimit ++ " digits) for integer string conversion; use " ++
    "sys.set_int_max_str_digits() to increase the limit"

/-- The value of digits in a base; none if there is no digit or one is out of the base. -/
def digitsValue? (base : Nat) (digits : List Char) : Option Nat :=
  if digits.isEmpty then none
  else digits.foldl
    (fun n c => match n, digitValue? c with
      | some n, some d => if d < base then some (n * base + d) else none
      | _, _ => none)
    (some 0)

/-- The value of ASCII decimal digits, as the number they write after what was read so far. -/
def asciiValue (digits : List Char) : Nat :=
  digits.foldl (fun n c => n * 10 + (c.toNat - '0'.toNat)) 0

def strip (cs : List Char) : List Char :=
  ((cs.dropWhile isSpace).reverse.dropWhile isSpace).reverse

/-- What stands between the signs of a list that are like the given one. -/
def splitEach {α : Type} [DecidableEq α] (sign : α) : List α → List (List α)
  | [] => [[]]
  | c :: r =>
    if c = sign then [] :: splitEach sign r
    else match splitEach sign r with
      | [] => [[c]]
      | s :: more => (c :: s) :: more

def splitSign : List Char → Bool × List Char
  | '-' :: r => (true, r)
  | '+' :: r => (false, r)
  | cs => (false, cs)

def signed (negative : Bool) (n : Nat) : Int := if negative then -(n : Int) else n

end ApiModel.Text
