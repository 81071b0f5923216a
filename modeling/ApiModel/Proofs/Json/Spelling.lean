import ApiModel.Json.Reader

namespace ApiModel.Json

open Text

structure Blanks where
  chars : List Char
  blank : ∀ c ∈ chars, isBlank c = true

inductive Piece
  | raw (c : Char) (plain : 0x20 ≤ c.toNat ∧ c ≠ '"' ∧ c ≠ '\\')
  | named (letter c : Char) (names : namedEscape? letter = some c)
  | code (a b c d : Char) (n : Nat) (writes : hex4? a b c d = some n)

namespace Piece

def chars : Piece → List Char
  | raw c _ => [c]
  | named letter _ _ => ['\\', letter]
  | code a b c d _ _ => ['\\', 'u', a, b, c, d]

def number : Piece → Nat
  | raw c _ => c.toNat
  | named _ c _ => c.toNat
  | code _ _ _ _ n _ => n

def letter (p : Piece) : Letter := .ofCode p.number

end Piece

def spell (ps : List Piece) : List Char := ps.flatMap Piece.chars

structure Digits where
  chars : List Char
  nonempty : chars ≠ []
  digit : ∀ c ∈ chars, c.isDigit = true

structure Exponent where
  marker : Char
  marks : marker = 'e' ∨ marker = 'E'
  sign : Option Bool
  digits : Digits

namespace Exponent

def signChars (e : Exponent) : List Char :=
  match e.sign with
  | none => []
  | some negative => [if negative then '-' else '+']

def chars (e : Exponent) : List Char := e.marker :: e.signChars ++ e.digits.chars

def value (e : Exponent) : Int := signed (e.sign.getD false) (asciiValue e.digits.chars)

end Exponent

structure Numeral where
  negative : Bool
  whole : Digits
  short : whole.chars.head? = some '0' → whole.chars.length = 1
  fraction : Option Digits
  exponent : Option Exponent

namespace Numeral

def places (n : Numeral) : List Char := (n.fraction.map Digits.chars).getD []

def sizeChars (n : Numeral) : List Char :=
  n.whole.chars ++ (n.fraction.elim [] fun ds => '.' :: ds.chars) ++
    n.exponent.elim [] Exponent.chars

def chars (n : Numeral) : List Char := (if n.negative then ['-'] else []) ++ n.sizeChars

def isWhole (n : Numeral) : Bool := n.fraction.isNone && n.exponent.isNone

def isShort (n : Numeral) : Bool := !n.isWhole || n.whole.chars.length ≤ digitLimit

def float (n : Numeral) (negative : Bool) : Binary64 :=
  .ofDecimal negative (asciiValue (n.whole.chars ++ n.places))
    ((n.exponent.elim 0 Exponent.value) - n.places.length)

def scalar (n : Numeral) : Scalar :=
  if n.isWhole then .int (signed n.negative (asciiValue n.whole.chars))
  else .float (n.float n.negative)

end Numeral

inductive Bare
  | null
  | bool (b : Bool)
  | numeral (n : Numeral)

def Bare.chars : Bare → List Char
  | null => ['n', 'u', 'l', 'l']
  | bool true => ['t', 'r', 'u', 'e']
  | bool false => ['f', 'a', 'l', 's', 'e']
  | numeral n => n.chars

structure Label where
  before : Blanks
  key : List Piece
  gap : Blanks
  after : Blanks

mutual

inductive Spelling
  | bare (word : Bare)
  | quoted (text : List Piece)
  | emptyList (inside : Blanks)
  | list (items : Items)
  | emptyObject (inside : Blanks)
  | object (members : Members)

inductive Items
  | last (before : Blanks) (item : Spelling) (after : Blanks)
  | more (before : Blanks) (item : Spelling) (after : Blanks) (rest : Items)

inductive Members
  | last (label : Label) (value : Spelling) (after : Blanks)
  | more (label : Label) (value : Spelling) (after : Blanks) (rest : Members)

end

structure Whole where
  before : Blanks
  body : Spelling
  after : Blanks

section Characters

variable (blank : Blanks → List Char)

def Label.render (l : Label) : List Char :=
  blank l.before ++ '"' :: spell l.key ++ '"' :: blank l.gap ++ ':' :: blank l.after

mutual

def Spelling.render : Spelling → List Char
  | .bare word => word.chars
  | .quoted text => '"' :: spell text ++ ['"']
  | .emptyList inside => '[' :: blank inside ++ [']']
  | .list items => '[' :: items.render ++ [']']
  | .emptyObject inside => '\x7b' :: blank inside ++ ['\x7d']
  | .object members => '\x7b' :: members.render ++ ['\x7d']

def Items.render : Items → List Char
  | .last before item after => blank before ++ item.render ++ blank after
  | .more before item after rest => blank before ++ item.render ++ blank after ++ ',' :: rest.render

def Members.render : Members → List Char
  | .last label value after => label.render blank ++ value.render ++ blank after
  | .more label value after rest =>
    label.render blank ++ value.render ++ blank after ++ ',' :: rest.render

end

def Whole.render (t : Whole) : List Char := blank t.before ++ t.body.render blank ++ blank t.after

end Characters

def Whole.chars (t : Whole) : List Char := t.render Blanks.chars

structure Dialect where
  text : List Piece → Str
  numeral : Numeral → Scalar

def Dialect.json : Dialect where
  text ps := .ofList (joinPairs (ps.map Piece.number))
  numeral := Numeral.scalar

section Meaning

variable (d : Dialect)

def Bare.scalar : Bare → Scalar
  | null => .null
  | bool b => .bool b
  | numeral n => d.numeral n

mutual

def Spelling.value : Spelling → Value
  | .bare word => .scalar (word.scalar d)
  | .quoted text => .str (d.text text)
  | .emptyList _ => .list []
  | .list items => .list items.values
  | .emptyObject _ => .map []
  | .object members => .map (Entries.ofList members.entries)

def Items.values : Items → List Value
  | .last _ item _ => [item.value]
  | .more _ item _ rest => item.value :: rest.values

def Members.entries : Members → List (Scalar × Value)
  | .last label value _ => [(.str (d.text label.key), value.value)]
  | .more label value _ rest => (.str (d.text label.key), value.value) :: rest.entries

end

end Meaning

structure Rules where
  blanks : Blanks → Bool
  text : List Piece → Bool
  numeral : Numeral → Bool
  label : Label → Bool

/-- What the reader asks of a text: whole numbers have not too many digits. -/
def readerRules : Rules where
  blanks _ := true
  text _ := true
  numeral := Numeral.isShort
  label _ := true

section Obedience

variable (rules : Rules)

def Bare.obeys : Bare → Bool
  | numeral n => rules.numeral n
  | _ => true

def Label.obeys (l : Label) : Bool :=
  rules.blanks l.before && rules.text l.key && rules.blanks l.gap && rules.blanks l.after &&
    rules.label l

mutual

def Spelling.obeys : Spelling → Bool
  | .bare word => word.obeys rules
  | .quoted text => rules.text text
  | .emptyList inside => rules.blanks inside
  | .list items => items.obeys
  | .emptyObject inside => rules.blanks inside
  | .object members => members.obeys

def Items.obeys : Items → Bool
  | .last before item after => rules.blanks before && item.obeys && rules.blanks after
  | .more before item after rest =>
    rules.blanks before && item.obeys && rules.blanks after && rest.obeys

def Members.obeys : Members → Bool
  | .last label value after => label.obeys rules && value.obeys && rules.blanks after
  | .more label value after rest =>
    label.obeys rules && value.obeys && rules.blanks after && rest.obeys

end

def Whole.obeys (t : Whole) : Bool := rules.blanks t.before && t.body.obeys rules && rules.blanks t.after

end Obedience

end ApiModel.Json
