import ApiModel.Proofs.Json.Spelling
import ApiModel.Yaml.Load

namespace ApiModel.Json.Piece

def isSpace : Piece → Bool
  | .raw c _ => c = ' '
  | _ => false

def isLineEnd : Piece → Bool
  | .raw c _ => Yaml.isBreak c
  | _ => false

end ApiModel.Json.Piece

namespace ApiModel.Yaml

open Json

def isTabless (b : Blanks) : Bool := b.chars.all (· ≠ '\t')

def breaksAhead (ps : List Piece) : Bool := (ps.dropWhile Piece.isSpace).head?.any Piece.isLineEnd

/-- What a line end in a string counts as, at the start of a line or with another one ahead. -/
def foldEnd (l : Letter) (start ahead : Bool) : List Letter :=
  if l ≠ .char '\x85' then [l] else if start then [.char '\n'] else if ahead then [] else [.char ' ']

/-- The letters of a string between double quotes, `start` telling that a line begins here. Spaces
    around line ends are dropped, and a next line alone becomes a space. -/
def foldPieces (start : Bool) : List Piece → List Letter
  | [] => []
  | p :: r =>
    if p.isSpace then
      if start || breaksAhead r then foldPieces start r else .char ' ' :: foldPieces false r
    else if p.isLineEnd then foldEnd p.letter start (breaksAhead r) ++ foldPieces true r
    else p.letter :: foldPieces false r

def startsWithMarker (ps : List Piece) : Bool := (Cursor.ofText (spell ps ++ ['"'])).atMarker

/-- No line begins with a marker between documents. -/
def isClean : List Piece → Bool
  | [] => true
  | p :: r => !(p.isLineEnd && startsWithMarker r) && isClean r

/-- A key and its colon are on one line, the colon at most 1024 characters behind the opening quote. -/
def isNearby (key gap : List Char) : Bool :=
  gap.all (· = ' ') && key.all (!isBreak ·) && key.length + gap.length + 2 ≤ 1024

def isNear (l : Label) : Bool := isNearby (spell l.key) l.gap.chars

/-- A numeral that is a number here: whole, or with a point and no exponent without a sign. -/
def isResolved (n : Numeral) : Bool :=
  n.isWhole || (n.fraction.isSome && n.exponent.all (·.sign.isSome))

def dialect : Dialect where
  text ps := .ofList (foldPieces false ps)
  numeral n := if isResolved n then n.scalar else .str (String.ofList n.chars : String)

def wordRules : Rules where
  blanks := isTabless
  text := isClean
  numeral _ := true
  label _ := true

def labelRules : Rules where
  blanks _ := true
  text _ := true
  numeral _ := true
  label := isNear

def isReadable (t : Whole) : Bool :=
  t.chars.all isAllowed && t.obeys wordRules && t.obeys labelRules && t.obeys readerRules

end ApiModel.Yaml
