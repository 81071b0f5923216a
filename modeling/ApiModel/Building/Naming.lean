import ApiModel.Text.Str

namespace ApiModel

open Text

def nameForRef (ref : Str) : Str := .ofList (ref.toList.reverse.takeWhile (· ≠ .char '/')).reverse

def identifierLetters (ls : List Letter) : List Letter :=
  ls.map fun l => if l.isOf isWordChar then l else .char '_'

def sanitizeName (operationId : Str) : Str :=
  let ls := identifierLetters operationId.toList
  .ofList (if ls.head?.any (Letter.isOf Char.isDigit) then .char '_' :: ls else ls)

/-- The segments of a path that are not empty once braces are removed, as identifiers. -/
def pathSegments (path : Str) : List (List Letter) :=
  let bare := (splitEach (.char '/') path.toList).map (·.filter fun l => l ≠ .char '\x7b' && l ≠ .char '\x7d')
  (bare.filter (!·.isEmpty)).map identifierLetters

def generateName (verb path : Str) : Str :=
  .ofList ([Letter.char '_'].intercalate (verb.lower.toList :: pathSegments path))

def baseName (operationId verb path : Str) : Str :=
  let name := sanitizeName operationId
  if name.isEmpty then generateName verb path else name

end ApiModel
