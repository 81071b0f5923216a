import ApiModel.Text.Numeral

namespace ApiModel

inductive Cause
  | missing
  | notText
  | notUnicode
  | notList
  | notTuple
  | notMapping
  | notNode (kind : String)
  | notBool
  | unknownBool
  | keyNotText
  /-- A node that is a part of itself, or one of too many inside each other. -/
  | cyclic
  /-- Data to be made a text in which a number has too many digits for one. -/
  | tooManyDigits
  /-- A word that is not the only one allowed, or none of those allowed. -/
  | notOneOf (first : String) (others : List String)
  | notTagged
  | noTag (tag : String)
  | unknownTag (found tag : String) (expected : List String)
  deriving DecidableEq

def quotedWords (words : List String) : String :=
  ", ".intercalate (words.map fun w => "'" ++ w ++ "'")

def alternatives (first : String) (others : List String) : String :=
  match others.getLast? with
  | none => quotedWords [first]
  | some last => quotedWords (first :: others.dropLast) ++ " or " ++ quotedWords [last]

def Cause.message : Cause → String
  | missing => "Field required"
  | notText => "Input should be a valid string"
  | notUnicode => "Input should be a valid string, unable to parse raw data as a unicode string"
  | notList => "Input should be a valid list"
  | notTuple => "Input should be a valid tuple"
  | notMapping => "Input should be a valid dictionary"
  | notNode kind => "Input should be a valid dictionary or instance of " ++ kind
  | notBool => "Input should be a valid boolean"
  | unknownBool => "Input should be a valid boolean, unable to interpret input"
  | keyNotText => "Keys should be strings"
  | cyclic => "Recursion error - cyclic reference detected"
  | tooManyDigits => "Value error, " ++ Text.digitLimitMessage
  | notOneOf first others => "Input should be " ++ alternatives first others
  | notTagged => "Input should be a valid dictionary or object to extract fields from"
  | noTag tag => "Unable to extract tag using discriminator '" ++ tag ++ "'"
  | unknownTag found tag expected => "Input tag '" ++ found ++ "' found using '" ++ tag ++
      "' does not match any of the expected tags: " ++ quotedWords expected

/-- A cause at a place: the keys and indices that lead to it from the whole. -/
structure Problem where
  path : List String
  cause : Cause
  deriving DecidableEq

namespace Problem

def under (step : String) (p : Problem) : Problem := { p with path := step :: p.path }

def text (p : Problem) : String :=
  (if p.path.isEmpty then "<root>" else ".".intercalate p.path) ++ ": " ++ p.cause.message

def summary (problems : List Problem) : String :=
  "malformed document: " ++ "; ".intercalate (problems.map text)

end Problem

end ApiModel
