import ApiModel.Text.Quoted
import ApiModel.Value.Calendar

namespace ApiModel.Yaml

open Text

inductive Fault
  /-- The text is not YAML, or asks for data that this reader does not know. -/
  | malformed
  | noSuchCharacter (code : Nat)
  | calendar (fault : CalendarFault)
  /-- Text tagged as a whole number that is none in its base. -/
  | notWhole (base : Nat) (text : Str)
  | tooManyDigits (count : Nat)
  | notFloat (text : Str)
  | notBool (text : Str)
  | noNumeral
  | notTimestamp
  deriving DecidableEq

def Fault.message : Fault → String
  | malformed => "not valid YAML"
  | noSuchCharacter code =>
    if code < 0x80000000 then "chr() arg not in range(0x110000)"
    else "Python int too large to convert to C int"
  | calendar fault => fault.message
  | notWhole base text => "invalid literal for int() with base " ++ toString base ++ ": " ++
      String.ofList (textLiteral text)
  | tooManyDigits count => "Exceeds the limit (" ++ toString digitLimit ++ " digits) for integer " ++
      "string conversion: value has " ++ toString count ++ " digits; use " ++
      "sys.set_int_max_str_digits() to increase the limit"
  | notFloat text => "could not convert string to float: " ++ String.ofList (textLiteral text)
  | notBool text => String.ofList (textLiteral text)
  | noNumeral => "string index out of range"
  | notTimestamp => "'NoneType' object has no attribute 'groupdict'"

end ApiModel.Yaml
