import ApiModel.Swagger.Reading
import ApiModel.Yaml.Load

namespace ApiModel

inductive DocumentFault
  | notMapping (kind : String)
  | malformed (first : Problem) (others : List Problem)
  | notUtf8
  | notYaml
  deriving DecidableEq

/-- What is wrong with a document; the file is named where nothing of it could be read. -/
def DocumentFault.message (file : String) : DocumentFault → String
  | notMapping kind => "expected a mapping at the top level, got " ++ kind
  | malformed first others => Problem.summary (first :: others)
  | notUtf8 => file ++ ": not UTF-8 text"
  | notYaml => file ++ ": not valid YAML or JSON"

namespace Document

def ofValue (v : Value) : Except DocumentFault Document :=
  match v.entries? with
  | none => .error (.notMapping v.kindName)
  | some m => match Entries.readWhole m (ofEntries m) with
    | .ok d => .ok d
    | .bad first others => .error (.malformed first others)

end Document

inductive FileFault
  | notUtf8
  | yaml (fault : Yaml.Fault)
  deriving DecidableEq

def readFile (bytes : List UInt8) : Except FileFault Value :=
  match Text.decodeUtf8 bytes with
  | .error _ => .error .notUtf8
  | .ok cs => match Yaml.read cs with
    | .ok v => .ok v
    | .error e => .error (.yaml e)

/-- How loading a document ends without one: a fault of the document, or a fault of a scalar in it that
    ends the loading at once. -/
inductive LoadFault
  | document (fault : DocumentFault)
  | scalar (fault : Yaml.Fault)
  deriving DecidableEq

/-- Text that is not YAML is a fault of the document, an impossible scalar is not. -/
def FileFault.toLoadFault : FileFault → LoadFault
  | notUtf8 => .document .notUtf8
  | yaml .malformed => .document .notYaml
  | yaml e => .scalar e

def Document.load (bytes : List UInt8) : Except LoadFault Document :=
  match readFile bytes with
  | .error e => .error e.toLoadFault
  | .ok v => match ofValue v with
    | .ok d => .ok d
    | .error e => .error (.document e)

inductive Format
  | swagger2
  | openapi3
  | unknown
  deriving DecidableEq

/-- How looking for the format of a file ends without one: a fault of a scalar in it, or a version in
    which a number has too many digits for a text. -/
inductive DetectFault
  | scalar (fault : Yaml.Fault)
  | version
  deriving DecidableEq

def DetectFault.message : DetectFault → String
  | scalar fault => fault.message
  | version => Text.digitLimitMessage

namespace Format

def word : Format → String
  | swagger2 => "swagger2"
  | openapi3 => "openapi3"
  | unknown => "unknown"

def begins (m : Entries) (key : String) (c : Char) : Except DetectFault Bool :=
  match Entries.get? m key with
  | none => .ok false
  | some v => match v.text? with
    | some s => .ok (s.toList.head? = some (.char c))
    | none => .error .version

/-- The format of a mapping, by its version under the key of each format. The second version is not
    looked at if the first tells. -/
def ofEntries (m : Entries) : Except DetectFault Format :=
  match begins m "swagger" '2' with
  | .error e => .error e
  | .ok true => .ok .swagger2
  | .ok false => (begins m "openapi" '3').map fun newer => if newer then .openapi3 else .unknown

def ofValue (v : Value) : Except DetectFault Format :=
  match v.entries? with
  | some m => ofEntries m
  | none => .ok .unknown

/-- The format of a file. A file that is no text or not YAML is of no known format; an impossible
    scalar is a fault, and so is a version that has no text. -/
def detect (bytes : List UInt8) : Except DetectFault Format :=
  match readFile bytes with
  | .ok v => ofValue v
  | .error .notUtf8 => .ok .unknown
  | .error (.yaml .malformed) => .ok .unknown
  | .error (.yaml e) => .error (.scalar e)

end Format

end ApiModel
