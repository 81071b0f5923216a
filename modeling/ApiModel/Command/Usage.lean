import ApiModel.Command.Line

namespace ApiModel.Command

def program : String := "openapi-surface"

def verboseOption : OptionSpec := ⟨some 'v', "--verbose", false⟩

def helpOption : OptionSpec := ⟨none, "--help", false⟩

def outputOption : OptionSpec := ⟨some 'o', "--output", true⟩

def formatOption : OptionSpec := ⟨none, "--format", true⟩

inductive Topic
  | program
  | build
  | describe
  deriving DecidableEq

namespace Topic

def words : Topic → String
  | program => Command.program
  | build => Command.program ++ " build"
  | describe => Command.program ++ " describe"

def options : Topic → List OptionSpec
  | program => [verboseOption, helpOption]
  | build => [outputOption, formatOption, helpOption]
  | describe => [helpOption]

def usage (t : Topic) : String :=
  "Usage: " ++ t.words ++ match t with
    | program => " [OPTIONS] COMMAND [ARGS]...\n"
    | build | describe => " [OPTIONS] DOC_PATH\n"

def details : Topic → String
  | program =>
    "\n" ++
    "  openapi-surface: translate Swagger 2.0 documents into a code generation model.\n" ++
    "\n" ++
    "Options:\n" ++
    "  -v, --verbose  Log translation details.\n" ++
    "  --help         Show this message and exit.\n" ++
    "\n" ++
    "Commands:\n" ++
    "  build     Build the model of an API document and write it to a file.\n" ++
    "  describe  Print the types and methods of an API document.\n"
  | build =>
    "\n" ++
    "  Build the model of an API document and write it to a file.\n" ++
    "\n" ++
    "Options:\n" ++
    "  -o, --output PATH     Output file for the model.  [required]\n" ++
    "  --format [json|yaml]  Output format.\n" ++
    "  --help                Show this message and exit.\n"
  | describe =>
    "\n" ++
    "  Print the types and methods of an API document.\n" ++
    "\n" ++
    "Options:\n" ++
    "  --help  Show this message and exit.\n"

def help (t : Topic) : String := t.usage ++ t.details

def explain (t : Topic) (fault : UsageFault) : String :=
  (if fault.showsUsage then
    t.usage ++ "Try '" ++ t.words ++ " " ++ helpOption.long ++ "' for help.\n\n" else "") ++
    "Error: " ++ fault.message ++ "\n"

end Topic

def documentArgument : String := "DOC_PATH"

def commandNames : List (String × Topic) := [("build", .build), ("describe", .describe)]

end ApiModel.Command
