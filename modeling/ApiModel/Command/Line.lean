import ApiModel.Text.Similar
import ApiModel.Text.Quoted

namespace ApiModel.Command

structure OptionSpec where
  short : Option Char
  long : String
  takesValue : Bool
  deriving DecidableEq

def quoted (s : String) : String := String.ofList (Text.textLiteral s)

inductive UsageFault
  | noSuchOption (name : String) (similar : List String)
  | needsValue (name : String)
  | takesNoValue (name : String)
  | missingCommand
  | noSuchCommand (name : String) (similar : List String)
  | missingArgument (name : String)
  | missingOption (spec : OptionSpec)
  | noSuchPath (argument path : String)
  | badChoice (option value : String) (choices : List String)
  | extraArguments (arguments : List String)
  deriving DecidableEq

def suggestion (similar : List String) : String :=
  match similar with
  | [] => ""
  | [name] => " Did you mean " ++ quoted name ++ "?"
  | names => " (Did you mean one of: " ++
      ", ".intercalate ((names.mergeSort fun a b => decide (a ≤ b)).map quoted) ++ "?)"

def OptionSpec.names (o : OptionSpec) : String :=
  (o.short.map fun c => quoted (String.ofList ['-', c]) ++ " / ").getD "" ++ quoted o.long

def UsageFault.message : UsageFault → String
  | noSuchOption name similar => "No such option " ++ quoted name ++ "." ++ suggestion similar
  | needsValue name => "Option " ++ quoted name ++ " requires an argument."
  | takesNoValue name => "Option " ++ quoted name ++ " does not take a value."
  | missingCommand => "Missing command."
  | noSuchCommand name similar => "No such command " ++ quoted name ++ "." ++ suggestion similar
  | missingArgument name => "Missing argument " ++ quoted name ++ "."
  | missingOption spec => "Missing option " ++ spec.names ++ "."
  | noSuchPath argument path => "Invalid value for " ++ quoted argument ++ ": Path " ++ quoted path ++
      " does not exist."
  | badChoice option value choices => "Invalid value for " ++ quoted option ++ ": " ++ quoted value ++
      " is not one of " ++ ", ".intercalate (choices.map quoted) ++ "."
  | extraArguments [argument] => "Got unexpected extra argument (" ++ argument ++ ")"
  | extraArguments arguments =>
    "Got unexpected extra arguments (" ++ " ".intercalate arguments ++ ")"

def UsageFault.showsUsage : UsageFault → Bool
  | needsValue _ | takesNoValue _ => false
  | _ => true

/-- An option that was given, by its long name, with its value if it takes one. -/
structure Given where
  option : String
  value : String

/-- A line taken apart: options in the order in which they were given, and arguments. -/
structure Line where
  options : List Given
  arguments : List String

namespace Line

def has (l : Line) (option : String) : Bool := l.options.any (·.option = option)

def value? (l : Line) (option : String) : Option String :=
  ((l.options.filter (·.option = option)).getLast?).map (·.value)

def give (options : List Given) (l : Line) : Line := { l with options := options ++ l.options }

end Line

/-- What one word of a line gives: options, and an option whose value is the next word, by its long
    name and as it was written. -/
structure Word where
  options : List Given
  waiting : Option (String × String)

variable (specs : List OptionSpec)

/-- A word that starts with two hyphens, perhaps with a value behind an equals sign. -/
def longOption (name : String) (value : Option String) : Except UsageFault Word :=
  match specs.find? (·.long = name), value with
  | none, _ =>
    .error (.noSuchOption name ((specs.map (·.long)).filter fun long => Text.isSimilar long name))
  | some o, some v => if o.takesValue then .ok ⟨[⟨o.long, v⟩], none⟩ else .error (.takesNoValue name)
  | some o, none => if o.takesValue then .ok ⟨[], some (o.long, name)⟩ else .ok ⟨[⟨o.long, ""⟩], none⟩

/-- Letters behind one hyphen. The rest of the word is the value of the first that takes one. -/
def shortOptions : List Char → Except UsageFault Word
  | [] => .ok ⟨[], none⟩
  | c :: r =>
    let name := String.ofList ['-', c]
    match specs.find? (·.short = some c) with
    | none => .error (.noSuchOption name [])
    | some o =>
      if o.takesValue then
        if r.isEmpty then .ok ⟨[], some (o.long, name)⟩ else .ok ⟨[⟨o.long, String.ofList r⟩], none⟩
      else (shortOptions r).map fun w => { w with options := ⟨o.long, ""⟩ :: w.options }

def readWord (word : List Char) : Except UsageFault Word :=
  match word with
  | '-' :: '-' :: _ =>
    let name := String.ofList (word.takeWhile (· ≠ '='))
    match word.dropWhile (· ≠ '=') with
    | '=' :: value => longOption specs name (some (String.ofList value))
    | _ => longOption specs name none
  | _ => shortOptions specs word.tail

def isOptionWord (word : List Char) : Bool := word.head? = some '-' && 1 < word.length

/-- Takes a line apart. Two hyphens end the options; so does the first argument, unless arguments and
    options may be mixed. -/
def takeApart (mixed : Bool) : List String → Except UsageFault Line
  | [] => .ok ⟨[], []⟩
  | a :: r =>
    if a = "--" then .ok ⟨[], r⟩
    else if isOptionWord a.toList then
      match readWord specs a.toList with
      | .error e => .error e
      | .ok ⟨options, none⟩ => (takeApart mixed r).map (.give options)
      | .ok ⟨options, some (option, written)⟩ => match r with
        | v :: r => (takeApart mixed r).map (.give (options ++ [⟨option, v⟩]))
        | [] => .error (.needsValue written)
    else if mixed then
      (takeApart mixed r).map fun l => { l with arguments := a :: l.arguments }
    else .ok ⟨[], a :: r⟩

end ApiModel.Command
