import ApiModel.Command.Describe
import ApiModel.Command.Files
import ApiModel.Command.Usage
import ApiModel.Model.Render
import ApiModel.Swagger.Loading
import ApiModel.Building.Builder

namespace ApiModel.Command

inductive Failure
  | detect (fault : DetectFault)
  | dump (fault : DumpFault)
  | deepModel
  /-- A text that is written has a half of a pair. -/
  | encode (fault : Str.EncodeFault)
  | file (error : FileError) (path : Path)

def Failure.message : Failure → String
  | detect fault => fault.message
  | dump fault => fault.message
  | deepModel => "Circular reference detected (depth exceeded)"
  | encode fault => fault.message
  | file error path => "[Errno " ++ toString error.number ++ "] " ++ error.reason ++ ": " ++
      quoted path.text

structure Outcome where
  exitCode : Nat
  stdout : String
  stderr : String
  files : Files
  failure : Option Failure

inductive Stop
  | message (text : String)
  | failure (f : Failure)

/-- A command at its end, or a part of one: the files that it leaves, the lines that it printed, the notes
    that it showed, and how it ended. -/
structure Ending (α : Type) where
  files : Files
  lines : List String
  log : List Note
  result : Except Stop α

/-- What a command does with the files that it finds. Notes below a level are not shown. -/
def Action (α : Type) : Type := Level → Files → Ending α

namespace Action

variable {α β : Type}

def pure (a : α) : Action α := fun _ t => ⟨t, [], [], .ok a⟩

def bind (x : Action α) (f : α → Action β) : Action β := fun level t =>
  let first := x level t
  match first.result with
  | .ok a =>
    let second := f a level first.files
    ⟨second.files, first.lines ++ second.lines, first.log ++ second.log, second.result⟩
  | .error e => ⟨first.files, first.lines, first.log, .error e⟩

instance : Monad Action where
  pure := Action.pure
  bind := Action.bind

theorem bind_of_error {x : Action α} {f : α → Action β} {level : Level} {t : Files} {e : Stop}
    (ended : (x level t).result = .error e) :
    (x >>= f) level t = ⟨(x level t).files, (x level t).lines, (x level t).log, .error e⟩ := by
  simp only [Bind.bind, Action.bind, ended]

theorem bind_of_ok {x : Action α} {f : α → Action β} {level : Level} {t : Files} {a : α}
    (ended : (x level t).result = .ok a) :
    (x >>= f) level t =
      ⟨(f a level (x level t).files).files, (x level t).lines ++ (f a level (x level t).files).lines,
        (x level t).log ++ (f a level (x level t).files).log, (f a level (x level t).files).result⟩ := by
  simp only [Bind.bind, Action.bind, ended]

/-- The lines in front of the first that has a half of a pair, and what is wrong with that. -/
def printable : List Str → List String × Option Str.EncodeFault
  | [] => ([], none)
  | line :: r => match line.encode with
    | .ok cs => (String.ofList cs :: (printable r).1, (printable r).2)
    | .error e => ([], some e)

def print (lines : List Str) : Action Unit := fun _ t =>
  ⟨t, (printable lines).1, [], match (printable lines).2 with
    | none => .ok ()
    | some e => .error (.failure (.encode e))⟩

def stop (s : Stop) : Action α := fun _ t => ⟨t, [], [], .error s⟩

def ofExcept (x : Except Stop α) : Action α := fun _ t => ⟨t, [], [], x⟩

def ofOption (f : Failure) (x : Option α) : Action α := ofExcept (x.elim (.error (.failure f)) .ok)

def shown (level : Level) (notes : List Note) : List Note :=
  notes.filter fun n => level.rank ≤ n.level.rank

def note (n : Note) : Action Unit := fun level t => ⟨t, [], shown level [n], .ok ()⟩

def ofTraced (x : Traced α) : Action α := fun level t =>
  ⟨t, [], shown level x.notes, x.result.mapError fun e => .failure (.dump e)⟩

def look (f : Files → Except Stop α) : Action α := fun _ t => ⟨t, [], [], f t⟩

def change (f : Files → Files × Except Stop Unit) : Action Unit := fun _ t => ⟨(f t).1, [], [], (f t).2⟩

end Action

def unsupported (path : Path) (format : Format) : String :=
  path.text ++ ": only Swagger 2.0 documents are supported (detected: " ++ format.word ++ ")"

def modelOf (path : Path) : Action Model := do
  let bytes ← .look fun t => (t.read path).mapError fun e => .failure (.file e path)
  let format ← .ofExcept ((Format.detect bytes).mapError fun e => .failure (.detect e))
  if format ≠ .swagger2 then Action.stop (.message (unsupported path format))
  let document ← Action.ofExcept <| (Document.load bytes).mapError fun e => match e with
    | .document fault => .message (fault.message path.text)
    | .scalar fault => .failure (.detect (.scalar fault))
  Action.note (.parsed document.info.title document.paths.size document.definitions.size)
  .ofTraced document.toModel

def ensureDirs (p : Path) : Action Unit := .change fun t =>
  (t.ensureDirs (p.parts.length + 1) p).map id (·.mapError fun (e, p) => .failure (.file e p))

/-- Writes a text into a file. One that cannot be written as bytes leaves the file empty. -/
def writeText (p : Path) (text : Str) : Action Unit := .change fun t =>
  match t.write p ((text.chars?.map Text.encodeUtf8).getD []) with
  | .ok after => (after, (text.encode.map fun _ => ()).mapError fun e => .failure (.encode e))
  | .error e => (t, .error (.failure (.file e p)))

def build (path output : Path) (format : FileFormat) : Action Unit := do
  Action.print [("Parsing " ++ path.text ++ "..." : String)]
  let m ← modelOf path
  Action.print [("Found " ++ toString m.types.length ++ " types and " ++ toString m.methods.length ++
    " methods." : String)]
  ensureDirs output.parent
  let text ← .ofOption .deepModel (m.render format)
  writeText output text
  Action.print [("Model saved to " ++ output.text : String)]

def describe (path : Path) : Action Unit := do
  let m ← modelOf path
  Action.print m.describe

inductive Job
  | help (topic : Topic)
  | build (path output : Path) (format : FileFormat)
  | describe (path : Path)

def formats : List (String × FileFormat) := [("json", .json), ("yaml", .yaml)]

def readFormat (l : Line) : Except UsageFault FileFormat :=
  match l.value? formatOption.long with
  | none => .ok .json
  | some value => match formats.find? (·.1 = value) with
    | some f => .ok f.2
    | none => .error (.badChoice formatOption.long value (formats.map (·.1)))

def readDocument (t : Files) (l : Line) : Except UsageFault Path :=
  match l.arguments with
  | [] => .error (.missingArgument documentArgument)
  | path :: _ =>
    if t.existsText path then .ok (.ofText path) else .error (.noSuchPath documentArgument path)

def checkExtra (l : Line) : Except UsageFault Unit :=
  match l.arguments.drop 1 with
  | [] => .ok ()
  | extra => .error (.extraArguments extra)

/-- The job that the words behind the name of a command ask for. Options that were given are looked at
    before the argument, and options that are missing after it. -/
def readJob (t : Files) (topic : Topic) (words : List String) : Except UsageFault Job := do
  let l ← takeApart topic.options true words
  if l.has helpOption.long then return .help topic
  match topic with
  | .build =>
    let format ← readFormat l
    let path ← readDocument t l
    let output ← match l.value? outputOption.long with
      | some text => pure (Path.ofText text)
      | none => .error (.missingOption outputOption)
    checkExtra l
    return .build path output format
  | .describe =>
    let path ← readDocument t l
    checkExtra l
    return .describe path
  | .program => .error .missingCommand

structure Request where
  verbose : Bool
  job : Job

abbrev Misuse := Topic × UsageFault

/-- What the options in front of the name of a command say: help, or whether to show notes; then the
    words that follow. -/
def readFront (words : List String) : Except Misuse (Option Line) :=
  match takeApart Topic.program.options false words with
  | .error e => .error (.program, e)
  | .ok l => .ok (if l.has helpOption.long then none else some l)

/-- The request for a command of a name. A name that looks like an option is read as one once more. -/
def readCommand (t : Files) (verbose : Bool) (name : String) (words : List String) :
    Except Misuse Request :=
  match commandNames.find? (·.1 = name) with
  | some (_, topic) => match readJob t topic words with
    | .ok job => .ok ⟨verbose, job⟩
    | .error e => .error (topic, e)
  | none => match readFront (name :: words) with
    | .error e => .error e
    | .ok none => .ok ⟨verbose, .help .program⟩
    | .ok (some _) => .error (.program,
        .noSuchCommand name ((commandNames.map (·.1)).filter fun c => Text.isSimilar c name))

def readRequest (t : Files) (words : List String) : Except Misuse Request :=
  match readFront words with
  | .error e => .error e
  | .ok none => .ok ⟨false, .help .program⟩
  | .ok (some l) => match l.arguments with
    | [] => .error (.program, .missingCommand)
    | name :: words => readCommand t (l.has verboseOption.long) name words

/-- The texts of a line that may be paths: arguments, and the values of options. -/
def mentioned (words : List String) : List String :=
  words.flatMap fun w =>
    let cs := w.toList
    [w, String.ofList (cs.drop 2), String.ofList ((cs.dropWhile (· ≠ '=')).drop 1)]

def unlines (lines : List String) : String := String.join (lines.map (· ++ "\n"))

def logLevel (verbose : Bool) : Level := if verbose then .debug else .warning

def Ending.outcome (e : Ending Unit) : Outcome :=
  let stdout := unlines e.lines
  let log := unlines (e.log.map Note.line)
  match e.result with
  | .ok () => ⟨0, stdout, log, e.files, none⟩
  | .error (.message text) => ⟨1, stdout, log ++ "Error: " ++ text ++ "\n", e.files, none⟩
  | .error (.failure f) => ⟨1, stdout, log, e.files, some f⟩

namespace Ending

@[simp] theorem outcome_files (e : Ending Unit) : e.outcome.files = e.files := by
  unfold outcome
  split <;> rfl

theorem outcome_of_ok {e : Ending Unit} (done : e.result = .ok ()) :
    e.outcome = ⟨0, unlines e.lines, unlines (e.log.map Note.line), e.files, none⟩ := by
  simp only [outcome, done]

theorem outcome_exitCode_eq_zero_iff {e : Ending Unit} : e.outcome.exitCode = 0 ↔ e.result = .ok () := by
  unfold outcome
  split
  · simp_all
  · simp_all
  · simp_all

end Ending

/-- A run with some arguments. Without any, the program explains itself as if misused. -/
def run (args : List String) (t : Files) : Outcome :=
  if args.isEmpty then ⟨2, "", Topic.program.help, t, none⟩
  else match readRequest t args with
    | .error (topic, fault) => ⟨2, "", topic.explain fault, t, none⟩
    | .ok ⟨_, .help topic⟩ => ⟨0, topic.help, "", t, none⟩
    | .ok ⟨verbose, .build path output format⟩ => (build path output format (logLevel verbose) t).outcome
    | .ok ⟨verbose, .describe path⟩ => (describe path (logLevel verbose) t).outcome

end ApiModel.Command
