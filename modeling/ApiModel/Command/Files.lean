import ApiModel.Text.Numeral

namespace ApiModel.Command

structure Path where
  /-- Empty for a path from where the program runs, else one slash or two. -/
  root : String
  parts : List String
  deriving DecidableEq

namespace Path

def pieces (s : String) : List String := (Text.splitEach '/' s.toList).map String.ofList

def ofText (s : String) : Path :=
  let slashes := (s.toList.takeWhile (· = '/')).length
  let root := if slashes = 0 then "" else if slashes = 2 then "//" else "/"
  ⟨root, (pieces s).filter fun p => p ≠ "" && p ≠ "."⟩

def text (p : Path) : String :=
  if p.root.isEmpty && p.parts.isEmpty then "." else p.root ++ "/".intercalate p.parts

def parent (p : Path) : Path := { p with parts := p.parts.dropLast }

def name (p : Path) : String := p.parts.getLastD ""

def start (p : Path) : List String := if p.root.isEmpty then [] else [""]

end Path

/-- Files with their bytes, and directories, by the names that lead to them. -/
structure Files where
  dirs : List (List String)
  files : List (List String × List UInt8)

inductive FileError
  | absent
  | taken
  | notDirectory
  | isDirectory
  deriving DecidableEq

def FileError.number : FileError → Nat
  | absent => 2
  | taken => 17
  | notDirectory => 20
  | isDirectory => 21

def FileError.reason : FileError → String
  | absent => "No such file or directory"
  | taken => "File exists"
  | notDirectory => "Not a directory"
  | isDirectory => "Is a directory"

inductive Place
  | directory (names : List String)
  | file (names : List String) (bytes : List UInt8)

def above (names : List String) : List String :=
  if names = [""] then names else if names.all (· = "..") then names ++ [".."] else names.dropLast

namespace Files

def bytes? (t : Files) (names : List String) : Option (List UInt8) :=
  (t.files.find? fun f => f.1 = names).map (·.2)

/-- What has some names, unless they are those of the directory in which the program runs or of one above. -/
def named (t : Files) (names : List String) : Except FileError Place :=
  match t.bytes? names with
  | some bs => .ok (.file names bs)
  | none => if t.dirs.contains names then .ok (.directory names) else .error .absent

def enter (t : Files) (names : List String) (piece : String) : Except FileError Place :=
  if piece = "" || piece = "." then .ok (.directory names)
  else if piece = ".." then .ok (.directory (above names))
  else t.named (names ++ [piece])

/-- What the pieces of a path lead to; every piece but the last must lead to a directory. -/
def walk (t : Files) : Place → List String → Except FileError Place
  | place, [] => .ok place
  | .directory names, piece :: r => match t.enter names piece with
    | .ok place => walk t place r
    | .error e => .error e
  | .file _ _, _ :: _ => .error .notDirectory

def find (t : Files) (p : Path) : Except FileError Place := t.walk (.directory p.start) p.parts

def existsText (t : Files) (path : String) : Bool :=
  !path.isEmpty && (t.walk (.directory (Path.ofText path).start) (Path.pieces path)) matches .ok _

def isDir (t : Files) (p : Path) : Bool := t.find p matches .ok (.directory _)

def read (t : Files) (p : Path) : Except FileError (List UInt8) :=
  match t.find p with
  | .ok (.file _ bs) => .ok bs
  | .ok (.directory _) => .error .isDirectory
  | .error e => .error e

/-- The names that something new under a path would have: the directory that holds it is there. -/
def newNames (t : Files) (p : Path) : Except FileError (List String) :=
  match t.find p.parent with
  | .ok (.directory names) => .ok (names ++ [p.name])
  | .ok (.file _ _) => .error .notDirectory
  | .error e => .error e

def makeDir (t : Files) (p : Path) : Except FileError Files :=
  match t.find p with
  | .ok _ => .error .taken
  | .error .absent => (t.newNames p).map fun names => { t with dirs := t.dirs ++ [names] }
  | .error e => .error e

def ensureDir (t : Files) (p : Path) : Files × Except (FileError × Path) Unit :=
  match t.makeDir p with
  | .ok t => (t, .ok ())
  | .error e => if t.isDir p then (t, .ok ()) else (t, .error (e, p))

/-- A directory with all those above it that are not there; `fuel` bounds their number. What was made before
    one of them fails is left. -/
def ensureDirs : (fuel : Nat) → Files → Path → Files × Except (FileError × Path) Unit
  | 0, t, p => t.ensureDir p
  | fuel + 1, t, p => match t.makeDir p with
    | .error .absent =>
      if p.parts.isEmpty then (t, .error (.absent, p))
      else match ensureDirs fuel t p.parent with
        | (t, .ok ()) => t.ensureDir p
        | (t, .error e) => (t, .error e)
    | _ => t.ensureDir p

def put (t : Files) (names : List String) (bytes : List UInt8) : Files :=
  if (t.bytes? names).isSome then
    { t with files := t.files.map fun f => if f.1 = names then (names, bytes) else f }
  else { t with files := t.files ++ [(names, bytes)] }

def write (t : Files) (p : Path) (bytes : List UInt8) : Except FileError Files :=
  match t.find p with
  | .ok (.file names _) => .ok (t.put names bytes)
  | .ok (.directory _) => .error .isDirectory
  | .error .absent => (t.newNames p).map fun names => t.put names bytes
  | .error e => .error e

def changed (before after : Files) : List (List String × List UInt8) :=
  after.files.filter fun f => before.bytes? f.1 ≠ some f.2

end Files

end ApiModel.Command
