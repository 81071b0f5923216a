import ApiModel.Command.Run

namespace ApiModel.Command

def stations (names : List String) : List String → List (List String)
  | [] => []
  | piece :: r =>
    let next := if piece = ".." then above names else names ++ [piece]
    next :: stations next r

/-- What is there under some names now. What can be opened but not read as a file is a directory. -/
def look (t : Files) (names : List String) : IO Files := do
  let path := "/".intercalate names
  try
    let bytes ← IO.FS.readBinFile path
    return { t with files := (names, bytes.toList) :: t.files }
  catch _ =>
    try
      let _ ← IO.FS.Handle.mk path .read
      return { t with dirs := names :: t.dirs }
    catch _ => return t

def lookAll (words : List String) : IO Files :=
  let names := (mentioned words).flatMap fun w =>
    let path := Path.ofText w
    stations path.start path.parts
  names.eraseDups.foldlM look ⟨[], []⟩

def leave (before after : Files) : IO Unit := do
  for names in after.dirs do
    if !before.dirs.contains names then IO.FS.createDirAll ("/".intercalate names)
  for (names, bytes) in before.changed after do
    IO.FS.writeBinFile ("/".intercalate names) ⟨bytes.toArray⟩

end ApiModel.Command

open ApiModel.Command in
def main (args : List String) : IO UInt32 := do
  let before ← lookAll args
  let outcome := run args before
  leave before outcome.files
  IO.print outcome.stdout
  IO.eprint outcome.stderr
  if let some f := outcome.failure then IO.eprintln f.message
  return UInt32.ofNat outcome.exitCode
