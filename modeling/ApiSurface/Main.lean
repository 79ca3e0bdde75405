import ApiSurface.Command.Line
/-!
# The program

Reads the files that a command line names, runs the analysis and prints the document.
-/

namespace ApiSurface.Command

/-- The text of a file, unless its bytes are no text. -/
def readText (path : String) : IO (Option String) := do
  return String.fromUTF8? (← IO.FS.readBinFile path)

/-- The files below a folder, with their paths in it. -/
partial def filesBelow (folder : String) (names : List String) :
    IO (List (List String × Option String)) := do
  let entries ← (System.mkFilePath (folder :: names)).readDir
  let found ← entries.toList.mapM fun entry => do
    let inner := names ++ [entry.fileName]
    if ← entry.path.isDir then filesBelow folder inner
    else return [(inner, ← readText entry.path.toString)]
  return found.flatten

/-- What is at a path. -/
def look (path : String) : IO Found := do
  let place := System.mkFilePath [path]
  if ← place.isDir then return .folder (← filesBelow path [])
  else if ← place.pathExists then return .file (← readText path)
  else return .nothing

/-- An error of the system in its own words, with its number. -/
def systemMessage : IO.Error → String
  | .noFileOrDirectory _ code details
  | .inappropriateType _ code details
  | .permissionDenied _ code details
  | .invalidArgument _ code details
  | .resourceExhausted _ code details
  | .otherError code details => details ++ " (os error " ++ toString code ++ ")"
  | e => toString e

def printReport (r : Report) : IO UInt32 := do
  IO.print r.stdout
  return r.exit.toUInt32

/-- Runs a request. -/
def execute (r : Request) : IO UInt32 := do
  let config ← match r.config with
    | some path => look path
    | none => pure .nothing
  let trees ← look r.trees
  match r.document fun path => if path == r.trees then trees else config with
  | .error e => printReport (.failure e)
  | .ok text =>
    match r.out with
    | none => printReport ⟨0, text⟩
    | some path =>
      try
        IO.FS.writeFile path text
        return 0
      catch e => printReport (.failure (.io (systemMessage e)))

end ApiSurface.Command

open ApiSurface Command in
def main (args : List String) : IO UInt32 := do
  match read args with
  | .analyze r => execute r
  | .version => printReport ⟨0, versionLine ++ "\n"⟩
  | .help => printReport ⟨0, usage⟩
  | .misuse =>
    IO.eprint usage
    return 2
