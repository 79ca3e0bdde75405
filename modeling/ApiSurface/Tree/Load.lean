import ApiSurface.Error
import ApiSurface.Json.Parser
import ApiSurface.Snapshot
import ApiSurface.Tree.Codec
/-!
# Loading program trees

A type checker writes one JSON file for each module.  All files below a folder whose names end in
`.json` are read, in the order of their paths; what is hidden by a leading dot is passed over.
-/

namespace ApiSurface

inductive LoadError
  | notFound (path : String)
  /-- A file that holds no program tree. -/
  | parse (path : String) (fault : Json.Fault)
  /-- A file that is no text. -/
  | io (path : String)

def LoadError.toError : LoadError → Error
  | .notFound path => .inputNotFound path
  | .parse path fault => .malformedInput path fault.message
  | .io _ => .io "stream did not contain valid UTF-8"

namespace SourceFile

/-- Reads a program tree; `origin` is what the text is called in errors. -/
def parse (text origin : String) : Except LoadError SourceFile :=
  match Json.parse text >>= ofJson with
  | .ok f => .ok f
  | .error fault => .error (.parse origin fault)

/-- Reads the program tree in a file. -/
def load (path : String) : Found → Except LoadError SourceFile
  | .file (some text) => parse text path
  | .file none => .error (.io path)
  | _ => .error (.notFound path)

/-- A path below a folder, as it is shown. -/
def below (folder : String) (names : List String) : String :=
  let tail := "/".intercalate names
  if ['/'].isSuffixOf folder.toList then folder ++ tail else folder ++ "/" ++ tail

def isHidden (name : String) : Bool := ['.'].isPrefixOf name.toList

/-- Whether a path in a folder names a program tree. -/
def isTreePath (names : List String) : Bool :=
  !names.any isHidden && ".json".toList.isSuffixOf (names.getLast?.getD "").toList

/-- The order of paths: name by name. -/
def pathKey (f : List String × Option String) : Key := listKey textKey f.1

/-- Reads all program trees below a folder. -/
def loadAll (folder : String) : Found → Except LoadError (List SourceFile)
  | .folder files =>
    let trees : Ascending pathKey := .ofList (files.filter fun f => isTreePath f.1)
    trees.toList.mapM fun f => load (below folder f.1) (.file f.2)
  | _ => .error (.notFound folder)

end SourceFile

end ApiSurface
