import ApiSurface.Error
import ApiSurface.Text.Basic
/-!
# Files as they are found

A snapshot is what lies below a directory at one moment: files with their texts, and folders.  A
place in it is a list of names.  A path is written with slashes and leads to a place step by step:
a dot stays, two dots go up, a name goes down, and each step is taken from a folder.  A file whose
bytes are no text is there but has no text.
-/

namespace ApiSurface

/-- What is at a path. -/
inductive Found
  | nothing
  | file (text : Option String)
  /-- The files below a folder, by their places in it. -/
  | folder (files : List (List String × Option String))

/-- Why a path cannot be followed, or a file cannot be written to it. -/
inductive PathError
  | isFolder
  /-- A file stands in the place of a folder. -/
  | notFolder
  | noFolder
  | longName
  /-- No name holds the null character. -/
  | nullInName
  deriving DecidableEq

def PathError.message : PathError → String
  | .isFolder => "Is a directory (os error 21)"
  | .notFolder => "Not a directory (os error 20)"
  | .noFolder => "No such file or directory (os error 2)"
  | .longName => "File name too long (os error 36)"
  | .nullInName => "file name contained an unexpected NUL byte"

def PathError.toError (e : PathError) : Error := .io e.message

/-! ## 1. Paths -/

/-- The steps of a written path; the one after a closing slash is empty. -/
def pathSteps (path : String) : List String := (Text.splitOn '/' path.toList).map String.ofList

/-- The steps of a path that are not empty. -/
def pathNames (path : String) : List String := (pathSteps path).filter fun step => !step.isEmpty

/-- Whether a path ends in a slash, and so means a folder. -/
def endsInSlash (path : String) : Bool := ['/'].isSuffixOf path.toList

/-- The place one step further; above the top there is only the top. -/
def placeAfter (place : List String) : String → List String
  | "" | "." => place
  | ".." => place.dropLast
  | name => place ++ [name]

/-- The longest name that a file can have, in bytes. -/
def maxNameSize : Nat := 255

structure Snapshot where
  files : List (List String × Option String) := []
  folders : List (List String) := []

namespace Snapshot

/-! ## 2. Places -/

def fileAt? (s : Snapshot) (place : List String) : Option (Option String) := s.files.lookup place

def isFolder (s : Snapshot) (place : List String) : Bool :=
  place.isEmpty || s.folders.any (place.isPrefixOf ·)
    || s.files.any fun f => place.isPrefixOf f.1.dropLast

def foundAt (s : Snapshot) (place : List String) : Found :=
  match s.fileAt? place with
  | some text => .file text
  | none =>
    if s.isFolder place then
      .folder (s.files.filterMap fun f =>
        if place.isPrefixOf f.1 then some (f.1.drop place.length, f.2) else none)
    else .nothing

/-! ## 3. Following paths -/

/-- Steps are taken from folders only. -/
def requireFolder (s : Snapshot) (place : List String) : Except PathError Unit :=
  if s.isFolder place then .ok ()
  else if (s.fileAt? place).isSome then .error .notFolder
  else .error .noFolder

def step (s : Snapshot) (place : List String) (name : String) : Except PathError (List String) := do
  s.requireFolder place
  if maxNameSize < name.utf8ByteSize then .error .longName else .ok (placeAfter place name)

/-- Where steps lead from the top; there need not be anything. -/
def follow (s : Snapshot) (steps : List String) : Except PathError (List String) :=
  steps.foldlM s.step []

def find (s : Snapshot) (path : String) : Found :=
  match s.follow (pathSteps path) with
  | .ok place => s.foundAt place
  | .error _ => .nothing

/-! ## 4. Changes -/

/-- The snapshot with every folder on the way that the steps take. -/
def makeFolders (s : Snapshot) (steps : List String) : Snapshot :=
  { s with folders := (steps.foldl (fun places name =>
      placeAfter (places.headD []) name :: places) []) ++ s.folders }

/-- The snapshot after a file is written to a path.  The folder that it lies in has to be there; the
last step is a name, with no slash after it, and no folder's. -/
def write (s : Snapshot) (path : String) (text : Option String) : Except PathError Snapshot := do
  if path.toList.contains '\x00' then .error .nullInName
  let names := pathNames path
  let folder ← s.follow names.dropLast
  s.requireFolder folder
  match names.getLast? with
  | none | some "." | some ".." => .error .isFolder
  | some name =>
    if endsInSlash path then .error .isFolder
    else
      let place ← s.step folder name
      if s.isFolder place then .error .isFolder
      else .ok { s with files := (place, text) :: s.files.filter fun f => f.1 != place }

end Snapshot

end ApiSurface
