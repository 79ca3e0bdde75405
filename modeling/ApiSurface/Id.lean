import ApiSurface.Text.Basic
/-!
# Ids

Every entity has an id: the id of its owner, a slash and its own name.  A module's id is its path
without the ending of the file.
-/

namespace ApiSurface.Id

def child (owner name : String) : String := owner ++ "/" ++ name

/-- The id of a name inside open scopes, outermost first. -/
def stacked (scopes : List String) (name : String) : String :=
  String.join (scopes.map (· ++ "/")) ++ name

/-- A path without any number of `./` at its start. -/
def dropHere : List Char → List Char
  | '.' :: '/' :: t => dropHere t
  | t => t

/-- The text before `ending`, if it ends so. -/
def dropEnding? (ending t : List Char) : Option (List Char) :=
  (Text.dropStart? ending.reverse t.reverse).map List.reverse

/-- The id of the module at a path, written with either separator. -/
def ofPath (path : String) : String :=
  let t := dropHere (path.toList.map fun c => if c == '\\' then '/' else c)
  let stem := (dropEnding? ".pyi".toList t).orElse fun _ => dropEnding? ".py".toList t
  String.ofList (stem.getD t)

/-- Whether an id lies below that of an owner, at any depth. -/
def isOwnedBy (id owner : String) : Bool :=
  match Text.dropStart? owner.toList id.toList with
  | some ('/' :: _ :: _) => true
  | _ => false

/-- The id without its last segment, if there is a slash in it. -/
def parent? (id : String) : Option String :=
  match (Text.splitOn '/' id.toList).dropLast with
  | [] => none
  | segments => some (String.ofList (Text.joinWith ['/'] segments))

end ApiSurface.Id
