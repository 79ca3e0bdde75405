import ApiSurface.Json.Printer
/-!
# Errors

The one error type that a run ends with.  Every part of the program has its own causes and says
which of these they amount to.
-/

namespace ApiSurface

inductive Error
  /-- Bad options or an options file that cannot be used. -/
  | invalidArguments (message : String)
  | inputNotFound (path : String)
  /-- Input that is not what it should be. -/
  | malformedInput (path message : String)
  /-- An invariant of the model builder does not hold. -/
  | internalInvariant (message : String)
  /-- Reading or writing failed. -/
  | io (message : String)
  deriving DecidableEq

namespace Error

def message : Error → String
  | .invalidArguments m => "invalid arguments: " ++ m
  | .inputNotFound path => "input not found: " ++ path
  | .malformedInput path m => "malformed input " ++ path ++ ": " ++ m
  | .internalInvariant m => "internal invariant violated: " ++ m
  | .io m => "IO error: " ++ m

/-- The code of an error, which is also the exit code of the program. -/
def code : Error → Nat
  | .invalidArguments _ => 2
  | .inputNotFound _ => 3
  | .malformedInput .. => 3
  | .internalInvariant _ => 10
  | .io _ => 10

/-- The object that the program prints when it fails. -/
def toJson (e : Error) : Json :=
  .object [("error", .object [("code", .int e.code), ("message", .string e.message)]),
    ("status", .string "error")]

end Error

end ApiSurface
