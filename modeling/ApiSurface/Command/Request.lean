import ApiSurface.Analysis
import ApiSurface.Api.Document
import ApiSurface.Tree.Load
/-!
# Requests

What a run of the program is asked for.  Options come from a file, and flags override them.  A run
is a function of what is found at the paths of a request.
-/

namespace ApiSurface

structure Request where
  /-- The folder with the program trees. -/
  trees : String
  /-- A file with options. -/
  config : Option String := none
  package : Option String := none
  distribution : Option String := none
  version : Option String := none
  style : Option DocstringStyle := none
  publicOnly : Bool := false
  /-- Where the document goes; to the standard output if nowhere else. -/
  out : Option String := none

/-- Reads an options file. -/
def Options.load (path : String) : Found → Except Error Options
  | .file (some text) =>
    match Json.parse text >>= Options.ofJson with
    | .ok o => .ok o
    | .error fault =>
      .error (.invalidArguments ("invalid config file " ++ path ++ ": " ++ fault.message))
  | .file none => .error (.io "stream did not contain valid UTF-8")
  | _ => .error (.invalidArguments ("config file not found: " ++ path))

/-- Options overridden by the flags of a request. -/
def Options.override (o : Options) (r : Request) : Options where
  package := r.package.getD o.package
  distribution := r.distribution.getD o.distribution
  version := r.version.getD o.version
  style := r.style.getD o.style
  publicOnly := r.publicOnly || o.publicOnly

namespace Request

/-- The options of a run.  A package has to be named; its name also stands for a distribution
without one. -/
def options (r : Request) (look : String → Found) : Except Error Options := do
  let base ← match r.config with
    | some path => Options.load path (look path)
    | none => .ok {}
  let o := base.override r
  if o.package.isEmpty then
    .error (.invalidArguments
      "no package given: pass --package or set \"package\" in the config file")
  else .ok { o with distribution := if o.distribution.isEmpty then o.package else o.distribution }

/-- The document that a run writes. -/
def document (r : Request) (look : String → Found) : Except Error String := do
  let o ← r.options look
  let files ← (SourceFile.loadAll r.trees (look r.trees)).mapError LoadError.toError
  let api ← (analyze files o).mapError AnalysisError.toError
  return api.toDocument.emit

end Request

end ApiSurface
