import ApiSurface.Api.PublicView
import ApiSurface.Assembly.Builder
import ApiSurface.Json.Decode
/-!
# Analysing a package

All files of a package are indexed first, so that no decision on a file depends on when another is
looked at.  Then each file is assembled on its own, and the parts are merged in the order of paths.
-/

namespace ApiSurface

/-! ## 1. Options -/

structure Options where
  /-- The top-level package; files outside it are ignored. -/
  package : String := ""
  distribution : String := ""
  version : String := ""
  style : DocstringStyle := .plaintext
  /-- Whether to keep the public part of the model only. -/
  publicOnly : Bool := false
  deriving DecidableEq

def DocstringStyle.ofJson (v : Json) : Json.Decoded DocstringStyle := do
  let name ← v.asCase .direct
  match ofName? name with
  | some style => .ok style
  | none => .error (.unknownTag name)

namespace Options

def toJson (o : Options) : Json :=
  .object [("package", .string o.package), ("distribution", .string o.distribution),
    ("version", .string o.version), ("docstring_style", .string o.style.name),
    ("public_only", .bool o.publicOnly)]

/-- Reads options; what is missing takes its default. -/
def ofJson (v : Json) : Json.Decoded Options := do
  let m ← v.asRecord ["package", "distribution", "version", "docstring_style", "public_only"]
  return {
    package := ← Json.withDefault m "package" "" Json.asString
    distribution := ← Json.withDefault m "distribution" "" Json.asString
    version := ← Json.withDefault m "version" "" Json.asString
    style := ← Json.withDefault m "docstring_style" .plaintext DocstringStyle.ofJson
    publicOnly := ← Json.flag m "public_only" }

end Options

/-! ## 2. Analysis -/

/-- A file that could not be assembled. -/
structure AnalysisError where
  path : String
  cause : AssemblyError
  deriving DecidableEq

def AnalysisError.toError (e : AnalysisError) : Error :=
  .internalInvariant (e.path ++ ": " ++ e.cause.message)

/-- Whether a module belongs to a package; every module belongs to the one without a name. -/
def isInPackage (package fullname : String) : Bool :=
  package.isEmpty || Text.isWithin package fullname

/-- Whether a file may stand before another, by their paths. -/
def SourceFile.mayPrecede (f g : SourceFile) : Bool := !Key.before (textKey g.path) (textKey f.path)

/-- The files of a package in the order of their paths; files with one path keep their order. -/
def selectFiles (package : String) (files : List SourceFile) : List SourceFile :=
  (files.filter fun f => isInPackage package f.fullname).mergeSort SourceFile.mayPrecede

def assembleAll (files : List SourceFile) (style : DocstringStyle) :
    Except AnalysisError (List Api) :=
  let index := PackageIndex.build (files.map SourceFile.scan)
  files.mapM fun f => (f.assemble index style).mapError fun cause => ⟨f.path, cause⟩

/-- The model of a package.  Nested classes have longer ids than those around them, so the model
always has a public view. -/
def analyze (files : List SourceFile) (o : Options) : Except AnalysisError Api := do
  let parts ← assembleAll (selectFiles o.package files) o.style
  let empty : Api :=
    { distribution := o.distribution, package := o.package, version := o.version }
  let api := parts.foldl Api.merge empty
  return if o.publicOnly then api.publicView?.getD api else api

end ApiSurface
