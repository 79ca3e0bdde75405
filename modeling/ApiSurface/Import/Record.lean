import ApiSurface.Id
import ApiSurface.Tree.Scope
/-!
# Imports

What a module imports, each name with its absolute origin.  A relative import counts its dots from
the importing module: one dot is the package itself when the importer is the package's entry, and
the package around it when the importer is a plain module.
-/

namespace ApiSurface

inductive ImportKind
  /-- A whole module. -/
  | module
  /-- One name out of a module, which may be a module itself. -/
  | symbol
  /-- Everything in a module. -/
  | wildcard
  deriving DecidableEq

structure ImportRecord where
  kind : ImportKind
  /-- The absolute name of what is imported. -/
  origin : String
  /-- The module as written, without leading dots. -/
  writtenModule : String
  /-- The imported name as written; empty unless it is a symbol. -/
  name : String
  asName : Option String
  relative : Nat
  deriving DecidableEq

namespace ImportRecord

/-- The name that the import binds in the importing module. -/
def boundName (r : ImportRecord) : String :=
  match r.asName, r.kind with
  | some a, _ => a
  | none, .symbol => r.name
  | none, .module => (Text.components r.origin).head?.getD r.origin
  | none, .wildcard => "*"

/-- The origin as the source spells it, without leading dots. -/
def writtenKey (r : ImportRecord) : String :=
  match r.kind with
  | .module => r.origin
  | .wildcard => r.writtenModule ++ ".*"
  | .symbol => Text.qualify r.writtenModule r.name

/-- The absolute key. -/
def resolvedKey (r : ImportRecord) : String :=
  match r.kind with
  | .wildcard => r.origin ++ ".*"
  | _ => r.origin

end ImportRecord

/-- The absolute name of a module imported at a level of dots. -/
def resolveRelative (importer : String) (isAggregator : Bool) (relative : Nat) (module : String) :
    String :=
  if relative = 0 then module
  else
    let parts := (Text.components importer).filter fun p => !p.isEmpty
    let up := if isAggregator then relative - 1 else relative
    Text.joinDots (parts.take (parts.length - up) ++ if module.isEmpty then [] else [module])

/-- The records of one statement, in a module with the given name. -/
def importsOf (importer : String) (isAggregator : Bool) : Statement → List ImportRecord
  | .importNames names => names.map fun n =>
    { kind := .module, origin := n.name, writtenModule := n.name, name := "", asName := n.asName,
      relative := 0 }
  | .importFrom i =>
    let base := resolveRelative importer isAggregator i.relative i.module
    i.names.map fun n =>
      { kind := .symbol, origin := Text.qualify base n.name, writtenModule := i.module,
        name := n.name, asName := n.asName, relative := i.relative }
  | .importAll i =>
    [{ kind := .wildcard, origin := resolveRelative importer isAggregator i.relative i.module,
       writtenModule := i.module, name := "", asName := none, relative := i.relative }]
  | _ => []

/-- The imports at the module scope of a file, in source order. -/
def SourceFile.imports (f : SourceFile) : List ImportRecord :=
  (Statement.leavesIn f.body).flatMap (importsOf f.fullname f.isAggregator)

/-- The imports that bind names, as the model lists them. -/
def qualifiedImports (records : List ImportRecord) : List QualifiedImport :=
  (records.filter fun r => r.kind != .wildcard).map fun r => ⟨r.origin, r.asName⟩

def wildcardImports (records : List ImportRecord) : List WildcardImport :=
  (records.filter fun r => r.kind == .wildcard).map fun r => ⟨r.origin⟩

end ApiSurface
