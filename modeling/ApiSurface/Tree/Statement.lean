import ApiSurface.Entity.Codec
import ApiSurface.Tree.Expression
/-!
# Statements and source files

The statements of a module that declare something or hold statements that do.  Names are resolved:
declarations carry their full names.
-/

namespace ApiSurface

/-! ## 1. Parts of statements -/

structure TypeVarDef where
  name : String
  variance : Variance
  upperBound : Option Annotation

/-- A class declaration without its body. -/
structure ClassHead where
  name : String
  fullname : String
  bases : List String
  /-- The checker's own linearization, the class included. -/
  mro : List String
  typeVars : List TypeVarDef
  decorators : List String
  docstring : Option String
  line : Nat

/-- How an argument is declared. -/
inductive ArgumentKind
  /-- Positional. -/
  | pos
  /-- Positional with a default. -/
  | opt
  /-- All further positional arguments. -/
  | star
  /-- By name only. -/
  | named
  /-- By name only, with a default. -/
  | namedOpt
  /-- All further named arguments. -/
  | doubleStar
  deriving DecidableEq

structure Argument where
  name : String
  kind : ArgumentKind
  posOnly : Bool
  isSelf : Bool
  isCls : Bool
  type : Option Annotation
  unanalyzedType : Option Annotation
  initializer : Option Expression

/-- A function declaration without its body. -/
structure FunctionHead where
  name : String
  fullname : String
  arguments : List Argument
  returnType : Option Annotation
  unanalyzedReturnType : Option Annotation
  isStatic : Bool
  isClass : Bool
  isProperty : Bool
  decorators : List String
  docstring : Option String
  line : Nat

structure Assignment where
  targets : List Expression
  /-- Absent in a declaration without a value. -/
  value : Option Expression
  type : Option Annotation
  unanalyzedType : Option Annotation
  line : Nat

/-- A name in an import, and the name it is bound to if it is another. -/
structure ImportedName where
  name : String
  asName : Option String
  deriving DecidableEq

/-- Names imported from a module, at a level of leading dots. -/
structure ImportFrom where
  module : String
  relative : Nat
  names : List ImportedName
  deriving DecidableEq

/-- Everything imported from a module. -/
structure ImportAll where
  module : String
  relative : Nat
  deriving DecidableEq

inductive BlockKind
  | cond
  | forLoop
  | whileLoop
  | context
  deriving DecidableEq

/-! ## 2. Statements -/

mutual
inductive Statement
  | classDef (head : ClassHead) (body : List Statement)
  | funcDef (head : FunctionHead) (body : List Statement)
  | assignment (a : Assignment)
  | importNames (names : List ImportedName)
  | importFrom (i : ImportFrom)
  | importAll (i : ImportAll)
  | returned (value : Option Expression)
  | block (kind : BlockKind) (block : Block)
  | guarded (body : List Statement) (handlers : List Block) (orelse finalBody : List Statement)
  | expression (e : Expression)
  | pass
  | other

/-- Statements and those of an `else` branch. -/
inductive Block
  | mk (body orelse : List Statement)
end

structure SourceFile where
  path : String
  fullname : String
  docstring : Option String
  body : List Statement

/-- Whether a file is the entry of a package, whose imports are what the package offers. -/
def SourceFile.isAggregator (f : SourceFile) : Bool :=
  let file := String.ofList ((Text.splitOn '/' f.path.toList).getLast?.getD [])
  file == "__init__.py" || file == "__init__.pyi"

def BlockKind.name : BlockKind → String
  | .cond => "if"
  | .forLoop => "for"
  | .whileLoop => "while"
  | .context => "with"

/-- The name of a statement's kind. -/
def Statement.kindName : Statement → String
  | .classDef .. => "class_def"
  | .funcDef .. => "func_def"
  | .assignment _ => "assignment"
  | .importNames _ => "import"
  | .importFrom _ => "import_from"
  | .importAll _ => "import_all"
  | .returned _ => "return"
  | .block kind _ => kind.name
  | .guarded .. => "try"
  | .expression _ => "expression"
  | .pass => "pass"
  | .other => "other"

end ApiSurface
