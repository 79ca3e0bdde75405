import ApiSurface.Import.Index
/-!
# Declared types

What an annotation means as a type of the model, seen from a module.  Resolved names mean
themselves; a name that was left unresolved is looked up among the aliases of the package.

Beside the type of an annotation stands the list of its type variables (`typeVars`).  It holds
every variable met on the way, also where the type itself has no place for it.
-/

namespace ApiSurface

/-- The module from which names are seen, with what names may stand for. -/
structure TypeScope where
  aliases : Aliases
  module : String

/-- A named type with its arguments, if it has any. -/
def ApiType.applied (qname : String) (args : List ApiType) : ApiType :=
  if args.isEmpty then .named (Text.lastComponent qname) qname
  else .namedSequence (Text.lastComponent qname) qname args

/-- A dictionary type from the list of its arguments, of which some may be missing. -/
def ApiType.dictOf (args : List ApiType) : ApiType :=
  .dict (args.head?.getD .unknown) (args.tail.head?.getD .unknown)

namespace TypeScope

/-- The meaning of a name, or the name itself. -/
def resolve (s : TypeScope) (name : String) : String := (s.aliases.resolve? name s.module).getD name

/-- The type behind an import that could not be followed: by its last component, else by the whole
name. -/
def missingImport (s : TypeScope) (name : String) : ApiType :=
  let found := (s.aliases.resolve? (Text.lastComponent name) s.module).or
    (s.aliases.resolve? name s.module)
  .applied (found.getD name) []

def anyType (s : TypeScope) (reason : AnyReason) (missing : Option String) : ApiType :=
  match reason, missing with
  | .fromUnimportedType, some name => s.missingImport name
  | _, _ => if reason.isUninformative then .unknown else .any

/-- Simple types that can be written without import. -/
def plainNames : List String := ["int", "float", "str", "bool", "bytes", "complex", "object"]

/-- The type of a name as written, with the types of its arguments.  Names of builtins need no
look-up. -/
def writtenType (s : TypeScope) (name : String) (args : List ApiType) : ApiType :=
  if plainNames.contains name then .builtin name
  else if name == "None" then ApiType.none
  else if ["list", "List", "typing.List"].contains name then .list args
  else if ["set", "Set", "typing.Set", "frozenset", "FrozenSet", "typing.FrozenSet"].contains name
  then .setOf args
  else if ["tuple", "Tuple", "typing.Tuple"].contains name then .tuple args
  else if ["dict", "Dict", "typing.Dict"].contains name then .dictOf args
  else .applied (s.resolve name) args

end TypeScope

/-- The type of a resolved class with the types of its arguments. -/
def ApiType.ofClass (fullname : String) (args : List ApiType) : ApiType :=
  if fullname == "builtins.list" then .list args
  else if fullname == "builtins.set" || fullname == "builtins.frozenset" then .setOf args
  else if fullname == "builtins.tuple" then .tuple args
  else if fullname == "builtins.dict" then .dictOf args
  else if fullname == "typing.Final" then .final (.unionOf args)
  else .applied fullname args

/-- The values of a literal type; none for other types. -/
def ApiType.literals? : ApiType → Option (List Literal)
  | .literal values => some values
  | _ => Option.none

/-- A union of the members, or one literal type if all of them are literals. -/
def ApiType.joined (members : List ApiType) : ApiType :=
  match members, members.mapM ApiType.literals? with
  | _ :: _, some values => .literalOf values.flatten
  | _, _ => .unionOf members

namespace Annotation

/-- Whether a type variable stands for the class it is used in. -/
def isSelfType (name fullname : String) : Bool :=
  name == "Self" || ".Self".toList.isSuffixOf fullname.toList

/-- Whether this is the class of all values, which bounds nothing. -/
def isObject : Annotation → Bool
  | .inst fullname _ => fullname == "builtins.object"
  | _ => false

mutual
/-- The type that an annotation means. -/
def type (s : TypeScope) : Annotation → ApiType
  | .any reason missing => s.anyType reason missing
  | .none => ApiType.none
  | .inst fullname args => .ofClass fullname (types s args)
  | .union items => .joined (types s items)
  | .tuple items => .tuple (types s items)
  | .callable parameters result => .callable (types s parameters) (result.type s)
  | .literal value => .literalOf [value]
  | .typeVar name fullname bound =>
    if isSelfType name fullname then (boundType s bound).getD .unknown
    else .typeVar name (boundType s bound)
  | .unbound name args => s.writtenType name (types s args)
  | .typeOf item => .namedSequence "type" "builtins.type" [item.type s]
  | .uninhabited => .named "NoReturn" "typing.NoReturn"
  | .other _ => .unknown

def types (s : TypeScope) : List Annotation → List ApiType
  | [] => []
  | a :: more => a.type s :: types s more

/-- The type of a bound that restricts anything. -/
def boundType (s : TypeScope) : Option Annotation → Option ApiType
  | Option.none => Option.none
  | some b => if b.isObject then Option.none else some (b.type s)
end

mutual
/-- The type variables in an annotation, as types. -/
def typeVars (s : TypeScope) : Annotation → List ApiType
  | .inst _ args => typeVarsIn s args
  | .union items => typeVarsIn s items
  | .tuple items => typeVarsIn s items
  | .callable parameters result => typeVarsIn s parameters ++ result.typeVars s
  | .typeVar name fullname bound =>
    boundTypeVars s bound ++
      if isSelfType name fullname then [] else [.typeVar name (boundType s bound)]
  | .unbound _ args => typeVarsIn s args
  | .typeOf item => item.typeVars s
  | _ => []

def typeVarsIn (s : TypeScope) : List Annotation → List ApiType
  | [] => []
  | a :: more => a.typeVars s ++ typeVarsIn s more

def boundTypeVars (s : TypeScope) : Option Annotation → List ApiType
  | Option.none => []
  | some b => if b.isObject then [] else b.typeVars s
end

/-- Collections of one element type, for which a checker keeps one argument however many were
written. -/
def keepsOneArgument (fullname : String) : Bool :=
  ["builtins.list", "builtins.set", "builtins.frozenset"].contains fullname

/-- An annotation with the arguments that were written, where the checker dropped some. -/
def withWritten (a : Annotation) (written : Option Annotation) : Annotation :=
  match a, written with
  | .inst fullname args, some (.unbound _ all) =>
    if keepsOneArgument fullname && args.length < all.length then .inst fullname all else a
  | _, _ => a

/-- The type that a declaration gives; none for an annotation that says nothing. -/
def declared? (s : TypeScope) (a : Annotation) (written : Option Annotation) : Option ApiType :=
  if a.isUninformative then Option.none else some ((a.withWritten written).type s)

/-- The type variables of a declaration. -/
def declaredTypeVars (s : TypeScope) (a : Annotation) (written : Option Annotation) :
    List ApiType :=
  if a.isUninformative then [] else (a.withWritten written).typeVars s

end Annotation

end ApiSurface
