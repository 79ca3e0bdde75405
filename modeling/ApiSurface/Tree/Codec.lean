import ApiSurface.Tree.Statement
/-!
# Program trees in JSON

A statement is an object whose `node` names its kind.  Reading fills in what is absent; writing
puts every field down, with null where there is nothing.
-/

namespace ApiSurface

open Json (required optional withDefault asString asStrings asBool asWord asList flag ofOption
  strings Decoded)

/-! ## 1. Parts of statements -/

def TypeVarDef.toJson (t : TypeVarDef) : Json :=
  .object [("name", .string t.name), ("variance", .string t.variance.name),
    ("upper_bound", ofOption Annotation.toJson t.upperBound)]

def TypeVarDef.ofJson (reading : Json.Reading) (v : Json) : Decoded TypeVarDef := do
  let m ← v.asRecord ["name", "variance", "upper_bound"]
  return {
    name := ← required m "name" asString
    variance := ← withDefault m "variance" .invariant (Variance.ofJson reading)
    upperBound := ← optional m "upper_bound" Annotation.ofJson }

def ArgumentKind.name : ArgumentKind → String
  | .pos => "pos"
  | .opt => "opt"
  | .star => "star"
  | .named => "named"
  | .namedOpt => "named_opt"
  | .doubleStar => "star2"

def ArgumentKind.ofJson (reading : Json.Reading) (v : Json) : Decoded ArgumentKind := do
  match ← v.asCase reading with
  | "pos" => return .pos
  | "opt" => return .opt
  | "star" => return .star
  | "named" => return .named
  | "named_opt" => return .namedOpt
  | "star2" => return .doubleStar
  | tag => throw (.unknownTag tag)

def Argument.toJson (a : Argument) : Json :=
  .object [("name", .string a.name), ("kind", .string a.kind.name), ("pos_only", .bool a.posOnly),
    ("is_self", .bool a.isSelf), ("is_cls", .bool a.isCls),
    ("type", ofOption Annotation.toJson a.type),
    ("unanalyzed_type", ofOption Annotation.toJson a.unanalyzedType),
    ("initializer", ofOption Expression.toJson a.initializer)]

def Argument.ofJson (reading : Json.Reading) (v : Json) : Decoded Argument := do
  let m ← v.asRecord
    ["name", "kind", "pos_only", "is_self", "is_cls", "type", "unanalyzed_type",
      "initializer"]
  return {
    name := ← required m "name" asString
    kind := ← required m "kind" (ArgumentKind.ofJson reading)
    posOnly := ← flag m "pos_only"
    isSelf := ← flag m "is_self"
    isCls := ← flag m "is_cls"
    type := ← optional m "type" Annotation.ofJson
    unanalyzedType := ← optional m "unanalyzed_type" Annotation.ofJson
    initializer := ← optional m "initializer" Expression.ofJson }

/-- The fields of a class declaration, in order. -/
def ClassHead.fields : List String :=
  ["name", "fullname", "bases", "mro", "type_vars", "decorators", "docstring", "body", "line"]

def ClassHead.members (h : ClassHead) (body : List Json) : Json.Members :=
  [("name", .string h.name), ("fullname", .string h.fullname), ("bases", strings h.bases),
   ("mro", strings h.mro), ("type_vars", .array (h.typeVars.map TypeVarDef.toJson)),
   ("decorators", strings h.decorators), ("docstring", ofOption .string h.docstring),
   ("body", .array body), ("line", .int h.line)]

def ClassHead.ofMembers (reading : Json.Reading) (m : Json.Members) : Decoded ClassHead := do
  return {
    name := ← required m "name" asString
    fullname := ← required m "fullname" asString
    bases := ← withDefault m "bases" [] asStrings
    mro := ← withDefault m "mro" [] asStrings
    typeVars := ← withDefault m "type_vars" [] (asList (TypeVarDef.ofJson reading))
    decorators := ← withDefault m "decorators" [] asStrings
    docstring := ← optional m "docstring" asString
    line := ← withDefault m "line" 0 asWord }

/-- The fields of a function declaration, in order. -/
def FunctionHead.fields : List String :=
  ["name", "fullname", "arguments", "ret_type", "unanalyzed_ret_type", "is_static", "is_class",
    "is_property", "decorators", "docstring", "body", "line"]

def FunctionHead.members (h : FunctionHead) (body : List Json) : Json.Members :=
  [("name", .string h.name), ("fullname", .string h.fullname),
   ("arguments", .array (h.arguments.map Argument.toJson)),
   ("ret_type", ofOption Annotation.toJson h.returnType),
   ("unanalyzed_ret_type", ofOption Annotation.toJson h.unanalyzedReturnType),
   ("is_static", .bool h.isStatic), ("is_class", .bool h.isClass),
   ("is_property", .bool h.isProperty), ("decorators", strings h.decorators),
   ("docstring", ofOption .string h.docstring), ("body", .array body), ("line", .int h.line)]

def FunctionHead.ofMembers (reading : Json.Reading) (m : Json.Members) :
    Decoded FunctionHead := do
  return {
    name := ← required m "name" asString
    fullname := ← required m "fullname" asString
    arguments := ← withDefault m "arguments" [] (asList (Argument.ofJson reading))
    returnType := ← optional m "ret_type" Annotation.ofJson
    unanalyzedReturnType := ← optional m "unanalyzed_ret_type" Annotation.ofJson
    isStatic := ← flag m "is_static"
    isClass := ← flag m "is_class"
    isProperty := ← flag m "is_property"
    decorators := ← withDefault m "decorators" [] asStrings
    docstring := ← optional m "docstring" asString
    line := ← withDefault m "line" 0 asWord }

/-- The fields of an assignment, in order. -/
def Assignment.fields : List String := ["lvalues", "rvalue", "type", "unanalyzed_type", "line"]

def Assignment.members (a : Assignment) : Json.Members :=
  [("lvalues", .array (a.targets.map Expression.toJson)),
   ("rvalue", ofOption Expression.toJson a.value),
   ("type", ofOption Annotation.toJson a.type),
   ("unanalyzed_type", ofOption Annotation.toJson a.unanalyzedType), ("line", .int a.line)]

def Assignment.ofMembers (m : Json.Members) : Decoded Assignment := do
  return {
    targets := ← required m "lvalues" (asList Expression.ofJson)
    value := ← optional m "rvalue" Expression.ofJson
    type := ← optional m "type" Annotation.ofJson
    unanalyzedType := ← optional m "unanalyzed_type" Annotation.ofJson
    line := ← withDefault m "line" 0 asWord }

def ImportedName.toJson (i : ImportedName) : Json :=
  .object [("name", .string i.name), ("alias", ofOption .string i.asName)]

def ImportedName.ofJson (v : Json) : Decoded ImportedName := do
  let m ← v.asRecord ["name", "alias"]
  return { name := ← required m "name" asString, asName := ← optional m "alias" asString }

def ImportFrom.ofMembers (m : Json.Members) : Decoded ImportFrom := do
  return {
    module := ← withDefault m "module" "" asString
    relative := ← withDefault m "relative" 0 asWord
    names := ← required m "names" (asList ImportedName.ofJson) }

def ImportAll.ofMembers (m : Json.Members) : Decoded ImportAll := do
  return {
    module := ← withDefault m "module" "" asString
    relative := ← withDefault m "relative" 0 asWord }

/-! ## 2. Statements -/

namespace Statement

def tagged (kind : String) (members : Json.Members) : Json :=
  .object (("node", .string kind) :: members)

mutual
def toJson : Statement → Json
  | .classDef head body => tagged "class_def" (head.members (listToJson body))
  | .funcDef head body => tagged "func_def" (head.members (listToJson body))
  | .assignment a => tagged "assignment" a.members
  | .importNames names => tagged "import" [("ids", .array (names.map ImportedName.toJson))]
  | .importFrom i =>
    tagged "import_from" [("module", .string i.module), ("relative", .int i.relative),
      ("names", .array (i.names.map ImportedName.toJson))]
  | .importAll i =>
    tagged "import_all" [("module", .string i.module), ("relative", .int i.relative)]
  | .returned value => tagged "return" [("expr", ofOption Expression.toJson value)]
  | .block kind b => tagged kind.name (blockMembers b)
  | .guarded body handlers orelse finalBody =>
    tagged "try" [("body", .array (listToJson body)), ("handlers", .array (blocksToJson handlers)),
      ("orelse", .array (listToJson orelse)), ("finally_body", .array (listToJson finalBody))]
  | .expression e => tagged "expression" [("expr", e.toJson)]
  | .pass => tagged "pass" []
  | .other => tagged "other" []

def listToJson : List Statement → List Json
  | [] => []
  | s :: more => s.toJson :: listToJson more

def blockMembers : Block → Json.Members
  | .mk body orelse =>
    [("body", .array (listToJson body)), ("orelse", .array (listToJson orelse))]

def blocksToJson : List Block → List Json
  | [] => []
  | b :: more => .object (blockMembers b) :: blocksToJson more
end

/-- The fields of a block, in order. -/
def blockFields : List String := ["body", "orelse"]

/-- The fields of each kind of statement, in order. -/
def fieldsOf : (kind : String) → List String
  | "class_def" => ClassHead.fields
  | "func_def" => FunctionHead.fields
  | "assignment" => Assignment.fields
  | "import" => ["ids"]
  | "import_from" => ["module", "relative", "names"]
  | "import_all" => ["module", "relative"]
  | "return" | "expression" => ["expr"]
  | "if" | "for" | "while" | "with" => blockFields
  | "try" => ["body", "handlers", "orelse", "finally_body"]
  | _ => []

/-- A block's two bodies, read with the given reader of statements. -/
def blockOf (read : Json → Decoded Statement) (m : Json.Members) : Decoded Block := do
  return .mk (← withDefault m "body" [] (asList read)) (← withDefault m "orelse" [] (asList read))

/-- Reads a statement of at most the given depth. -/
def ofJsonWithin : (depth : Nat) → Json → Decoded Statement
  | 0, _ => .error (.expected "a statement")
  | depth + 1, v => do
    let (kind, v) ← v.asTagged "node"
    let m ← v.asRecord (fieldsOf kind)
    let body (key : String) := withDefault m key [] (asList (ofJsonWithin depth))
    let block (m : Json.Members) := blockOf (ofJsonWithin depth) m
    match kind with
    | "class_def" => return .classDef (← ClassHead.ofMembers .held m) (← body "body")
    | "func_def" => return .funcDef (← FunctionHead.ofMembers .held m) (← body "body")
    | "assignment" => return .assignment (← Assignment.ofMembers m)
    | "import" => return .importNames (← required m "ids" (asList ImportedName.ofJson))
    | "import_from" => return .importFrom (← ImportFrom.ofMembers m)
    | "import_all" => return .importAll (← ImportAll.ofMembers m)
    | "return" => return .returned (← optional m "expr" Expression.ofJson)
    | "if" => return .block .cond (← block m)
    | "for" => return .block .forLoop (← block m)
    | "while" => return .block .whileLoop (← block m)
    | "with" => return .block .context (← block m)
    | "try" =>
      return .guarded (← body "body")
        (← withDefault m "handlers" [] (asList fun h => do block (← h.asRecord blockFields)))
        (← body "orelse") (← body "finally_body")
    | "expression" => return .expression (← required m "expr" Expression.ofJson)
    | "pass" => return .pass
    | "other" => return .other
    | tag => throw (.unknownTag tag)

def ofJson (v : Json) : Decoded Statement := do
  ofJsonWithin v.depth (← v.readable)

end Statement

/-! ## 3. Files -/

namespace SourceFile

def toJson (f : SourceFile) : Json :=
  .object [("path", .string f.path), ("fullname", .string f.fullname),
    ("docstring", ofOption .string f.docstring), ("body", .array (Statement.listToJson f.body))]

def ofJson (v : Json) : Decoded SourceFile := do
  let m ← v.asRecord ["path", "fullname", "docstring", "body"]
  return {
    path := ← required m "path" asString
    fullname := ← required m "fullname" asString
    docstring := ← optional m "docstring" asString
    body := ← withDefault m "body" [] (asList Statement.ofJson) }

end SourceFile

/-- Reads a class declaration on its own; its body is read like any other and then left aside. -/
def ClassHead.ofJson (v : Json) : Decoded (ClassHead × List Statement) := do
  let m ← v.asRecord ClassHead.fields
  return (← ClassHead.ofMembers .direct m, ← withDefault m "body" [] (asList Statement.ofJson))

/-- Reads a function declaration on its own. -/
def FunctionHead.ofJson (v : Json) : Decoded (FunctionHead × List Statement) := do
  let m ← v.asRecord FunctionHead.fields
  return (← FunctionHead.ofMembers .direct m, ← withDefault m "body" [] (asList Statement.ofJson))

def Assignment.ofJson (v : Json) : Decoded Assignment := do
  Assignment.ofMembers (← v.asRecord Assignment.fields)

end ApiSurface
