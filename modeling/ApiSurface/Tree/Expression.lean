import ApiSurface.Tree.Annotation
/-!
# Expressions

The expressions of a program as far as the model needs them.  `True`, `False` and `None` are names.
Some expressions carry the type that the checker inferred for them.
-/

namespace ApiSurface

/-- A number as it was written, of any size. -/
inductive Numeric
  | int (n : Int)
  | float (x : Binary64)
  deriving DecidableEq

inductive Expression
  | name (name : String) (fullname : Option String) (type : Option Annotation)
  /-- An attribute of a value. -/
  | member (value : Expression) (name : String) (type : Option Annotation)
  | str (value : String)
  | int (value : Numeric)
  | float (value : Binary64)
  | tuple (items : List Expression)
  | list (items : List Expression)
  | call (callee : Expression) (type : Option Annotation)
  | op (op : String) (left right : Expression) (type : Option Annotation)
  | comparison (operators : List String)
  | unary (op : String) (operand : Expression) (type : Option Annotation)
  | conditional (ifTrue ifFalse : Expression) (type : Option Annotation)
  | other (type : Option Annotation)

/-! ## 1. Literals -/

/-- The literal value of an integer that fits sixty-four bits. -/
def Numeric.literal? : Numeric → Option Literal
  | .int n => if Literal.fitsInt64 n then some (.int (Int64.ofInt n)) else none
  | .float _ => none

/-- The negated number; the least integer has no negation. -/
def Literal.negate? : Literal → Option Literal
  | .int n => if n == Int64.minValue then Option.none else some (.int (-n))
  | .float x => some (.float x.neg)
  | _ => Option.none

namespace Expression

/-- The value of an expression that is a literal, possibly under minus signs. -/
def literal? : Expression → Option Literal
  | .str s => some (.str s)
  | .int n => n.literal?
  | .float x => some (.float x)
  | .name "True" .. => some (.bool true)
  | .name "False" .. => some (.bool false)
  | .name "None" .. => some .none
  | .unary "-" operand _ => operand.literal?.bind Literal.negate?
  | _ => none

/-- Whether an expression is an integer of any size, or one under a minus sign. -/
def isInteger : Expression → Bool
  | .int _ => true
  | .unary "-" (.int _) _ => true
  | _ => false

/-- The type of an expression that is a literal, integers of any size included. -/
def literalType? (e : Expression) : Option ApiType :=
  match e.literal? with
  | some value => some value.type
  | none => if e.isInteger then some (.builtin "int") else none

/-- The type that the checker inferred. -/
def inferredType? : Expression → Option Annotation
  | .name _ _ t | .member _ _ t | .call _ t | .op _ _ _ t | .unary _ _ t | .conditional _ _ t
  | .other t => t
  | _ => none

end Expression

/-! ## 2. JSON -/

open Json (required optional withDefault asString asStrings asList Decoded)

def Numeric.toJson : Numeric → Json
  | .int n => .int n
  | .float x => .ofBinary64 x

def Numeric.ofJson : Json → Decoded Numeric
  | .int n => .ok (.int n)
  | .float x => .ok (.float x)
  | _ => .error (.expected "a number")

namespace Expression

def tagged (kind : String) (members : Json.Members) : Json :=
  .object (("expr", .string kind) :: members)

def typeMember (t : Option Annotation) : String × Json := ("type", .ofOption Annotation.toJson t)

mutual
def toJson : Expression → Json
  | .name n fullname t =>
    tagged "name" [("name", .string n), ("fullname", .ofOption .string fullname), typeMember t]
  | .member value n t =>
    tagged "member" [("value", value.toJson), ("name", .string n), typeMember t]
  | .str value => tagged "str" [("value", .string value)]
  | .int value => tagged "int" [("value", value.toJson)]
  | .float value => tagged "float" [("value", .ofBinary64 value)]
  | .tuple items => tagged "tuple" [("items", .array (listToJson items))]
  | .list items => tagged "list" [("items", .array (listToJson items))]
  | .call callee t => tagged "call" [("callee", callee.toJson), typeMember t]
  | .op symbol left right t =>
    tagged "op" [("op", .string symbol), ("left", left.toJson), ("right", right.toJson),
      typeMember t]
  | .comparison operators => tagged "comparison" [("operators", .strings operators)]
  | .unary symbol operand t =>
    tagged "unary" [("op", .string symbol), ("operand", operand.toJson), typeMember t]
  | .conditional ifTrue ifFalse t =>
    tagged "conditional"
      [("if_expr", ifTrue.toJson), ("else_expr", ifFalse.toJson), typeMember t]
  | .other t => tagged "other" [typeMember t]

def listToJson : List Expression → List Json
  | [] => []
  | e :: more => e.toJson :: listToJson more
end

/-- The fields of each kind of expression, in order. -/
def fieldsOf : (kind : String) → List String
  | "name" => ["name", "fullname", "type"]
  | "member" => ["value", "name", "type"]
  | "str" | "int" | "float" => ["value"]
  | "tuple" | "list" => ["items"]
  | "call" => ["callee", "type"]
  | "op" => ["op", "left", "right", "type"]
  | "comparison" => ["operators"]
  | "unary" => ["op", "operand", "type"]
  | "conditional" => ["if_expr", "else_expr", "type"]
  | "other" => ["type"]
  | _ => []

/-- Reads an expression of at most the given depth. -/
def ofJsonWithin : (depth : Nat) → Json → Decoded Expression
  | 0, _ => .error (.expected "an expression")
  | depth + 1, v => do
    let (kind, v) ← v.asTagged "expr"
    let m ← v.asRecord (fieldsOf kind)
    let inner (key : String) := required m key (ofJsonWithin depth)
    let type := optional m "type" Annotation.ofJson
    match kind with
    | "name" =>
      return .name (← required m "name" asString) (← optional m "fullname" asString) (← type)
    | "member" => return .member (← inner "value") (← required m "name" asString) (← type)
    | "str" => return .str (← required m "value" asString)
    | "int" => return .int (← required m "value" Numeric.ofJson)
    | "float" => return .float (← required m "value" Json.asBinary64)
    | "tuple" => return .tuple (← required m "items" (asList (ofJsonWithin depth)))
    | "list" => return .list (← required m "items" (asList (ofJsonWithin depth)))
    | "call" => return .call (← inner "callee") (← type)
    | "op" =>
      return .op (← required m "op" asString) (← inner "left") (← inner "right") (← type)
    | "comparison" => return .comparison (← withDefault m "operators" [] asStrings)
    | "unary" => return .unary (← required m "op" asString) (← inner "operand") (← type)
    | "conditional" => return .conditional (← inner "if_expr") (← inner "else_expr") (← type)
    | "other" => return .other (← type)
    | tag => throw (.unknownTag tag)

def ofJson (v : Json) : Decoded Expression := do
  ofJsonWithin v.depth (← v.readable)

end Expression

end ApiSurface
