import ApiSurface.Docstring.Constraint
import ApiSurface.Docstring.Google
import ApiSurface.Docstring.Numpy
import ApiSurface.Docstring.TypeText
import ApiSurface.Entity.Basic
import ApiSurface.Tree.Statement
/-!
# Docstring styles

What a docstring says about a class or function, its parameters, attributes and results, in the
style chosen for a run.  A plain text has no sections and documents nothing but its owner.
-/

namespace ApiSurface

inductive DocstringStyle
  | plaintext | google | numpy
  deriving DecidableEq

namespace DocstringStyle

def name : DocstringStyle → String
  | .plaintext => "plaintext"
  | .google => "google"
  | .numpy => "numpy"

def all : List DocstringStyle := [.plaintext, .google, .numpy]

/-- The style with a name, in any case and in its common spellings. -/
def ofText? (text : String) : Option DocstringStyle :=
  let t := String.ofList (text.toList.map Text.lower)
  if t == "plaintext" || t == "plain" then some .plaintext
  else if t == "google" then some .google
  else if t == "numpy" || t == "numpydoc" then some .numpy
  else none

/-- The style with exactly this name. -/
def ofName? (name : String) : Option DocstringStyle := all.find? fun s => s.name == name

/-! ## 1. Reading -/

def parse : DocstringStyle → List Char → Docstring.Parsed
  | .plaintext, t => { description := t }
  | .google, t => Docstring.Google.parse t
  | .numpy, t => Docstring.Numpy.parse t

/-- A declaration's docstring, cleaned; empty if there is none. -/
def cleaned (docstring : Option String) : List Char :=
  match docstring with
  | some t => Docstring.clean t.toList
  | none => []

def parsed (style : DocstringStyle) (docstring : Option String) : Docstring.Parsed :=
  style.parse (cleaned docstring)

/-- What the docstring of a class or function says about it. -/
def describe (style : DocstringStyle) (docstring : Option String) : Description where
  description := String.ofList (style.parsed docstring).description
  fullDocstring := String.ofList (cleaned docstring)

end DocstringStyle

/-! ## 2. Entries -/

namespace Docstring.Entry

/-- The type that an entry gives its parameter: a value set in the description stands for a
missing type and for texts, and a range narrows a numeric type. -/
def parameterType (e : Entry) : Option ApiType :=
  let declared := (TypeText.parse e.typeText).type
  let type := match Constraint.values? e.description with
    | some values =>
      if declared = none ∨ declared = some (ApiType.builtin "str") then some values else declared
    | none => declared
  type.map fun t => (Constraint.narrow? t e.description).getD t

/-- A default beside the type, or else one in the description. -/
def defaultValue (e : Entry) : Option String :=
  (TypeText.parse e.typeText).default.or (Constraint.default? e.description)

def toParameter (e : Entry) : ParameterDescription where
  type := e.parameterType
  defaultValue := e.defaultValue.getD ""
  description := String.ofList e.description

def toAttribute (e : Entry) : AttributeDescription where
  type := (TypeText.parse e.typeText).type
  description := String.ofList e.description

def toResult (e : Entry) : ResultDescription where
  type := (TypeText.parse e.typeText).type
  name := String.ofList e.name
  description := String.ofList e.description

end Docstring.Entry

/-! ## 3. What a declaration documents -/

namespace DocstringStyle

/-- The name of the method that initializes an instance. -/
def initializer : String := "__init__"

/-- What is said about a parameter: in the function's own docstring, else, for an initializer, in
that of its class. -/
def describeParameter (style : DocstringStyle) (function : FunctionHead) (owner : Option ClassHead)
    (name : String) : ParameterDescription :=
  let own := Docstring.findEntry (style.parsed function.docstring).parameters name
  let inClass := match owner with
    | some c =>
      if function.name == initializer then
        Docstring.findEntry (style.parsed c.docstring).parameters name
      else none
    | none => none
  ((own.or inClass).map Docstring.Entry.toParameter).getD {}

def describeAttribute (style : DocstringStyle) (owner : ClassHead) (name : String) :
    AttributeDescription :=
  ((Docstring.findEntry (style.parsed owner.docstring).attributes name).map
    Docstring.Entry.toAttribute).getD {}

/-- All results that a function's docstring declares, in order. -/
def describeResults (style : DocstringStyle) (function : FunctionHead) : List ResultDescription :=
  (style.parsed function.docstring).results.map Docstring.Entry.toResult

end DocstringStyle

/-! ## 4. Providers -/

/-- What is said about the declarations of a module.  The styles are providers; nothing else about a
provider is relied on.  A provider is given the heads of declarations and not the statements in
them, so that one that looked into the bodies is not among these. -/
structure DocstringProvider where
  describeClass : ClassHead → Description
  describeFunction : FunctionHead → Description
  describeParameter : FunctionHead → Option ClassHead → (name : String) → ParameterDescription
  describeAttribute : ClassHead → (name : String) → AttributeDescription
  describeResults : FunctionHead → List ResultDescription

def DocstringStyle.provider (style : DocstringStyle) : DocstringProvider where
  describeClass head := style.describe head.docstring
  describeFunction head := style.describe head.docstring
  describeParameter := style.describeParameter
  describeAttribute := style.describeAttribute
  describeResults := style.describeResults

instance : Coe DocstringStyle DocstringProvider := ⟨DocstringStyle.provider⟩

end ApiSurface
