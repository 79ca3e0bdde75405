import ApiSurface.Import.Index
/-!
# Visibility

A leading low line marks a name as internal, unless it is a dunder name.  What is inside a class is
public when the class is and its own name is not internal.  What is directly in a module is public
when neither its name nor the module is internal; but a package entry that offers it under a name
that is not internal makes it public in any case.
-/

namespace ApiSurface

def isDunder (name : String) : Bool :=
  4 < name.length && "__".toList.isPrefixOf name.toList && "__".toList.isSuffixOf name.toList

def isInternalName (name : String) : Bool :=
  !isDunder name && ['_'].isPrefixOf name.toList

/-- Whether a component of a module's name is internal. -/
def isInternalModule (fullname : String) : Bool := (Text.components fullname).any isInternalName

/-- Where a declaration stands. -/
inductive Container
  | module (fullname : String)
  | class (isPublic : Bool)

def Container.isModule : Container → Bool
  | .module _ => true
  | .class _ => false

namespace PackageIndex

/-- Whether a package entry offers a name publicly.  An import of just this name exposes it under
its alias or its own name, any other import under its own name. -/
def offersPublicly (ix : PackageIndex) (name qname : String) : Bool :=
  (ix.reexports.query qname).any fun e =>
    !isInternalName (if e.isExact qname then e.asName.getD name else name)

def isPublic (ix : PackageIndex) (name qname : String) : Container → Bool
  | .class isPublic => isPublic && !isInternalName name
  | .module fullname =>
    ix.offersPublicly name qname || (!isInternalName name && !isInternalModule fullname)

end PackageIndex

end ApiSurface
