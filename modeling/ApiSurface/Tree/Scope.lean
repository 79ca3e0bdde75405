import ApiSurface.Tree.Statement
/-!
# The statements of a scope

Conditions, loops, contexts and guarded blocks open no scope of their own.  `leaves` lists the
statements of a scope in source order with these blocks dissolved; it does not enter classes and
functions, which are leaves themselves.
-/

namespace ApiSurface.Statement

mutual
/-- The statements that a statement stands for in its scope. -/
def leaves : Statement → List Statement
  | .block _ b => blockLeaves b
  | .guarded body handlers orelse finalBody =>
    leavesIn body ++ handlerLeaves handlers ++ leavesIn orelse ++ leavesIn finalBody
  | s => [s]

def leavesIn : List Statement → List Statement
  | [] => []
  | s :: more => s.leaves ++ leavesIn more

def blockLeaves : Block → List Statement
  | .mk body orelse => leavesIn body ++ leavesIn orelse

def handlerLeaves : List Block → List Statement
  | [] => []
  | b :: more => blockLeaves b ++ handlerLeaves more
end

mutual
/-- The classes that a package offers by name: those at module scope, found through conditions and
contexts with both branches, and through guarded blocks with their handlers' bodies and their
`else`.  Loops and final bodies are not searched. -/
def offeredClasses : Statement → List ClassHead
  | .classDef head _ => [head]
  | .block .cond b => offeredInBlock b
  | .block .context b => offeredInBlock b
  | .guarded body handlers orelse _ =>
    offeredIn body ++ offeredInHandlers handlers ++ offeredIn orelse
  | _ => []

def offeredIn : List Statement → List ClassHead
  | [] => []
  | s :: more => s.offeredClasses ++ offeredIn more

def offeredInBlock : Block → List ClassHead
  | .mk body orelse => offeredIn body ++ offeredIn orelse

def offeredInHandlers : List Block → List ClassHead
  | [] => []
  | .mk body _ :: more => offeredIn body ++ offeredInHandlers more
end

end ApiSurface.Statement
