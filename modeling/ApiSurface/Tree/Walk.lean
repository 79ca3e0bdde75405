import ApiSurface.Tree.Statement
/-!
# Walks

A walk visits every node of a tree before its children and leaves it after them, in source order.
What happens at a node is up to a `Visitor`, a pair of functions on a state.  A visit answers
whether to descend, to skip the children, or to stop: a skipped node is left at once, and after a
stop nothing is called any more.
-/

namespace ApiSurface

/-- What a visit answers. -/
inductive Flow
  | descend
  | skip
  | stop
  deriving DecidableEq

/-- A place in a tree where a visitor is called. -/
inductive Node
  | file (f : SourceFile)
  | statement (s : Statement)
  | classDef (head : ClassHead) (body : List Statement)
  | funcDef (head : FunctionHead) (body : List Statement)
  | assignment (a : Assignment)
  | importNames (names : List ImportedName)
  | importFrom (i : ImportFrom)
  | importAll (i : ImportAll)
  | returned (value : Option Expression)
  | block (b : Block)
  | guarded (body : List Statement) (handlers : List Block) (orelse finalBody : List Statement)

structure Visitor (σ : Type) where
  visit : Node → σ → Flow × σ
  leave : Node → σ → σ

/-- The state after a walk: an error if the walk was stopped. -/
abbrev Walked (σ : Type) := Except σ σ

namespace Visitor

variable {σ : Type} (v : Visitor σ)

/-- Visits a node, walks its children if the visit says so, and leaves it. -/
def around (node : Node) (children : σ → Walked σ) (state : σ) : Walked σ :=
  match v.visit node state with
  | (.stop, s) => .error s
  | (.skip, s) => .ok (v.leave node s)
  | (.descend, s) =>
    match children s with
    | .error s => .error s
    | .ok s => .ok (v.leave node s)

/-- Visits and leaves a node without children. -/
def leaf (node : Node) (state : σ) : Walked σ := v.around node .ok state

/-- One walk after another, unless the first is stopped. -/
def andThen (first second : σ → Walked σ) (state : σ) : Walked σ :=
  match first state with
  | .error s => .error s
  | .ok s => second s

mutual
def walkStatement : Statement → σ → Walked σ
  | .classDef head body =>
    v.around (.statement (.classDef head body)) (v.around (.classDef head body) (walkBody body))
  | .funcDef head body =>
    v.around (.statement (.funcDef head body)) (v.around (.funcDef head body) (walkBody body))
  | .assignment a => v.around (.statement (.assignment a)) (v.leaf (.assignment a))
  | .importNames names =>
    v.around (.statement (.importNames names)) (v.leaf (.importNames names))
  | .importFrom i => v.around (.statement (.importFrom i)) (v.leaf (.importFrom i))
  | .importAll i => v.around (.statement (.importAll i)) (v.leaf (.importAll i))
  | .returned value => v.around (.statement (.returned value)) (v.leaf (.returned value))
  | .block kind b => v.around (.statement (.block kind b)) (walkBlock b)
  | .guarded body handlers orelse finalBody =>
    v.around (.statement (.guarded body handlers orelse finalBody))
      (v.around (.guarded body handlers orelse finalBody)
        (andThen (walkBody body) (andThen (walkBlocks handlers)
          (andThen (walkBody orelse) (walkBody finalBody)))))
  | .expression e => v.leaf (.statement (.expression e))
  | .pass => v.leaf (.statement .pass)
  | .other => v.leaf (.statement .other)

def walkBody : List Statement → σ → Walked σ
  | [] => .ok
  | s :: more => andThen (walkStatement s) (walkBody more)

def walkBlock : Block → σ → Walked σ
  | .mk body orelse =>
    v.around (.block (.mk body orelse)) (andThen (walkBody body) (walkBody orelse))

def walkBlocks : List Block → σ → Walked σ
  | [] => .ok
  | b :: more => andThen (walkBlock b) (walkBlocks more)
end

def walkFile (f : SourceFile) : σ → Walked σ := v.around (.file f) (v.walkBody f.body)

end Visitor

end ApiSurface
