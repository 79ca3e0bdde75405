import ApiSurface.Tree.Walk
import Mathlib.Data.List.Infix
import Mathlib.Data.List.Lex
/-!
# The calls of a walk

A walk calls a visitor at the nodes of a tree.  `Node.children` says what the nodes below a node
are, in source order, so a node of a file is told by a position: the way down to it, as the number
of a child at each level.  Positions are ordered as they come in the source, a node before what is
below it (`Before`).

The theorem is about the list of all calls of a walk, for a visitor that answers as it pleases.
Every leave closes the visit that was opened last, of the same node at the same position; a skipped
node is left at once; a walk that is not stopped visits just the nodes that are not below a skipped
one, each once and in source order; and a stop is the last call, with the visits of the stopping
node and of the nodes above it left open.

`Trace` carries the proof: it says which calls a walk over some neighbouring nodes can make.  The
walks of the model make such calls (`follows_walkStatement`), and each of the properties is an
induction over traces.
-/

namespace ApiSurface

/-! ## 1. Nodes and positions -/

namespace Node

/-- The nodes directly below a node, in source order. -/
def children : Node → List Node
  | .file f => f.body.map .statement
  | .statement (.classDef head body) => [.classDef head body]
  | .statement (.funcDef head body) => [.funcDef head body]
  | .statement (.assignment a) => [.assignment a]
  | .statement (.importNames names) => [.importNames names]
  | .statement (.importFrom i) => [.importFrom i]
  | .statement (.importAll i) => [.importAll i]
  | .statement (.returned value) => [.returned value]
  | .statement (.block _ b) => [.block b]
  | .statement (.guarded body handlers orelse finalBody) =>
    [.guarded body handlers orelse finalBody]
  | .statement (.expression _) => []
  | .statement .pass => []
  | .statement .other => []
  | .classDef _ body => body.map .statement
  | .funcDef _ body => body.map .statement
  | .block (.mk body orelse) => body.map .statement ++ orelse.map .statement
  | .guarded body handlers orelse finalBody =>
    body.map .statement ++ (handlers.map .block
      ++ (orelse.map .statement ++ finalBody.map .statement))
  | .assignment _ => []
  | .importNames _ => []
  | .importFrom _ => []
  | .importAll _ => []
  | .returned _ => []

/-- The node at a position below a node. -/
def at? : Node → List Nat → Option Node
  | n, [] => some n
  | n, i :: p => n.children[i]?.bind fun c => c.at? p

theorem at?_append (n : Node) (p q : List Nat) : n.at? (p ++ q) = (n.at? p).bind (·.at? q) := by
  induction p generalizing n with
  | nil => rfl
  | cons i p ih =>
    simp only [List.cons_append, at?]
    cases n.children[i]? with
    | none => rfl
    | some c => exact ih c

end Node

/-- Source order of positions: what is above comes first, then what is further left. -/
def Before : List Nat → List Nat → Prop := List.Lex (· < ·)

namespace Before

theorem irrefl (p : List Nat) : ¬ Before p p := by
  intro h
  induction p with
  | nil => cases h
  | cons i p ih =>
    cases h with
    | cons h => exact ih h
    | rel h => exact Nat.lt_irrefl i h

theorem below (p : List Nat) (i : Nat) (q : List Nat) : Before p (p ++ i :: q) := by
  have hnil : List.Lex (· < ·) [] (i :: q) := .nil
  have hlong := List.Lex.append_left _ hnil p
  rwa [List.append_nil] at hlong

theorem beside (p : List Nat) {i j : Nat} (h : i < j) (q r : List Nat) :
    Before (p ++ i :: q) (p ++ j :: r) :=
  List.Lex.append_left _ (.rel h) p

end Before

/-- A node of a tree and its position there. -/
structure Site where
  position : List Nat
  node : Node

/-- Nodes side by side below a position, numbered from `i` on. -/
def sitesFrom (base : List Nat) : (i : Nat) → List Node → List Site
  | _, [] => []
  | i, n :: more => ⟨base ++ [i], n⟩ :: sitesFrom base (i + 1) more

theorem sitesFrom_append (base : List Nat) (i : Nat) (ns ms : List Node) :
    sitesFrom base i (ns ++ ms) = sitesFrom base i ns ++ sitesFrom base (i + ns.length) ms := by
  induction ns generalizing i with
  | nil => rfl
  | cons n ns ih =>
    rw [List.cons_append, sitesFrom, ih, sitesFrom, List.cons_append, List.length_cons,
      Nat.add_right_comm, Nat.add_assoc]

theorem mem_sitesFrom {base : List Nat} {i : Nat} {ns : List Node} {s : Site} :
    s ∈ sitesFrom base i ns ↔ ∃ j, s.position = base ++ [i + j] ∧ ns[j]? = some s.node := by
  induction ns generalizing i with
  | nil => simp [sitesFrom]
  | cons n ns ih =>
    rw [sitesFrom, List.mem_cons, ih]
    constructor
    · rintro (rfl | ⟨j, hposition, hnode⟩)
      · exact ⟨0, rfl, rfl⟩
      · exact ⟨j + 1, by rw [hposition, Nat.add_right_comm, Nat.add_assoc], hnode⟩
    · rintro ⟨_ | j, hposition, hnode⟩
      · obtain ⟨position, node⟩ := s
        cases hposition
        cases hnode
        exact .inl rfl
      · exact .inr ⟨j, by rw [hposition, Nat.add_right_comm, Nat.add_assoc], hnode⟩

/-- The sites directly below a site. -/
def Site.below (s : Site) : List Site := sitesFrom s.position 0 s.node.children

theorem Site.mem_below {s c : Site} :
    c ∈ s.below ↔ ∃ i, c.position = s.position ++ [i] ∧ s.node.children[i]? = some c.node := by
  simp only [Site.below, mem_sitesFrom, Nat.zero_add]

/-- What is at or below a child of a site stands strictly below the site. -/
theorem Site.exists_child_of_below {s : Site} {p : List Nat}
    (h : ∃ c ∈ s.below, c.position <+: p) : ∃ i r, p = s.position ++ i :: r := by
  obtain ⟨c, hc, r, rfl⟩ := h
  obtain ⟨i, hi, -⟩ := Site.mem_below.1 hc
  exact ⟨i, r, by rw [hi, List.append_assoc]; rfl⟩

theorem Site.prefix_of_below {s : Site} {p : List Nat} (h : ∃ c ∈ s.below, c.position <+: p) :
    s.position <+: p := by
  obtain ⟨i, r, rfl⟩ := Site.exists_child_of_below h
  exact List.prefix_append _ _

/-! ## 2. Calls -/

/-- A call of a visitor, with its answer if it is a visit. -/
inductive Call
  | visit (node : Node) (answer : Flow)
  | leave (node : Node)

/-- A call together with the position of the node. -/
inductive Hook
  | visit (site : Site) (answer : Flow)
  | leave (site : Site)

namespace Hook

def site : Hook → Site
  | .visit s _ => s
  | .leave s => s

def call : Hook → Call
  | .visit s answer => .visit s.node answer
  | .leave s => .leave s.node

/-- The position that a visit opens. -/
def opened? : Hook → Option (List Nat)
  | .visit s _ => some s.position
  | .leave _ => none

end Hook

namespace Visitor

variable {σ : Type} (v : Visitor σ)

/-- A visitor that does the same and keeps a list of all its calls. -/
def logged : Visitor (σ × List Call) where
  visit n s := ((v.visit n s.1).1, (v.visit n s.1).2, s.2 ++ [.visit n (v.visit n s.1).1])
  leave n s := (v.leave n s.1, s.2 ++ [.leave n])

/-- All calls of the walk over a file, in order. -/
def calls (f : SourceFile) (s : σ) : List Call :=
  match v.logged.walkFile f (s, []) with
  | .ok t => t.2
  | .error t => t.2

end Visitor

/-! ## 3. What is claimed of them -/

/-- `Nesting started hooks left`: with the visits `started` open, innermost first, every leave among
the hooks closes the visit opened last, and the visits `left` are open at the end. -/
inductive Nesting : List Site → List Hook → List Site → Prop
  | nil {started : List Site} : Nesting started [] started
  | visit {started left : List Site} {hooks : List Hook} {s : Site} {answer : Flow}
      (h : Nesting (s :: started) hooks left) : Nesting started (.visit s answer :: hooks) left
  | leave {started left : List Site} {hooks : List Hook} {s : Site}
      (h : Nesting started hooks left) : Nesting (s :: started) (.leave s :: hooks) left

/-- Whether a skipped node is left in the next call. -/
def LeavesSkipped (hooks : List Hook) : Prop :=
  ∀ before s after, hooks = before ++ .visit s .skip :: after → ∃ more, after = .leave s :: more

/-- Whether no visit answers to stop. -/
def Unstopped (hooks : List Hook) : Prop := ∀ s, .visit s .stop ∉ hooks

/-- The positions of the visits, in order. -/
def visited (hooks : List Hook) : List (List Nat) := hooks.filterMap Hook.opened?

/-- That the visit at a position answers to skip what is below it. -/
def Skips (hooks : List Hook) (p : List Nat) : Prop := ∃ n, .visit ⟨p, n⟩ .skip ∈ hooks

/-- Whether the nodes that are not below a skipped one are visited, and only these, each once and in
source order. -/
structure Covers (root : Node) (hooks : List Hook) : Prop where
  ordered : (visited hooks).Pairwise Before
  once : (visited hooks).Nodup
  mem_iff : ∀ p, p ∈ visited hooks
    ↔ (root.at? p).isSome ∧ ∀ q, q <+: p → q ≠ p → ¬ Skips hooks q

namespace Nesting

theorem append {started between left : List Site} {hooks hooks' : List Hook}
    (h : Nesting started hooks between) (h' : Nesting between hooks' left) :
    Nesting started (hooks ++ hooks') left := by
  induction h with
  | nil => exact h'
  | visit _ ih => exact .visit (ih h')
  | leave _ ih => exact .leave (ih h')

end Nesting

namespace LeavesSkipped

theorem append {hooks hooks' : List Hook} (h : LeavesSkipped hooks) (h' : LeavesSkipped hooks') :
    LeavesSkipped (hooks ++ hooks') := by
  intro before s after heq
  rcases List.append_eq_append_iff.1 heq with ⟨l, -, hl⟩ | ⟨l, hl, heq⟩
  · exact h' l s after hl
  · cases l with
    | nil => exact h' [] s after heq.symm
    | cons x l =>
      obtain ⟨rfl, rfl⟩ := List.cons.inj heq
      obtain ⟨more, rfl⟩ := h before s l hl
      exact ⟨more ++ hooks', rfl⟩

theorem nil : LeavesSkipped [] := by
  intro before s after heq
  simp at heq

theorem singleton {hook : Hook} (h : ∀ s, hook ≠ .visit s .skip) : LeavesSkipped [hook] := by
  intro before s after heq
  have hmem : .visit s .skip ∈ [hook] := by
    rw [heq]
    simp
  exact absurd (List.mem_singleton.1 hmem).symm (h s)

theorem pair (s : Site) : LeavesSkipped [.visit s .skip, .leave s] := by
  intro before t after heq
  rcases before with _ | ⟨x, _ | ⟨y, before⟩⟩
  · cases heq
    exact ⟨[], rfl⟩
  · cases heq
  · simp at heq

end LeavesSkipped

theorem Unstopped.append {hooks hooks' : List Hook} (h : Unstopped hooks) (h' : Unstopped hooks') :
    Unstopped (hooks ++ hooks') :=
  fun s hs => (List.mem_append.1 hs).elim (h s) (h' s)

/-! ## 4. Traces -/

/-- `Trace sites hooks stopped`: the calls of a walk over sites side by side, and the site at which
it was stopped, if it was. -/
inductive Trace : List Site → List Hook → Option Site → Prop
  | done : Trace [] [] none
  | stop {s : Site} {rest : List Site} : Trace (s :: rest) [.visit s .stop] (some s)
  | skip {s : Site} {rest : List Site} {hooks : List Hook} {stopped : Option Site}
      (h : Trace rest hooks stopped) :
      Trace (s :: rest) (.visit s .skip :: .leave s :: hooks) stopped
  | inside {s q : Site} {rest : List Site} {hooks : List Hook} (h : Trace s.below hooks (some q)) :
      Trace (s :: rest) (.visit s .descend :: hooks) (some q)
  | through {s : Site} {rest : List Site} {hooks hooks' : List Hook} {stopped : Option Site}
      (h : Trace s.below hooks none) (h' : Trace rest hooks' stopped) :
      Trace (s :: rest) (.visit s .descend :: (hooks ++ .leave s :: hooks')) stopped

namespace Trace

theorem append {sites sites' : List Site} {hooks hooks' : List Hook} {stopped : Option Site}
    (h : Trace sites hooks none) (h' : Trace sites' hooks' stopped) :
    Trace (sites ++ sites') (hooks ++ hooks') stopped := by
  generalize hnone : none = o at h
  induction h with
  | done => exact h'
  | stop => cases hnone
  | skip _ ih => exact .skip (ih hnone)
  | inside => cases hnone
  | through hin _ _ ih =>
    rw [List.cons_append, List.cons_append, List.append_assoc, List.cons_append]
    exact .through hin (ih hnone)

theorem append_of_stopped {sites sites' : List Site} {hooks : List Hook} {q : Site}
    (h : Trace sites hooks (some q)) : Trace (sites ++ sites') hooks (some q) := by
  generalize hsome : some q = o at h
  induction h with
  | done => cases hsome
  | stop => exact .stop
  | skip _ ih => exact .skip (ih hsome)
  | inside hin => exact .inside hin
  | through hin _ _ ih => exact .through hin (ih hsome)

/-! ## 5. The walks of the model -/

section Walks

variable {σ : Type} {v : Visitor σ}

/-- That a walk of the logged visitor calls at the sites as a trace says, and ends as the walk
without log does. -/
def Follows (logged : σ × List Call → Walked (σ × List Call)) (plain : σ → Walked σ)
    (sites : List Site) : Prop :=
  ∀ s log, ∃ t hooks,
    (plain s = .ok t ∧ logged (s, log) = .ok (t, log ++ hooks.map Hook.call)
      ∧ Trace sites hooks none)
    ∨ ∃ q, plain s = .error t ∧ logged (s, log) = .error (t, log ++ hooks.map Hook.call)
      ∧ Trace sites hooks (some q)

theorem follows_ok : Follows (σ := σ) .ok .ok [] :=
  fun s _ => ⟨s, [], .inl ⟨rfl, by simp, .done⟩⟩

theorem follows_andThen {first second : σ × List Call → Walked (σ × List Call)}
    {first' second' : σ → Walked σ} {sites sites' : List Site}
    (h : Follows first first' sites) (h' : Follows second second' sites') :
    Follows (Visitor.andThen first second) (Visitor.andThen first' second') (sites ++ sites') := by
  intro s log
  obtain ⟨t, hooks, ⟨hplain, hlogged, htrace⟩ | ⟨q, hplain, hlogged, htrace⟩⟩ := h s log
  · simp only [Visitor.andThen, hplain, hlogged]
    obtain ⟨u, hooks', hend⟩ := h' t (log ++ hooks.map Hook.call)
    refine ⟨u, hooks ++ hooks', ?_⟩
    rw [List.map_append, ← List.append_assoc]
    exact hend.imp (fun ⟨hplain', hlogged', htrace'⟩ => ⟨hplain', hlogged', htrace.append htrace'⟩)
      fun ⟨q, hplain', hlogged', htrace'⟩ => ⟨q, hplain', hlogged', htrace.append htrace'⟩
  · refine ⟨t, hooks, .inr ⟨q, ?_, ?_, htrace.append_of_stopped⟩⟩
    · simp only [Visitor.andThen, hplain]
    · simp only [Visitor.andThen, hlogged]

/-- Around a node the calls are those below it between its visit and its leave. -/
theorem follows_around {p : List Nat} {n : Node}
    {children : σ × List Call → Walked (σ × List Call)} {children' : σ → Walked σ}
    (h : Follows children children' (sitesFrom p 0 n.children)) :
    Follows (v.logged.around n children) (v.around n children') [⟨p, n⟩] := by
  intro state log
  rcases hvisit : v.visit n state with ⟨answer, t⟩
  have hlog : v.logged.visit n (state, log) = (answer, t, log ++ [.visit n answer]) := by
    simp only [Visitor.logged, hvisit]
  cases answer with
  | stop =>
    refine ⟨t, [.visit ⟨p, n⟩ .stop], .inr ⟨⟨p, n⟩, ?_, ?_, .stop⟩⟩
    · simp only [Visitor.around, hvisit]
    · simp only [Visitor.around, hlog]
      rfl
  | skip =>
    refine ⟨v.leave n t, [.visit ⟨p, n⟩ .skip, .leave ⟨p, n⟩], .inl ⟨?_, ?_, .skip .done⟩⟩
    · simp only [Visitor.around, hvisit]
    · simp only [Visitor.around, hlog]
      simp [Visitor.logged, Hook.call]
  | descend =>
    obtain ⟨u, hooks, ⟨hplain, hlogged, htrace⟩ | ⟨q, hplain, hlogged, htrace⟩⟩ :=
      h t (log ++ [.visit n .descend])
    · refine ⟨v.leave n u, .visit ⟨p, n⟩ .descend :: (hooks ++ [.leave ⟨p, n⟩]),
        .inl ⟨?_, ?_, .through (s := ⟨p, n⟩) htrace .done⟩⟩
      · simp only [Visitor.around, hvisit, hplain]
      · simp only [Visitor.around, hlog, hlogged]
        simp [Visitor.logged, Hook.call]
    · refine ⟨u, .visit ⟨p, n⟩ .descend :: hooks, .inr ⟨q, ?_, ?_, .inside htrace⟩⟩
      · simp only [Visitor.around, hvisit, hplain]
      · simp only [Visitor.around, hlog, hlogged]
        simp [Hook.call]

/-- A node with one child only. -/
theorem follows_around_single {p : List Nat} {n c : Node} (hc : n.children = [c])
    {children : σ × List Call → Walked (σ × List Call)} {children' : σ → Walked σ}
    (h : Follows children children' [⟨p ++ [0], c⟩]) :
    Follows (v.logged.around n children) (v.around n children') [⟨p, n⟩] := by
  refine follows_around ?_
  rw [hc]
  exact h

theorem follows_leaf {p : List Nat} {n : Node} (hc : n.children = []) :
    Follows (v.logged.leaf n) (v.leaf n) [⟨p, n⟩] := by
  refine follows_around ?_
  rw [hc]
  exact follows_ok

mutual
theorem follows_walkStatement (v : Visitor σ) : (st : Statement) → (p : List Nat) →
    Follows (v.logged.walkStatement st) (v.walkStatement st) [⟨p, .statement st⟩]
  | .classDef head body, p => by
    rw [Visitor.walkStatement, Visitor.walkStatement]
    refine follows_around_single rfl (follows_around ?_)
    exact follows_walkBody v body _ 0
  | .funcDef head body, p => by
    rw [Visitor.walkStatement, Visitor.walkStatement]
    refine follows_around_single rfl (follows_around ?_)
    exact follows_walkBody v body _ 0
  | .assignment a, p => by
    rw [Visitor.walkStatement, Visitor.walkStatement]
    exact follows_around_single rfl (follows_leaf rfl)
  | .importNames names, p => by
    rw [Visitor.walkStatement, Visitor.walkStatement]
    exact follows_around_single rfl (follows_leaf rfl)
  | .importFrom i, p => by
    rw [Visitor.walkStatement, Visitor.walkStatement]
    exact follows_around_single rfl (follows_leaf rfl)
  | .importAll i, p => by
    rw [Visitor.walkStatement, Visitor.walkStatement]
    exact follows_around_single rfl (follows_leaf rfl)
  | .returned value, p => by
    rw [Visitor.walkStatement, Visitor.walkStatement]
    exact follows_around_single rfl (follows_leaf rfl)
  | .block kind b, p => by
    rw [Visitor.walkStatement, Visitor.walkStatement]
    exact follows_around_single rfl (follows_walkBlock v b _)
  | .guarded body handlers orelse finalBody, p => by
    rw [Visitor.walkStatement, Visitor.walkStatement]
    refine follows_around_single rfl (follows_around ?_)
    simp only [Node.children, sitesFrom_append]
    exact follows_andThen (follows_walkBody v body _ _)
      (follows_andThen (follows_walkBlocks v handlers _ _)
        (follows_andThen (follows_walkBody v orelse _ _) (follows_walkBody v finalBody _ _)))
  | .expression e, p => by
    rw [Visitor.walkStatement, Visitor.walkStatement]
    exact follows_leaf rfl
  | .pass, p => by
    rw [Visitor.walkStatement, Visitor.walkStatement]
    exact follows_leaf rfl
  | .other, p => by
    rw [Visitor.walkStatement, Visitor.walkStatement]
    exact follows_leaf rfl

theorem follows_walkBody (v : Visitor σ) : (body : List Statement) → (p : List Nat) → (i : Nat) →
    Follows (v.logged.walkBody body) (v.walkBody body) (sitesFrom p i (body.map .statement))
  | [], _, _ => follows_ok
  | st :: more, p, i => by
    rw [Visitor.walkBody, Visitor.walkBody]
    exact follows_andThen (follows_walkStatement v st _) (follows_walkBody v more p (i + 1))

theorem follows_walkBlock (v : Visitor σ) : (b : Block) → (p : List Nat) →
    Follows (v.logged.walkBlock b) (v.walkBlock b) [⟨p, .block b⟩]
  | .mk body orelse, p => by
    rw [Visitor.walkBlock, Visitor.walkBlock]
    refine follows_around ?_
    simp only [Node.children, sitesFrom_append]
    exact follows_andThen (follows_walkBody v body _ _) (follows_walkBody v orelse _ _)

theorem follows_walkBlocks (v : Visitor σ) : (bs : List Block) → (p : List Nat) → (i : Nat) →
    Follows (v.logged.walkBlocks bs) (v.walkBlocks bs) (sitesFrom p i (bs.map .block))
  | [], _, _ => follows_ok
  | b :: more, p, i => by
    rw [Visitor.walkBlocks, Visitor.walkBlocks]
    exact follows_andThen (follows_walkBlock v b _) (follows_walkBlocks v more p (i + 1))
end

theorem follows_walkFile (v : Visitor σ) (f : SourceFile) :
    Follows (v.logged.walkFile f) (v.walkFile f) [⟨[], .file f⟩] :=
  follows_around (follows_walkBody v f.body [] 0)

end Walks

/-! ## 6. Nesting, skips and stops -/

section Properties

variable {sites : List Site} {hooks : List Hook} {stopped : Option Site}

theorem leavesSkipped (h : Trace sites hooks stopped) : LeavesSkipped hooks := by
  induction h with
  | done => exact .nil
  | stop => exact .singleton (by simp)
  | @skip s _ _ _ _ ih => exact (LeavesSkipped.pair s).append ih
  | inside _ ih => exact (LeavesSkipped.singleton (by simp)).append ih
  | @through s _ _ _ _ _ _ ih ih' =>
    have hleave : LeavesSkipped [.leave s] := .singleton (by simp)
    exact (LeavesSkipped.singleton (by simp)).append (ih.append (hleave.append ih'))

theorem nesting (h : Trace sites hooks none) (started : List Site) :
    Nesting started hooks started := by
  generalize hnone : none = o at h
  induction h generalizing started with
  | done => exact .nil
  | stop => cases hnone
  | skip _ ih => exact .visit (.leave (ih started hnone))
  | inside => cases hnone
  | through _ _ ih ih' => exact .visit ((ih _ rfl).append (.leave (ih' started hnone)))

theorem unstopped (h : Trace sites hooks none) : Unstopped hooks := by
  generalize hnone : none = o at h
  intro s hs
  induction h with
  | done => cases hs
  | stop => cases hnone
  | skip _ ih =>
    simp only [List.mem_cons, reduceCtorEq, Hook.visit.injEq, and_false, false_or] at hs
    exact ih hnone hs
  | inside => cases hnone
  | through _ _ ih ih' =>
    simp only [List.mem_cons, List.mem_append, reduceCtorEq, Hook.visit.injEq, and_false,
      false_or] at hs
    exact hs.elim (ih rfl) (ih' hnone)

/-- A stop is the last call, and the only stop. -/
theorem exists_stop {q : Site} (h : Trace sites hooks (some q)) :
    ∃ before, hooks = before ++ [.visit q .stop] ∧ Unstopped before := by
  generalize hsome : some q = o at h
  induction h with
  | done => cases hsome
  | stop =>
    cases hsome
    exact ⟨[], rfl, fun _ hs => by cases hs⟩
  | @skip s _ _ _ _ ih =>
    obtain ⟨before, rfl, hbefore⟩ := ih hsome
    have hskip : Unstopped [.visit s .skip, .leave s] := fun t ht => by simp at ht
    exact ⟨.visit s .skip :: .leave s :: before, rfl, hskip.append hbefore⟩
  | @inside s _ _ _ _ ih =>
    obtain ⟨before, rfl, hbefore⟩ := ih hsome
    have hvisit : Unstopped [.visit s .descend] := fun t ht => by simp at ht
    exact ⟨.visit s .descend :: before, rfl, hvisit.append hbefore⟩
  | @through s _ hooks _ _ hin _ _ ih =>
    obtain ⟨before, rfl, hbefore⟩ := ih hsome
    have hvisit : Unstopped [.visit s .descend] := fun t ht => by simp at ht
    have hleave : Unstopped [.leave s] := fun t ht => by simp at ht
    refine ⟨.visit s .descend :: (hooks ++ .leave s :: before), by simp, ?_⟩
    exact hvisit.append (hin.unstopped.append (hleave.append hbefore))

/-! ## 7. Positions -/

/-- Every call of a walk is at one of its sites or below. -/
theorem exists_site (h : Trace sites hooks stopped) :
    ∀ hook ∈ hooks, ∃ s ∈ sites, s.position <+: hook.site.position := by
  induction h with
  | done => simp
  | stop => simp [Hook.site]
  | skip _ ih =>
    rw [List.forall_mem_cons, List.forall_mem_cons]
    refine ⟨⟨_, List.mem_cons_self, List.prefix_rfl⟩, ⟨_, List.mem_cons_self, List.prefix_rfl⟩, ?_⟩
    intro hook hhook
    obtain ⟨s, hs, hextends⟩ := ih hook hhook
    exact ⟨s, List.mem_cons_of_mem _ hs, hextends⟩
  | inside _ ih =>
    rw [List.forall_mem_cons]
    refine ⟨⟨_, List.mem_cons_self, List.prefix_rfl⟩, fun hook hhook => ?_⟩
    exact ⟨_, List.mem_cons_self, Site.prefix_of_below (ih hook hhook)⟩
  | through _ _ ih ih' =>
    rw [List.forall_mem_cons, List.forall_mem_append, List.forall_mem_cons]
    refine ⟨⟨_, List.mem_cons_self, List.prefix_rfl⟩, fun hook hhook => ?_,
      ⟨_, List.mem_cons_self, List.prefix_rfl⟩, fun hook hhook => ?_⟩
    · exact ⟨_, List.mem_cons_self, Site.prefix_of_below (ih hook hhook)⟩
    · obtain ⟨s, hs, hextends⟩ := ih' hook hhook
      exact ⟨s, List.mem_cons_of_mem _ hs, hextends⟩

/-- The calls are at the nodes that stand at their positions. -/
theorem located (h : Trace sites hooks stopped) {root : Node}
    (hsites : ∀ s ∈ sites, root.at? s.position = some s.node) :
    ∀ hook ∈ hooks, root.at? hook.site.position = some hook.site.node := by
  have hbelow : ∀ {s : Site}, root.at? s.position = some s.node →
      ∀ c ∈ s.below, root.at? c.position = some c.node := by
    intro s hs c hc
    obtain ⟨i, hi, hnode⟩ := Site.mem_below.1 hc
    rw [hi, Node.at?_append, hs]
    simp only [Option.bind_some, Node.at?, hnode]
  induction h with
  | done => simp
  | stop =>
    rw [List.forall_mem_cons] at hsites
    simpa [Hook.site] using hsites.1
  | skip _ ih =>
    rw [List.forall_mem_cons] at hsites
    rw [List.forall_mem_cons, List.forall_mem_cons]
    exact ⟨hsites.1, hsites.1, ih hsites.2⟩
  | inside _ ih =>
    rw [List.forall_mem_cons] at hsites
    rw [List.forall_mem_cons]
    exact ⟨hsites.1, ih (hbelow hsites.1)⟩
  | through _ _ ih ih' =>
    rw [List.forall_mem_cons] at hsites
    rw [List.forall_mem_cons, List.forall_mem_append, List.forall_mem_cons]
    exact ⟨hsites.1, ih (hbelow hsites.1), hsites.1, ih' hsites.2⟩

/-- Of the prefixes of a list that are at least as long as a given one, this one is the first. -/
theorem drop_inits_eq_cons {p q : List Nat} (h : p <+: q) :
    q.inits.drop p.length = p :: q.inits.drop (p.length + 1) := by
  have hlength := h.length_le
  have hbound : p.length < q.inits.length := by
    rw [List.length_inits]
    omega
  rw [List.drop_eq_getElem_cons hbound, List.getElem_inits, ← List.prefix_iff_eq_take.1 h]

/-- A stop leaves open the visits of the stopping node and of those above it, down from the depth of
the sites that are walked. -/
theorem nesting_of_stopped {q : Site} (h : Trace sites hooks (some q)) (depth : Nat)
    (hdepth : ∀ s ∈ sites, s.position.length = depth) (started : List Site) :
    ∃ left, Nesting started hooks (left ++ started)
      ∧ left.map Site.position = (q.position.inits.drop depth).reverse := by
  generalize hsome : some q = o at h
  induction h generalizing depth started with
  | done => cases hsome
  | @stop s _ =>
    obtain rfl := Option.some.inj hsome
    have hlast : q.position.inits.drop depth = [q.position] := by
      rw [← hdepth q List.mem_cons_self, drop_inits_eq_cons List.prefix_rfl,
        List.drop_eq_nil_of_le (by rw [List.length_inits])]
    exact ⟨[q], .visit .nil, by rw [hlast]; rfl⟩
  | skip _ ih =>
    rw [List.forall_mem_cons] at hdepth
    obtain ⟨left, hnesting, hleft⟩ := ih depth hdepth.2 started hsome
    exact ⟨left, .visit (.leave hnesting), hleft⟩
  | @inside s q' _ _ hin ih =>
    obtain rfl := Option.some.inj hsome
    rw [List.forall_mem_cons] at hdepth
    have hbelow : ∀ c ∈ s.below, c.position.length = depth + 1 := by
      intro c hc
      obtain ⟨i, hi, -⟩ := Site.mem_below.1 hc
      rw [hi, List.length_append, hdepth.1, List.length_singleton]
    obtain ⟨left, hnesting, hleft⟩ := ih (depth + 1) hbelow (s :: started) rfl
    refine ⟨left ++ [s], .visit (by rwa [List.append_assoc]), ?_⟩
    -- the site itself is the one more open visit, at the prefix of its length
    obtain ⟨before, hstop, -⟩ := hin.exists_stop
    have hmem : .visit q .stop ∈ before ++ [.visit q .stop] := by simp
    have hprefix : s.position <+: q.position :=
      Site.prefix_of_below (hin.exists_site (.visit q .stop) (hstop ▸ hmem))
    have hdrop := drop_inits_eq_cons hprefix
    rw [hdepth.1] at hdrop
    rw [List.map_append, hleft, hdrop, List.reverse_cons]
    rfl
  | through hin _ _ ih =>
    rw [List.forall_mem_cons] at hdepth
    obtain ⟨left, hnesting, hleft⟩ := ih depth hdepth.2 started hsome
    exact ⟨left, .visit ((hin.nesting _).append (.leave hnesting)), hleft⟩

/-! ## 8. What is visited -/

/-- That all of what is below one site comes before all of what is below another. -/
def Precedes (s t : Site) : Prop :=
  ∀ p q, s.position <+: p → t.position <+: q → Before p q

theorem precedes_sitesFrom (base : List Nat) (i : Nat) (ns : List Node) :
    (sitesFrom base i ns).Pairwise Precedes := by
  induction ns generalizing i with
  | nil => exact .nil
  | cons n ns ih =>
    refine List.pairwise_cons.2 ⟨fun t ht p q hp hq => ?_, ih (i + 1)⟩
    obtain ⟨j, hj, -⟩ := mem_sitesFrom.1 ht
    obtain ⟨r, rfl⟩ := hp
    obtain ⟨r', rfl⟩ := hq
    rw [hj, List.append_assoc, List.append_assoc]
    exact Before.beside base (by omega) r r'

theorem precedes_below (s : Site) : s.below.Pairwise Precedes := precedes_sitesFrom _ _ _

theorem not_prefix_of_precedes {s t : Site} (h : Precedes s t) {p : List Nat}
    (hs : s.position <+: p) : ¬ t.position <+: p :=
  fun ht => Before.irrefl p (h p p hs ht)

theorem mem_visited {p : List Nat} :
    p ∈ visited hooks ↔ ∃ s answer, .visit s answer ∈ hooks ∧ s.position = p := by
  rw [visited, List.mem_filterMap]
  constructor
  · rintro ⟨_ | _, hmem, hp⟩
    · exact ⟨_, _, hmem, Option.some.inj hp⟩
    · cases hp
  · rintro ⟨s, answer, hmem, rfl⟩
    exact ⟨_, hmem, rfl⟩

theorem visited_through (s : Site) (hooks hooks' : List Hook) :
    visited (.visit s .descend :: (hooks ++ .leave s :: hooks'))
      = s.position :: (visited hooks ++ visited hooks') := by
  simp only [visited, List.filterMap_cons, List.filterMap_append, Hook.opened?]

theorem skips_through {s : Site} {hooks hooks' : List Hook} {p : List Nat} :
    Skips (.visit s .descend :: (hooks ++ .leave s :: hooks')) p
      ↔ Skips hooks p ∨ Skips hooks' p := by
  simp only [Skips, List.mem_cons, List.mem_append, reduceCtorEq, Hook.visit.injEq, and_false,
    false_or, exists_or]

theorem skips_skip {s : Site} {hooks : List Hook} {p : List Nat} :
    Skips (.visit s .skip :: .leave s :: hooks) p ↔ p = s.position ∨ Skips hooks p := by
  simp only [Skips, List.mem_cons, reduceCtorEq, false_or, exists_or]
  refine or_congr_left ⟨?_, ?_⟩
  · rintro ⟨n, hn⟩
    cases hn
    rfl
  · rintro rfl
    exact ⟨s.node, rfl⟩

theorem exists_site_of_visited (h : Trace sites hooks stopped) {p : List Nat}
    (hp : p ∈ visited hooks) : ∃ s ∈ sites, s.position <+: p := by
  obtain ⟨s, answer, hmem, rfl⟩ := mem_visited.1 hp
  exact h.exists_site _ hmem

theorem exists_site_of_skips (h : Trace sites hooks stopped) {p : List Nat} (hp : Skips hooks p) :
    ∃ s ∈ sites, s.position <+: p := by
  obtain ⟨n, hmem⟩ := hp
  exact h.exists_site _ hmem

theorem visited_ordered (h : Trace sites hooks stopped) (hsites : sites.Pairwise Precedes) :
    (visited hooks).Pairwise Before := by
  induction h with
  | done => exact .nil
  | stop => exact List.pairwise_singleton _ _
  | @skip s rest hooks _ hrest ih =>
    rw [List.pairwise_cons] at hsites
    refine List.pairwise_cons.2 ⟨fun p hp => ?_, ih hsites.2⟩
    obtain ⟨t, ht, htp⟩ := hrest.exists_site_of_visited hp
    exact hsites.1 t ht _ _ List.prefix_rfl htp
  | @inside s _ _ _ hin ih =>
    refine List.pairwise_cons.2 ⟨fun p hp => ?_, ih (precedes_below s)⟩
    obtain ⟨i, r, rfl⟩ := Site.exists_child_of_below (hin.exists_site_of_visited hp)
    exact Before.below s.position i r
  | @through s rest hooks hooks' _ hin hrest ih ih' =>
    rw [List.pairwise_cons] at hsites
    rw [visited_through, List.pairwise_cons, List.pairwise_append]
    refine ⟨fun p hp => ?_, ih (precedes_below s), ih' hsites.2, fun p hp q hq => ?_⟩
    · rcases List.mem_append.1 hp with hp | hp
      · obtain ⟨i, r, rfl⟩ := Site.exists_child_of_below (hin.exists_site_of_visited hp)
        exact Before.below s.position i r
      · obtain ⟨t, ht, htp⟩ := hrest.exists_site_of_visited hp
        exact hsites.1 t ht _ _ List.prefix_rfl htp
    · obtain ⟨i, r, rfl⟩ := Site.exists_child_of_below (hin.exists_site_of_visited hp)
      obtain ⟨t, ht, htq⟩ := hrest.exists_site_of_visited hq
      exact hsites.1 t ht _ _ (List.prefix_append _ _) htq

/-- That a position lies at or below a site and not below a skipped node there. -/
def Reached (hooks : List Hook) (s : Site) (p : List Nat) : Prop :=
  ∃ r, p = s.position ++ r ∧ (s.node.at? r).isSome
    ∧ ∀ q, q <+: r → q ≠ r → ¬ Skips hooks (s.position ++ q)

theorem Reached.self (hooks : List Hook) (s : Site) : Reached hooks s s.position := by
  refine ⟨[], (List.append_nil _).symm, rfl, fun q hq hne => ?_⟩
  exact absurd (List.prefix_nil.1 hq) hne

/-- Only skips below a site matter for what is reached from it. -/
theorem Reached.congr {hooks hooks' : List Hook} {s : Site} {p : List Nat}
    (h : ∀ q, s.position <+: q → (Skips hooks q ↔ Skips hooks' q)) :
    Reached hooks s p ↔ Reached hooks' s p := by
  have hskips : ∀ q, Skips hooks (s.position ++ q) ↔ Skips hooks' (s.position ++ q) :=
    fun q => h _ (List.prefix_append _ _)
  simp only [Reached, hskips]

/-- From a skipped node nothing else is reached. -/
theorem Reached.of_skips {hooks : List Hook} {s : Site} (hs : Skips hooks s.position)
    {p : List Nat} : Reached hooks s p ↔ p = s.position := by
  constructor
  · rintro ⟨_ | ⟨i, r⟩, rfl, -, hskips⟩
    · exact List.append_nil _
    · have hnot := hskips [] (List.nil_prefix) (by simp)
      rw [List.append_nil] at hnot
      exact absurd hs hnot
  · rintro rfl
    exact .self hooks s

/-- A node that is not skipped reaches itself and what its children reach. -/
theorem Reached.step {hooks : List Hook} {s : Site} (hs : ¬ Skips hooks s.position)
    {p : List Nat} :
    Reached hooks s p ↔ p = s.position ∨ ∃ c ∈ s.below, Reached hooks c p := by
  constructor
  · rintro ⟨_ | ⟨i, r⟩, rfl, hsome, hskips⟩
    · exact .inl (List.append_nil _)
    · rw [Node.at?] at hsome
      obtain ⟨c, hc⟩ : ∃ c, s.node.children[i]? = some c := by
        cases hi : s.node.children[i]? with
        | none => simp [hi] at hsome
        | some c => exact ⟨c, rfl⟩
      refine .inr ⟨⟨s.position ++ [i], c⟩, Site.mem_below.2 ⟨i, rfl, hc⟩, r, by simp, ?_, ?_⟩
      · simpa [hc] using hsome
      · intro q hq hne
        have hbelow := hskips (i :: q) (by simpa using hq) (by simpa using hne)
        simpa using hbelow
  · rintro (rfl | ⟨c, hc, r, rfl, hsome, hskips⟩)
    · exact .self hooks s
    · obtain ⟨i, hi, hnode⟩ := Site.mem_below.1 hc
      refine ⟨i :: r, by rw [hi, List.append_assoc]; rfl, ?_, ?_⟩
      · rw [Node.at?, hnode]
        exact hsome
      · rintro (_ | ⟨j, q⟩) hq hne
        · rwa [List.append_nil]
        · rw [List.cons_prefix_cons] at hq
          obtain ⟨rfl, hq⟩ := hq
          have hbelow := hskips q hq (by simpa using hne)
          rwa [hi, List.append_assoc] at hbelow

/-- A walk that is not stopped visits what can be reached from its sites. -/
theorem mem_visited_iff (h : Trace sites hooks none) (hsites : sites.Pairwise Precedes)
    {p : List Nat} : p ∈ visited hooks ↔ ∃ s ∈ sites, Reached hooks s p := by
  generalize hnone : none = o at h
  induction h with
  | done => simp [visited]
  | stop => cases hnone
  | inside => cases hnone
  | @skip s rest hooks _ hrest ih =>
    subst hnone
    rw [List.pairwise_cons] at hsites
    have hself : Reached (.visit s .skip :: .leave s :: hooks) s p ↔ p = s.position :=
      Reached.of_skips (skips_skip.2 (.inl rfl))
    have hothers : ∀ t ∈ rest, (Reached (.visit s .skip :: .leave s :: hooks) t p
        ↔ Reached hooks t p) := by
      refine fun t ht => Reached.congr fun q hq => ?_
      rw [skips_skip, or_iff_right]
      rintro rfl
      exact not_prefix_of_precedes (hsites.1 t ht) List.prefix_rfl hq
    have hvisited : p ∈ visited (.visit s .skip :: .leave s :: hooks)
        ↔ p = s.position ∨ p ∈ visited hooks := by
      simp [visited, Hook.opened?]
    rw [hvisited, ih hsites.2 rfl, List.exists_mem_cons_iff, hself]
    exact or_congr_right (exists_congr fun t => and_congr_right fun ht => (hothers t ht).symm)
  | @through s rest hooks hooks' _ hin hrest ih ih' =>
    subst hnone
    rw [List.pairwise_cons] at hsites
    -- skips below the site are calls below it, skips below the others are calls below those
    have hapart : ∀ q, s.position <+: q → ¬ Skips hooks' q := by
      intro q hq hskip
      obtain ⟨t, ht, htq⟩ := hrest.exists_site_of_skips hskip
      exact not_prefix_of_precedes (hsites.1 t ht) hq htq
    have hapart' : ∀ t ∈ rest, ∀ q, t.position <+: q → ¬ Skips hooks q := by
      intro t ht q hq hskip
      obtain ⟨i, r, rfl⟩ := Site.exists_child_of_below (hin.exists_site_of_skips hskip)
      exact not_prefix_of_precedes (hsites.1 t ht) (List.prefix_append _ _) hq
    have hself : ¬ Skips hooks s.position := by
      intro hskip
      obtain ⟨i, r, heq⟩ := Site.exists_child_of_below (hin.exists_site_of_skips hskip)
      simp at heq
    have hinner : Reached (.visit s .descend :: (hooks ++ .leave s :: hooks')) s p
        ↔ Reached hooks s p :=
      Reached.congr fun q hq => by rw [skips_through, or_iff_left (hapart q hq)]
    have hothers : ∀ t ∈ rest,
        (Reached (.visit s .descend :: (hooks ++ .leave s :: hooks')) t p
          ↔ Reached hooks' t p) :=
      fun t ht => Reached.congr fun q hq => by rw [skips_through, or_iff_right (hapart' t ht q hq)]
    rw [visited_through, List.mem_cons, List.mem_append, ← or_assoc, ih (precedes_below s) rfl,
      ih' hsites.2 rfl, List.exists_mem_cons_iff, hinner, Reached.step hself]
    exact or_congr_right (exists_congr fun t => and_congr_right fun ht => (hothers t ht).symm)

/-- The walk over a whole tree covers it. -/
theorem covers {root : Node} (h : Trace [⟨[], root⟩] hooks none) : Covers root hooks := by
  have hsites : [Site.mk [] root].Pairwise Precedes := List.pairwise_singleton _ _
  have hordered := h.visited_ordered hsites
  refine ⟨hordered, hordered.imp ?_, fun p => ?_⟩
  · rintro p q hpq rfl
    exact Before.irrefl p hpq
  · simp [h.mem_visited_iff hsites, Reached]

end Properties

end Trace

/-! ## 9. The walk over a file -/

/-- **The calls of a walk are well nested.**  Whatever the visitor answers, the calls of its walk
over a file are calls at nodes of the file, each leave closes the visit opened last, and a skipped
node is left in the next call.  If no visit answers to stop, every visit is closed, and the nodes
not below a skipped one are visited, each once and in source order.  Otherwise the stop is the last
call, the walk ends as stopped, and the visits left open are those of the stopping node and of all
nodes above it. -/
theorem walkFile_wellNested {σ : Type} (v : Visitor σ) (f : SourceFile) (s : σ) :
    ∃ hooks left, v.calls f s = hooks.map Hook.call
      ∧ (∀ hook ∈ hooks, (Node.file f).at? hook.site.position = some hook.site.node)
      ∧ Nesting [] hooks left
      ∧ LeavesSkipped hooks
      ∧ ((∃ t, v.walkFile f s = .ok t ∧ Unstopped hooks ∧ left = [] ∧ Covers (.file f) hooks)
        ∨ ∃ t before stopped, v.walkFile f s = .error t
          ∧ hooks = before ++ [.visit stopped .stop] ∧ Unstopped before
          ∧ left.map Site.position = stopped.position.inits.reverse) := by
  obtain ⟨t, hooks, ⟨hplain, hlogged, htrace⟩ | ⟨q, hplain, hlogged, htrace⟩⟩ :=
    Trace.follows_walkFile v f s []
  · have hcalls : v.calls f s = hooks.map Hook.call := by
      simp only [Visitor.calls, hlogged, List.nil_append]
    refine ⟨hooks, [], hcalls, htrace.located (by simp [Node.at?]), htrace.nesting [],
      htrace.leavesSkipped, .inl ⟨t, hplain, htrace.unstopped, rfl, htrace.covers⟩⟩
  · have hcalls : v.calls f s = hooks.map Hook.call := by
      simp only [Visitor.calls, hlogged, List.nil_append]
    obtain ⟨left, hnesting, hleft⟩ := htrace.nesting_of_stopped 0 (by simp) []
    obtain ⟨before, hbefore, hunstopped⟩ := htrace.exists_stop
    refine ⟨hooks, left, hcalls, htrace.located (by simp [Node.at?]), ?_, htrace.leavesSkipped,
      .inr ⟨t, before, q, hplain, hbefore, hunstopped, hleft⟩⟩
    rwa [List.append_nil] at hnesting

end ApiSurface
