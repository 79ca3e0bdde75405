import ApiSurface.Proofs.OrderFreedom
import ApiSurface.Proofs.Publicity
/-!
# Classes at module scope

The classes of a module are looked for twice.  The walk that builds the model finds them behind
branches of every kind, and keeps those whose ids are free.  The scan that fills the index of the
package goes its own way: it does not enter loops, final bodies and the `else` of a handler.

Where a statement stands is said by a path, the branches that lead to it (`Behind`).  Both look at
one statement at a time and then behind its branches (`mem_offeredClasses_iff`,
`class_mem_declarations_iff`), so each finds what stands behind the branches that it enters
(`iff_exists_behind`).  Hence a class of the model is missing from the index exactly if all its
definitions stand behind a branch that only the walk enters.
-/

namespace ApiSurface

/-! ## 1. Branches -/

/-- A list of statements in a statement that opens no scope. -/
inductive Branch
  | body (kind : BlockKind)
  | orelse (kind : BlockKind)
  | guardedBody
  | handlerBody
  | handlerElse
  | guardedElse
  | finalBody
  deriving DecidableEq

/-- Whether the scan enters a branch. -/
def Branch.isScanned : Branch → Bool
  | .body kind | .orelse kind => kind == .cond || kind == .context
  | .guardedBody | .handlerBody | .guardedElse => true
  | .handlerElse | .finalBody => false

namespace Statement

def handlerBranches : Block → List (Branch × List Statement)
  | .mk body orelse => [(.handlerBody, body), (.handlerElse, orelse)]

/-- The branches of a statement, in source order. -/
def branches : Statement → List (Branch × List Statement)
  | .block kind (.mk body orelse) => [(.body kind, body), (.orelse kind, orelse)]
  | .guarded body handlers orelse finalBody =>
    (.guardedBody, body) :: handlers.flatMap handlerBranches
      ++ [(.guardedElse, orelse), (.finalBody, finalBody)]
  | _ => []

/-- That a statement stands in the scope of others behind the branches of a path. -/
inductive Behind : List Branch → Statement → List Statement → Prop
  | here {s : Statement} {scope : List Statement} (h : s ∈ scope) : Behind [] s scope
  | inside {path : List Branch} {s t : Statement} {branch : Branch} {inner scope : List Statement}
      (ht : t ∈ scope) (hbranch : (branch, inner) ∈ t.branches) (h : Behind path s inner) :
      Behind (branch :: path) s scope

section Branches

variable {P : Branch → List Statement → Prop} {body orelse finalBody : List Statement}
  {handlers : List Block} {kind : BlockKind}

theorem exists_branch_block :
    (∃ branch inner, (branch, inner) ∈ (Statement.block kind (.mk body orelse)).branches
      ∧ P branch inner) ↔ P (.body kind) body ∨ P (.orelse kind) orelse := by
  simp [branches, or_and_right, exists_or, and_assoc]

theorem exists_handlerBranch :
    (∃ branch inner, (branch, inner) ∈ handlerBranches (.mk body orelse) ∧ P branch inner)
      ↔ P .handlerBody body ∨ P .handlerElse orelse := by
  simp [handlerBranches, or_and_right, exists_or, and_assoc]

theorem exists_branch_guarded :
    (∃ branch inner, (branch, inner) ∈ (Statement.guarded body handlers orelse finalBody).branches
      ∧ P branch inner) ↔ P .guardedBody body
        ∨ (∃ b ∈ handlers, ∃ branch inner, (branch, inner) ∈ handlerBranches b ∧ P branch inner)
        ∨ P .guardedElse orelse ∨ P .finalBody finalBody := by
  constructor
  · rintro ⟨branch, inner, hbranch, hP⟩
    simp only [branches, List.cons_append, List.mem_cons, List.mem_append, List.mem_flatMap,
      List.not_mem_nil, or_false, Prod.mk.injEq] at hbranch
    rcases hbranch with ⟨rfl, rfl⟩ | ⟨b, hb, hbranch⟩ | ⟨rfl, rfl⟩ | ⟨rfl, rfl⟩
    · exact .inl hP
    · exact .inr (.inl ⟨b, hb, branch, inner, hbranch, hP⟩)
    · exact .inr (.inr (.inl hP))
    · exact .inr (.inr (.inr hP))
  · rintro (hP | ⟨b, hb, branch, inner, hbranch, hP⟩ | hP | hP)
    · exact ⟨_, _, by simp [branches], hP⟩
    · exact ⟨branch, inner, by simp [branches]; exact .inr (.inl ⟨b, hb, hbranch⟩), hP⟩
    · exact ⟨.guardedElse, orelse, by simp [branches], hP⟩
    · exact ⟨.finalBody, finalBody, by simp [branches], hP⟩

end Branches

/-! ## 2. One step and a whole traversal -/

/-- Branches are smaller than the statement that has them. -/
theorem sizeOf_branch_lt {t : Statement} {branch : Branch} {inner : List Statement}
    (h : (branch, inner) ∈ t.branches) : sizeOf inner < sizeOf t := by
  have hsame : ∃ branch' inner', (branch', inner') ∈ t.branches ∧ inner' = inner :=
    ⟨branch, inner, h, rfl⟩
  cases t with
  | block kind b =>
    obtain ⟨body, orelse⟩ := b
    rcases exists_branch_block.1 hsame with rfl | rfl <;>
      simp only [Statement.block.sizeOf_spec, Block.mk.sizeOf_spec] <;> omega
  | guarded body handlers orelse finalBody =>
    rw [Statement.guarded.sizeOf_spec]
    rcases exists_branch_guarded.1 hsame with rfl | ⟨b, hb, hinside⟩ | rfl | rfl
    · omega
    · have hlt := List.sizeOf_lt_of_mem hb
      obtain ⟨body', orelse'⟩ := b
      rw [Block.mk.sizeOf_spec] at hlt
      rcases exists_handlerBranch.1 hinside with rfl | rfl <;> omega
    · omega
    · omega
  | classDef | funcDef | assignment | importNames | importFrom | importAll | returned | expression
  | pass | other => cases h

/-- What looks at each statement of a scope, and then behind the branches that it enters, finds what
stands behind paths of such branches. -/
theorem iff_exists_behind {Found : List Statement → Prop} {Hit : Statement → Prop}
    {enters : Branch → Bool}
    (hstep : ∀ scope, Found scope ↔ ∃ t ∈ scope, Hit t
      ∨ ∃ branch inner, (branch, inner) ∈ t.branches ∧ enters branch = true ∧ Found inner)
    (scope : List Statement) :
    Found scope ↔ ∃ path s, Behind path s scope ∧ Hit s ∧ ∀ b ∈ path, enters b = true := by
  constructor
  · intro hfound
    induction hn : sizeOf scope using Nat.strongRecOn generalizing scope with
    | ind n ih =>
      obtain ⟨t, ht, hhit | ⟨branch, inner, hbranch, henters, hfound⟩⟩ := (hstep scope).1 hfound
      · exact ⟨[], t, .here ht, hhit, by simp⟩
      · have hlt : sizeOf inner < n :=
          hn ▸ Nat.lt_trans (sizeOf_branch_lt hbranch) (List.sizeOf_lt_of_mem ht)
        obtain ⟨path, s, hbehind, hhit, hpath⟩ := ih _ hlt inner hfound rfl
        exact ⟨branch :: path, s, .inside ht hbranch hbehind, hhit,
          List.forall_mem_cons.2 ⟨henters, hpath⟩⟩
  · rintro ⟨path, s, hbehind, hhit, hpath⟩
    induction hbehind with
    | here hs => exact (hstep _).2 ⟨_, hs, .inl hhit⟩
    | inside ht hbranch _ ih =>
      obtain ⟨henters, hrest⟩ := List.forall_mem_cons.1 hpath
      exact (hstep _).2 ⟨_, ht, .inr ⟨_, _, hbranch, henters, ih hhit hrest⟩⟩

/-! ## 3. The scan -/

section Scan

variable {head : ClassHead}

theorem offeredIn_eq_flatMap (scope : List Statement) :
    offeredIn scope = scope.flatMap offeredClasses := by
  induction scope with
  | nil => rfl
  | cons s scope ih => rw [offeredIn, ih, List.flatMap_cons]

theorem mem_offeredInHandlers {handlers : List Block} :
    head ∈ offeredInHandlers handlers ↔ ∃ b ∈ handlers, ∃ branch inner,
      (branch, inner) ∈ handlerBranches b ∧ branch.isScanned = true ∧ head ∈ offeredIn inner := by
  induction handlers with
  | nil => simp [offeredInHandlers]
  | cons b handlers ih =>
    obtain ⟨body, orelse⟩ := b
    simp [offeredInHandlers, ih, exists_handlerBranch, Branch.isScanned]

/-- The classes that a statement offers: the class that it is, and those behind its branches. -/
theorem mem_offeredClasses_iff (t : Statement) :
    head ∈ t.offeredClasses ↔ (∃ body, t = .classDef head body)
      ∨ ∃ branch inner, (branch, inner) ∈ t.branches ∧ branch.isScanned = true
        ∧ head ∈ offeredIn inner := by
  cases t with
  | classDef head' body => simp [offeredClasses, branches, eq_comm (a := head)]
  | block kind b =>
    obtain ⟨body, orelse⟩ := b
    rw [exists_branch_block]
    cases kind <;> simp [offeredClasses, offeredInBlock, Branch.isScanned]
  | guarded body handlers orelse finalBody =>
    rw [exists_branch_guarded, ← mem_offeredInHandlers]
    simp [offeredClasses, Branch.isScanned]
  | funcDef | assignment | importNames | importFrom | importAll | returned | expression | pass
  | other => simp [offeredClasses, branches]

/-- The scan finds the classes behind the branches that it enters. -/
theorem mem_offeredIn_iff (scope : List Statement) :
    head ∈ offeredIn scope ↔ ∃ path body, Behind path (.classDef head body) scope
      ∧ ∀ b ∈ path, b.isScanned = true := by
  have hstep : ∀ scope, head ∈ offeredIn scope ↔ ∃ t ∈ scope, (∃ body, t = .classDef head body)
      ∨ ∃ branch inner, (branch, inner) ∈ t.branches ∧ branch.isScanned = true
        ∧ head ∈ offeredIn inner := by
    intro scope
    simp only [offeredIn_eq_flatMap scope, List.mem_flatMap, mem_offeredClasses_iff]
  rw [iff_exists_behind hstep]
  constructor
  · rintro ⟨path, _, hbehind, ⟨body, rfl⟩, hpath⟩
    exact ⟨path, body, hbehind, hpath⟩
  · rintro ⟨path, body, hbehind, hpath⟩
    exact ⟨path, _, hbehind, ⟨body, rfl⟩, hpath⟩

end Scan

/-! ## 4. The walk -/

section Walk

variable {head : ClassHead} {ds : List Declaration}

theorem declarationsIn_eq_flatMap (scope : List Statement) :
    declarationsIn scope = scope.flatMap declarations := by
  induction scope with
  | nil => rfl
  | cons s scope ih => rw [declarationsIn, ih, List.flatMap_cons]

theorem mem_handlerDeclarations {d : Declaration} {handlers : List Block} :
    d ∈ handlerDeclarations handlers ↔ ∃ b ∈ handlers, ∃ branch inner,
      (branch, inner) ∈ handlerBranches b ∧ d ∈ declarationsIn inner := by
  induction handlers with
  | nil => simp [handlerDeclarations]
  | cons b handlers ih =>
    obtain ⟨body, orelse⟩ := b
    simp [handlerDeclarations, blockDeclarations, ih, exists_handlerBranch, or_assoc]

/-- The classes that a statement declares: the class that it is, and those behind its branches. -/
theorem class_mem_declarations_iff (t : Statement) :
    .class head ds ∈ t.declarations ↔ (∃ body, t = .classDef head body ∧ ds = declarationsIn body)
      ∨ ∃ branch inner, (branch, inner) ∈ t.branches ∧ .class head ds ∈ declarationsIn inner := by
  cases t with
  | classDef head' body => simp [declarations, branches, eq_comm (a := head)]
  | block kind b =>
    obtain ⟨body, orelse⟩ := b
    rw [exists_branch_block]
    simp [declarations, blockDeclarations]
  | guarded body handlers orelse finalBody =>
    rw [exists_branch_guarded, ← mem_handlerDeclarations]
    simp [declarations]
  | funcDef | assignment | importNames | importFrom | importAll | returned | expression | pass
  | other => simp [declarations, branches]

/-- The walk declares the classes behind branches of every kind. -/
theorem class_mem_declarationsIn_iff (scope : List Statement) :
    .class head ds ∈ declarationsIn scope
      ↔ ∃ path body, Behind path (.classDef head body) scope ∧ ds = declarationsIn body := by
  have hstep : ∀ scope, .class head ds ∈ declarationsIn scope
      ↔ ∃ t ∈ scope, (∃ body, t = .classDef head body ∧ ds = declarationsIn body)
        ∨ ∃ branch inner, (branch, inner) ∈ t.branches ∧ (fun _ => true) branch = true
          ∧ .class head ds ∈ declarationsIn inner := by
    intro scope
    simp only [declarationsIn_eq_flatMap scope, List.mem_flatMap, class_mem_declarations_iff,
      true_and]
  rw [iff_exists_behind hstep]
  constructor
  · rintro ⟨path, _, hbehind, ⟨body, rfl, hds⟩, -⟩
    exact ⟨path, body, hbehind, hds⟩
  · rintro ⟨path, body, hbehind, hds⟩
    exact ⟨path, _, hbehind, ⟨body, rfl, hds⟩, fun _ _ => rfl⟩

end Walk

end Statement

/-! ## 5. Classes that are kept -/

/-- The head of a kept class or enum. -/
def Member.classHead? : Member → Option ClassHead
  | .class _ head _ => some head
  | .enum _ head _ => some head
  | .function .. | .assignment _ => none

namespace ModuleContext

variable {ctx : ModuleContext} {scope : Scope} {head : ClassHead} {m : Member}

theorem eq_class_of_keep {d : Declaration} {claimed : List String}
    (hm : m ∈ (ctx.keep scope d claimed).1) (hhead : m.classHead? = some head) :
    ∃ body, d = .class head body := by
  cases d with
  | «class» head' body =>
    rw [keep] at hm
    split at hm
    · cases hm
    · split at hm <;> obtain rfl := List.mem_singleton.1 hm <;> cases hhead <;> exact ⟨body, rfl⟩
  | function head' body =>
    rw [keep] at hm
    split at hm
    · cases hm
    · obtain rfl := List.mem_singleton.1 hm
      cases hhead
  | assignment a =>
    rw [keep] at hm
    obtain rfl := List.mem_singleton.1 hm
    cases hhead

/-- A kept class or enum is declared in its scope. -/
theorem class_mem_of_keepAll {ds : List Declaration} {claimed : List String}
    (hm : m ∈ (ctx.keepAll scope ds claimed).1) (hhead : m.classHead? = some head) :
    ∃ body, .class head body ∈ ds := by
  induction ds generalizing claimed with
  | nil => cases hm
  | cons d ds ih =>
    rw [keepAll, List.mem_append] at hm
    rcases hm with hm | hm
    · obtain ⟨body, rfl⟩ := eq_class_of_keep hm hhead
      exact ⟨body, List.mem_cons_self⟩
    · obtain ⟨body, hbody⟩ := ih hm
      exact ⟨body, List.mem_cons_of_mem _ hbody⟩

theorem id_mem_keep_class {body : List Declaration} (claimed : List String) :
    Id.child scope.id head.name ∈ (ctx.keep scope (.class head body) claimed).2 := by
  rw [keep]
  split
  · rename_i hclaimed
    simpa using hclaimed
  · split
    · exact List.mem_cons_self
    · exact ((ctx.claims_keepAll (ctx.classScope scope head) body _).mem_after _).2
        (.inl List.mem_cons_self)

/-- The id of a declared class is claimed in the end, if not by the class itself. -/
theorem id_mem_keepAll {ds : List Declaration} {body : List Declaration} {claimed : List String}
    (h : .class head body ∈ ds) :
    Id.child scope.id head.name ∈ (ctx.keepAll scope ds claimed).2 := by
  induction ds generalizing claimed with
  | nil => cases h
  | cons d ds ih =>
    rw [keepAll]
    rcases List.mem_cons.1 h with rfl | h
    · exact ((ctx.claims_keepAll scope ds _).mem_after _).2 (.inl (id_mem_keep_class claimed))
    · exact ih h

end ModuleContext

/-! ## 6. Classes directly in a module -/

/-- That a class is defined at module scope, behind the branches of a path. -/
def SourceFile.DefinesClass (f : SourceFile) (path : List Branch) (name qname : String) : Prop :=
  ∃ head body, Statement.Behind path (.classDef head body) f.body
    ∧ head.name = name ∧ head.fullname = qname

/-- That a model has a class or enum directly in a module. -/
inductive Api.HasClassIn (a : Api) (moduleId name qname : String) : Prop
  | class {r : ClassRow} (h : a.Holds (.class r)) (hid : r.id = Id.child moduleId name)
      (hname : r.name = name) (hqname : r.qualifiedName = qname)
  | enum {r : EnumRow} (h : a.Holds (.enum r)) (hid : r.id = Id.child moduleId name)
      (hname : r.name = name) (hqname : r.qualifiedName = qname)

namespace SourceFile

open Member (withBelowIn)

variable {f : SourceFile} {ctx : ModuleContext} {name qname : String}

theorem mem_scan_classes_iff :
    (name, qname) ∈ f.scan.classes
      ↔ ∃ path, f.DefinesClass path name qname ∧ ∀ b ∈ path, b.isScanned = true := by
  rw [scan, List.mem_map]
  constructor
  · rintro ⟨head, hhead, hnames⟩
    obtain ⟨hname, hqname⟩ := Prod.mk.inj hnames
    obtain ⟨path, body, hbehind, hpath⟩ := (Statement.mem_offeredIn_iff _).1 hhead
    exact ⟨path, ⟨head, body, hbehind, hname, hqname⟩, hpath⟩
  · rintro ⟨path, ⟨head, body, hbehind, rfl, rfl⟩, hpath⟩
    exact ⟨head, (Statement.mem_offeredIn_iff _).2 ⟨path, body, hbehind, hpath⟩, rfl⟩

/-- A row that stands directly in the module is that of a member in no class. -/
theorem exists_direct {e : Entity} {mark : Mark} (he : (f.model ctx).Holds e)
    (hmark : e.mark? = some mark) (hname : e.qualifiedName? = some qname)
    (hid : mark.StandsIn (Id.ofPath f.path)) : ∃ m ∈ f.members ctx, m.row? ctx = some e := by
  obtain ⟨m, hm, hrow⟩ := exists_row he hname
  rcases Member.mem_or_inClass _ hm with hdirect | hnested
  · exact ⟨m, hdirect, hrow⟩
  · exact absurd hid (not_standsIn_of_inClass hnested hrow hmark)

/-- A class directly in the module is defined at module scope. -/
theorem exists_definesClass (h : (f.model ctx).HasClassIn (Id.ofPath f.path) name qname) :
    ∃ path, f.DefinesClass path name qname := by
  obtain ⟨m, hm, head, hhead, hname, hqname⟩ : ∃ m ∈ f.members ctx, ∃ head,
      m.classHead? = some head ∧ head.name = name ∧ head.fullname = qname := by
    cases h with
    | @«class» r hr hid hname hqname =>
      obtain ⟨m, hm, hrow⟩ := exists_direct hr rfl rfl (hid.trans (by rw [← hname]))
      cases m with
      | «class» scope head members =>
        cases hrow
        obtain ⟨hmark, hfullname⟩ := ctx.finishedClass_mark scope head members
        have hown := congrArg Mark.name (Option.some.inj hmark)
        exact ⟨_, hm, head, rfl, hown.symm.trans hname, hfullname.symm.trans hqname⟩
      | enum | function | assignment => cases hrow
    | @enum r hr hid hname hqname =>
      obtain ⟨m, hm, hrow⟩ := exists_direct hr rfl rfl (hid.trans (by rw [← hname]))
      cases m with
      | enum scope head body =>
        cases hrow
        exact ⟨_, hm, head, rfl, hname, hqname⟩
      | «class» | function | assignment => cases hrow
  obtain ⟨ds, hds⟩ := ModuleContext.class_mem_of_keepAll hm hhead
  obtain ⟨path, body, hbehind, -⟩ := (Statement.class_mem_declarationsIn_iff _).1 hds
  exact ⟨path, head, body, hbehind, hname, hqname⟩

/-- The id of a class that is defined at module scope is taken by a class, enum or function. -/
theorem holds_of_definesClass {path : List Branch} (h : f.DefinesClass path name qname) :
    ∃ e, (f.model ctx).Holds e ∧ e.qualifiedName?.isSome = true
      ∧ e.ref.id = Id.child (Id.ofPath f.path) name := by
  obtain ⟨head, body, hbehind, rfl, rfl⟩ := h
  have hdeclared : .class head (Statement.declarationsIn body) ∈ Statement.declarationsIn f.body :=
    (Statement.class_mem_declarationsIn_iff _).2 ⟨path, body, hbehind, rfl⟩
  have hclaimed : Id.child (Id.ofPath f.path) head.name ∈ (f.kept ctx).2 :=
    ModuleContext.id_mem_keepAll hdeclared
  rcases ((f.claims_members ctx).mem_after _).1 hclaimed with hid | hid
  · have hlength := Id.length_lt_child (Id.ofPath f.path) head.name
    rw [List.mem_singleton.1 hid] at hlength
    exact absurd hlength (Nat.lt_irrefl _)
  · obtain ⟨m, hm, hid⟩ := List.mem_filterMap.1 hid
    obtain ⟨l, hl, hid⟩ := Option.map_eq_some_iff.1 hid
    obtain ⟨e, hrow, href⟩ := Member.row?_of_label? ctx hl
    obtain ⟨_, _, -, -, hname, -⟩ := Member.mark_of_row hrow hl
    refine ⟨e, holds_row hm hrow, by rw [hname]; rfl, ?_⟩
    rw [href]
    exact hid

end SourceFile

/-! ## 7. Names of classes in the index -/

theorem PackageIndex.mem_candidates_foldl_addScan {scans : List FileScan} {ix : PackageIndex}
    {name qname : String} :
    qname ∈ (scans.foldl addScan ix).aliases.candidates name
      ↔ qname ∈ ix.aliases.candidates name
        ∨ ∃ s ∈ scans, (Portion.file s).Binds name qname := by
  induction scans generalizing ix with
  | nil => simp
  | cons s scans ih =>
    rw [List.foldl_cons, ih, mem_candidates_addScan]
    simp only [List.mem_cons, exists_eq_or_imp, or_assoc]

/-- **Which classes of a module are scanned.**  For every file, index and style: the scan has the
classes at module scope that are defined behind scanned branches only.  Every class or enum that
the model has directly in the module is defined at module scope, and the scan lacks it exactly if
each of its definitions stands behind some branch that is not scanned.  The walk looks behind all of
them, so each definition has its id in the model.  What is scanned is a meaning of its name in the
index of every package with the file. -/
theorem module_classes_scanned_iff (f : SourceFile) (index : PackageIndex)
    (style : DocstringProvider) :
    ∃ part, f.assemble index style = .ok part
      ∧ (∀ name qname, (name, qname) ∈ f.scan.classes
        ↔ ∃ path, f.DefinesClass path name qname ∧ ∀ b ∈ path, b.isScanned = true)
      ∧ (∀ name qname, part.HasClassIn (Id.ofPath f.path) name qname →
        (∃ path, f.DefinesClass path name qname)
        ∧ ((name, qname) ∉ f.scan.classes
          ↔ ∀ path, f.DefinesClass path name qname → ∃ b ∈ path, b.isScanned = false))
      ∧ (∀ path name qname, f.DefinesClass path name qname →
        ∃ e, part.Holds e ∧ e.qualifiedName?.isSome = true
          ∧ e.ref.id = Id.child (Id.ofPath f.path) name)
      ∧ ∀ (files : List SourceFile) name qname, f ∈ files → (name, qname) ∈ f.scan.classes →
        qname ∈ (PackageIndex.build (files.map SourceFile.scan)).aliases.candidates name := by
  refine ⟨_, f.assemble_eq index style, fun _ _ => SourceFile.mem_scan_classes_iff, ?_, ?_, ?_⟩
  · intro name qname h
    refine ⟨SourceFile.exists_definesClass h, ?_⟩
    rw [SourceFile.mem_scan_classes_iff]
    simp only [not_exists, not_and, not_forall, exists_prop, Bool.not_eq_true]
  · intro path name qname h
    exact SourceFile.holds_of_definesClass h
  · intro files name qname hf hscanned
    rw [PackageIndex.build, PackageIndex.mem_candidates_foldl_addScan]
    exact .inr ⟨f.scan, List.mem_map_of_mem hf, .inr hscanned⟩

namespace Sample

/-- A module whose only class is defined in a loop. -/
def loopFile : SourceFile :=
  ⟨"m.py", "m", none, [.block .forLoop (.mk [.classDef classHead []] [])]⟩

theorem members_loopFile (ctx : ModuleContext) :
    loopFile.members ctx = [.class loopFile.scope classHead []] := by
  have hscope : loopFile.scope.id = "m" := by decide
  have hpath : Id.ofPath loopFile.path = "m" := by decide
  have hclass : Id.child "m" classHead.name = "m/C" := by decide
  have henum : classHead.isEnum = false := by decide
  have hdeclared : Statement.declarationsIn loopFile.body = [.class classHead []] := rfl
  rw [SourceFile.members, SourceFile.kept, hdeclared]
  simp [ModuleContext.keepAll, ModuleContext.keep, hscope, hpath, hclass, henum]

/-- The model has the class, the scan does not, and its name means nothing in the index. -/
theorem looped_class_not_scanned :
    ∃ part, loopFile.assemble (PackageIndex.build [loopFile.scan]) DocstringStyle.plaintext
        = .ok part
      ∧ part.HasClassIn "m" "C" "m.C" ∧ ("C", "m.C") ∉ loopFile.scan.classes
      ∧ (PackageIndex.build [loopFile.scan]).aliases.resolve? "C" "m" = none := by
  refine ⟨_, loopFile.assemble_eq _ _, ?_, by decide +kernel, by decide +kernel⟩
  have hmember : .class loopFile.scope classHead [] ∈ Member.withBelowIn (loopFile.members
      (loopFile.context (.build [loopFile.scan]) DocstringStyle.plaintext)) := by
    rw [members_loopFile]
    exact Member.mem_withBelowIn_self (List.mem_singleton_self _)
  exact .class (SourceFile.holds_row hmember rfl) (by decide +kernel) rfl rfl

end Sample

end ApiSurface
