import ApiSurface.Proofs.FileRows
import ApiSurface.Proofs.IdClashes
import ApiSurface.Proofs.PublicRows
/-!
# The graph of a package

Rows point to rows by the ids in their child lists.  In the model of a package no such id is left
without a row, whatever the files are and whichever rows give way when the models of the files are
merged; and the public view, which always exists (`analyze_eq_view`), leaves none either.

The other way round is different.  In the model of one file every row can be reached from the
module.  When files are merged, a row of a later file gives way to an earlier one of its kind and
id, and what only it listed cannot be reached any more.  That is the one way in which orphans come
about, and the public view has none of them.
-/

namespace ApiSurface

/-! ## 1. One file -/

namespace SourceFile

variable {f : SourceFile} {ctx : ModuleContext}

/-- Every row of a file can be reached from its module. -/
theorem model_noOrphans (f : SourceFile) (ctx : ModuleContext) : (f.model ctx).NoOrphans :=
  (f.model_nested ctx).noOrphans_iff.2 (f.model_listed ctx)

/-- What can be reached from the module has its id or lies below it. -/
theorem within_of_reachable {e : Entity} (h : (f.model ctx).Reachable e) :
    e.ref.id = Id.ofPath f.path ∨ ∃ n, e.ref.id = Id.child (Id.ofPath f.path) n := by
  induction h with
  | @module m h =>
    rcases mem_entities_iff.1 h.of_foldl_add with heq | ⟨member, -, he | he⟩
    · cases heq
      exact .inl rfl
    · cases Member.isPart_of_partRows he
    · cases member <;> cases he
  | @child e e' hparent he' hlisted ih =>
    obtain ⟨n, hn⟩ := f.model_nested ctx e hparent.holds e'.ref hlisted
    rw [hn]
    rcases ih with hid | ⟨k, hid⟩
    · exact .inr ⟨n, by rw [hid]⟩
    · exact .inr ⟨Id.child k n, by rw [hid, Id.child_child]⟩

end SourceFile

/-! ## 2. Merged files -/

/-- The models of the files of a package, one for each. -/
def partsOf (files : List SourceFile) (style : DocstringStyle) : List Api :=
  files.map fun f => f.model (f.contextIn files style)

section Merged

variable {files : List SourceFile} {o : Options}

theorem holds_modelOf {e : Entity} (h : (modelOf files o).Holds e) :
    ∃ part ∈ partsOf files o.style, part.Holds e := by
  rcases h.of_foldl_merge with h | h
  · exact absurd h (by cases e <;> exact List.not_mem_nil)
  · exact h

theorem modelOf_closed (files : List SourceFile) (o : Options) : (modelOf files o).Closed := by
  refine .foldl_merge ?_ ?_
  · intro e he
    exact absurd he (by cases e <;> exact List.not_mem_nil)
  · intro part hpart
    obtain ⟨f, -, rfl⟩ := List.mem_map.1 hpart
    exact f.model_closed _

theorem modelOf_nested (files : List SourceFile) (o : Options) : (modelOf files o).Nested := by
  refine .foldl_merge ?_ ?_
  · intro e he
    exact absurd he (by cases e <;> exact List.not_mem_nil)
  · intro part hpart
    obtain ⟨f, -, rfl⟩ := List.mem_map.1 hpart
    exact f.model_nested _

/-- Rows are orphans exactly where a row that gave way listed them and no other does. -/
theorem modelOf_noOrphans_iff (files : List SourceFile) (o : Options) :
    (modelOf files o).NoOrphans ↔ ∀ part ∈ partsOf files o.style, ∀ e, part.Holds e →
      ¬ (modelOf files o).Holds e → ∀ r ∈ e.children, (modelOf files o).Listed r := by
  rw [(modelOf_nested files o).noOrphans_iff]
  constructor
  · intro hlisted part hpart e he _ r hr
    -- The reference has a row even though the row that held it is gone.
    have hid : r.id ∈ ((modelOf files o).ids r.kind).toList := by
      obtain ⟨f, -, rfl⟩ := List.mem_map.1 hpart
      exact Api.mem_ids_foldl_merge.2 (.inr ⟨_, hpart, f.model_closed _ e he r hr⟩)
    obtain ⟨e', he', rfl⟩ := Api.mem_ids_iff.1 hid
    exact hlisted e' he' (Entity.kind_of_mem_children hr)
  · intro hdropped e he hkind
    obtain ⟨part, hpart, hrow⟩ := holds_modelOf he
    have hlisted : part.Listed e.ref := by
      obtain ⟨f, -, rfl⟩ := List.mem_map.1 hpart
      exact f.model_listed _ e hrow hkind
    obtain ⟨e', he', hmem⟩ := hlisted
    by_cases hkept : (modelOf files o).Holds e'
    · exact ⟨e', hkept, hmem⟩
    · exact hdropped part hpart e' he' hkept e.ref hmem

theorem Id.Related.symm {p q : String} (h : Id.Related p q) : Id.Related q p := by
  rcases h with rfl | h | h
  · exact .inl rfl
  · exact .inr (.inr h)
  · exact .inr (.inl h)

/-- Where no module id equals or lies below another, no row gives way. -/
theorem holds_modelOf_of_unrelated
    (h : files.Pairwise fun f g => ¬ Id.Related (Id.ofPath f.path) (Id.ofPath g.path)) {part : Api}
    (hpart : part ∈ partsOf files o.style) {e : Entity} (he : part.Holds e) :
    (modelOf files o).Holds e := by
  obtain ⟨f, hf, rfl⟩ := List.mem_map.1 hpart
  refine Api.holds_foldl_merge_of_alone hpart he ?_ ?_
  · intro e' he'
    exact absurd he' (by cases e' <;> exact List.not_mem_nil)
  · intro part' hpart' e' he' href
    obtain ⟨g, hg, rfl⟩ := List.mem_map.1 hpart'
    by_cases hfg : g = f
    · subst hfg
      exact he'.eq_of_ref_eq he href
    · have hsymm : Std.Symm fun f g : SourceFile =>
          ¬ Id.Related (Id.ofPath f.path) (Id.ofPath g.path) := ⟨fun _ _ hne hr => hne hr.symm⟩
      refine absurd ?_ (h.forall hg hf hfg)
      have hbelow := SourceFile.within_of_reachable (g.model_noOrphans _ e' he')
      rw [href] at hbelow
      exact Id.related_of_common hbelow (SourceFile.within_of_reachable (f.model_noOrphans _ e he))

end Merged

/-! ## 3. The model of a package -/

/-- There is a public view, and the analysis answers with it or with the whole model. -/
theorem analyze_eq_view (files : List SourceFile) (o : Options) :
    ∃ view, (modelOf (selectFiles o.package files) o).publicView? = some view
      ∧ analyze files o
        = .ok (if o.publicOnly then view else modelOf (selectFiles o.package files) o) := by
  obtain ⟨view, hview⟩ := (modelOf_nested (selectFiles o.package files) o).exists_publicView
  refine ⟨view, hview, ?_⟩
  rw [analyze_eq, hview]
  rfl

/-- **The analysis never fails.**  Whatever the file, the index and the provider, the walk is not
stopped and ends with an empty stack, nothing skipped and no error.  A visit or a leave keeps the
error that is there, so none was recorded on the way.  Hence every package has a model.  The model
has a public view, so the analysis answers with the view wherever the options ask for it. -/
theorem analyze_succeeds :
    (∀ (f : SourceFile) (index : PackageIndex) (style : DocstringProvider),
      ∃ s : Assembly, (Assembly.visitor (f.context index style)).walkFile f {} = .ok s
        ∧ s.error = none ∧ s.stack = [] ∧ s.skipped = 0 ∧ f.assemble index style = .ok s.api) ∧
    (∀ (ctx : ModuleContext) (s : Assembly) (node : Node),
      ((Assembly.visitor ctx).visit node s).2.error
          = s.error.or ((Assembly.visitor ctx).visit node s).2.error
        ∧ ((Assembly.visitor ctx).leave node s).error
          = s.error.or ((Assembly.visitor ctx).leave node s).error) ∧
    ∀ (files : List SourceFile) (o : Options), ∃ api view : Api, analyze files o = .ok api
      ∧ (modelOf (selectFiles o.package files) o).publicView? = some view
      ∧ api = if o.publicOnly then view else modelOf (selectFiles o.package files) o := by
  refine ⟨fun f index style => ?_, fun ctx s node => ?_, fun files o => ?_⟩
  · exact ⟨_, f.walkFile_eq index style, rfl, rfl, rfl, f.assemble_eq index style⟩
  · cases h : s.error with
    | none => exact ⟨rfl, rfl⟩
    | some e => exact Assembly.error_stays h node
  · obtain ⟨view, hview, hanalyze⟩ := analyze_eq_view files o
    exact ⟨_, view, hanalyze, hview, rfl⟩

/-- **No dangling references.**  For all files and options the analysis gives a model in whose child
lists every id has a row of the kind that the list names.  Without the restriction to what is public
it is the merged model, in which every id of a file's own model has a row; with it, it is that
model's public view. -/
theorem analyze_closed (files : List SourceFile) (o : Options) :
    ∃ parts api, assembleAll (selectFiles o.package files) o.style = .ok parts
      ∧ analyze files o = .ok api
      ∧ api.Closed
      ∧ api.danglingReferences = []
      ∧ (o.publicOnly = false → ∀ part ∈ parts, ∀ e, part.Holds e →
        e.ref.id ∈ (api.ids e.ref.kind).toList)
      ∧ (o.publicOnly = true →
        (modelOf (selectFiles o.package files) o).publicView? = some api) := by
  have hclosed := modelOf_closed (selectFiles o.package files) o
  obtain ⟨view, hview, hanalyze⟩ := analyze_eq_view files o
  refine ⟨_, _, assembleAll_eq _ _, hanalyze, ?_⟩
  simp only [Api.danglingReferences_eq_nil_iff, and_self_left]
  cases o.publicOnly with
  | false =>
    refine ⟨hclosed, fun _ part hpart e he => ?_, nofun⟩
    exact Api.mem_ids_foldl_merge.2 (.inr ⟨part, hpart, Api.mem_ids_iff.2 ⟨e, he, rfl⟩⟩)
  | true => exact ⟨hclosed.publicView hview, nofun, fun _ => hview⟩

/-- **When every row can be reached.**  In the public view every row can.  Otherwise every row can
be reached from a module exactly if, whenever a row of a file gives way to an earlier one, all that
it lists is listed by a row that stays; and so it is where no module id equals or lies below
another. -/
theorem analyze_noOrphans_iff (files : List SourceFile) (o : Options) :
    ∃ parts api, assembleAll (selectFiles o.package files) o.style = .ok parts
      ∧ analyze files o = .ok api
      ∧ (api.NoOrphans ↔ o.publicOnly = true ∨ ∀ part ∈ parts, ∀ e, part.Holds e → ¬ api.Holds e →
        ∀ r ∈ e.children, api.Listed r)
      ∧ ((selectFiles o.package files).Pairwise
          (fun f g => ¬ Id.Related (Id.ofPath f.path) (Id.ofPath g.path)) → api.NoOrphans) := by
  have hclosed := modelOf_closed (selectFiles o.package files) o
  obtain ⟨view, hview, hanalyze⟩ := analyze_eq_view files o
  refine ⟨_, _, assembleAll_eq _ _, hanalyze, ?_⟩
  cases o.publicOnly with
  | false =>
    have hiff := modelOf_noOrphans_iff (selectFiles o.package files) o
    refine ⟨?_, fun hunrelated => ?_⟩
    · rw [or_iff_right (by simp)]
      exact hiff
    · refine hiff.2 fun part hpart e he hgone => ?_
      exact absurd (holds_modelOf_of_unrelated hunrelated hpart he) hgone
  | true =>
    have hreached := hclosed.noOrphans_publicView hview
    exact ⟨iff_of_true hreached (.inl rfl), fun _ => hreached⟩

/-! ## 4. A class without a module -/

namespace Sample

/-- A module without declarations. -/
def bareFile : SourceFile := ⟨"m.py", "m", none, []⟩

/-- A module of the same id with a class. -/
def stubFile : SourceFile := ⟨"m.pyi", "m", none, [.classDef classHead []]⟩

theorem selectFiles_stub : selectFiles "" [bareFile, stubFile] = [bareFile, stubFile] :=
  List.mergeSort_of_pairwise (by decide +kernel)

/-- The module of the second file gives way to that of the first, which does not list the class. -/
theorem class_of_lost_module_orphan :
    [bareFile, stubFile].Pairwise (fun f g => f.path ≠ g.path)
      ∧ ∃ api, analyze [bareFile, stubFile] {} = .ok api ∧ ¬ api.NoOrphans := by
  refine ⟨by decide, _, analyze_eq _ _, ?_⟩
  rw [if_neg (by decide), selectFiles_stub]
  have hmodules : ∀ m ∈ (modelOf [bareFile, stubFile] {}).modules.toList, m.classes = [] := by
    decide +kernel
  have hclasses : ∀ c ∈ (modelOf [bareFile, stubFile] {}).classes.toList, c.classes = [] := by
    decide +kernel
  have hclass : "m/C" ∈ ((modelOf [bareFile, stubFile] {}).ids .class).toList := by
    decide +kernel
  intro hreached
  obtain ⟨e, he, href⟩ := Api.mem_ids_iff (r := ⟨.class, "m/C"⟩).1 hclass
  have hlisted :=
    (modelOf_nested [bareFile, stubFile] {}).noOrphans_iff.1 hreached e he (by simp [href])
  rw [href] at hlisted
  obtain ⟨e', he', hmem⟩ := hlisted
  cases e' with
  | module m => simp [Entity.children, hmodules m he'] at hmem
  | «class» c => simp [Entity.children, hclasses c he'] at hmem
  | function | enum | parameter | «attribute» | result | enumInstance =>
    simp [Entity.children] at hmem

end Sample

end ApiSurface
