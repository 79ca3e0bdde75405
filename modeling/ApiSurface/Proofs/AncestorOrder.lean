import ApiSurface.Linearization
import Mathlib.Data.List.Nodup
import Mathlib.Logic.Relation
/-!
# The order of a class and its ancestors

A linearization is put together by merging: again and again a head is taken that stands in no tail.
What comes out keeps the order of every sequence and names nothing twice; and as long as *any* order
without repetition agrees with all sequences, the greedy choice does not get stuck, since the first
class of such an order that is left over is a head and stands in no tail.

A hierarchy may hold circles, bases that it does not know and bases named twice.  The recursion
carries the path on which it came, but the path decides only whether there is a result and not what
the result is (`linearizeBelow_eq_ok_of_apart`).  So a linearization satisfies a recursion without a
path, and its properties follow by induction along that recursion (`linearize_induction`).
-/

namespace ApiSurface

/-! ## 1. Lists of computations -/

section Results

variable {α β ε : Type} {f : α → Except ε β} {l : List α}

/-- A list of computations succeeds if each of them does. -/
theorem mapM_ok {g : α → β} (h : ∀ x ∈ l, f x = .ok (g x)) : l.mapM f = .ok (l.map g) := by
  induction l with
  | nil => rfl
  | cons x l ih =>
    obtain ⟨hx, hl⟩ := List.forall_mem_cons.1 h
    rw [List.mapM_cons, hx, ih hl]
    rfl

theorem mapM_eq_ok [Inhabited β] {l' : List β} (h : l.mapM f = .ok l') :
    ∃ g : α → β, l' = l.map g ∧ ∀ x ∈ l, f x = .ok (g x) := by
  refine ⟨fun x => (f x).toOption.getD default, ?_⟩
  induction l generalizing l' with
  | nil =>
    cases h
    simp
  | cons x l ih =>
    rw [List.mapM_cons] at h
    cases hx : f x with
    | error e =>
      rw [hx] at h
      cases h
    | ok y =>
      cases hl : l.mapM f with
      | error e =>
        rw [hx, hl] at h
        cases h
      | ok ys =>
        rw [hx, hl] at h
        cases h
        obtain ⟨hmap, hall⟩ := ih hl
        refine ⟨?_, List.forall_mem_cons.2 ⟨?_, hall⟩⟩
        · rw [List.map_cons, ← hmap, hx]
          rfl
        · simp only [hx, Except.toOption, Option.getD_some]

theorem mapM_eq_error {e : ε} (h : l.mapM f = .error e) : ∃ x ∈ l, f x = .error e := by
  induction l with
  | nil => cases h
  | cons x l ih =>
    rw [List.mapM_cons] at h
    cases hx : f x with
    | error e' =>
      rw [hx] at h
      cases h
      exact ⟨x, List.mem_cons_self, hx⟩
    | ok y =>
      cases hl : l.mapM f with
      | error e' =>
        rw [hx, hl] at h
        cases h
        obtain ⟨z, hz, herror⟩ := ih hl
        exact ⟨z, List.mem_cons_of_mem x hz, herror⟩
      | ok ys =>
        rw [hx, hl] at h
        cases h

end Results

namespace Hierarchy

open Relation (TransGen ReflTransGen)
open scoped List

/-! ## 2. Bases and ancestors -/

/-- That a class of the hierarchy is declared as a base of another. -/
def Extends (h : Hierarchy) (name base : String) : Prop :=
  ∃ bases, h.lookup name = some bases ∧ base ∈ bases ∧ ∃ e ∈ h, e.1 = base

theorem mem_basesOf {h : Hierarchy} {name base : String} :
    base ∈ h.basesOf name ↔ h.Extends name base := by
  rw [basesOf, List.mem_filter, contains, List.any_eq_true]
  simp only [beq_iff_eq, Extends]
  cases h.lookup name with
  | none => simp
  | some bases => simp

/-- An order of the proper ancestors of a class without repetition, in which its bases and the
linearization of each of them are subsequences. -/
structure Agrees (h : Hierarchy) (name : String) (order : List String) : Prop where
  nodup : order.Nodup
  mem : ∀ x, x ∈ order ↔ TransGen h.Extends name x
  bases : h.basesOf name <+ order
  above : ∀ base ∈ h.basesOf name, ∀ l, h.linearize base = .ok l → l <+ order

/-! ## 3. Merging -/

section Merging

variable {seqs : List (List String)} {s order : List String} {c x : String}

theorem not_mem_tail_of_candidate? (h : candidate? seqs = some c) (hs : s ∈ seqs) :
    c ∉ s.tail := by
  have hfree := List.find?_some h
  simp only [Bool.not_eq_true', List.any_eq_false, List.contains_iff_mem] at hfree
  exact hfree s hs

theorem dropHead_sublist (c : String) (s : List String) : dropHead c s <+ s := by
  cases s with
  | nil => exact .slnil
  | cons d s =>
    rw [dropHead]
    split
    · exact List.sublist_cons_self d s
    · exact .refl _

theorem sublist_cons_dropHead (c : String) (s : List String) : s <+ c :: dropHead c s := by
  cases s with
  | nil => exact List.nil_sublist _
  | cons d s =>
    rw [dropHead]
    split
    · rename_i hd
      rw [beq_iff_eq.1 hd]
    · exact List.sublist_cons_self c _

theorem not_mem_dropHead (h : c ∉ s.tail) : c ∉ dropHead c s := by
  cases s with
  | nil => exact List.not_mem_nil
  | cons d s =>
    rw [dropHead]
    split
    · exact h
    · rename_i hd
      rw [List.mem_cons, not_or]
      exact ⟨fun heq => hd (beq_iff_eq.2 heq.symm), h⟩

/-- The merged sequence keeps the order of each. -/
theorem sublist_merge (h : merge seqs = some order) (hs : s ∈ seqs) : s <+ order := by
  fun_induction merge seqs generalizing order s with
  | case1 seqs hempty =>
    rw [List.isEmpty_iff.1 (List.all_eq_true.1 hempty s hs)]
    exact List.nil_sublist _
  | case2 => cases h
  | case3 seqs _ c _ ih =>
    obtain ⟨rest, hrest, rfl⟩ := Option.map_eq_some_iff.1 h
    have hsub : dropHead c s <+ rest := ih hrest (List.mem_map_of_mem hs)
    exact (sublist_cons_dropHead c s).trans (hsub.cons_cons c)

/-- The merged sequence has the members of all. -/
theorem mem_merge (h : merge seqs = some order) : x ∈ order ↔ ∃ s ∈ seqs, x ∈ s := by
  constructor
  · intro hx
    fun_induction merge seqs generalizing order with
    | case1 =>
      cases h
      cases hx
    | case2 => cases h
    | case3 seqs _ c hc ih =>
      obtain ⟨rest, hrest, rfl⟩ := Option.map_eq_some_iff.1 h
      rcases List.mem_cons.1 hx with rfl | hx
      · obtain ⟨s, hs, hhead⟩ := exists_head_of_candidate? hc
        exact ⟨s, hs, List.mem_of_mem_head? hhead⟩
      · obtain ⟨_, ht, hx⟩ := ih hrest hx
        obtain ⟨s, hs, rfl⟩ := List.mem_map.1 ht
        exact ⟨s, hs, (dropHead_sublist c s).subset hx⟩
  · rintro ⟨s, hs, hx⟩
    exact (sublist_merge h hs).subset hx

theorem nodup_merge (h : merge seqs = some order) : order.Nodup := by
  fun_induction merge seqs generalizing order with
  | case1 =>
    cases h
    exact .nil
  | case2 => cases h
  | case3 seqs _ c hc ih =>
    obtain ⟨rest, hrest, rfl⟩ := Option.map_eq_some_iff.1 h
    refine List.nodup_cons.2 ⟨fun hmem => ?_, ih hrest⟩
    -- What was taken stood in no tail, so nothing of it is left.
    obtain ⟨_, ht, hmem⟩ := (mem_merge hrest).1 hmem
    obtain ⟨s, hs, rfl⟩ := List.mem_map.1 ht
    exact not_mem_dropHead (not_mem_tail_of_candidate? hc hs) hmem

/-- As long as some order agrees with all sequences, a head can be taken. -/
theorem exists_candidate (hnodup : order.Nodup) (hsub : ∀ s ∈ seqs, s <+ order)
    (hleft : ¬ seqs.all List.isEmpty = true) : ∃ c, candidate? seqs = some c := by
  induction order with
  | nil =>
    refine absurd (List.all_eq_true.2 fun s hs => ?_) hleft
    exact List.isEmpty_iff.2 (List.sublist_nil.1 (hsub s hs))
  | cons a order ih =>
    obtain ⟨ha, hnodup⟩ := List.nodup_cons.1 hnodup
    by_cases hhead : ∃ s ∈ seqs, s.head? = some a
    · -- The first class of the order is a head, and whatever follows in a sequence comes later.
      rw [← Option.isSome_iff_exists, candidate?, List.find?_isSome]
      refine ⟨a, List.mem_filterMap.2 hhead, ?_⟩
      simp only [Bool.not_eq_true', List.any_eq_false, List.contains_iff_mem]
      exact fun s hs hmem => ha ((hsub s hs).tail.subset hmem)
    · refine ih hnodup fun s hs => ?_
      rcases List.sublist_cons_iff.1 (hsub s hs) with h | ⟨r, rfl, -⟩
      · exact h
      · exact absurd ⟨a :: r, hs, rfl⟩ hhead

/-- Merging fails only if no order without repetition agrees with all sequences. -/
theorem exists_merge (hnodup : order.Nodup) (hsub : ∀ s ∈ seqs, s <+ order) :
    ∃ merged, merge seqs = some merged := by
  fun_induction merge seqs with
  | case1 => exact ⟨[], rfl⟩
  | case2 seqs hleft hnone =>
    obtain ⟨c, hc⟩ := exists_candidate hnodup hsub hleft
    cases hnone.symm.trans hc
  | case3 seqs _ c _ ih =>
    obtain ⟨rest, hrest⟩ := ih fun t ht => by
      obtain ⟨s, hs, rfl⟩ := List.mem_map.1 ht
      exact (dropHead_sublist c s).trans (hsub s hs)
    exact ⟨c :: rest, by rw [hrest]; rfl⟩

end Merging

/-! ## 4. Results of the recursion -/

variable {h : Hierarchy} {path path' : List String} {name : String} {l : List String}

theorem linearizeBelow_of_not_mem (hname : name ∉ path) :
    h.linearizeBelow path name = (do
      let above ← (h.basesOf name).mapM (h.linearizeBelow (name :: path))
      linearizeOver name (h.basesOf name) above) := by
  rw [linearizeBelow, if_neg (by simpa using hname),
    List.mapM_subtype (g := h.linearizeBelow (name :: path)) fun _ _ => rfl, List.unattach_attach]

theorem linearizeOver_eq_ok_iff {bases : List String} {above : List (List String)} :
    linearizeOver name bases above = .ok l
      ↔ ∃ order, merge (above ++ [bases]) = some order ∧ l = name :: order := by
  rw [linearizeOver]
  cases merge (above ++ [bases]) with
  | none => simp
  | some order => simp [eq_comm]

/-- A linearization is the class and a merge of those of its bases. -/
theorem linearizeBelow_eq_ok_iff :
    h.linearizeBelow path name = .ok l ↔ name ∉ path ∧ ∃ above : String → List String, ∃ order,
      (∀ base ∈ h.basesOf name, h.linearizeBelow (name :: path) base = .ok (above base))
      ∧ merge ((h.basesOf name).map above ++ [h.basesOf name]) = some order
      ∧ l = name :: order := by
  by_cases hname : name ∈ path
  · rw [linearizeBelow, if_pos (by simpa using hname)]
    simp [hname]
  rw [linearizeBelow_of_not_mem hname, and_iff_right hname]
  constructor
  · intro hl
    cases habove : (h.basesOf name).mapM (h.linearizeBelow (name :: path)) with
    | error e =>
      rw [habove] at hl
      cases hl
    | ok lists =>
      rw [habove] at hl
      obtain ⟨above, rfl, hall⟩ := mapM_eq_ok habove
      obtain ⟨order, hmerge, rfl⟩ := linearizeOver_eq_ok_iff.1 hl
      exact ⟨above, order, hall, hmerge, rfl⟩
  · rintro ⟨above, order, hall, hmerge, rfl⟩
    rw [mapM_ok hall]
    exact linearizeOver_eq_ok_iff.2 ⟨order, hmerge, rfl⟩

theorem mem_of_linearizeBelow (hl : h.linearizeBelow path name = .ok l) : name ∈ l := by
  obtain ⟨-, _, _, -, -, rfl⟩ := linearizeBelow_eq_ok_iff.1 hl
  exact List.mem_cons_self

/-- Whatever goes wrong, it is an inconsistency. -/
theorem inconsistent_of_linearizeBelow {e : LinearizationError}
    (he : h.linearizeBelow path name = .error e) : ∃ n, e = .inconsistent n := by
  induction path, name using linearizeBelow.induct h generalizing e with
  | case1 path name hname =>
    rw [linearizeBelow, if_pos hname] at he
    cases he
    exact ⟨name, rfl⟩
  | case2 path name hname ih =>
    rw [linearizeBelow_of_not_mem (by simpa using hname)] at he
    cases habove : (h.basesOf name).mapM (h.linearizeBelow (name :: path)) with
    | error e' =>
      rw [habove] at he
      cases he
      obtain ⟨base, hbase, herror⟩ := mapM_eq_error habove
      exact ih base hbase herror
    | ok lists =>
      rw [habove] at he
      have hover : linearizeOver name (h.basesOf name) lists = .error e := he
      rw [linearizeOver] at hover
      split at hover <;> cases hover
      exact ⟨name, rfl⟩

/-! ## 5. Linearizations without a path -/

/-- What is merged into the order of a class comes from the linearizations of its bases. -/
theorem mem_above_of_mem_merge {above : String → List String} {order : List String} {x : String}
    (hself : ∀ base ∈ h.basesOf name, base ∈ above base)
    (hmerge : merge ((h.basesOf name).map above ++ [h.basesOf name]) = some order) :
    x ∈ order ↔ ∃ base ∈ h.basesOf name, x ∈ above base := by
  rw [mem_merge hmerge]
  constructor
  · rintro ⟨s, hs, hx⟩
    rcases List.mem_append.1 hs with hs | hs
    · obtain ⟨base, hbase, rfl⟩ := List.mem_map.1 hs
      exact ⟨base, hbase, hx⟩
    · rw [List.mem_singleton.1 hs] at hx
      exact ⟨x, hx, hself x hx⟩
  · rintro ⟨base, hbase, hx⟩
    exact ⟨above base, List.mem_append_left _ (List.mem_map_of_mem hbase), hx⟩

/-- No class of the path is in the result. -/
theorem not_mem_of_mem_path (hl : h.linearizeBelow path name = .ok l) {x : String} (hx : x ∈ path) :
    x ∉ l := by
  induction path, name using linearizeBelow.induct h generalizing l with
  | case1 path name hname =>
    obtain ⟨hfresh, -⟩ := linearizeBelow_eq_ok_iff.1 hl
    exact absurd (by simpa using hname) hfresh
  | case2 path name _ ih =>
    obtain ⟨hfresh, above, order, hall, hmerge, rfl⟩ := linearizeBelow_eq_ok_iff.1 hl
    have hself := fun base hbase => mem_of_linearizeBelow (hall base hbase)
    rw [List.mem_cons, not_or, mem_above_of_mem_merge hself hmerge]
    refine ⟨fun heq => hfresh (heq ▸ hx), ?_⟩
    rintro ⟨base, hbase, hmem⟩
    exact ih base hbase (hall base hbase) (List.mem_cons_of_mem name hx) hmem

/-- A result is the same on every path that stays apart from it. -/
theorem linearizeBelow_eq_ok_of_apart (hl : h.linearizeBelow path name = .ok l)
    (hapart : ∀ x ∈ path', x ∉ l) : h.linearizeBelow path' name = .ok l := by
  induction path, name using linearizeBelow.induct h generalizing path' l with
  | case1 path name hname =>
    obtain ⟨hfresh, -⟩ := linearizeBelow_eq_ok_iff.1 hl
    exact absurd (by simpa using hname) hfresh
  | case2 path name _ ih =>
    have hself := mem_of_linearizeBelow hl
    obtain ⟨-, above, order, hall, hmerge, rfl⟩ := linearizeBelow_eq_ok_iff.1 hl
    refine linearizeBelow_eq_ok_iff.2 ⟨fun hmem => hapart name hmem hself, above, order, ?_, hmerge,
      rfl⟩
    intro base hbase
    refine ih base hbase (hall base hbase) fun x hx hmem => ?_
    rcases List.mem_cons.1 hx with rfl | hx
    · exact not_mem_of_mem_path (hall base hbase) List.mem_cons_self hmem
    · refine hapart x hx (List.mem_cons_of_mem name ?_)
      refine (sublist_merge hmerge (List.mem_append_left _ (List.mem_map_of_mem hbase))).subset hmem

theorem linearize_of_below (hl : h.linearizeBelow path name = .ok l) : h.linearize name = .ok l :=
  linearizeBelow_eq_ok_of_apart hl fun _ hx => absurd hx List.not_mem_nil

/-- Induction along the linearizations of bases, none of which holds the class itself. -/
theorem linearize_induction {motive : String → List String → Prop}
    (step : ∀ (name : String) (above : String → List String) (order : List String),
      (∀ base ∈ h.basesOf name, h.linearize base = .ok (above base) ∧ name ∉ above base
        ∧ base ∈ above base ∧ motive base (above base)) →
      merge ((h.basesOf name).map above ++ [h.basesOf name]) = some order →
      motive name (name :: order))
    (hl : h.linearize name = .ok l) : motive name l := by
  rw [linearize] at hl
  generalize [] = path at hl
  induction path, name using linearizeBelow.induct h generalizing l with
  | case1 path name hname =>
    obtain ⟨hfresh, -⟩ := linearizeBelow_eq_ok_iff.1 hl
    exact absurd (by simpa using hname) hfresh
  | case2 path name _ ih =>
    obtain ⟨-, above, order, hall, hmerge, rfl⟩ := linearizeBelow_eq_ok_iff.1 hl
    refine step name above order (fun base hbase => ?_) hmerge
    have hbelow := hall base hbase
    exact ⟨linearize_of_below hbelow, not_mem_of_mem_path hbelow List.mem_cons_self,
      mem_of_linearizeBelow hbelow, ih base hbase hbelow⟩

/-! ## 6. What a linearization is -/

/-- After the class comes an order that agrees with its bases, which have linearizations too. -/
theorem exists_agrees (hl : h.linearize name = .ok l) :
    ∃ order, l = name :: order ∧ name ∉ order ∧ h.Agrees name order
      ∧ ∀ base ∈ h.basesOf name, ∃ l', h.linearize base = .ok l' := by
  refine linearize_induction (motive := fun name l => ∃ order, l = name :: order ∧ name ∉ order
    ∧ h.Agrees name order ∧ ∀ base ∈ h.basesOf name, ∃ l', h.linearize base = .ok l') ?_ hl
  intro name above order hall hmerge
  have hmem := fun x => mem_above_of_mem_merge (x := x) (fun base hbase => (hall base hbase).2.2.1)
    hmerge
  have hsub : ∀ base ∈ h.basesOf name, above base <+ order := fun base hbase =>
    sublist_merge hmerge (List.mem_append_left _ (List.mem_map_of_mem hbase))
  refine ⟨order, rfl, fun hself => ?_, ⟨nodup_merge hmerge, fun x => ?_, ?_, ?_⟩, ?_⟩
  · obtain ⟨base, hbase, hself⟩ := (hmem name).1 hself
    exact (hall base hbase).2.1 hself
  · -- An ancestor of the class is a base of it or an ancestor of one.
    rw [hmem, TransGen.head'_iff]
    refine exists_congr fun base => ?_
    rw [← mem_basesOf]
    refine and_congr_right fun hbase => ?_
    obtain ⟨-, -, -, rest, hrest, -, hagrees, -⟩ := hall base hbase
    rw [hrest, List.mem_cons, hagrees.mem, Relation.reflTransGen_iff_eq_or_transGen]
  · exact sublist_merge hmerge (List.mem_append_right _ (List.mem_singleton_self _))
  · intro base hbase l' hl'
    cases (hall base hbase).1.symm.trans hl'
    exact hsub base hbase
  · exact fun base hbase => ⟨above base, (hall base hbase).1⟩

theorem mem_of_linearize (hl : h.linearize name = .ok l) {x : String} :
    x ∈ l ↔ ReflTransGen h.Extends name x := by
  obtain ⟨order, rfl, -, hagrees, -⟩ := exists_agrees hl
  rw [List.mem_cons, hagrees.mem, Relation.reflTransGen_iff_eq_or_transGen]

theorem nodup_of_linearize (hl : h.linearize name = .ok l) : l.Nodup := by
  obtain ⟨order, rfl, hname, hagrees, -⟩ := exists_agrees hl
  exact List.nodup_cons.2 ⟨hname, hagrees.nodup⟩

/-- Every class in a linearization has its own in it as a subsequence. -/
theorem exists_linearize_of_mem (hl : h.linearize name = .ok l) {x : String} (hx : x ∈ l) :
    ∃ l', h.linearize x = .ok l' ∧ l' <+ l := by
  rw [mem_of_linearize hl] at hx
  induction hx using ReflTransGen.head_induction_on generalizing l with
  | refl => exact ⟨l, hl, .refl l⟩
  | head hbase _ ih =>
    obtain ⟨order, rfl, -, hagrees, hbases⟩ := exists_agrees hl
    obtain ⟨lb, hlb⟩ := hbases _ (mem_basesOf.2 hbase)
    obtain ⟨l', hl', hsub⟩ := ih hlb
    have habove := hagrees.above _ (mem_basesOf.2 hbase) lb hlb
    exact ⟨l', hl', (hsub.trans habove).cons _⟩

/-- A class comes before each of its ancestors. -/
theorem pair_sublist_of_transGen (hl : h.linearize name = .ok l) {x y : String} (hx : x ∈ l)
    (hy : TransGen h.Extends x y) : [x, y] <+ l := by
  obtain ⟨_, hl', hsub⟩ := exists_linearize_of_mem hl hx
  obtain ⟨order, rfl, -, hagrees, -⟩ := exists_agrees hl'
  have hmem : [y] <+ order := List.singleton_sublist.2 ((hagrees.mem y).2 hy)
  exact (hmem.cons_cons x).trans hsub

/-- **A linearization is an order of a class and its ancestors.**  It starts with the class, names
nothing twice and holds the class and all that can be reached through bases in the hierarchy.  The
bases stand in it in order of declaration, each base has a linearization that is a subsequence, and
every class comes before all of its ancestors. -/
theorem linearize_orders {c : String} (hl : h.linearize c = .ok l) :
    l.head? = some c ∧ l.Nodup
      ∧ (∀ x, x ∈ l ↔ ReflTransGen h.Extends c x)
      ∧ h.basesOf c <+ l
      ∧ (∀ base ∈ h.basesOf c, ∃ l', h.linearize base = .ok l' ∧ l' <+ l)
      ∧ ∀ x ∈ l, ∀ y, TransGen h.Extends x y → [x, y] <+ l := by
  have hmem := fun x => mem_of_linearize hl (x := x)
  refine ⟨?_, nodup_of_linearize hl, hmem, ?_, fun base hbase => ?_, fun x hx y hy => ?_⟩
  · obtain ⟨order, rfl, -⟩ := exists_agrees hl
    rfl
  · obtain ⟨order, rfl, -, hagrees, -⟩ := exists_agrees hl
    exact hagrees.bases.cons c
  · exact exists_linearize_of_mem hl ((hmem base).2 (.single (mem_basesOf.1 hbase)))
  · exact pair_sublist_of_transGen hl hx hy

namespace Sample

/-- Two bases with one base in common, and bases that the hierarchy does not know. -/
def diamond : Hierarchy :=
  [("D", ["B", "ext.Mixin", "C"]), ("B", ["A"]), ("C", ["A"]), ("A", ["object"])]

theorem basesOf_diamond :
    diamond.basesOf "D" = ["B", "C"] ∧ diamond.basesOf "B" = ["A"] ∧ diamond.basesOf "C" = ["A"]
      ∧ diamond.basesOf "A" = [] := by decide

theorem linearize_diamond : diamond.linearize "D" = .ok ["D", "B", "C", "A"] := by
  obtain ⟨hd, hb, hc, ha⟩ := basesOf_diamond
  simp (disch := decide) only [linearize, linearizeBelow_of_not_mem, hd, hb, hc, ha,
    List.mapM_cons, List.mapM_nil]
  cbv

theorem diamond_ordered :
    diamond.linearize "D" = .ok ["D", "B", "C", "A"]
      ∧ diamond.basesOf "D" = ["B", "C"] ∧ ["B", "C"] <+ ["D", "B", "C", "A"]
      ∧ ∃ l, diamond.linearize "C" = .ok l ∧ l <+ ["D", "B", "C", "A"] := by
  obtain ⟨-, -, -, hbases, habove, -⟩ := linearize_orders linearize_diamond
  rw [basesOf_diamond.1] at hbases habove
  exact ⟨linearize_diamond, basesOf_diamond.1, hbases, habove "C" (by decide)⟩

end Sample

/-! ## 7. When there is none -/

/-- Without circles, and with an order that agrees for every class above, there is a result. -/
theorem exists_linearizeBelow (hpath : ∀ x ∈ path, ¬ ReflTransGen h.Extends name x)
    (hacyclic : ∀ d, ReflTransGen h.Extends name d → ¬ TransGen h.Extends d d)
    (hagrees : ∀ d, ReflTransGen h.Extends name d → ∃ order, h.Agrees d order) :
    ∃ l, h.linearizeBelow path name = .ok l := by
  induction path, name using linearizeBelow.induct h with
  | case1 path name hname => exact absurd .refl (hpath name (by simpa using hname))
  | case2 path name hname ih =>
    have hbases : ∀ base ∈ h.basesOf name, ∃ l, h.linearizeBelow (name :: path) base = .ok l := by
      intro base hbase
      have hstep := mem_basesOf.1 hbase
      refine ih base hbase ?_ (fun d hd => hacyclic d (.head hstep hd))
        (fun d hd => hagrees d (.head hstep hd))
      intro x hx hreach
      rcases List.mem_cons.1 hx with rfl | hx
      · exact hacyclic x .refl (TransGen.head'_iff.2 ⟨base, hstep, hreach⟩)
      · exact hpath x hx (.head hstep hreach)
    choose! above habove using hbases
    obtain ⟨order, horder⟩ := hagrees name .refl
    have hsub : ∀ s ∈ (h.basesOf name).map above ++ [h.basesOf name], s <+ order := by
      intro s hs
      rcases List.mem_append.1 hs with hs | hs
      · obtain ⟨base, hbase, rfl⟩ := List.mem_map.1 hs
        exact horder.above base hbase _ (linearize_of_below (habove base hbase))
      · rw [List.mem_singleton.1 hs]
        exact horder.bases
    obtain ⟨merged, hmerged⟩ := exists_merge horder.nodup hsub
    have hfresh : name ∉ path := by simpa using hname
    exact ⟨_, linearizeBelow_eq_ok_iff.2 ⟨hfresh, above, merged, habove, hmerged, rfl⟩⟩

/-- **Just the inconsistent hierarchies are rejected.**  For every hierarchy and class there is a
linearization or the report of an inconsistency; and it is the latter exactly if a circle of bases
can be reached from the class, or for the class or one above it no order of its ancestors without
repetition has its bases and their linearizations as subsequences. -/
theorem linearize_inconsistent_iff (h : Hierarchy) (c : String) :
    ((∃ l, h.linearize c = .ok l) ∨ ∃ n, h.linearize c = .error (.inconsistent n))
      ∧ ((∃ n, h.linearize c = .error (.inconsistent n))
        ↔ (∃ d, ReflTransGen h.Extends c d ∧ TransGen h.Extends d d)
          ∨ ∃ d, ReflTransGen h.Extends c d ∧ ¬ ∃ order, h.Agrees d order) := by
  cases hl : h.linearize c with
  | ok l =>
    refine ⟨.inl ⟨l, rfl⟩, iff_of_false (by simp) ?_⟩
    rintro (⟨d, hd, hcircle⟩ | ⟨d, hd, hnone⟩)
    · have hpair := pair_sublist_of_transGen hl ((mem_of_linearize hl).2 hd) hcircle
      simpa using hpair.nodup (nodup_of_linearize hl)
    · obtain ⟨_, hd, -⟩ := exists_linearize_of_mem hl ((mem_of_linearize hl).2 hd)
      obtain ⟨order, -, -, hagrees, -⟩ := exists_agrees hd
      exact hnone ⟨order, hagrees⟩
  | error e =>
    obtain ⟨n, rfl⟩ := inconsistent_of_linearizeBelow hl
    refine ⟨.inr ⟨n, rfl⟩, iff_of_true ⟨n, rfl⟩ ?_⟩
    by_contra hnone
    rw [not_or] at hnone
    obtain ⟨l, hok⟩ : ∃ l, h.linearize c = .ok l :=
      exists_linearizeBelow (by simp) (fun d hd hcircle => hnone.1 ⟨d, hd, hcircle⟩)
        (fun d hd => by_contra fun hd' => hnone.2 ⟨d, hd, hd'⟩)
    cases hl.symm.trans hok

/-- A base that stands before one of its own classes leaves no order. -/
example : linearizeOver "C" ["A", "B"] [["A"], ["B", "A"]] = .error (.inconsistent "C") := by
  cbv

end Hierarchy

end ApiSurface
