import ApiSurface.Text.Basic
import Mathlib.Data.List.Basic
/-!
# Dotted names

A dotted name is taken apart into its components and put together again without loss, whatever the
components are; empty ones count too.  A dot between two names divides the components of the one
from those of the other.  From this follow the two relations between names that imports need: a name
lies within another, or the other is its parent.
-/

namespace ApiSurface.Text

/-! ## 1. Splitting and joining -/

theorem splitOn_eq (sep : Char) (t : List Char) : splitOn sep t = t.splitOn sep := by
  induction t with
  | nil => rfl
  | cons c t ih =>
    rw [splitOn, ih, List.splitOn_cons_eq_if_modifyHead]
    simp only [beq_iff_eq]
    split
    · rfl
    · cases h : t.splitOn sep with
      | nil => exact absurd h (List.splitOn_ne_nil sep t)
      | cons piece more => rfl

theorem joinWith_eq (sep : List Char) (pieces : List (List Char)) :
    joinWith sep pieces = sep.intercalate pieces := by
  induction pieces with
  | nil => rfl
  | cons piece more ih =>
    cases more with
    | nil => exact List.intercalate_singleton.symm
    | cons next more =>
      rw [List.intercalate_cons_cons, ← ih]
      rfl

/-- No piece holds the separator. -/
theorem not_mem_of_mem_splitOn {sep : Char} {t piece : List Char} (h : piece ∈ splitOn sep t) :
    sep ∉ piece := by
  induction t generalizing piece with
  | nil =>
    rw [List.mem_singleton.1 h]
    exact List.not_mem_nil
  | cons c t ih =>
    rw [splitOn] at h
    split at h
    · rcases List.mem_cons.1 h with rfl | h
      · exact List.not_mem_nil
      · exact ih h
    · rename_i hc
      cases hsplit : splitOn sep t with
      | nil =>
        rw [hsplit] at h
        rw [List.mem_singleton.1 h, List.mem_singleton]
        exact fun heq => hc heq.symm
      | cons first more =>
        rw [hsplit] at h ih
        rcases List.mem_cons.1 h with rfl | h
        · rw [List.mem_cons, not_or]
          exact ⟨fun heq => hc heq.symm, ih List.mem_cons_self⟩
        · exact ih (List.mem_cons_of_mem first h)

/-! ## 2. Components -/

/-- A name without a dot. -/
def IsPlain (name : String) : Prop := '.' ∉ name.toList

theorem components_ne_nil (name : String) : components name ≠ [] := by
  rw [components, splitOn_eq]
  exact fun h => List.splitOn_ne_nil _ _ (List.map_eq_nil_iff.1 h)

theorem joinDots_components (name : String) : joinDots (components name) = name := by
  rw [joinDots, components, List.map_map, joinWith_eq, splitOn_eq]
  have hback : String.toList ∘ String.ofList = id := funext fun t => String.toList_ofList
  rw [hback, List.map_id, List.intercalate_splitOn, String.ofList_toList]

theorem components_dot (scope name : String) :
    components (scope ++ "." ++ name) = components scope ++ components name := by
  have hchars : (scope ++ "." ++ name).toList = scope.toList ++ '.' :: name.toList := by
    simp [String.toList_append]
  rw [components, hchars, splitOn_eq, List.splitOn_append_cons_self, List.map_append,
    ← splitOn_eq, ← splitOn_eq]
  rfl

theorem components_of_isPlain {name : String} (h : IsPlain name) : components name = [name] := by
  rw [components, splitOn_eq, List.splitOn_eq_singleton h, List.map_singleton, String.ofList_toList]

theorem isPlain_of_mem_components {name part : String} (h : part ∈ components name) :
    IsPlain part := by
  obtain ⟨piece, hpiece, rfl⟩ := List.mem_map.1 h
  rw [IsPlain, String.toList_ofList]
  exact not_mem_of_mem_splitOn hpiece

theorem joinDots_concat {parts : List String} (h : parts ≠ []) (last : String) :
    joinDots (parts ++ [last]) = joinDots parts ++ "." ++ last := by
  refine String.toList_inj.1 ?_
  rw [String.toList_append, String.toList_append, joinDots, joinDots, String.toList_ofList,
    String.toList_ofList, List.map_append, List.map_singleton]
  induction parts with
  | nil => exact absurd rfl h
  | cons part more ih =>
    cases more with
    | nil => rfl
    | cons next more =>
      have hrest := ih (by simp)
      simp only [List.map_cons, List.cons_append, joinWith, List.append_assoc] at hrest ⊢
      rw [hrest]

/-! ## 3. Names within names -/

theorem dropStart?_eq_some {start t rest : List Char} :
    dropStart? start t = some rest ↔ t = start ++ rest := by
  induction start generalizing t with
  | nil => rw [dropStart?, Option.some.injEq, List.nil_append]
  | cons a start ih =>
    cases t with
    | nil => simp [dropStart?]
    | cons c t =>
      rw [dropStart?]
      split
      · rename_i hac
        rw [ih, hac, List.cons_append, List.cons.injEq, eq_self, true_and]
      · rename_i hac
        simp only [reduceCtorEq, List.cons_append, List.cons.injEq, false_iff, not_and]
        exact fun heq => absurd heq.symm hac

/-- A name lies within a scope if it is the scope or goes on after it with a dot. -/
theorem isWithin_iff {scope name : String} :
    isWithin scope name = true ↔ scope = name ∨ ∃ rest, name = scope ++ "." ++ rest := by
  have hchars : ∀ rest, (scope ++ "." ++ rest).toList = scope.toList ++ '.' :: rest.toList := by
    intro rest
    simp [String.toList_append]
  rw [isWithin]
  constructor
  · intro h
    split at h
    · rename_i hdrop
      rw [dropStart?_eq_some, List.append_nil] at hdrop
      exact .inl (String.toList_inj.1 hdrop).symm
    · rename_i c rest hdrop
      rw [dropStart?_eq_some, beq_iff_eq.1 h] at hdrop
      refine .inr ⟨String.ofList rest, String.toList_inj.1 ?_⟩
      rw [hdrop, hchars, String.toList_ofList]
    · cases h
  · rintro (rfl | ⟨rest, rfl⟩)
    · rw [dropStart?_eq_some.2 (List.append_nil _).symm]
    · rw [dropStart?_eq_some.2 (hchars rest)]
      rfl

/-- The parent of a name is what stands before its last dot. -/
theorem parentName?_eq_some {scope name : String} :
    parentName? name = some scope ↔ ∃ last, IsPlain last ∧ name = scope ++ "." ++ last := by
  constructor
  · intro h
    rw [parentName?] at h
    split at h
    · cases h
    · cases h
    · rename_i hnil hone
      cases h
      refine ⟨(components name).getLast (components_ne_nil name), ?_, ?_⟩
      · exact isPlain_of_mem_components (List.getLast_mem _)
      · have hmore : (components name).dropLast ≠ [] := by
          intro hdrop
          have hsplit := List.dropLast_append_getLast (components_ne_nil name)
          rw [hdrop] at hsplit
          exact hone _ hsplit.symm
        rw [← joinDots_concat hmore, List.dropLast_append_getLast, joinDots_components]
  · rintro ⟨last, hplain, rfl⟩
    have hparts := components_dot scope last
    rw [components_of_isPlain hplain] at hparts
    have hparent : (components (scope ++ "." ++ last)).dropLast = components scope := by
      rw [hparts, List.dropLast_concat]
    rw [parentName?]
    split
    · rename_i h
      exact absurd h (components_ne_nil _)
    · rename_i h
      rw [h] at hparent
      exact absurd hparent.symm (components_ne_nil scope)
    · rw [hparent, joinDots_components]

end ApiSurface.Text
