import ApiSurface.Docstring.Numpy
import ApiSurface.Proofs.DocstringLines
/-!
# Headers of Numpy sections

A header is a line that is not blank with an underline below it, whatever stands around the two.
Sections are found by going from header to header: the underline is passed over, and the lines after
it belong to the section up to the next header.

An underline may have another one below it, and is a header then.  Where it is the underline of a
header that was visited it is passed over all the same.  So the visited headers are exactly those
that are no underlines of visited ones, each visited once and in order (`exists_visits`).
-/

namespace ApiSurface.Docstring.Numpy

variable {ls : List Line} {l u : Line} {visited : List Nat} {i m : Nat}

/-! ## 1. Headers -/

/-- That a line consists of three or more dashes, and blanks around them. -/
def IsUnderline (line : Line) : Prop := ∃ n, Text.trim line = List.replicate (n + 3) '-'

theorem isUnderline_iff : isUnderline l = true ↔ IsUnderline l := by
  rw [isUnderline, Bool.and_eq_true, decide_eq_true_eq, List.all_eq_true]
  simp only [beq_iff_eq]
  constructor
  · rintro ⟨hlength, hdashes⟩
    refine ⟨(Text.trim l).length - 3, List.eq_replicate_iff.2 ⟨?_, hdashes⟩⟩
    omega
  · rintro ⟨n, htrim⟩
    rw [htrim, List.length_replicate]
    exact ⟨Nat.le_add_left 3 n, fun c hc => List.eq_of_mem_replicate hc⟩

instance : DecidablePred IsUnderline := fun _ => decidable_of_iff _ isUnderline_iff

/-- Blanks around a line do not count. -/
theorem isUnderline_congr (h : Text.trim l = Text.trim u) : IsUnderline l ↔ IsUnderline u := by
  rw [IsUnderline, IsUnderline, h]

/-- That the line at a position is a header. -/
def IsHeader (ls : List Line) (i : Nat) : Prop :=
  ∃ l u, ls[i]? = some l ∧ ls[i + 1]? = some u ∧ ¬ Text.IsBlank l ∧ IsUnderline u

theorem startsSection_iff : startsSection ls = true ↔ IsHeader ls 0 := by
  have hblank : ∀ l, (!Text.isBlankLine l) = true ↔ ¬ Text.IsBlank l := by
    intro l
    rw [← Text.isBlankLine_iff, Bool.not_eq_true', Bool.not_eq_true]
  match ls with
  | [] => simp [startsSection, IsHeader]
  | [l] => simp [startsSection, IsHeader]
  | l :: u :: more => simp [startsSection, IsHeader, hblank, isUnderline_iff]

theorem isHeader_drop : IsHeader (ls.drop m) i ↔ IsHeader ls (m + i) := by
  simp only [IsHeader, List.getElem?_drop, Nat.add_assoc]

instance (ls : List Line) (i : Nat) : Decidable (IsHeader ls i) :=
  decidable_of_iff (startsSection (ls.drop i) = true) (startsSection_iff.trans isHeader_drop)

theorem beforeSection_append (ls : List Line) : beforeSection ls ++ fromSection ls = ls := by
  induction ls with
  | nil => rfl
  | cons l more ih =>
    rw [beforeSection, fromSection]
    split
    · rfl
    · rw [List.cons_append, ih]

/-- No header is above the first section. -/
theorem not_isHeader_of_lt (h : i < (beforeSection ls).length) : ¬ IsHeader ls i := by
  induction ls generalizing i with
  | nil => cases h
  | cons l more ih =>
    rw [beforeSection] at h
    split at h
    · cases h
    · rename_i hstart
      cases i with
      | zero => exact fun hheader => hstart (startsSection_iff.2 hheader)
      | succ i => exact ih (Nat.lt_of_succ_lt_succ h)

theorem isHeader_fromSection (h : fromSection ls ≠ []) : IsHeader (fromSection ls) 0 := by
  induction ls with
  | nil => exact absurd rfl h
  | cons l more ih =>
    rw [fromSection] at h ⊢
    split
    · rename_i hstart
      exact startsSection_iff.1 hstart
    · rename_i hstart
      rw [if_neg hstart] at h
      exact ih h

/-! ## 2. Visits -/

/-- That positions are in order and exactly those of headers that are no underlines of others of
them. -/
structure Visits (ls : List Line) (visited : List Nat) : Prop where
  ascending : visited.Pairwise (· < ·)
  mem_iff : ∀ i, i ∈ visited ↔ IsHeader ls i ∧ ∀ j ∈ visited, i ≠ j + 1

theorem Visits.shift (h : Visits (ls.drop m) visited) (hbefore : ∀ i < m, ¬ IsHeader ls i) :
    Visits ls (visited.map (m + ·)) := by
  refine ⟨List.pairwise_map.2 (h.ascending.imp fun hlt => Nat.add_lt_add_left hlt m), fun i => ?_⟩
  simp only [List.mem_map, forall_exists_index, and_imp, forall_apply_eq_imp_iff₂]
  constructor
  · rintro ⟨k, hk, rfl⟩
    obtain ⟨hheader, hother⟩ := (h.mem_iff k).1 hk
    refine ⟨isHeader_drop.1 hheader, fun j hj heq => hother j hj ?_⟩
    omega
  · rintro ⟨hheader, hother⟩
    have hle : m ≤ i := Nat.le_of_not_lt fun hlt => hbefore i hlt hheader
    obtain ⟨k, rfl⟩ := Nat.exists_eq_add_of_le hle
    refine ⟨k, (h.mem_iff k).2 ⟨isHeader_drop.2 hheader, fun j hj heq => hother j hj ?_⟩, rfl⟩
    omega

/-- A header in front is visited, and the underline below it is not. -/
theorem Visits.cons (h : Visits ls visited) (hheader : IsHeader (l :: u :: ls) 0) :
    Visits (l :: u :: ls) (0 :: visited.map (2 + ·)) := by
  constructor
  · refine List.pairwise_cons.2 ⟨fun j hj => ?_, ?_⟩
    · obtain ⟨k, -, rfl⟩ := List.mem_map.1 hj
      omega
    · exact List.pairwise_map.2 (h.ascending.imp fun hlt => Nat.add_lt_add_left hlt 2)
  · intro i
    simp only [List.mem_cons, List.mem_map, forall_eq_or_imp, forall_exists_index, and_imp,
      forall_apply_eq_imp_iff₂]
    constructor
    · rintro (rfl | ⟨k, hk, rfl⟩)
      · exact ⟨hheader, by omega, fun j _ => by omega⟩
      · obtain ⟨hk, hother⟩ := (h.mem_iff k).1 hk
        refine ⟨Nat.add_comm 2 k ▸ hk, by omega, fun j hj heq => hother j hj ?_⟩
        omega
    · rintro ⟨hi, hfirst, hother⟩
      match i with
      | 0 => exact .inl rfl
      | 1 => exact absurd rfl hfirst
      | k + 2 =>
        refine .inr ⟨k, (h.mem_iff k).2 ⟨hi, fun j hj heq => hother j hj ?_⟩, by omega⟩
        omega

theorem visits_nil (h : ∀ i, ¬ IsHeader ls i) : Visits ls [] :=
  ⟨.nil, fun i => by simp [h i]⟩

/-! ## 3. What is visited is found -/

/-- Where the section of a visited header ends: at the next one, or with the text. -/
def endOf (ls : List Line) (visited : List Nat) (i : Nat) : Nat :=
  (visited.find? (i < ·)).getD ls.length

/-- The section of a header: the lines below its underline, up to where it ends. -/
def sectionAt (ls : List Line) (visited : List Nat) (i : Nat) : Section :=
  { heading := Text.trim (ls[i]?.getD [])
    body := (ls.drop (i + 2)).take (endOf ls visited i - (i + 2)) }

theorem endOf_shift (before : List Nat) (hm : m ≤ ls.length)
    (hbefore : ∀ j ∈ before, j ≤ m + i) :
    endOf ls (before ++ visited.map (m + ·)) (m + i) = m + endOf (ls.drop m) visited i := by
  have hnone : before.find? (m + i < ·) = none := by
    rw [List.find?_eq_none]
    intro j hj
    have hle := hbefore j hj
    simpa using hle
  have hnext : (fun k => decide (m + i < k)) ∘ (m + ·) = fun k => decide (i < k) := by
    funext k
    simp
  rw [endOf, endOf, List.find?_append, hnone, Option.none_or, List.find?_map, hnext,
    List.length_drop]
  cases visited.find? (i < ·) with
  | none => simp [hm]
  | some k => rfl

theorem sectionAt_shift (before : List Nat) (hm : m ≤ ls.length)
    (hbefore : ∀ j ∈ before, j ≤ m + i) :
    sectionAt ls (before ++ visited.map (m + ·)) (m + i) = sectionAt (ls.drop m) visited i := by
  have hlength : m + endOf (ls.drop m) visited i - (m + i + 2)
      = endOf (ls.drop m) visited i - (i + 2) := by omega
  rw [sectionAt, sectionAt, endOf_shift before hm hbefore, hlength, List.getElem?_drop,
    List.drop_drop, Nat.add_assoc]

/-- The section of a header in front ends at the first header behind it. -/
theorem sectionAt_zero :
    sectionAt (l :: u :: ls) (0 :: visited.map (2 + ·)) 0
      = { heading := Text.trim l, body := ls.take (visited.head?.getD ls.length) } := by
  have hend : endOf (l :: u :: ls) (0 :: visited.map (2 + ·)) 0
      = visited.head?.getD ls.length + 2 := by
    cases visited with
    | nil => rfl
    | cons j visited => simp [endOf, Nat.add_comm]
  rw [sectionAt, hend]
  rfl

/-- Sections keep their lines wherever these stand. -/
theorem map_sectionAt_shift (hm : m ≤ ls.length) :
    (visited.map (m + ·)).map (sectionAt ls (visited.map (m + ·)))
      = visited.map (sectionAt (ls.drop m) visited) := by
  rw [List.map_map]
  exact List.map_congr_left fun i _ => sectionAt_shift [] hm (List.forall_mem_nil _)

theorem map_sectionAt_cons :
    (0 :: visited.map (2 + ·)).map (sectionAt (l :: u :: ls) (0 :: visited.map (2 + ·)))
      = { heading := Text.trim l, body := ls.take (visited.head?.getD ls.length) }
        :: visited.map (sectionAt ls visited) := by
  rw [List.map_cons, sectionAt_zero, List.map_map]
  refine congrArg _ (List.map_congr_left fun i _ => ?_)
  exact sectionAt_shift [0] (Nat.le_add_left 2 ls.length)
    (List.forall_mem_singleton.2 (Nat.zero_le (2 + i)))

theorem sections_nil : sections [] = [] := by simp [sections]

/-- Without a section there are no headers. -/
theorem visits_of_fromSection_eq_nil (h : fromSection ls = []) :
    Visits ls [] ∧ beforeSection ls = ls := by
  have happend := beforeSection_append ls
  rw [h, List.append_nil] at happend
  refine ⟨visits_nil fun i hheader => ?_, happend⟩
  obtain ⟨l, u, hl, -⟩ := id hheader
  have hlt := (List.getElem?_eq_some_iff.1 hl).1
  rw [← happend] at hlt
  exact not_isHeader_of_lt hlt hheader

/-- The sections found are those of the visited headers. -/
theorem exists_visits (ls : List Line) :
    ∃ visited, Visits ls visited ∧ 2 * visited.length ≤ ls.length
      ∧ beforeSection ls = ls.take (visited.head?.getD ls.length)
      ∧ sections (fromSection ls) = visited.map (sectionAt ls visited) := by
  have happend := beforeSection_append ls
  match hfrom : fromSection ls with
  | [] =>
    obtain ⟨hvisits, hbefore⟩ := visits_of_fromSection_eq_nil hfrom
    exact ⟨[], hvisits, by simp, by simp [hbefore], sections_nil⟩
  | [l] =>
    have hheader : IsHeader [l] 0 := hfrom ▸ isHeader_fromSection (by simp [hfrom])
    obtain ⟨_, _, _, hu, _⟩ := hheader
    cases hu
  | l :: u :: more =>
    have hheader : IsHeader (l :: u :: more) 0 := hfrom ▸ isHeader_fromSection (by simp [hfrom])
    rw [hfrom] at happend
    have hdrop : ls.drop (beforeSection ls).length = l :: u :: more := by
      rw [← congrArg (List.drop (beforeSection ls).length) happend, List.drop_left]
    have hlength : (beforeSection ls).length + (more.length + 2) = ls.length := by
      rw [← congrArg List.length happend, List.length_append]
      rfl
    obtain ⟨visited, hvisits, hhalf, hbody, hrest⟩ := exists_visits more
    refine ⟨(0 :: visited.map (2 + ·)).map ((beforeSection ls).length + ·), ?_, ?_, ?_, ?_⟩
    · refine Visits.shift ?_ fun i hi => not_isHeader_of_lt hi
      rw [hdrop]
      exact hvisits.cons hheader
    · simp only [List.length_map, List.length_cons]
      omega
    · calc beforeSection ls
          = (beforeSection ls ++ l :: u :: more).take (beforeSection ls).length := by
            rw [List.take_left]
        _ = ls.take (beforeSection ls).length := by rw [happend]
    · rw [map_sectionAt_shift (by omega), hdrop, map_sectionAt_cons, sections, hbody, hrest]
termination_by ls.length
decreasing_by omega

end ApiSurface.Docstring.Numpy
