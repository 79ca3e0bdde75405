import ApiSurface.Signature.Results
import Mathlib.Data.List.Nodup
/-!
# The names of results

Results get their names one after the other, and each name is given once: a declared name is passed
over when it is taken, and the count goes on past every number whose name is.  The search for a free
number stops after as many tries as there are names taken.  By then it has found one, since it has
looked at one name more than there are taken.

So the results of a function have different names, whatever its docstring declares.  Their types are
the slots, in order.  Every number that is passed over stands for a taken name, so the count is
never ahead of the names (`freshNumber_le`), and no number exceeds that of the slots
(`numbered_of_mem_nameResults`).
-/

namespace ApiSurface

/-! ## 1. Free numbers -/

theorem numberedName_injective : Function.Injective numberedName := by
  intro m n h
  have hchars := congrArg String.toList h
  rw [numberedName, numberedName, String.toList_append, String.toList_append] at hchars
  have hdigits : Nat.toDigits 10 m = Nat.toDigits 10 n := by
    rw [← Nat.toList_repr, ← Nat.toList_repr]
    exact List.append_cancel_left hchars
  rw [← @Nat.ofDigitChars_ten_toDigits m, hdigits, Nat.ofDigitChars_ten_toDigits]

/-- Where the search ends with a taken name, all names on its way are taken. -/
theorem mem_of_mem_freshNumber {taken : List String} {tries n : Nat}
    (h : numberedName (freshNumber taken tries n) ∈ taken) :
    ∀ k, n ≤ k → k ≤ n + tries → numberedName k ∈ taken := by
  induction tries generalizing n with
  | zero =>
    intro k hle hge
    have hk : k = n := by omega
    rw [hk]
    exact h
  | succ tries ih =>
    intro k hle hge
    rw [freshNumber] at h
    split at h
    · rename_i htaken
      by_cases hk : k = n
      · rw [hk]
        exact List.contains_iff_mem.1 htaken
      · exact ih h k (by omega) (by omega)
    · rename_i hfree
      exact absurd (List.contains_iff_mem.2 h) hfree

/-- There are no more numbers in a row with taken names than there are names taken. -/
theorem le_length_of_numbered {taken : List String} {first count : Nat}
    (h : ∀ k, first ≤ k → k < first + count → numberedName k ∈ taken) : count ≤ taken.length := by
  have hnodup : ((List.range' first count).map numberedName).Nodup :=
    (List.nodup_range' 1).map numberedName_injective
  have hsubset : (List.range' first count).map numberedName ⊆ taken := by
    intro name hname
    obtain ⟨k, hk, rfl⟩ := List.mem_map.1 hname
    rw [List.mem_range'_1] at hk
    exact h k hk.1 hk.2
  have hlength := hnodup.length_le_of_subset hsubset
  rwa [List.length_map, List.length_range'] at hlength

/-- The search finds a name that is not taken. -/
theorem numberedName_freshNumber (taken : List String) (n : Nat) :
    numberedName (freshNumber taken taken.length n) ∉ taken := by
  intro h
  have htaken := mem_of_mem_freshNumber h
  have hlength : taken.length + 1 ≤ taken.length :=
    le_length_of_numbered fun k hle hlt => htaken k hle (by omega)
  omega

/-- The names that the search has passed are taken. -/
theorem mem_of_lt_freshNumber {taken : List String} {tries n k : Nat} (hle : n ≤ k)
    (hlt : k < freshNumber taken tries n) : numberedName k ∈ taken := by
  induction tries generalizing n with
  | zero =>
    rw [freshNumber] at hlt
    omega
  | succ tries ih =>
    rw [freshNumber] at hlt
    split at hlt
    · rename_i htaken
      by_cases hk : k = n
      · rw [hk]
        exact List.contains_iff_mem.1 htaken
      · exact ih (by omega) hlt
    · omega

/-- If the names of all numbers so far are taken, they still are with the next one, so that the
number is never more than the names. -/
theorem freshNumber_le {taken : List String} {n : Nat}
    (h : ∀ k, 1 ≤ k → k ≤ n → numberedName k ∈ taken) :
    (∀ k, 1 ≤ k → k ≤ freshNumber taken taken.length (n + 1) →
      numberedName k ∈ numberedName (freshNumber taken taken.length (n + 1)) :: taken)
    ∧ freshNumber taken taken.length (n + 1) ≤ taken.length + 1 := by
  have hall : ∀ k, 1 ≤ k → k ≤ freshNumber taken taken.length (n + 1) →
      numberedName k ∈ numberedName (freshNumber taken taken.length (n + 1)) :: taken := by
    intro k hpos hle
    rw [List.mem_cons]
    by_cases hlast : k = freshNumber taken taken.length (n + 1)
    · exact .inl (by rw [← hlast])
    by_cases hbefore : k ≤ n
    · exact .inr (h k hpos hbefore)
    · exact .inr (mem_of_lt_freshNumber (by omega) (Nat.lt_of_le_of_ne hle hlast))
  exact ⟨hall, le_length_of_numbered fun k hpos hlt => hall k hpos (by omega)⟩

/-! ## 2. Different names -/

section Naming

variable (functionId : String) (declared : List ResultDescription)

/-- A slot gets a name that is not taken, and the slots after it find this name taken. -/
theorem nameSlots_cons (taken : List String) (n : Nat) (t : ApiType)
    (inPlace : Option ResultDescription) (more : List (ApiType × Option ResultDescription)) :
    ∃ name last docstring, name ∉ taken
      ∧ nameSlots functionId declared taken n ((t, inPlace) :: more)
        = resultRow functionId name t docstring
          :: nameSlots functionId declared (name :: taken) last more := by
  rw [nameSlots]
  cases hd : declaredFor? declared taken t with
  | some d =>
    have hfound := List.find?_some hd
    rw [Bool.and_eq_true, Bool.and_eq_true, Bool.not_eq_true'] at hfound
    refine ⟨d.name, n, some d, fun hmem => ?_, rfl⟩
    rw [List.contains_iff_mem.2 hmem] at hfound
    exact absurd hfound.1.2 (by decide)
  | none => exact ⟨_, _, inPlace, numberedName_freshNumber taken (n + 1), rfl⟩

/-- No name is given twice, nor one that was taken before. -/
theorem nameSlots_names (taken : List String) (n : Nat)
    (slots : List (ApiType × Option ResultDescription)) :
    ((nameSlots functionId declared taken n slots).map ResultRow.name).Nodup
      ∧ ∀ name ∈ (nameSlots functionId declared taken n slots).map ResultRow.name,
        name ∉ taken := by
  induction slots generalizing taken n with
  | nil => exact ⟨List.nodup_nil, by simp [nameSlots]⟩
  | cons slot more ih =>
    obtain ⟨name, last, docstring, hfree, heq⟩ :=
      nameSlots_cons functionId declared taken n slot.1 slot.2 more
    obtain ⟨hnodup, hapart⟩ := ih (name :: taken) last
    rw [heq, List.map_cons]
    constructor
    · refine List.nodup_cons.2 ⟨fun hmem => ?_, hnodup⟩
      exact hapart _ hmem List.mem_cons_self
    · rintro name' hname' htaken
      rcases List.mem_cons.1 hname' with rfl | hname'
      · exact hfree htaken
      · exact hapart name' hname' (List.mem_cons_of_mem name htaken)

theorem nodup_nameResults (slots : List ApiType) :
    ((nameResults functionId slots declared).map ResultRow.name).Nodup := by
  unfold nameResults
  split
  · split
    · exact (nameSlots_names functionId _ [] 0 _).1
    · exact List.nodup_singleton _
  · exact (nameSlots_names functionId _ [] 0 _).1

/-! ## 3. Types -/

theorem nameSlots_types (taken : List String) (n : Nat)
    (slots : List (ApiType × Option ResultDescription)) :
    (nameSlots functionId declared taken n slots).map ResultRow.type = slots.map Prod.fst := by
  induction slots generalizing taken n with
  | nil => rfl
  | cons slot more ih =>
    obtain ⟨name, last, docstring, -, heq⟩ :=
      nameSlots_cons functionId declared taken n slot.1 slot.2 more
    rw [heq, List.map_cons, ih, List.map_cons]
    rfl

theorem map_fst_aligned (slots : List ApiType) : (aligned slots declared).map Prod.fst = slots := by
  unfold aligned
  split
  · rename_i hlength
    exact List.map_fst_zip (by simp [hlength])
  · rw [List.map_map]
    exact List.map_id slots

theorem nameResults_types (slots : List ApiType) :
    (nameResults functionId slots declared).map ResultRow.type = slots := by
  unfold nameResults
  split
  · split
    · rw [nameSlots_types, map_fst_aligned]
    · rfl
  · rw [nameSlots_types, map_fst_aligned]

/-! ## 4. Numbers -/

/-- A name that is not declared has a number, and this is no more than there are names by then. -/
theorem numbered_of_mem_nameSlots (taken : List String) (n : Nat)
    (h : ∀ k, 1 ≤ k → k ≤ n → numberedName k ∈ taken)
    (slots : List (ApiType × Option ResultDescription)) :
    ∀ name ∈ (nameSlots functionId declared taken n slots).map ResultRow.name,
      (∃ d ∈ declared, d.name = name)
        ∨ ∃ k ≤ taken.length + slots.length, name = numberedName k := by
  induction slots generalizing taken n with
  | nil => simp [nameSlots]
  | cons slot more ih =>
    have hlength : ∀ name : String,
        (name :: taken).length + more.length = taken.length + (slot :: more).length := by
      intro name
      simp only [List.length_cons]
      omega
    rw [nameSlots]
    cases hd : declaredFor? declared taken slot.1 with
    | some d =>
      have hmore := ih (d.name :: taken) n fun k hpos hle =>
        List.mem_cons_of_mem d.name (h k hpos hle)
      rw [hlength] at hmore
      exact List.forall_mem_cons.2 ⟨.inl ⟨d, List.mem_of_find?_eq_some hd, rfl⟩, hmore⟩
    | none =>
      obtain ⟨htaken, hle⟩ := freshNumber_le h
      have hmore := ih _ _ htaken
      rw [hlength] at hmore
      refine List.forall_mem_cons.2 ⟨.inr ⟨_, ?_, rfl⟩, hmore⟩
      rw [List.length_cons]
      omega

/-- A result of a function has a declared name or a number up to that of the slots. -/
theorem numbered_of_mem_nameResults (slots : List ApiType) :
    ∀ name ∈ (nameResults functionId slots declared).map ResultRow.name,
      (∃ d ∈ declared, d.name = name) ∨ ∃ k ≤ slots.length, name = numberedName k := by
  have hlength : (aligned slots declared).length = slots.length := by
    rw [← List.length_map, map_fst_aligned]
  have hnumbered := numbered_of_mem_nameSlots functionId declared [] 0
    (fun k hpos hle => absurd (Nat.lt_of_lt_of_le hpos hle) (Nat.lt_irrefl 0))
    (aligned slots declared)
  rw [hlength, List.length_nil, Nat.zero_add] at hnumbered
  unfold nameResults
  split
  · split
    · exact hnumbered
    · exact List.forall_mem_singleton.2 (.inl ⟨_, List.mem_singleton_self _, rfl⟩)
  · exact hnumbered

end Naming

end ApiSurface
