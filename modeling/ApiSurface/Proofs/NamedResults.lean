import ApiSurface.Proofs.Ownership
/-!
# Names and docstrings of results

The results of a function are its slots, each under a name of its own.  A docstring may declare the
same name twice, leave names empty or declare `result_1` itself; the names stay different and none
of them is empty, and so do the ids.

With a name a result also gets what the docstring declares about it, in one of two ways: a slot
takes the first declared result of its type whose name is still free (`matched`), and a slot that
finds none is given the one in its place, if there are as many declared results as slots.  Neither
way uses a declared result twice.  But the second does not ask whether what stands in the place of a
slot is taken by another, so that one declared result can document two results.
-/

namespace ApiSurface

variable (functionId : String) (declared : List ResultDescription)

/-! ## 1. Names -/

/-- Results are named slot by slot, except a lone slot with a lone declared result that has a
name. -/
theorem nameResults_cases (slots : List ApiType) :
    nameResults functionId slots declared
        = nameSlots functionId declared [] 0 (aligned slots declared)
      ∨ ∃ t d, slots = [t] ∧ declared = [d] ∧ d.name ≠ ""
        ∧ nameResults functionId slots declared = [resultRow functionId d.name t (some d)] := by
  unfold nameResults
  split
  · split
    · exact .inl rfl
    · rename_i hname
      exact .inr ⟨_, _, rfl, rfl, hname, rfl⟩
  · exact .inl rfl

theorem numberedName_ne_empty (n : Nat) : numberedName n ≠ "" := by
  intro h
  have hchars := congrArg String.toList h
  rw [numberedName, String.toList_append] at hchars
  cases hchars

/-- That a declared result can be taken by a slot. -/
theorem declaredFor?_eq_some {taken : List String} {t : ApiType} {d : ResultDescription}
    (h : declaredFor? declared taken t = some d) :
    d.name ≠ "" ∧ d.name ∉ taken ∧ d.type = some t := by
  have hfound := List.find?_some h
  simpa [and_assoc] using hfound

theorem nameSlots_ne_empty {taken : List String} {n : Nat}
    {slots : List (ApiType × Option ResultDescription)} {r : ResultRow}
    (h : r ∈ nameSlots functionId declared taken n slots) : r.name ≠ "" := by
  induction slots generalizing taken n with
  | nil => cases h
  | cons slot slots ih =>
    rw [nameSlots] at h
    split at h
    · rename_i d hd
      rcases List.mem_cons.1 h with rfl | h
      · exact (declaredFor?_eq_some declared hd).1
      · exact ih h
    · rcases List.mem_cons.1 h with rfl | h
      · exact numberedName_ne_empty _
      · exact ih h

/-- **Results have names and ids of their own.**  Whatever a docstring declares, there is one result
for each slot, with its type and in order; the names of the results are all different and none is
empty; and their ids, which are these names below the function, are all different too. -/
theorem results_named_apart (slots : List ApiType) :
    (nameResults functionId slots declared).map ResultRow.type = slots
      ∧ ((nameResults functionId slots declared).map ResultRow.name).Nodup
      ∧ (∀ r ∈ nameResults functionId slots declared,
        r.name ≠ "" ∧ r.id = Id.child functionId r.name)
      ∧ ((nameResults functionId slots declared).map ResultRow.id).Nodup := by
  have hnames := nodup_nameResults functionId declared slots
  have hrows : ∀ r ∈ nameResults functionId slots declared,
      r.name ≠ "" ∧ r.id = Id.child functionId r.name := by
    intro r hr
    rcases nameResults_cases functionId declared slots with heq | ⟨t, d, -, -, hname, heq⟩
    · rw [heq] at hr
      exact ⟨nameSlots_ne_empty functionId declared hr, id_of_mem_nameSlots hr⟩
    · rw [heq, List.mem_singleton] at hr
      rw [hr]
      exact ⟨hname, rfl⟩
  refine ⟨nameResults_types functionId declared slots, hnames, hrows, ?_⟩
  have hids : (nameResults functionId slots declared).map ResultRow.id
      = ((nameResults functionId slots declared).map ResultRow.name).map (Id.child functionId) := by
    rw [List.map_map]
    exact List.map_congr_left fun r hr => (hrows r hr).2
  rw [hids]
  exact hnames.map (Id.child_injective functionId)

namespace Sample

def intType : ApiType := .builtin "int"

def strType : ApiType := .builtin "str"

/-- A declared name is given as a number before its slot comes, another would be the number of a
later slot and is declared twice, and one is empty. -/
theorem clashing_declared_names :
    let slots := [intType, strType, strType, intType]
    let declared : List ResultDescription :=
      [⟨some strType, "result_1", ""⟩, ⟨some strType, "result_3", ""⟩, ⟨some intType, "", ""⟩,
        ⟨some strType, "result_3", ""⟩]
    let results := nameResults "m/f" slots declared
    results.map ResultRow.name = ["result_1", "result_3", "result_2", "result_4"]
      ∧ (results.map ResultRow.id).Nodup ∧ ∀ r ∈ results, r.name ≠ "" := by
  intro slots declared results
  obtain ⟨-, -, hrows, hids⟩ := results_named_apart "m/f" declared slots
  exact ⟨by decide +kernel, hids, fun r hr => (hrows r hr).1⟩

end Sample

/-! ## 2. Positions -/

/-- The position of the first declared result of a type with a name that is not taken. -/
def declaredPosition? (taken : List String) (t : ApiType) : Option Nat :=
  declared.findIdx? fun d => d.name != "" && !taken.contains d.name && d.type == some t

/-- For each row the position of the declared result that it takes for its type, if there is one
with a name that no row before it has. -/
def matched : (taken : List String) → List ResultRow → List (Option Nat)
  | _, [] => []
  | taken, r :: more => declaredPosition? declared taken r.type :: matched (r.name :: taken) more

/-- For each row the position of the declared result that documents it: the one that it takes, or
else the one in its place, if there are as many. -/
def documentedBy (rows : List ResultRow) : List (Option Nat) :=
  (matched declared [] rows).mapIdx fun i position =>
    position.or (if declared.length = rows.length then some i else none)

/-- That no position is given twice. -/
def GivenOnce (positions : List (Option Nat)) : Prop :=
  ∀ i j p : Nat, positions[i]? = some (some p) → positions[j]? = some (some p) → i = j

section

variable {declared}

theorem declaredFor?_eq_bind (taken : List String) (t : ApiType) :
    declaredFor? declared taken t
      = (declaredPosition? declared taken t).bind fun p => declared[p]? :=
  List.find?_eq_bind_findIdx?_getElem?

theorem getElem?_of_declaredPosition? {taken : List String} {t : ApiType} {p : Nat}
    (h : declaredPosition? declared taken t = some p) :
    ∃ d, declared[p]? = some d ∧ declaredFor? declared taken t = some d := by
  obtain ⟨hlt, -⟩ := List.findIdx?_eq_some_iff_getElem.1 h
  refine ⟨declared[p], List.getElem?_eq_getElem hlt, ?_⟩
  rw [declaredFor?_eq_bind, h]
  exact List.getElem?_eq_getElem hlt

@[simp] theorem length_matched (taken : List String) (rows : List ResultRow) :
    (matched declared taken rows).length = rows.length := by
  induction rows generalizing taken with
  | nil => rfl
  | cons r rows ih => rw [matched, List.length_cons, ih, List.length_cons]

/-- What is taken is declared, under a name that was not taken before. -/
theorem exists_of_mem_matched {taken : List String} {rows : List ResultRow} {p : Nat}
    (h : some p ∈ matched declared taken rows) :
    ∃ d, declared[p]? = some d ∧ d.name ∉ taken := by
  induction rows generalizing taken with
  | nil => cases h
  | cons r rows ih =>
    rw [matched, List.mem_cons] at h
    rcases h with h | h
    · obtain ⟨d, hd, hfor⟩ := getElem?_of_declaredPosition? h.symm
      exact ⟨d, hd, (declaredFor?_eq_some declared hfor).2.1⟩
    · obtain ⟨d, hd, hfree⟩ := ih h
      exact ⟨d, hd, fun htaken => hfree (List.mem_cons_of_mem _ htaken)⟩

/-- A slot takes the declared result at its position, and else gets a number and what is in its
place. -/
theorem nameSlots_cons_position (taken : List String) (n : Nat) (t : ApiType)
    (inPlace : Option ResultDescription) (more : List (ApiType × Option ResultDescription)) :
    ∃ name last,
      nameSlots functionId declared taken n ((t, inPlace) :: more)
        = resultRow functionId name t
            (((declaredPosition? declared taken t).bind fun p => declared[p]?).or inPlace)
          :: nameSlots functionId declared (name :: taken) last more
      ∧ ∀ p d, declaredPosition? declared taken t = some p → declared[p]? = some d →
        name = d.name := by
  rw [nameSlots, ← declaredFor?_eq_bind]
  cases hd : declaredFor? declared taken t with
  | some d =>
    refine ⟨d.name, n, rfl, fun p d' hp hd' => ?_⟩
    obtain ⟨d'', hd'', hfor⟩ := getElem?_of_declaredPosition? hp
    rw [hd] at hfor
    rw [hd'] at hd''
    rw [Option.some.inj hfor, Option.some.inj hd'']
  | none =>
    refine ⟨_, _, rfl, fun p d' hp _ => ?_⟩
    obtain ⟨d'', -, hfor⟩ := getElem?_of_declaredPosition? hp
    rw [hd] at hfor
    cases hfor

theorem docstrings_nameSlots (taken : List String) (n : Nat)
    (slots : List (ApiType × Option ResultDescription)) :
    (nameSlots functionId declared taken n slots).map ResultRow.docstring
      = List.zipWith (fun position inPlace => (position.bind fun p => declared[p]?).or inPlace)
        (matched declared taken (nameSlots functionId declared taken n slots))
        (slots.map Prod.snd) := by
  induction slots generalizing taken n with
  | nil => rfl
  | cons slot slots ih =>
    obtain ⟨name, last, heq, -⟩ :=
      @nameSlots_cons_position functionId declared taken n slot.1 slot.2 slots
    rw [heq, List.map_cons, ih, matched, List.map_cons, List.zipWith_cons_cons]
    rfl

theorem GivenOnce.cons {position : Option Nat} {positions : List (Option Nat)}
    (hnew : ∀ p, position = some p → some p ∉ positions) (h : GivenOnce positions) :
    GivenOnce (position :: positions) := by
  rintro (- | i) (- | j) p hi hj
  · rfl
  · rw [List.getElem?_cons_succ] at hj
    exact absurd (List.mem_of_getElem? hj) (hnew p (Option.some.inj hi))
  · rw [List.getElem?_cons_succ] at hi
    exact absurd (List.mem_of_getElem? hi) (hnew p (Option.some.inj hj))
  · exact congrArg Nat.succ (h i j p hi hj)

/-- No declared result is taken twice, since its name is taken with it. -/
theorem givenOnce_matched_nameSlots (taken : List String) (n : Nat)
    (slots : List (ApiType × Option ResultDescription)) :
    GivenOnce (matched declared taken (nameSlots functionId declared taken n slots)) := by
  induction slots generalizing taken n with
  | nil =>
    intro i j p hi
    cases hi
  | cons slot slots ih =>
    obtain ⟨name, last, heq, hname⟩ :=
      @nameSlots_cons_position functionId declared taken n slot.1 slot.2 slots
    rw [heq, matched]
    refine GivenOnce.cons (fun p hp hagain => ?_) (ih _ _)
    obtain ⟨d, hd, hfree⟩ := exists_of_mem_matched hagain
    exact hfree (hname p d hp hd ▸ List.mem_cons_self)

end

/-! ## 3. Docstrings -/

/-- What is in place of a slot. -/
theorem getElem?_aligned (slots : List ApiType) {i : Nat} (h : i < slots.length) :
    (aligned slots declared)[i]?.map Prod.snd
      = some ((if declared.length = slots.length then some i else none).bind
        fun p => declared[p]?) := by
  rw [← List.getElem?_map]
  unfold aligned
  split
  · rename_i hlength
    rw [List.map_snd_zip (by simp [hlength]), List.getElem?_map, Option.bind_some,
      List.getElem?_eq_getElem (hlength ▸ h)]
    rfl
  · rw [List.map_map, List.getElem?_map, List.getElem?_eq_getElem h]
    rfl

theorem length_nameResults (slots : List ApiType) :
    (nameResults functionId slots declared).length = slots.length := by
  rw [← List.length_map ResultRow.type, nameResults_types]

/-- The docstring of each result is the declared one that documents it. -/
theorem docstrings_nameResults (slots : List ApiType) :
    (nameResults functionId slots declared).map ResultRow.docstring
      = (documentedBy declared (nameResults functionId slots declared)).map
        fun position => position.bind fun p => declared[p]? := by
  have hlength := length_nameResults functionId declared slots
  rcases nameResults_cases functionId declared slots with heq | ⟨t, d, -, rfl, -, heq⟩
  · rw [heq] at hlength ⊢
    rw [docstrings_nameSlots, documentedBy, hlength]
    refine List.ext_getElem? fun i => ?_
    simp only [List.getElem?_zipWith, List.getElem?_map, List.getElem?_mapIdx]
    cases hposition : (matched declared []
        (nameSlots functionId declared [] 0 (aligned slots declared)))[i]? with
    | none => rfl
    | some position =>
      have hi : i < slots.length := by
        obtain ⟨hlt, -⟩ := List.getElem?_eq_some_iff.1 hposition
        rwa [length_matched, hlength] at hlt
      rw [getElem?_aligned declared slots hi]
      cases position with
      | none => rfl
      | some p =>
        obtain ⟨d, hd, -⟩ := exists_of_mem_matched (List.mem_of_getElem? hposition)
        simp [hd]
  · rw [heq]
    cases hp : declaredPosition? [d] [] t with
    | none => simp [documentedBy, matched, resultRow, hp]
    | some p =>
      obtain ⟨d', hd', -⟩ := getElem?_of_declaredPosition? hp
      have hd := List.mem_singleton.1 (List.mem_of_getElem? hd')
      simp [documentedBy, matched, resultRow, hp, hd', hd]

theorem getElem?_documentedBy {rows : List ResultRow} {i p : Nat} :
    (documentedBy declared rows)[i]? = some (some p)
      ↔ (matched declared [] rows)[i]? = some (some p)
        ∨ (matched declared [] rows)[i]? = some none ∧ declared.length = rows.length ∧ i = p := by
  rw [documentedBy, List.getElem?_mapIdx]
  rcases (matched declared [] rows)[i]? with - | - | q
  · simp
  · simp
  · simp

/-- Documented twice is what one slot takes, and another without a match has in its place. -/
theorem givenOnce_documentedBy_iff {rows : List ResultRow}
    (h : GivenOnce (matched declared [] rows)) :
    GivenOnce (documentedBy declared rows)
      ↔ (declared.length = rows.length → ∀ p, some p ∈ matched declared [] rows →
        (matched declared [] rows)[p]? ≠ some none) := by
  constructor
  · intro honce hlength p hp hplace
    obtain ⟨i, hi⟩ := List.mem_iff_getElem?.1 hp
    have hsame : i = p := honce i p p ((getElem?_documentedBy declared).2 (.inl hi))
      ((getElem?_documentedBy declared).2 (.inr ⟨hplace, hlength, rfl⟩))
    rw [hsame, hplace] at hi
    cases hi
  · intro hfree i j p hi hj
    rw [getElem?_documentedBy] at hi hj
    rcases hi with hi | ⟨hi, hlength, rfl⟩ <;> rcases hj with hj | ⟨hj, hlength', rfl⟩
    · exact h i j p hi hj
    · exact absurd hj (hfree hlength' j (List.mem_of_getElem? hi))
    · exact absurd hi (hfree hlength i (List.mem_of_getElem? hj))
    · rfl

theorem givenOnce_matched (slots : List ApiType) :
    GivenOnce (matched declared [] (nameResults functionId slots declared)) := by
  rcases nameResults_cases functionId declared slots with heq | ⟨t, d, -, rfl, -, heq⟩
  · rw [heq]
    exact givenOnce_matched_nameSlots functionId [] 0 _
  · rw [heq]
    exact GivenOnce.cons (fun p _ hp => by cases hp) fun i j p hi => by cases hi

/-- **A declared result documents one result, unless it stands in the place of an unmatched slot.**
The docstrings of the results are the declared results at the positions in `documentedBy`.  Where
there are not as many declared results as slots, no position is given twice.  Where there are as
many, none is exactly if each declared result that a slot takes for its type stands in the place of
a slot that takes one itself. -/
theorem docstrings_given_once_iff (slots : List ApiType) :
    let rows := nameResults functionId slots declared
    rows.map ResultRow.docstring
        = (documentedBy declared rows).map (fun position => position.bind fun p => declared[p]?)
      ∧ (GivenOnce (documentedBy declared rows)
        ↔ (declared.length = slots.length → ∀ p, some p ∈ matched declared [] rows →
          (matched declared [] rows)[p]? ≠ some none)) := by
  refine ⟨docstrings_nameResults functionId declared slots, ?_⟩
  rw [givenOnce_documentedBy_iff declared (givenOnce_matched functionId declared slots),
    length_nameResults]

namespace Sample

/-- Two declared results in the other order than their slots, each taken by one. -/
theorem crossed_docstrings_given_once :
    let declared : List ResultDescription :=
      [⟨some strType, "label", "Text."⟩, ⟨some intType, "count", "Number."⟩]
    GivenOnce (documentedBy declared (nameResults "m/f" [intType, strType] declared)) := by
  intro declared
  have hmatched : matched declared [] (nameResults "m/f" [intType, strType] declared)
      = [some 1, some 0] := by decide +kernel
  refine (docstrings_given_once_iff "m/f" declared [intType, strType]).2.2 fun _ p hp => ?_
  rw [hmatched] at hp ⊢
  simp only [List.mem_cons, Option.some.injEq, List.not_mem_nil, or_false] at hp
  rcases hp with rfl | rfl <;> decide

/-- The first slot takes the second declared result for its type, and the second slot, which finds
none of its type, is documented by it again. -/
theorem taken_docstring_given_again :
    let declared : List ResultDescription :=
      [⟨some (.builtin "float"), "ratio", "Number."⟩, ⟨some strType, "label", "Text."⟩]
    ¬ GivenOnce (documentedBy declared (nameResults "m/f" [strType, intType] declared)) := by
  intro declared h
  exact absurd (h 0 1 1 (by decide +kernel) (by decide +kernel)) (by decide)

end Sample

end ApiSurface
