import ApiSurface.Error
/-!
# Linearization of class hierarchies

The order in which the classes above a class are searched: the class itself, then a merge of the
linearizations of its bases and of the list of bases, taking again and again the first head that
stands in no tail.  Bases outside the hierarchy are passed over.
-/

namespace ApiSurface

inductive LinearizationError
  /-- No order agrees with all bases, or the hierarchy runs in a circle. -/
  | inconsistent (className : String)
  | classNotFound (classId : String)
  deriving DecidableEq

namespace LinearizationError

def message : LinearizationError → String
  | .inconsistent name =>
    "cannot compute a consistent method resolution order for '" ++ name ++ "'"
  | .classNotFound id => "class not found: " ++ id

def toError : LinearizationError → Error
  | .inconsistent name => .internalInvariant (inconsistent name).message
  | .classNotFound id => .invalidArguments (classNotFound id).message

end LinearizationError

/-- Classes with their bases in order of declaration; of two entries for a class the first
counts. -/
abbrev Hierarchy := List (String × List String)

namespace Hierarchy

def contains (h : Hierarchy) (name : String) : Bool := h.any fun e => e.1 == name

/-- The bases of a class that the hierarchy knows. -/
def basesOf (h : Hierarchy) (name : String) : List String :=
  ((h.lookup name).getD []).filter h.contains

/-! ## 1. Merging -/

/-- The first head that stands in no tail. -/
def candidate? (seqs : List (List String)) : Option String :=
  (seqs.filterMap List.head?).find? fun c => !seqs.any fun s => s.tail.contains c

/-- Takes a class off the front of a sequence. -/
def dropHead (c : String) : List String → List String
  | [] => []
  | d :: s => if d == c then s else d :: s

/-- Takes a class off the front of every sequence. -/
def advance (c : String) (seqs : List (List String)) : List (List String) := seqs.map (dropHead c)

theorem exists_head_of_candidate? {seqs : List (List String)} {c : String}
    (h : candidate? seqs = some c) : ∃ s ∈ seqs, s.head? = some c :=
  List.mem_filterMap.1 (List.mem_of_find?_eq_some h)

theorem length_dropHead_le (c : String) (s : List String) : (dropHead c s).length ≤ s.length := by
  cases s with
  | nil => exact Nat.le_refl 0
  | cons d s =>
    rw [dropHead]
    split
    · exact Nat.le_succ _
    · exact Nat.le_refl _

theorem length_advance_le (c : String) (seqs : List (List String)) :
    (advance c seqs).flatten.length ≤ seqs.flatten.length := by
  induction seqs with
  | nil => exact Nat.le_refl 0
  | cons s seqs ih =>
    have hs := length_dropHead_le c s
    rw [advance, List.map_cons, List.flatten_cons, List.flatten_cons, List.length_append,
      List.length_append]
    exact Nat.add_le_add hs ih

/-- A step takes at least one class away. -/
theorem length_advance_lt {c : String} {seqs : List (List String)}
    (h : ∃ s ∈ seqs, s.head? = some c) :
    (advance c seqs).flatten.length < seqs.flatten.length := by
  induction seqs with
  | nil => simp at h
  | cons s seqs ih =>
    have hs := length_dropHead_le c s
    have hseqs := length_advance_le c seqs
    rw [advance, List.map_cons, List.flatten_cons, List.flatten_cons, List.length_append,
      List.length_append]
    obtain ⟨t, ht, hhead⟩ := h
    rcases List.mem_cons.1 ht with rfl | ht
    · obtain ⟨t, rfl⟩ := List.head?_eq_some_iff.1 hhead
      have : dropHead c (c :: t) = t := by simp [dropHead]
      rw [this]
      exact Nat.add_lt_add_of_lt_of_le (Nat.lt_succ_self _) hseqs
    · exact Nat.add_lt_add_of_le_of_lt hs (ih ⟨t, ht, hhead⟩)

/-- Merges sequences into one that keeps the order of each, if taking heads succeeds. -/
def merge (seqs : List (List String)) : Option (List String) :=
  if seqs.all List.isEmpty then some []
  else match _ : candidate? seqs with
    | none => none
    | some c => (merge (advance c seqs)).map (c :: ·)
termination_by seqs.flatten.length
decreasing_by exact length_advance_lt (exists_head_of_candidate? ‹_›)

/-! ## 2. Linearizing -/

/-- The entries for classes that are not on a path. -/
def beside (h : Hierarchy) (path : List String) : Hierarchy := h.filter fun e => !path.contains e.1

/-- A class with bases takes an entry of the hierarchy onto the path. -/
theorem length_beside_lt {h : Hierarchy} {path : List String} {name base : String}
    (hname : ¬ path.contains name = true) (hbase : base ∈ h.basesOf name) :
    (h.beside (name :: path)).length < (h.beside path).length := by
  have hfilter : h.beside (name :: path) = (h.beside path).filter fun e => !(e.1 == name) := by
    rw [beside, beside, List.filter_filter]
    refine List.filter_congr fun e _ => ?_
    rw [List.contains_cons, Bool.not_or]
  obtain ⟨bases, hlookup⟩ : ∃ bases, h.lookup name = some bases := by
    cases hlookup : h.lookup name with
    | none => simp [basesOf, hlookup] at hbase
    | some bases => exact ⟨bases, rfl⟩
  obtain ⟨before, after, rfl, -⟩ := List.lookup_eq_some_iff.1 hlookup
  rw [hfilter, List.length_filter_lt_length_iff_exists]
  refine ⟨(name, bases), List.mem_filter.2 ⟨by simp, ?_⟩, by simp⟩
  rw [Bool.not_eq_true', ← Bool.not_eq_true]
  exact hname

/-- A class followed by a merge of what is above it, given the linearizations of its bases. -/
def linearizeOver (name : String) (bases : List String) (above : List (List String)) :
    Except LinearizationError (List String) :=
  match merge (above ++ [bases]) with
  | some order => .ok (name :: order)
  | none => .error (.inconsistent name)

/-- Linearizes a class below the classes of `path`, none of which it may be.  Going up, the path
takes in ever more classes of the hierarchy. -/
def linearizeBelow (h : Hierarchy) (path : List String) (name : String) :
    Except LinearizationError (List String) :=
  if path.contains name then .error (.inconsistent name)
  else do
    let above ← (h.basesOf name).attach.mapM fun ⟨base, _⟩ => h.linearizeBelow (name :: path) base
    linearizeOver name (h.basesOf name) above
termination_by (h.beside path).length
decreasing_by exact length_beside_lt ‹_› ‹_›

/-- The linearization of a class, which starts with the class itself. -/
def linearize (h : Hierarchy) (name : String) : Except LinearizationError (List String) :=
  h.linearizeBelow [] name

end Hierarchy

end ApiSurface
