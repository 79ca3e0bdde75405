/-!
# Order by keys, and lists in ascending order

Everything that is sorted here is sorted by a key, a list of integers, and keys are compared
lexicographically: at the first difference, with a key before every longer one that it begins.  That
order is total on keys, so it is total on any type whose key determines the value.

`Ascending key` is the type of lists in strictly ascending order of their keys.  It serves as a set
when the key determines the element and as a table when the key is an element's id.
-/

namespace ApiSurface

/-! ## 1. Keys -/

abbrev Key := List Int

/-- Whether a key comes before another. -/
def Key.before : Key → Key → Bool
  | _, [] => false
  | [], _ :: _ => true
  | a :: s, b :: t => a < b || (a == b && Key.before s t)

theorem Key.before_irrefl (s : Key) : Key.before s s = false := by
  induction s with
  | nil => rfl
  | cons a s ih => simp [Key.before, ih]

theorem Key.before_trans {s t u : Key} (h : Key.before s t = true) (k : Key.before t u = true) :
    Key.before s u = true := by
  induction s generalizing t u with
  | nil =>
    cases u with
    | nil => cases t <;> simp [Key.before] at k
    | cons => rfl
  | cons a s ih =>
    cases t with
    | nil => simp [Key.before] at h
    | cons b t =>
      cases u with
      | nil => simp [Key.before] at k
      | cons c u =>
        simp only [Key.before, Bool.or_eq_true, Bool.and_eq_true, decide_eq_true_eq,
          beq_iff_eq] at h k ⊢
        rcases h with h | ⟨h, h'⟩ <;> rcases k with k | ⟨k, k'⟩
        · exact .inl (by omega)
        · exact .inl (by omega)
        · exact .inl (by omega)
        · exact .inr ⟨by omega, ih h' k'⟩

/-- Of two different keys, one comes first. -/
theorem Key.before_total (s t : Key) : Key.before s t = true ∨ s = t ∨ Key.before t s = true := by
  induction s generalizing t with
  | nil => cases t <;> simp [Key.before]
  | cons a s ih =>
    cases t with
    | nil => simp [Key.before]
    | cons b t =>
      simp only [Key.before, Bool.or_eq_true, Bool.and_eq_true, decide_eq_true_eq, beq_iff_eq,
        List.cons.injEq]
      rcases Int.lt_trichotomy a b with h | h | h
      · exact .inl (.inl h)
      · rcases ih t with k | k | k
        · exact .inl (.inr ⟨h, k⟩)
        · exact .inr (.inl ⟨h, k⟩)
        · exact .inr (.inr (.inr ⟨h.symm, k⟩))
      · exact .inr (.inr (.inl h))

theorem Key.not_before_of_before {s t : Key} (h : Key.before s t = true) :
    Key.before t s = false := by
  cases k : Key.before t s with
  | false => rfl
  | true => rw [← Key.before_irrefl s, Key.before_trans h k]

/-- The key of a text: its characters, each above the zero that closes it. -/
def textKey (s : String) : Key := s.toList.map (fun c => (c.toNat : Int) + 1) ++ [0]

def flagKey (b : Bool) : Key := [if b then 1 else 0]

/-! ## 2. Ascending lists -/

/-- Puts an element at its place, unless one with its key is there. -/
def insertAscending (key : α → Key) (a : α) : List α → List α
  | [] => [a]
  | b :: l =>
    if Key.before (key a) (key b) then a :: b :: l
    else if Key.before (key b) (key a) then b :: insertAscending key a l
    else b :: l

theorem mem_insertAscending {key : α → Key} {a b : α} {l : List α}
    (h : b ∈ insertAscending key a l) : b = a ∨ b ∈ l := by
  induction l with
  | nil => simpa [insertAscending] using h
  | cons c l ih =>
    simp only [insertAscending] at h
    split at h
    · simpa using h
    · split at h
      · rcases List.mem_cons.1 h with h | h
        · exact .inr (h ▸ List.mem_cons_self)
        · exact (ih h).imp id (List.mem_cons_of_mem c)
      · exact .inr h

theorem pairwise_insertAscending {key : α → Key} {a : α} {l : List α}
    (h : l.Pairwise fun x y => Key.before (key x) (key y) = true) :
    (insertAscending key a l).Pairwise fun x y => Key.before (key x) (key y) = true := by
  induction l with
  | nil => simp [insertAscending]
  | cons b l ih =>
    obtain ⟨hb, hl⟩ := List.pairwise_cons.1 h
    simp only [insertAscending]
    split
    · rename_i hab
      refine List.pairwise_cons.2 ⟨fun c hc => ?_, h⟩
      rcases List.mem_cons.1 hc with rfl | hc
      · exact hab
      · exact Key.before_trans hab (hb c hc)
    · split
      · rename_i hba
        refine List.pairwise_cons.2 ⟨fun c hc => ?_, ih hl⟩
        rcases mem_insertAscending hc with rfl | hc
        · exact hba
        · exact hb c hc
      · exact h

/-- A list whose keys strictly ascend. -/
structure Ascending {α : Type} (key : α → Key) where
  toList : List α
  ascending : toList.Pairwise fun a b => Key.before (key a) (key b) = true

namespace Ascending

variable {key : α → Key}

theorem eq_of_toList_eq {s t : Ascending key} (h : s.toList = t.toList) : s = t := by
  cases s; cases t; cases h; rfl

instance [DecidableEq α] : DecidableEq (Ascending key) := fun s t =>
  if h : s.toList = t.toList then isTrue (eq_of_toList_eq h)
  else isFalse fun k => h (congrArg toList k)

def empty : Ascending key := ⟨[], .nil⟩

/-- Adds an element whose key is new; otherwise nothing changes. -/
def insert (s : Ascending key) (a : α) : Ascending key :=
  ⟨insertAscending key a s.toList, pairwise_insertAscending s.ascending⟩

/-- The elements of a list, the first of those that share a key. -/
def ofList (l : List α) : Ascending key := l.foldl insert empty

/-- The elements of the first, and those of the second whose keys are new. -/
def union (s t : Ascending key) : Ascending key := t.toList.foldl insert s

def find? (s : Ascending key) (k : Key) : Option α := s.toList.find? fun a => key a == k

def containsKey (s : Ascending key) (k : Key) : Bool := s.toList.any fun a => key a == k

def size (s : Ascending key) : Nat := s.toList.length

end Ascending

/-- A set of texts in the order of their characters. -/
abbrev NameSet := Ascending textKey

end ApiSurface
