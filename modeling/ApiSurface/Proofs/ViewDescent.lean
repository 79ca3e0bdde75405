import ApiSurface.Proofs.DocumentText
import ApiSurface.Proofs.PublicPart
/-!
# Whether the descent to public classes ends

The public view is found by going down from the classes that modules list, from a public class to
the classes that it lists.  Nothing keeps a class in a document from listing itself, or two classes
from listing each other, and from such a class the descent goes on for ever.

The descent is taken without a bound here: it ends at an id if it ends at every id to which it goes
on from there.  It ends at all classes that modules list exactly if no class on the way is nested in
itself through public classes.  And exactly then there is a view, so that the bound on depth with
which the view is computed never cuts a descent short.
-/

namespace ApiSurface

open Relation (TransGen)

namespace Api

variable {a : Api}

/-! ## 1. The descent -/

/-- That the descent goes on to an id from the public class with another. -/
def DescendsTo (a : Api) (id' id : String) : Prop :=
  ∃ c, a.publicClass? id = some c ∧ id' ∈ c.classes

/-- Whether the descent ends at every class that a module lists. -/
def DescentEnds (a : Api) : Prop :=
  ∀ m, a.Holds (.module m) → ∀ id ∈ m.classes, Acc a.DescendsTo id

/-- A descent of bounded depth that gives an answer has not been cut short. -/
theorem acc_of_classesBelow {depth : Nat} {id : String} {rows : List ClassRow}
    (h : a.classesBelow depth id = some rows) : Acc a.DescendsTo id := by
  induction depth generalizing id rows with
  | zero => cases h
  | succ depth ih =>
    refine .intro id ?_
    rintro id' ⟨c, hc, hid'⟩
    rw [classesBelow, hc] at h
    obtain ⟨nested, hnested, -⟩ := Option.map_eq_some_iff.1 h
    obtain ⟨_, -, hbelow⟩ := mem_mapM hnested hid'
    exact ih hbelow

theorem descentEnds_of_publicView {view : Api} (h : a.publicView? = some view) :
    a.DescentEnds := by
  intro m hm id hid
  obtain ⟨classes, hclasses, -⟩ := Option.map_eq_some_iff.1 h
  obtain ⟨lists, hlists, -⟩ := Option.map_eq_some_iff.1 hclasses
  obtain ⟨_, -, hbelow⟩ := mem_mapM hlists (List.mem_flatMap.2 ⟨m, hm, hid⟩)
  exact acc_of_classesBelow hbelow

/-! ## 2. Circles -/

/-- The step from a class to a public one that it lists is a step of the descent. -/
theorem NestsOpen.descendsTo {c d : ClassRow} (h : a.NestsOpen c d) (hpublic : c.isPublic = true) :
    a.DescendsTo d.id c.id :=
  ⟨c, publicClass?_eq_some.2 ⟨⟨h.1.1, rfl⟩, hpublic⟩, h.1.2.2⟩

/-- The descent ends at every class on its way. -/
theorem DescentEnds.acc (h : a.DescentEnds) {c : ClassRow} (hc : a.ShowsClass c) :
    Acc a.DescendsTo c.id := by
  induction hc with
  | inModule hm hlisted => exact h _ hm _ hlisted
  | @inClass d c hd hlisted hc hpublic ih =>
    have hoffered := offered_class_iff.2 hd
    exact ih.inv (NestsOpen.descendsTo ⟨⟨hoffered.holds, hc, hlisted⟩, hpublic⟩ hoffered.isOpen)

/-- Where the descent ends there is no circle: from a circle it goes on to the next class of the
same circle. -/
theorem not_circle_of_acc {c : ClassRow} (h : Acc a.DescendsTo c.id) (hpublic : c.isPublic = true) :
    ¬ TransGen a.NestsOpen c c := by
  generalize hid : c.id = id at h
  induction h generalizing c with
  | intro id _ ih =>
    subst hid
    intro hcircle
    obtain ⟨d, hcd, hdc⟩ := TransGen.head'_iff.1 hcircle
    exact ih d.id (hcd.descendsTo hpublic) hcd.2 rfl (TransGen.tail' hdc hcd)

theorem exists_publicView_of_no_circle (h : ∀ c, a.ShowsClass c → ¬ TransGen a.NestsOpen c c) :
    ∃ view, a.publicView? = some view := by
  refine Option.ne_none_iff_exists'.1 fun hnone => ?_
  obtain ⟨c, hc, hcircle⟩ := exists_circle_of_publicView hnone
  exact h c (offered_class_iff.1 hc) hcircle

theorem descentEnds_iff :
    a.DescentEnds ↔ ∀ c, a.ShowsClass c → ¬ TransGen a.NestsOpen c c := by
  constructor
  · intro h c hc
    exact not_circle_of_acc (h.acc hc) (offered_class_iff.2 hc).isOpen
  · intro h
    obtain ⟨view, hview⟩ := exists_publicView_of_no_circle h
    exact descentEnds_of_publicView hview

theorem exists_publicView_iff : (∃ view, a.publicView? = some view) ↔ a.DescentEnds := by
  constructor
  · rintro ⟨view, hview⟩
    exact descentEnds_of_publicView hview
  · intro h
    exact exists_publicView_of_no_circle (descentEnds_iff.1 h)

/-! ## 3. Models read from documents -/

/-- **When the descent ends.**  Every model is read from some document, whatever its classes list.
It has a public view exactly if the descent ends, and the descent ends exactly if no class that it
comes to is nested in itself through public classes. -/
theorem descent_ends_iff_no_circle (a : Api) :
    (∃ d, ofDocument d = .ok a)
      ∧ ((∃ view, a.publicView? = some view) ↔ a.DescentEnds)
      ∧ (a.DescentEnds ↔ ∀ c, a.ShowsClass c → ¬ TransGen a.NestsOpen c c) :=
  ⟨⟨a.toDocument, ofDocument_toDocument a⟩, exists_publicView_iff, descentEnds_iff⟩

end Api

namespace Sample

/-- A module with two classes that list each other. -/
def entwined : Api where
  modules := .ofList [⟨"m", "m", "", [], [], ["m/C"], [], []⟩]
  classes := .ofList [nesting "m/C" "C" true ["m/D"], nesting "m/D" "D" true ["m/C"]]

/-- The document is read, and the descent from one class to the other and back never ends. -/
theorem entwined_descent_never_ends :
    Api.ofDocument entwined.toDocument = .ok entwined
      ∧ ¬ entwined.DescentEnds
      ∧ entwined.publicView? = none := by
  have hnone : entwined.publicView? = none := by decide +kernel
  refine ⟨Api.ofDocument_toDocument entwined, ?_, hnone⟩
  rw [← Api.exists_publicView_iff, hnone]
  simp

end Sample

end ApiSurface
