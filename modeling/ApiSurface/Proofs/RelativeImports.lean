import ApiSurface.Import.Record
import ApiSurface.Proofs.DottedNames
/-!
# Relative imports

One dot means a package to its entry, and the package around it to a plain module.  The entry of a
package has the package's name and each module directly in it has one more component, so the dots of
both count from the same place: an import statement brings the same records in either.

Levels are words of 32 bits, and an entry goes up one package less than there are dots.
`resolveAtLevel?` does this subtraction on words and gives up below zero; it never does, as there is
at least one dot.  Where the dots lead beyond the outermost package, no component is left.
-/

namespace ApiSurface

/-! ## 1. Parts of a name -/

namespace Text

/-- The components of a dotted name that are not empty. -/
def nameParts (name : String) : List String := (components name).filter fun part => !part.isEmpty

theorem nameParts_dot {x : String} (hx : x ≠ "") (hplain : IsPlain x) (p : String) :
    nameParts (p ++ "." ++ x) = nameParts p ++ [x] := by
  have hfilled : (!x.isEmpty) = true := by simpa using hx
  rw [nameParts, components_dot, components_of_isPlain hplain, List.filter_append,
    List.filter_singleton, hfilled]
  rfl

theorem joinDots_eq_intercalate (parts : List String) : joinDots parts = ".".intercalate parts := by
  refine String.toList_inj.1 ?_
  rw [joinDots, String.toList_ofList, joinWith_eq, String.toList_intercalate]
  rfl

end Text

/-! ## 2. Levels in words -/

/-- How many packages a level of dots leads up. -/
def packagesUp? (isAggregator : Bool) (level : UInt32) : Option UInt32 :=
  if isAggregator then if 1 ≤ level then some (level - 1) else none else some level

/-- The absolute name of a module, in words.  Counts of components are cut off at zero. -/
def resolveAtLevel? (importer : String) (isAggregator : Bool) (level : UInt32) (module : String) :
    Option String :=
  if level = 0 then some module
  else (packagesUp? isAggregator level).map fun up =>
    let parts := Text.nameParts importer
    Text.joinDots (parts.take (parts.length - up.toNat) ++ if module.isEmpty then [] else [module])

section Levels

variable {isAggregator : Bool} {level : UInt32} {importer module : String}

/-- The subtraction is exact: the packages, and the dot that an entry does not count, add up to the
level. -/
theorem exists_packagesUp? (h : 1 ≤ level) (isAggregator : Bool) :
    ∃ up, packagesUp? isAggregator level = some up
      ∧ up.toNat + (if isAggregator then 1 else 0) = level.toNat := by
  cases isAggregator with
  | false => exact ⟨level, rfl, rfl⟩
  | true =>
    have hpos : 1 ≤ level.toNat := UInt32.le_iff_toNat_le.1 h
    have hsub : (level - 1).toNat = level.toNat - 1 := UInt32.toNat_sub_of_le level 1 h
    refine ⟨level - 1, if_pos h, ?_⟩
    rw [hsub, if_pos rfl]
    omega

/-- What a relative import names: the components that are left, and the module if one is written. -/
theorem resolveRelative_eq_intercalate {relative up : Nat} (hrelative : relative ≠ 0)
    (hup : up + (if isAggregator then 1 else 0) = relative) :
    resolveRelative importer isAggregator relative module
      = ".".intercalate ((Text.nameParts importer).take ((Text.nameParts importer).length - up)
        ++ if module = "" then [] else [module]) := by
  have hcount : (if isAggregator = true then relative - 1 else relative) = up := by
    rw [← hup]
    cases isAggregator with
    | false => rfl
    | true => exact Nat.add_sub_cancel up 1
  rw [← Text.joinDots_eq_intercalate, resolveRelative, if_neg hrelative, hcount]
  simp only [String.isEmpty_iff]
  rfl

/-- Words or not, the answer is the same, and there is one at every level. -/
theorem resolveAtLevel?_eq_some (importer : String) (isAggregator : Bool) (level : UInt32)
    (module : String) :
    resolveAtLevel? importer isAggregator level module
      = some (resolveRelative importer isAggregator level.toNat module) := by
  by_cases hzero : level = 0
  · rw [hzero]
    rfl
  · have hne : level.toNat ≠ 0 := fun h => hzero (UInt32.toNat_inj.1 h)
    have hpos : 1 ≤ level := UInt32.le_iff_toNat_le.2 (Nat.one_le_iff_ne_zero.2 hne)
    obtain ⟨up, hup, hexact⟩ := exists_packagesUp? hpos isAggregator
    rw [resolveAtLevel?, if_neg hzero, hup, Option.map_some,
      resolveRelative_eq_intercalate hne hexact, ← Text.joinDots_eq_intercalate]
    simp only [String.isEmpty_iff]

end Levels

/-! ## 3. Packages and their modules -/

section Submodules

variable {x : String}

theorem resolveRelative_submodule (hx : x ≠ "") (hplain : Text.IsPlain x) (p : String)
    (relative : Nat) (module : String) :
    resolveRelative (p ++ "." ++ x) false relative module
      = resolveRelative p true relative module := by
  by_cases hrelative : relative = 0
  · rw [resolveRelative, resolveRelative, if_pos hrelative, if_pos hrelative]
  · obtain ⟨up, rfl⟩ := Nat.exists_eq_succ_of_ne_zero hrelative
    rw [resolveRelative_eq_intercalate hrelative rfl, resolveRelative_eq_intercalate hrelative rfl,
      Text.nameParts_dot hx hplain, List.length_append, List.length_singleton,
      Nat.succ_sub_succ_eq_sub, List.take_append_of_le_length (Nat.sub_le _ _)]

/-- Every statement imports the same, relative or not. -/
theorem importsOf_submodule (hx : x ≠ "") (hplain : Text.IsPlain x) (p : String) (s : Statement) :
    importsOf (p ++ "." ++ x) false s = importsOf p true s := by
  cases s with
  | importFrom i => rw [importsOf, importsOf, resolveRelative_submodule hx hplain]
  | importAll i => rw [importsOf, importsOf, resolveRelative_submodule hx hplain]
  | _ => rfl

end Submodules

/-! ## 4. The result -/

/-- **Relative imports mean the same in a package and directly below it.**  At every level the entry
of a package and a module directly in the package name the same module, and every statement imports
the same.  What is named are the first components of the importer, less by one for each dot (an
entry does not count the first one) and none when the dots outnumber them, and then the module if
one is written.  No subtraction of words goes below zero. -/
theorem relative_imports_agree (p x module : String) (level : UInt32) (hlevel : 1 ≤ level)
    (hx : x ≠ "") (hplain : Text.IsPlain x) :
    resolveRelative p true level.toNat module
        = resolveRelative (p ++ "." ++ x) false level.toNat module
    ∧ (∀ s, importsOf p true s = importsOf (p ++ "." ++ x) false s)
    ∧ ∀ importer isAggregator, ∃ up kept,
        packagesUp? isAggregator level = some up
        ∧ up.toNat + (if isAggregator then 1 else 0) = level.toNat
        ∧ kept = (((Text.nameParts importer).length : Int) - up.toNat).toNat
        ∧ resolveRelative importer isAggregator level.toNat module
          = ".".intercalate ((Text.nameParts importer).take kept
            ++ if module = "" then [] else [module])
        ∧ resolveAtLevel? importer isAggregator level module
          = some (resolveRelative importer isAggregator level.toNat module) := by
  have hne : level.toNat ≠ 0 := Nat.ne_of_gt (UInt32.le_iff_toNat_le.1 hlevel)
  refine ⟨(resolveRelative_submodule hx hplain p _ module).symm,
    fun s => (importsOf_submodule hx hplain p s).symm, fun importer isAggregator => ?_⟩
  obtain ⟨up, hup, hexact⟩ := exists_packagesUp? hlevel isAggregator
  refine ⟨up, _, hup, hexact, rfl, ?_, resolveAtLevel?_eq_some importer isAggregator level module⟩
  rw [Int.toNat_sub]
  exact resolveRelative_eq_intercalate hne hexact

namespace Sample

/-- Two dots in a package and in a module of it, and more dots than any name has components. -/
theorem sibling_package_named_alike :
    (1 : UInt32) ≤ 2 ∧ "mod" ≠ "" ∧ Text.IsPlain "mod"
    ∧ resolveRelative "pkg.sub" true 2 "other" = "pkg.other"
    ∧ resolveRelative "pkg.sub.mod" false 2 "other" = "pkg.other"
    ∧ resolveAtLevel? "pkg.sub" true 4294967295 "other" = some "other" := by
  have hplain : Text.IsPlain "mod" := by
    rw [Text.IsPlain]
    decide
  obtain ⟨hsame, -, -⟩ := relative_imports_agree "pkg.sub" "mod" "other" 2 (by decide) (by decide)
    hplain
  obtain ⟨-, -, hnamed⟩ := relative_imports_agree "pkg.sub" "mod" "other" 4294967295 (by decide)
    (by decide) hplain
  have hpackage : resolveRelative "pkg.sub" true 2 "other" = "pkg.other" := by decide +kernel
  obtain ⟨up, kept, -, -, -, -, hwords⟩ := hnamed "pkg.sub" true
  refine ⟨by decide, by decide, hplain, hpackage, hsame.symm.trans hpackage, hwords.trans ?_⟩
  decide +kernel

end Sample

end ApiSurface
