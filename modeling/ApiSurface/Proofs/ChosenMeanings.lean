import ApiSurface.Proofs.OrderFreedom
/-!
# The meaning chosen for a name

A name may have been bound in several places of a package, and then it has several candidates.  Seen
from a module, the one is chosen that shares the most leading components with the module's name.
The search goes through the candidates once and gives way only to more shared components.  Since the
candidates are in ascending order, of those that share equally many it keeps the least.

Which candidates there are depends on what was recorded and not on how: inserted singly or merged,
early or late, once or several times (`AliasHistory.resolve_chooses`).
-/

namespace ApiSurface

/-! ## 1. Shared components -/

/-- Two lists begin alike as far as their pairs agree. -/
theorem le_length_takeWhile_zip {α : Type} [DecidableEq α] {as bs : List α} {n : Nat} :
    n ≤ ((as.zip bs).takeWhile fun p => p.1 == p.2).length
      ↔ ∃ start, start.length = n ∧ start <+: as ∧ start <+: bs := by
  induction n generalizing as bs with
  | zero => exact iff_of_true (Nat.zero_le _) ⟨[], rfl, List.nil_prefix, List.nil_prefix⟩
  | succ n ih =>
    have hcons : (∃ start, start.length = n + 1 ∧ start <+: as ∧ start <+: bs)
        ↔ ∃ c start, start.length = n ∧ c :: start <+: as ∧ c :: start <+: bs := by
      constructor
      · rintro ⟨start, hlength, hstart⟩
        obtain ⟨c, start, rfl⟩ := List.exists_cons_of_length_eq_add_one hlength
        exact ⟨c, start, Nat.succ.inj hlength, hstart⟩
      · rintro ⟨c, start, hlength, hstart⟩
        exact ⟨c :: start, congrArg Nat.succ hlength, hstart⟩
    rw [hcons]
    cases as with
    | nil => simp
    | cons a as =>
      cases bs with
      | nil => simp
      | cons b bs =>
        by_cases hab : a = b
        · simp [hab, ih, List.cons_prefix_cons]
        · simp only [List.zip_cons_cons, List.takeWhile_cons, beq_iff_eq, hab, if_false,
            List.length_nil, List.cons_prefix_cons]
          constructor
          · intro h
            omega
          · rintro ⟨c, start, -, ⟨rfl, -⟩, rfl, -⟩
            exact absurd rfl hab

namespace Text

/-- That two dotted names begin with the same `n` components. -/
def BeginAlike (n : Nat) (a b : String) : Prop :=
  ∃ start, start.length = n ∧ start <+: components a ∧ start <+: components b

theorem beginAlike_iff {n : Nat} {a b : String} :
    BeginAlike n a b ↔ n ≤ sharedComponents a b := le_length_takeWhile_zip.symm

end Text

/-! ## 2. The search -/

section Search

variable {module q q' : String} {l : List String}

/-- That of some candidates this one shares the most with a module, and is the least of those that
share as much. -/
structure IsClosest (module : String) (l : List String) (q : String) : Prop where
  mem : q ∈ l
  most : ∀ c ∈ l, sharedComponents c module ≤ sharedComponents q module
  least : ∀ c ∈ l, sharedComponents c module = sharedComponents q module → q ≤ c

theorem IsClosest.unique (h : IsClosest module l q) (h' : IsClosest module l q') : q = q' := by
  have hsame := Nat.le_antisymm (h'.most q h.mem) (h.most q' h'.mem)
  exact String.le_antisymm (h.least q' h'.mem hsame.symm) (h'.least q h.mem hsame)

theorem closest?_eq_none_iff : closest? module l = none ↔ l = [] := by
  cases l with
  | nil => exact iff_of_true rfl rfl
  | cons c more =>
    refine iff_of_false ?_ (List.cons_ne_nil c more)
    rw [closest?]
    split
    · exact Option.some_ne_none c
    · split <;> exact Option.some_ne_none _

/-- The candidate that is found in an ascending list.  One more candidate in front of it is less
than all others, so it takes the place of what is found among them unless that shares more. -/
theorem isClosest_of_closest? (hl : l.Pairwise (· < ·)) (h : closest? module l = some q) :
    IsClosest module l q := by
  induction l generalizing q with
  | nil => cases h
  | cons c more ih =>
    obtain ⟨hbelow, hmore⟩ := List.pairwise_cons.1 hl
    rw [closest?] at h
    split at h
    · rename_i hnone
      obtain rfl := Option.some.inj h
      rw [closest?_eq_none_iff.1 hnone]
      exact ⟨List.mem_singleton_self c, List.forall_mem_singleton.2 (Nat.le_refl _),
        List.forall_mem_singleton.2 fun _ => String.le_refl c⟩
    · rename_i d hd
      have hclosest := ih hmore hd
      split at h
      -- One of the others shares more than the first.
      · rename_i hlt
        obtain rfl := Option.some.inj h
        exact ⟨List.mem_cons_of_mem c hclosest.mem,
          List.forall_mem_cons.2 ⟨Nat.le_of_lt hlt, hclosest.most⟩,
          List.forall_mem_cons.2 ⟨fun hsame => absurd hsame (Nat.ne_of_lt hlt), hclosest.least⟩⟩
      -- None does, and among those that share as much the first is the least.
      · rename_i hlt
        obtain rfl := Option.some.inj h
        refine ⟨List.mem_cons_self, List.forall_mem_cons.2 ⟨Nat.le_refl _, fun e he => ?_⟩,
          List.forall_mem_cons.2 ⟨fun _ => String.le_refl c, fun e he _ => ?_⟩⟩
        · exact Nat.le_trans (hclosest.most e he) (Nat.le_of_not_lt hlt)
        · exact String.not_lt.1 (String.lt_asymm (hbelow e he))

theorem closest?_eq_some_iff (hl : l.Pairwise (· < ·)) :
    closest? module l = some q ↔ IsClosest module l q := by
  refine ⟨isClosest_of_closest? hl, fun h => ?_⟩
  obtain ⟨found, hfound⟩ : ∃ found, closest? module l = some found :=
    Option.ne_none_iff_exists'.1 fun hnone => by
      rw [closest?_eq_none_iff.1 hnone] at h
      exact List.not_mem_nil h.mem
  rw [hfound, h.unique (isClosest_of_closest? hl hfound)]

end Search

/-! ## 3. Recorded candidates -/

/-- A way to collect aliases: from nothing, by single ones, and by merging. -/
inductive AliasHistory
  | empty
  | insert (h : AliasHistory) (name qname : String)
  | merge (h k : AliasHistory)

namespace AliasHistory

def aliases : AliasHistory → Aliases
  | .empty => {}
  | .insert h name qname => h.aliases.insert name qname
  | .merge h k => h.aliases.merge k.aliases

/-- The names with their candidates, in the order in which they were recorded. -/
def recorded : AliasHistory → List (String × String)
  | .empty => []
  | .insert h name qname => h.recorded ++ [(name, qname)]
  | .merge h k => h.recorded ++ k.recorded

theorem mem_candidates_iff {name q : String} (h : AliasHistory) :
    q ∈ h.aliases.candidates name ↔ (name, q) ∈ h.recorded := by
  induction h with
  | empty => exact iff_of_false List.not_mem_nil List.not_mem_nil
  | insert h n qname ih =>
    rw [aliases, Aliases.mem_candidates_insert, ih, recorded, List.mem_append,
      List.mem_singleton, Prod.ext_iff]
  | merge h k ihh ihk =>
    rw [aliases, Aliases.mem_candidates_merge, ihh, ihk, recorded, List.mem_append]

end AliasHistory

theorem Aliases.pairwise_candidates (a : Aliases) (name : String) :
    (a.candidates name).Pairwise (· < ·) := by
  refine (a.slots.get .empty name).ascending.imp fun {q q'} hbefore => ?_
  have hkey : Key.before (textKey q ++ []) (textKey q' ++ []) = true := by simpa using hbefore
  simpa [Key.before] using Key.before_textKey.1 hkey

/-! ## 4. The result -/

namespace AliasHistory

/-- That of the candidates recorded for a name, this one begins like the module in as many
components as any other, and is the least of those that do. -/
structure IsChosen (h : AliasHistory) (name module q : String) : Prop where
  recorded : (name, q) ∈ h.recorded
  closest : ∀ c, (name, c) ∈ h.recorded →
    ∀ n, Text.BeginAlike n c module → Text.BeginAlike n q module
  least : ∀ c, (name, c) ∈ h.recorded →
    (∀ n, Text.BeginAlike n q module → Text.BeginAlike n c module) → q ≤ c

section Chosen

variable {h : AliasHistory} {name module q c : String}

theorem forall_beginAlike_iff :
    (∀ n, Text.BeginAlike n c module → Text.BeginAlike n q module)
      ↔ sharedComponents c module ≤ sharedComponents q module := by
  simp only [Text.beginAlike_iff]
  exact ⟨fun hall => hall _ (Nat.le_refl _), fun hle n hn => Nat.le_trans hn hle⟩

theorem isChosen_iff :
    h.IsChosen name module q ↔ IsClosest module (h.aliases.candidates name) q := by
  constructor
  · rintro ⟨hmem, hclosest, hleast⟩
    simp only [forall_beginAlike_iff] at hclosest hleast
    refine ⟨h.mem_candidates_iff.2 hmem, fun c hc => hclosest c (h.mem_candidates_iff.1 hc),
      fun c hc hsame => hleast c (h.mem_candidates_iff.1 hc) (Nat.le_of_eq hsame.symm)⟩
  · rintro ⟨hmem, hmost, hleast⟩
    refine ⟨h.mem_candidates_iff.1 hmem, fun c hc => ?_, fun c hc hshared => ?_⟩
    · exact forall_beginAlike_iff.2 (hmost c (h.mem_candidates_iff.2 hc))
    · have hc' := h.mem_candidates_iff.2 hc
      exact hleast c hc' (Nat.le_antisymm (hmost c hc') (forall_beginAlike_iff.1 hshared))

/-- The choice depends on nothing but the recorded candidates. -/
theorem IsChosen.of_recorded_iff {k : AliasHistory} (hq : k.IsChosen name module q)
    (hsame : ∀ c, (name, c) ∈ k.recorded ↔ (name, c) ∈ h.recorded) :
    h.IsChosen name module q where
  recorded := (hsame q).1 hq.recorded
  closest c hc := hq.closest c ((hsame c).2 hc)
  least c hc := hq.least c ((hsame c).2 hc)

end Chosen

/-- **The closest candidate is chosen, and of equally close ones the least.**  However aliases were
collected, whatever the name and the module: there is no answer exactly if nothing was recorded for
the name, and otherwise the answer is the recorded candidate that begins like the module in the most
components, the least one if there are several.  Two collections with the same candidates for the
name give the same answer, in whatever order and portions they were recorded. -/
theorem resolve_chooses (h : AliasHistory) (name module : String) :
    (h.aliases.resolve? name module = none ↔ ∀ q, (name, q) ∉ h.recorded)
    ∧ (∀ q, h.aliases.resolve? name module = some q ↔ h.IsChosen name module q)
    ∧ ∀ k : AliasHistory, (∀ q, (name, q) ∈ k.recorded ↔ (name, q) ∈ h.recorded) →
        k.aliases.resolve? name module = h.aliases.resolve? name module := by
  have hsome : ∀ (h : AliasHistory) q,
      h.aliases.resolve? name module = some q ↔ h.IsChosen name module q := fun h q =>
    (closest?_eq_some_iff (h.aliases.pairwise_candidates name)).trans isChosen_iff.symm
  refine ⟨?_, hsome h, fun k hk => Option.ext fun q => ?_⟩
  · rw [Aliases.resolve?, closest?_eq_none_iff, List.eq_nil_iff_forall_not_mem]
    exact forall_congr' fun q => not_congr h.mem_candidates_iff
  · rw [hsome, hsome]
    exact ⟨fun hq => hq.of_recorded_iff hk, fun hq => hq.of_recorded_iff fun c => (hk c).symm⟩

end AliasHistory

namespace Sample

/-- A name with three candidates, one after another. -/
def configs : AliasHistory :=
  ((AliasHistory.empty.insert "Config" "zeta.Config").insert "Config" "pkg.sub.Config").insert
    "Config" "alpha.Config"

/-- The same candidates in two portions, one of them twice. -/
def configsInPortions : AliasHistory :=
  .merge ((AliasHistory.empty.insert "Config" "alpha.Config").insert "Config" "zeta.Config")
    ((AliasHistory.empty.insert "Config" "pkg.sub.Config").insert "Config" "alpha.Config")

/-- From inside a package its own candidate is chosen, and from elsewhere the least one. -/
theorem configs_chosen :
    (∀ q, ("Config", q) ∈ configsInPortions.recorded ↔ ("Config", q) ∈ configs.recorded)
      ∧ configs.IsChosen "Config" "pkg.sub.mod" "pkg.sub.Config"
      ∧ configs.IsChosen "Config" "unrelated" "alpha.Config"
      ∧ configsInPortions.aliases.resolve? "Config" "pkg.sub.mod" = some "pkg.sub.Config"
      ∧ configsInPortions.aliases.resolve? "Config" "unrelated" = some "alpha.Config"
      ∧ configs.aliases.resolve? "Missing" "pkg" = none := by
  have hsub : ∀ p ∈ configsInPortions.recorded, p ∈ configs.recorded := by decide +kernel
  have hsup : ∀ p ∈ configs.recorded, p ∈ configsInPortions.recorded := by decide +kernel
  have hsame : ∀ q, ("Config", q) ∈ configsInPortions.recorded
      ↔ ("Config", q) ∈ configs.recorded := fun q => ⟨hsub _, hsup _⟩
  have hinside : configs.aliases.resolve? "Config" "pkg.sub.mod" = some "pkg.sub.Config" := by
    decide +kernel
  have houtside : configs.aliases.resolve? "Config" "unrelated" = some "alpha.Config" := by
    decide +kernel
  obtain ⟨-, hchosen, hportions⟩ := configs.resolve_chooses "Config" "pkg.sub.mod"
  obtain ⟨-, hchosen', hportions'⟩ := configs.resolve_chooses "Config" "unrelated"
  exact ⟨hsame, (hchosen _).1 hinside, (hchosen' _).1 houtside,
    (hportions _ hsame).trans hinside, (hportions' _ hsame).trans houtside,
    (configs.resolve_chooses "Missing" "pkg").1.2 (by simp [configs, AliasHistory.recorded])⟩

end Sample

end ApiSurface
