import ApiSurface.Proofs.AncestorOrder
import ApiSurface.Proofs.References
import ApiSurface.Proofs.ReexportQuery
/-!
# Looking up methods

A class is asked for by its id, while the hierarchy knows it by its qualified name.  On the way in
the id gives way to the name, and on the way out each name to the id of the first class that bears
it.  Ids tell classes apart and classes have one name each, so nothing comes out twice
(`nodup_of_linearize`); but a class comes out as itself only if no earlier one bears its name.

Then, and only then, is a method looked up in the class that was asked for
(`method_lookup_per_class_iff`).  Of two classes with one qualified name, the later one is answered
for by the earlier, whatever it defines itself.
-/

namespace ApiSurface

namespace Api

variable {a : Api} {c d : ClassRow} {name : String} {order : List String} {f : FunctionRow}

/-! ## 1. The bearer of a name -/

theorem holds_of_classByQualifiedName? (h : a.classByQualifiedName? name = some c) :
    a.Holds (.class c) ∧ c.qualifiedName = name :=
  ⟨List.mem_of_find?_eq_some h, by simpa using List.find?_some h⟩

/-- No class before the one that a name stands for bears the name. -/
theorem not_lt_of_classByQualifiedName? (h : a.classByQualifiedName? name = some c)
    (hd : a.Holds (.class d)) (hname : d.qualifiedName = name) : ¬ d.id < c.id := by
  intro hlt
  obtain ⟨-, earlier, later, hsplit, hearlier⟩ := List.find?_eq_some_iff_append.1 h
  have hascending := a.classes.ascending
  have hmem : d ∈ a.classes.toList := hd
  rw [hsplit] at hascending hmem
  obtain ⟨-, hlater, -⟩ := List.pairwise_append.1 hascending
  have hbefore : Key.before (rowKey d) (rowKey c) = true := Table.before_rowKey_iff.2 hlt
  rcases List.mem_append.1 hmem with hmem | hmem
  · have hother := hearlier d hmem
    simp [hname] at hother
  · rcases List.mem_cons.1 hmem with rfl | hmem
    · rw [Key.before_irrefl] at hbefore
      cases hbefore
    · rw [Key.not_before_of_before ((List.pairwise_cons.1 hlater).1 d hmem)] at hbefore
      cases hbefore

/-- The qualified name of a class stands for the class itself exactly if no earlier class bears
it. -/
theorem classByQualifiedName?_self_iff (hc : a.Holds (.class c)) :
    a.classByQualifiedName? c.qualifiedName = some c
      ↔ ∀ d, a.Holds (.class d) → d.qualifiedName = c.qualifiedName → ¬ d.id < c.id := by
  refine ⟨fun h d hd hname => not_lt_of_classByQualifiedName? h hd hname, fun hfirst => ?_⟩
  cases h : a.classByQualifiedName? c.qualifiedName with
  | none => exact absurd (List.find?_eq_none.1 h c hc) (by simp)
  | some d =>
    obtain ⟨hd, hname⟩ := holds_of_classByQualifiedName? h
    have hdc : Key.before (rowKey d) (rowKey c) = false :=
      Bool.eq_false_iff.2 (mt Table.before_rowKey_iff.1 (hfirst d hd hname))
    have hcd : Key.before (rowKey c) (rowKey d) = false :=
      Bool.eq_false_iff.2 (mt Table.before_rowKey_iff.1 (not_lt_of_classByQualifiedName? h hc rfl))
    rw [Ascending.eq_of_key_eq hd hc (Key.eq_of_not_before hdc hcd)]

/-! ## 2. Linearizations in ids -/

/-- The id of the class that a name stands for. -/
def bearerId? (a : Api) (name : String) : Option String :=
  (a.classByQualifiedName? name).map ClassRow.id

/-- An id is that of one class, which has one name. -/
theorem bearerId?_injective {name' id : String} (h : id ∈ a.bearerId? name)
    (h' : id ∈ a.bearerId? name') : name = name' := by
  obtain ⟨c, hc, hid⟩ := Option.map_eq_some_iff.1 h
  obtain ⟨c', hc', hid'⟩ := Option.map_eq_some_iff.1 h'
  obtain ⟨hmem, rfl⟩ := holds_of_classByQualifiedName? hc
  obtain ⟨hmem', rfl⟩ := holds_of_classByQualifiedName? hc'
  rw [Table.eq_of_id_eq hmem hmem' (hid.trans hid'.symm)]

theorem linearize_of_holds (hc : a.Holds (.class c)) :
    a.linearize c.id
      = (a.hierarchy.linearize c.qualifiedName).map fun names => names.filterMap a.bearerId? := by
  have hget : a.classes.get? c.id = some c := Table.get?_eq_some_iff.2 ⟨hc, rfl⟩
  rw [linearize, hget]
  dsimp only
  cases a.hierarchy.linearize c.qualifiedName <;> rfl

theorem linearize_eq_ok (hc : a.Holds (.class c)) (h : a.linearize c.id = .ok order) :
    ∃ names, a.hierarchy.linearize c.qualifiedName = .ok names
      ∧ order = names.filterMap a.bearerId? := by
  rw [linearize_of_holds hc] at h
  cases hnames : a.hierarchy.linearize c.qualifiedName with
  | error e =>
    rw [hnames] at h
    cases h
  | ok names =>
    rw [hnames] at h
    cases h
    exact ⟨names, rfl, rfl⟩

theorem nodup_of_linearize (hc : a.Holds (.class c)) (h : a.linearize c.id = .ok order) :
    order.Nodup := by
  obtain ⟨names, hnames, rfl⟩ := linearize_eq_ok hc h
  refine (Hierarchy.nodup_of_linearize hnames).filterMap ?_
  intro name name' id hid hid'
  exact bearerId?_injective hid hid'

/-- A linearization starts with the class for which the name of the class stands. -/
theorem head?_of_linearize (hc : a.Holds (.class c)) (h : a.linearize c.id = .ok order) :
    order.head? = a.bearerId? c.qualifiedName := by
  obtain ⟨names, hnames, rfl⟩ := linearize_eq_ok hc h
  obtain ⟨above, rfl, -⟩ := Hierarchy.exists_agrees hnames
  have hsome : (a.classByQualifiedName? c.qualifiedName).isSome = true :=
    List.find?_isSome.2 ⟨c, hc, by simp⟩
  obtain ⟨first, hfirst⟩ := Option.isSome_iff_exists.1 hsome
  simp [bearerId?, hfirst]

theorem head?_of_linearize_eq_self_iff (hc : a.Holds (.class c))
    (h : a.linearize c.id = .ok order) :
    order.head? = some c.id
      ↔ ∀ d, a.Holds (.class d) → d.qualifiedName = c.qualifiedName → ¬ d.id < c.id := by
  rw [head?_of_linearize hc h, ← classByQualifiedName?_self_iff hc]
  constructor
  · intro hid
    obtain ⟨d, hd, hsame⟩ := Option.map_eq_some_iff.1 hid
    rw [hd, Table.eq_of_id_eq (holds_of_classByQualifiedName? hd).1 hc hsame]
  · intro hself
    rw [bearerId?, hself, Option.map_some]

/-! ## 3. Definitions along an order -/

/-- That a class lists a function that has a row, among its methods or as its constructor. -/
def Lists (a : Api) (c : ClassRow) (f : FunctionRow) : Prop :=
  a.Holds (.function f) ∧ f.id ∈ c.methods ++ c.constructor?.toList

/-- The function of a name that a class lists itself; the first, if it lists several. -/
def definition? (a : Api) (c : ClassRow) (name : String) : Option FunctionRow :=
  (a.ownFunctions c).find? fun f => f.name == name

theorem mem_ownFunctions_iff : f ∈ a.ownFunctions c ↔ a.Lists c f := by
  rw [ownFunctions, List.mem_filterMap, Lists]
  constructor
  · rintro ⟨id, hid, hget⟩
    obtain ⟨hf, rfl⟩ := Table.get?_eq_some_iff.1 hget
    exact ⟨hf, hid⟩
  · rintro ⟨hf, hid⟩
    exact ⟨f.id, hid, Table.get?_eq_some_iff.2 ⟨hf, rfl⟩⟩

theorem lists_of_definition? (h : a.definition? c name = some f) : a.Lists c f ∧ f.name = name :=
  ⟨mem_ownFunctions_iff.1 (List.mem_of_find?_eq_some h), by simpa using List.find?_some h⟩

theorem exists_definition? (h : a.Lists c f) : ∃ g, a.definition? c f.name = some g := by
  rw [← Option.isSome_iff_exists, definition?, List.find?_isSome]
  exact ⟨f, mem_ownFunctions_iff.2 h, by simp⟩

/-- That a class of an order defines a method, and none before it does. -/
def Nearest (a : Api) (order : List String) (name : String) (f : FunctionRow) : Prop :=
  ∃ before d after, order = before ++ d.id :: after ∧ a.Holds (.class d)
    ∧ a.definition? d name = some f
    ∧ ∀ d', a.Holds (.class d') → d'.id ∈ before → a.definition? d' name = none

theorem nearest_cons_of_some {g : FunctionRow} (hc : a.Holds (.class c))
    (h : a.definition? c name = some g) : a.Nearest (c.id :: order) name f ↔ g = f := by
  constructor
  · rintro ⟨before, d, after, hsplit, hd, hdef, hnone⟩
    cases before with
    | nil =>
      have hsame : c = d := Table.eq_of_id_eq hc hd (List.cons.inj hsplit).1
      rw [hsame, hdef] at h
      exact (Option.some.inj h).symm
    | cons id before =>
      have hskipped := hnone c hc (by simp [(List.cons.inj hsplit).1])
      cases hskipped.symm.trans h
  · rintro rfl
    exact ⟨[], c, order, rfl, hc, h, by simp⟩

theorem nearest_cons_of_none {id : String}
    (h : ∀ d, a.Holds (.class d) → d.id = id → a.definition? d name = none) :
    a.Nearest (id :: order) name f ↔ a.Nearest order name f := by
  constructor
  · rintro ⟨before, d, after, hsplit, hd, hdef, hnone⟩
    cases before with
    | nil => cases (h d hd (List.cons.inj hsplit).1.symm).symm.trans hdef
    | cons id' before =>
      refine ⟨before, d, after, (List.cons.inj hsplit).2, hd, hdef, fun d' hd' hmem => ?_⟩
      exact hnone d' hd' (List.mem_cons_of_mem _ hmem)
  · rintro ⟨before, d, after, rfl, hd, hdef, hnone⟩
    refine ⟨id :: before, d, after, rfl, hd, hdef, fun d' hd' hmem => ?_⟩
    rcases List.mem_cons.1 hmem with hid | hmem
    · exact h d' hd' hid
    · exact hnone d' hd' hmem

/-- The first definition that the classes of an order have. -/
def search? (a : Api) (order : List String) (name : String) : Option FunctionRow :=
  (order.filterMap a.classes.get?).findSome? fun c => a.definition? c name

theorem search?_eq_some_iff : a.search? order name = some f ↔ a.Nearest order name f := by
  induction order with
  | nil =>
    refine iff_of_false (by simp [search?]) ?_
    rintro ⟨before, d, after, hsplit, -⟩
    cases before <;> cases hsplit
  | cons id order ih =>
    cases hget : a.classes.get? id with
    | none =>
      rw [search?, List.filterMap_cons_none hget, ← search?, ih, nearest_cons_of_none]
      intro d hd hid
      cases hget.symm.trans (Table.get?_eq_some_iff.2 ⟨hd, hid⟩)
    | some c =>
      obtain ⟨hc, rfl⟩ := Table.get?_eq_some_iff.1 hget
      rw [search?, List.filterMap_cons_some hget, List.findSome?_cons, ← search?]
      cases hdef : a.definition? c name with
      | some g => exact Option.some_inj.trans (nearest_cons_of_some hc hdef).symm
      | none =>
        rw [nearest_cons_of_none]
        · exact ih
        · intro d hd hid
          rw [Table.eq_of_id_eq hd hc hid, hdef]

theorem resolveMethod?_of_linearize {id : String} (h : a.linearize id = .ok order)
    (name : String) : a.resolveMethod? id name = .ok (a.search? order name) := by
  rw [resolveMethod?, h]
  rfl

/-! ## 4. Lookup in the class asked for -/

/-- That methods are looked up in a class first, then along its other ancestors, none of them
twice. -/
structure PerClass (a : Api) (c : ClassRow) (order : List String) : Prop where
  first : order.head? = some c.id
  nodup : order.Nodup
  own : ∀ f, a.Lists c f →
    ∃ g, a.definition? c f.name = some g ∧ a.resolveMethod? c.id f.name = .ok (some g)
  inherited : ∀ name, (∀ f, a.Lists c f → f.name ≠ name) →
    ∃ found, a.resolveMethod? c.id name = .ok found
      ∧ ∀ f, found = some f ↔ a.Nearest order.tail name f

/-- An order that starts with the class looks methods up in the class. -/
theorem perClass_of_head? (hc : a.Holds (.class c)) (h : a.linearize c.id = .ok order)
    (hfirst : order.head? = some c.id) : a.PerClass c order := by
  obtain ⟨rest, rfl⟩ := List.head?_eq_some_iff.1 hfirst
  refine ⟨rfl, nodup_of_linearize hc h, fun f hf => ?_, fun name hother => ?_⟩
  · obtain ⟨g, hg⟩ := exists_definition? hf
    refine ⟨g, hg, ?_⟩
    rw [resolveMethod?_of_linearize h, search?_eq_some_iff.2 ((nearest_cons_of_some hc hg).2 rfl)]
  · refine ⟨_, resolveMethod?_of_linearize h name, fun f => ?_⟩
    rw [search?_eq_some_iff, List.tail_cons, nearest_cons_of_none]
    intro d hd hid
    rw [Table.eq_of_id_eq hd hc hid]
    by_contra hsome
    obtain ⟨g, hg⟩ := Option.ne_none_iff_exists'.1 hsome
    exact hother g (lists_of_definition? hg).1 (lists_of_definition? hg).2

/-- **A method is looked up in its class unless an earlier class has the same qualified name.**
Whenever a class of a model has a linearization, no id is in it twice, and every lookup comes to the
definition of the nearest class in it that has one.  The class itself stands first there, so that
its own definitions go before inherited ones, exactly if no class with a smaller id bears its
qualified name. -/
theorem method_lookup_per_class_iff (a : Api) {c : ClassRow} {order : List String}
    (hc : a.Holds (.class c)) (horder : a.linearize c.id = .ok order) :
    order.Nodup
      ∧ (∀ name, ∃ found, a.resolveMethod? c.id name = .ok found
        ∧ ∀ f, found = some f ↔ a.Nearest order name f)
      ∧ (a.PerClass c order
        ↔ ∀ d, a.Holds (.class d) → d.qualifiedName = c.qualifiedName → ¬ d.id < c.id) := by
  refine ⟨nodup_of_linearize hc horder, fun name => ?_, ?_⟩
  · exact ⟨_, resolveMethod?_of_linearize horder name, fun f => search?_eq_some_iff⟩
  · rw [← head?_of_linearize_eq_self_iff hc horder]
    exact ⟨PerClass.first, perClass_of_head? hc horder⟩

namespace Sample

def classRow (id qualifiedName : String) (superclasses methods : List String) : ClassRow :=
  { id, name := "C", qualifiedName, superclasses, isPublic := true, isException := false,
    docstring := ⟨"", ""⟩, constructor? := none, constructorFullDocstring := "", attributes := [],
    methods, classes := [], typeParameters := [], reexportedBy := [] }

def functionRow (id name : String) : FunctionRow :=
  { id, name, qualifiedName := name, isPublic := true, isStatic := false, isClassMethod := false,
    isProperty := false, docstring := ⟨"", ""⟩, parameters := [], results := [],
    typeVarTypes := .empty, reexportedBy := [] }

def base : ClassRow := classRow "m/A" "m.A" [] ["m/A/f", "m/A/g"]

def derived : ClassRow := classRow "m/B" "m.B" ["m.A"] ["m/B/f"]

/-- A class that overrides one of two methods of its base. -/
def overriding : Api :=
  ([.class base, .class derived, .function (functionRow "m/A/f" "f"),
    .function (functionRow "m/A/g" "g"), .function (functionRow "m/B/f" "f")]
      : List Entity).foldl Api.add {}

theorem holds_derived : overriding.Holds (.class derived) := by
  have hmem : derived ∈ overriding.classes.toList := by decide
  exact hmem

theorem linearize_overriding : overriding.linearize derived.id = .ok ["m/B", "m/A"] := by
  have hbases : overriding.hierarchy.basesOf "m.B" = ["m.A"]
      ∧ overriding.hierarchy.basesOf "m.A" = [] := by decide
  have hnames : overriding.hierarchy.linearize derived.qualifiedName = .ok ["m.B", "m.A"] := by
    simp (disch := decide) only [derived, classRow, Hierarchy.linearize,
      Hierarchy.linearizeBelow_of_not_mem, hbases.1, hbases.2, List.mapM_cons, List.mapM_nil]
    cbv
  rw [linearize_of_holds holds_derived, hnames]
  decide

theorem overridden_method_per_class :
    overriding.Holds (.class derived) ∧ overriding.linearize derived.id = .ok ["m/B", "m/A"]
      ∧ overriding.PerClass derived ["m/B", "m/A"] := by
  refine ⟨holds_derived, linearize_overriding, ?_⟩
  have hfirst : ∀ d ∈ overriding.classes.toList,
      d.qualifiedName = derived.qualifiedName → ¬ d.id < derived.id := by decide
  exact (method_lookup_per_class_iff overriding holds_derived linearize_overriding).2.2.2 hfirst

def earlier : ClassRow := classRow "a/C" "m.C" [] ["a/C/f"]

def later : ClassRow := classRow "b/C" "m.C" [] ["b/C/f"]

/-- Two classes with one qualified name, each with a method of its own. -/
def namesakes : Api :=
  ([.class earlier, .class later, .function (functionRow "a/C/f" "f"),
    .function (functionRow "b/C/f" "f")] : List Entity).foldl Api.add {}

theorem linearize_namesakes : namesakes.linearize later.id = .ok ["a/C"] := by
  have hbases : namesakes.hierarchy.basesOf "m.C" = [] := by decide
  have hnames : namesakes.hierarchy.linearize later.qualifiedName = .ok ["m.C"] := by
    simp (disch := decide) only [later, classRow, Hierarchy.linearize,
      Hierarchy.linearizeBelow_of_not_mem, hbases, List.mapM_nil]
    cbv
  have hlater : later ∈ namesakes.classes.toList := by decide
  rw [linearize_of_holds hlater, hnames]
  decide

/-- A method that the later namesake defines is looked up in the earlier one. -/
theorem namesake_method_found :
    namesakes.linearize later.id = .ok ["a/C"]
      ∧ namesakes.definition? later "f" = some (functionRow "b/C/f" "f")
      ∧ namesakes.resolveMethod? later.id "f" = .ok (some (functionRow "a/C/f" "f")) := by
  have hfound : namesakes.search? ["a/C"] "f" = some (functionRow "a/C/f" "f") := by decide
  refine ⟨linearize_namesakes, by decide, ?_⟩
  rw [resolveMethod?_of_linearize linearize_namesakes, hfound]

end Sample

end Api

end ApiSurface
