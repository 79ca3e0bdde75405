import ApiSurface.Proofs.DocumentText
import Mathlib.Data.List.Nodup
/-!
# Reading a document

Reading takes the tables of a document one after the other and the rows of a table in their order,
and stops at the first row whose id the table has already.  So the document alone tells the error:
the first table that repeats an id, and the first id that this table repeats (`FirstClash`).  If no
table repeats an id nothing is lost, and what is read is the document with each table sorted by ids.

What is known of a table while it is read is which ids are taken, hence `FirstTaken`; at the start
of a table no id is (`FirstRepeated`).
-/

namespace ApiSurface

/-! ## 1. The first repeated id -/

/-- That an id is the first of a list that is taken or stands further ahead in the list. -/
def FirstTaken (taken : String → Prop) (ids : List String) (id : String) : Prop :=
  ∃ before after, ids = before ++ id :: after ∧ before.Nodup ∧ (∀ i ∈ before, ¬ taken i)
    ∧ (taken id ∨ id ∈ before)

/-- That an id is the first that a list repeats. -/
def FirstRepeated (ids : List String) (id : String) : Prop :=
  ∃ before after, ids = before ++ id :: after ∧ before.Nodup ∧ id ∈ before

theorem firstTaken_nothing {ids : List String} {id : String} :
    FirstTaken (fun _ => False) ids id ↔ FirstRepeated ids id := by
  simp [FirstTaken, FirstRepeated]

theorem firstTaken_nil {taken : String → Prop} {id : String} : ¬ FirstTaken taken [] id := by
  rintro ⟨before, after, h, -⟩
  simp at h

theorem firstTaken_cons {taken : String → Prop} {i : String} {ids : List String} {id : String} :
    FirstTaken taken (i :: ids) id
      ↔ taken i ∧ id = i ∨ ¬ taken i ∧ FirstTaken (fun j => j = i ∨ taken j) ids id := by
  constructor
  · rintro ⟨before, after, heq, hnodup, hfree, hid⟩
    cases before with
    | nil =>
      cases heq
      exact .inl ⟨by simpa using hid, rfl⟩
    | cons j before =>
      cases heq
      obtain ⟨hj, hnodup⟩ := List.nodup_cons.1 hnodup
      obtain ⟨hjfree, hfree⟩ := List.forall_mem_cons.1 hfree
      refine .inr ⟨hjfree, before, after, rfl, hnodup, ?_, ?_⟩
      · rintro k hk (rfl | htaken)
        · exact hj hk
        · exact hfree k hk htaken
      · rw [List.mem_cons] at hid
        tauto
  · rintro (⟨htaken, rfl⟩ | ⟨hfree, before, after, rfl, hnodup, hbefore, hid⟩)
    · exact ⟨[], ids, rfl, List.nodup_nil, by simp, .inl htaken⟩
    · refine ⟨i :: before, after, rfl, List.nodup_cons.2 ⟨?_, hnodup⟩,
        List.forall_mem_cons.2 ⟨hfree, fun k hk htaken => hbefore k hk (.inr htaken)⟩, ?_⟩
      · exact fun hi => hbefore i hi (.inl rfl)
      · rw [List.mem_cons]
        tauto

/-- That ids are new: neither taken nor repeated. -/
def AllNew (taken : String → Prop) (ids : List String) : Prop :=
  ids.Nodup ∧ ∀ i ∈ ids, ¬ taken i

theorem allNew_cons {taken : String → Prop} {i : String} {ids : List String} :
    AllNew taken (i :: ids) ↔ ¬ taken i ∧ AllNew (fun j => j = i ∨ taken j) ids := by
  simp only [AllNew, List.nodup_cons, List.forall_mem_cons, not_or]
  constructor
  · rintro ⟨⟨hi, hnodup⟩, hfree, hall⟩
    exact ⟨hfree, hnodup, fun j hj => ⟨fun heq => hi (heq ▸ hj), hall j hj⟩⟩
  · rintro ⟨hfree, hnodup, hall⟩
    exact ⟨⟨fun hi => (hall i hi).1 rfl, hnodup⟩, hfree, fun j hj => (hall j hj).2⟩

/-! ## 2. Reading a table -/

namespace Table

variable {ρ : Type} [HasId ρ] {name : String} {e : Error}

/-- The ids of rows. -/
abbrev rowIds (rows : List ρ) : List String := rows.map HasId.id

theorem mem_keys_insert {t : Table ρ} {row : ρ} {id : String} :
    id ∈ (keys (t.insert row)).toList ↔ id = HasId.id row ∨ id ∈ t.keys.toList := by
  rw [← hasKey_textKey, Ascending.hasKey_insert, hasKey_textKey]
  exact or_congr_left ⟨fun h => (textKey_injective h).symm, fun h => h ▸ rfl⟩

theorem extend_eq_error {t : Table ρ} {rows : List ρ} :
    extend name t rows = .error e ↔ ∃ id, FirstTaken (· ∈ t.keys.toList) (rowIds rows) id
      ∧ e = .malformedInput name ("duplicate id in document: " ++ id) := by
  induction rows generalizing t with
  | nil => simp [extend, firstTaken_nil]
  | cons row rows ih =>
    rw [extend]
    by_cases htaken : HasId.id row ∈ t.keys.toList
    · rw [if_pos (contains_iff.2 htaken)]
      simp [firstTaken_cons, htaken, eq_comm]
    · rw [if_neg (fun h => htaken (contains_iff.1 h)), ih]
      simp [firstTaken_cons, htaken, mem_keys_insert]

theorem extend_eq_ok {t t' : Table ρ} {rows : List ρ} :
    extend name t rows = .ok t'
      ↔ AllNew (· ∈ t.keys.toList) (rowIds rows) ∧ t' = rows.foldl Ascending.insert t := by
  induction rows generalizing t with
  | nil => simp [extend, AllNew, eq_comm]
  | cons row rows ih =>
    rw [extend]
    by_cases htaken : HasId.id row ∈ t.keys.toList
    · rw [if_pos (contains_iff.2 htaken)]
      simp [allNew_cons, htaken]
    · rw [if_neg (fun h => htaken (contains_iff.1 h)), ih]
      simp [allNew_cons, htaken, mem_keys_insert]

theorem mem_keys_empty {id : String} :
    id ∈ (keys (Ascending.empty : Table ρ)).toList ↔ False :=
  iff_false_intro List.not_mem_nil

theorem ofRows_eq_error {rows : List ρ} :
    ofRows name rows = .error e ↔ ∃ id, FirstRepeated (rowIds rows) id
      ∧ e = .malformedInput name ("duplicate id in document: " ++ id) := by
  simp only [ofRows, extend_eq_error, mem_keys_empty, firstTaken_nothing]

theorem ofRows_eq_ok {rows : List ρ} {t : Table ρ} :
    ofRows name rows = .ok t ↔ (rowIds rows).Nodup ∧ t = Ascending.ofList rows := by
  simp only [ofRows, extend_eq_ok, mem_keys_empty, AllNew, not_false_eq_true, implies_true,
    and_true]
  rfl

theorem not_nodup_of_ofRows {rows : List ρ} {e : Error} (h : ofRows name rows = .error e) :
    ¬ (rowIds rows).Nodup := by
  intro hnodup
  rw [ofRows_eq_ok.2 ⟨hnodup, rfl⟩] at h
  cases h

/-- Rows in the order of their ids. -/
def sortedById (rows : List ρ) : List ρ :=
  rows.mergeSort fun r q => decide (HasId.id r ≤ HasId.id q)

theorem pairwise_sortedById (rows : List ρ) :
    (sortedById rows).Pairwise fun r q => HasId.id r ≤ HasId.id q := by
  refine (List.pairwise_mergeSort ?_ ?_ rows).imp of_decide_eq_true
  · intro r q s hrq hqs
    rw [decide_eq_true_eq] at hrq hqs ⊢
    exact String.le_trans hrq hqs
  · intro r q
    simpa using String.le_total (HasId.id r) (HasId.id q)

theorem pairwise_toList (t : Table ρ) :
    t.toList.Pairwise fun r q => HasId.id r ≤ HasId.id q := by
  refine t.ascending.imp fun {r q} h => ?_
  exact String.not_lt.1 (String.lt_asymm (before_rowKey_iff.1 h))

/-- A table has all rows of a list without repeated ids. -/
theorem mem_ofList {rows : List ρ} (h : (rowIds rows).Nodup) {r : ρ} :
    r ∈ (Ascending.ofList rows : Table ρ).toList ↔ r ∈ rows := by
  refine ⟨Ascending.mem_of_mem_ofList, fun hr => ?_⟩
  have hkey : HasId.id r ∈ (keys (Ascending.ofList rows)).toList := by
    rw [keys_ofList, NameSet.mem_ofList]
    exact List.mem_map_of_mem hr
  obtain ⟨q, hq, hid⟩ := mem_keys.1 hkey
  rwa [← List.inj_on_of_nodup_map h (Ascending.mem_of_mem_ofList hq) hr hid]

/-- The table of rows without repeated ids has them sorted. -/
theorem toList_ofList {rows : List ρ} (h : (rowIds rows).Nodup) :
    (Ascending.ofList rows : Table ρ).toList = sortedById rows := by
  have hperm : (Ascending.ofList rows : Table ρ).toList.Perm rows :=
    (List.perm_ext_iff_of_nodup (Ascending.nodup _) (List.Nodup.of_map _ h)).2 fun r => mem_ofList h
  refine List.Perm.eq_of_pairwise ?_ (pairwise_toList _) (pairwise_sortedById rows)
    (hperm.trans (List.mergeSort_perm rows _).symm)
  intro r q hr hq hrq hqr
  have hq : q ∈ rows := (List.mergeSort_perm rows _).mem_iff.1 hq
  exact List.inj_on_of_nodup_map h (hperm.mem_iff.1 hr) hq (String.le_antisymm hrq hqr)

end Table

/-! ## 3. Reading all tables -/

/-- The ids of several tables, each under the table's name. -/
abbrev IdTables := List (String × List String)

namespace IdTables

/-- That a table is the first that repeats an id, and which id it repeats first. -/
def FirstClash (tables : IdTables) (name id : String) : Prop :=
  ∃ before ids after, tables = before ++ (name, ids) :: after ∧ (∀ t ∈ before, t.2.Nodup)
    ∧ FirstRepeated ids id

/-- The error that is reported for tables. -/
def Reports (tables : IdTables) (e : Error) : Prop :=
  ∃ name id, tables.FirstClash name id
    ∧ e = .malformedInput name ("duplicate id in document: " ++ id)

theorem not_reports_nil (e : Error) : ¬ Reports [] e := by
  rintro ⟨name, id, ⟨before, ids, after, h, -⟩, -⟩
  simp at h

theorem firstClash_cons {tables : IdTables} {first name id : String} {ids : List String} :
    FirstClash ((first, ids) :: tables) name id
      ↔ name = first ∧ FirstRepeated ids id ∨ ids.Nodup ∧ tables.FirstClash name id := by
  constructor
  · rintro ⟨before, ids', after, heq, hbefore, hid⟩
    cases before with
    | nil =>
      cases heq
      exact .inl ⟨rfl, hid⟩
    | cons t before =>
      cases heq
      obtain ⟨hids, hbefore⟩ := List.forall_mem_cons.1 hbefore
      exact .inr ⟨hids, before, ids', after, rfl, hbefore, hid⟩
  · rintro (⟨rfl, hid⟩ | ⟨hids, before, ids', after, rfl, hbefore, hid⟩)
    · exact ⟨[], ids, tables, rfl, by simp, hid⟩
    · exact ⟨(first, ids) :: before, ids', after, rfl, List.forall_mem_cons.2 ⟨hids, hbefore⟩, hid⟩

theorem reports_cons {tables : IdTables} {name : String} {ids : List String} {e : Error} :
    Reports ((name, ids) :: tables) e
      ↔ (∃ id, FirstRepeated ids id ∧ e = .malformedInput name ("duplicate id in document: " ++ id))
        ∨ ids.Nodup ∧ tables.Reports e := by
  simp only [Reports, firstClash_cons, or_and_right, exists_or, and_assoc, exists_and_left,
    exists_eq_left]

section Step

variable {ρ α : Type} [HasId ρ] {name : String} {rows : List ρ} {f : Table ρ → Except Error α}

/-- Reading a table and then others reports what is reported for all of them. -/
theorem bind_ofRows_eq_error {tables : IdTables} {e : Error}
    (hf : ∀ t, f t = .error e ↔ tables.Reports e) :
    (Table.ofRows name rows >>= f) = .error e
      ↔ Reports ((name, Table.rowIds rows) :: tables) e := by
  rw [reports_cons, ← Table.ofRows_eq_error]
  cases h : Table.ofRows name rows with
  | error e' =>
    rw [or_iff_left fun hnodup => Table.not_nodup_of_ofRows h hnodup.1]
    simp [bind, Except.bind]
  | ok t =>
    obtain ⟨hnodup, -⟩ := Table.ofRows_eq_ok.1 h
    simp [bind, Except.bind, hnodup, hf]

theorem bind_ofRows_eq_ok {x : α} :
    (Table.ofRows name rows >>= f) = .ok x
      ↔ (Table.rowIds rows).Nodup ∧ f (Ascending.ofList rows) = .ok x := by
  cases h : Table.ofRows name rows with
  | error e =>
    simp [bind, Except.bind, Table.not_nodup_of_ofRows h]
  | ok t =>
    obtain ⟨hnodup, rfl⟩ := Table.ofRows_eq_ok.1 h
    simp [bind, Except.bind, hnodup]

end Step

end IdTables

namespace Document

/-- The ids of a document's tables, in the order in which the tables are read. -/
def idTables (d : Document) : IdTables :=
  [("modules", Table.rowIds d.modules), ("classes", Table.rowIds d.classes),
    ("functions", Table.rowIds d.functions), ("parameters", Table.rowIds d.parameters),
    ("attributes", Table.rowIds d.attributes), ("results", Table.rowIds d.results),
    ("enums", Table.rowIds d.enums), ("enum_instances", Table.rowIds d.enumInstances)]

/-- The document with each table sorted by ids, in the current version. -/
def sorted (d : Document) : Document :=
  { d with
    schemaVersion := "1"
    modules := Table.sortedById d.modules
    classes := Table.sortedById d.classes
    functions := Table.sortedById d.functions
    results := Table.sortedById d.results
    enums := Table.sortedById d.enums
    enumInstances := Table.sortedById d.enumInstances
    attributes := Table.sortedById d.attributes
    parameters := Table.sortedById d.parameters }

/-- The model with the rows of a document. -/
def model (d : Document) : Api where
  distribution := d.distribution
  package := d.package
  version := d.version
  modules := .ofList d.modules
  classes := .ofList d.classes
  functions := .ofList d.functions
  parameters := .ofList d.parameters
  attributes := .ofList d.attributes
  results := .ofList d.results
  enums := .ofList d.enums
  enumInstances := .ofList d.enumInstances

variable {d : Document}

theorem ofDocument_eq_error {e : Error} : Api.ofDocument d = .error e ↔ d.idTables.Reports e := by
  unfold Api.ofDocument idTables
  iterate 8 refine IdTables.bind_ofRows_eq_error fun _ => ?_
  exact iff_of_false (by simp [pure, Except.pure]) (IdTables.not_reports_nil e)

theorem ofDocument_eq_ok {a : Api} :
    Api.ofDocument d = .ok a ↔ (∀ t ∈ d.idTables, t.2.Nodup) ∧ a = d.model := by
  have hread : (pure d.model : Except Error Api) = .ok a ↔ a = d.model := by
    simp [pure, Except.pure, eq_comm]
  rw [← hread]
  simp only [idTables, List.forall_mem_cons, List.not_mem_nil, false_implies, implies_true,
    and_true, and_assoc]
  unfold Api.ofDocument
  iterate 8 refine IdTables.bind_ofRows_eq_ok.trans (and_congr_right fun _ => ?_)
  exact Iff.rfl

theorem exists_error_iff :
    (∃ e, Api.ofDocument d = .error e) ↔ ∃ t ∈ d.idTables, ¬ t.2.Nodup := by
  cases h : Api.ofDocument d with
  | ok a =>
    refine iff_of_false (by simp) ?_
    rintro ⟨t, ht, hrepeats⟩
    exact hrepeats ((ofDocument_eq_ok.1 h).1 t ht)
  | error e =>
    refine iff_of_true ⟨e, rfl⟩ ?_
    by_contra hnone
    have hnodup : ∀ t ∈ d.idTables, t.2.Nodup := fun t ht =>
      not_not.1 fun hrepeats => hnone ⟨t, ht, hrepeats⟩
    rw [ofDocument_eq_ok.2 ⟨hnodup, rfl⟩] at h
    cases h

/-- Without repeated ids, no row is lost and each table is sorted. -/
theorem toDocument_model (h : ∀ t ∈ d.idTables, t.2.Nodup) : d.model.toDocument = d.sorted := by
  simp only [idTables, List.forall_mem_cons] at h
  obtain ⟨hmodules, hclasses, hfunctions, hparameters, hattributes, hresults, henums, hinstances,
    -⟩ := h
  simp only [model, Api.toDocument, sorted, Table.toList_ofList, hmodules, hclasses, hfunctions,
    hparameters, hattributes, hresults, henums, hinstances]
  rfl

theorem toDocument_injective {a b : Api} (h : a.toDocument = b.toDocument) : a = b := by
  have hread := Api.ofDocument_toDocument a
  rw [h, Api.ofDocument_toDocument] at hread
  exact (Except.ok.inj hread).symm

/-! ## 4. Documents and models -/

/-- **Reading a document.**  It fails exactly if a table has two rows with one id, and the error
names the first such table, in the order of reading, and the first id that is repeated there.
Otherwise what is read has the document itself as its document, sorted by ids and in the current
version.  Every model is read from its document. -/
theorem read_exact (d : Document) :
    ((∃ e, Api.ofDocument d = .error e) ↔ ∃ t ∈ d.idTables, ¬ t.2.Nodup)
      ∧ (∀ e, Api.ofDocument d = .error e ↔ ∃ table id, d.idTables.FirstClash table id
          ∧ e = .malformedInput table ("duplicate id in document: " ++ id))
      ∧ (∀ a, Api.ofDocument d = .ok a
          ↔ (∀ t ∈ d.idTables, t.2.Nodup) ∧ a.toDocument = d.sorted)
      ∧ ∀ a : Api, Api.ofDocument a.toDocument = .ok a := by
  refine ⟨exists_error_iff, fun e => ofDocument_eq_error, fun a => ?_, Api.ofDocument_toDocument⟩
  rw [ofDocument_eq_ok]
  refine and_congr_right fun h => ?_
  rw [← toDocument_model h]
  exact ⟨congrArg Api.toDocument, toDocument_injective⟩

end Document

end ApiSurface
