import ApiSurface.Api.Document
import Mathlib.Data.List.Pairwise
/-!
# Ascending lists and the tables of a model

What adding elements to an ascending list does to its keys, and when two such lists are equal.  The
eight tables of a model are one notion: a row type with a table (`IsRow`).  Adding an entity inserts
its row into the table of its type and leaves the other tables alone, and merging models unites
their tables; both are said once for all row types.
-/

namespace ApiSurface

/-! ## 1. Keys -/

theorem textKey_injective {s t : String} (h : textKey s = textKey t) : s = t :=
  readable_textKey.injective h

theorem Key.eq_of_not_before {s t : Key} (h : Key.before s t = false) (k : Key.before t s = false) :
    s = t := by
  rcases Key.before_total s t with h' | h' | h'
  · rw [h] at h'; cases h'
  · exact h'
  · rw [k] at h'; cases h'

/-- Characters are compared in keys by their numbers, all of them positive. -/
theorem Key.before_chars {k l : Key} (a b : List Char) :
    Key.before (a.map (fun c => (c.toNat : Int) + 1) ++ [0] ++ k)
        (b.map (fun c => (c.toNat : Int) + 1) ++ [0] ++ l) = true
      ↔ a < b ∨ a = b ∧ Key.before k l = true := by
  induction a generalizing b with
  | nil =>
    cases b with
    | nil => simp [Key.before]
    | cons d b =>
      have hpos : (0 : Int) < d.toNat + 1 := by omega
      simp [Key.before, hpos]
  | cons c a ih =>
    cases b with
    | nil =>
      have hpos : ¬ (c.toNat : Int) + 1 < 0 := by omega
      have hne : ¬ (c.toNat : Int) + 1 = 0 := by omega
      simp [Key.before, hpos, hne]
    | cons d b =>
      have hlt : (c.toNat : Int) + 1 < d.toNat + 1 ↔ c < d := by
        rw [Char.lt_def, UInt32.lt_iff_toNat_lt]
        exact Int.add_lt_add_iff_right 1 |>.trans Int.ofNat_lt
      have heq : (c.toNat : Int) + 1 = d.toNat + 1 ↔ c = d := by
        rw [Int.add_left_inj, Int.ofNat_inj]
        exact ⟨fun h => Char.ext (UInt32.toNat_inj.1 h), congrArg _⟩
      simp only [List.map_cons, List.cons_append, Key.before, Bool.or_eq_true, Bool.and_eq_true,
        decide_eq_true_eq, beq_iff_eq, hlt, heq, List.cons_lt_cons_iff, List.cons.injEq, ih]
      rw [and_or_left, or_assoc, and_assoc]

/-- A text's key comes before another's as the text does, and what follows decides between equal
texts. -/
theorem Key.before_textKey {s t : String} {k l : Key} :
    Key.before (textKey s ++ k) (textKey t ++ l) = true
      ↔ s < t ∨ s = t ∧ Key.before k l = true := by
  rw [String.lt_iff, ← String.toList_inj]
  exact Key.before_chars s.toList t.toList

namespace Ascending

variable {α : Type} {key : α → Key}

/-- Whether an element has a key. -/
def HasKey (s : Ascending key) (k : Key) : Prop := ∃ a ∈ s.toList, key a = k

theorem hasKey_insertAscending {a : α} {l : List α} {k : Key} :
    (∃ b ∈ insertAscending key a l, key b = k) ↔ key a = k ∨ ∃ b ∈ l, key b = k := by
  induction l with
  | nil => simp [insertAscending]
  | cons b l ih =>
    rw [insertAscending]
    split
    · simp
    · rename_i hab
      split
      · simp only [List.mem_cons, exists_eq_or_imp, ih]
        exact or_left_comm
      · rename_i hba
        have heq : key a = key b := Key.eq_of_not_before (by simpa using hab) (by simpa using hba)
        simp [heq]

@[simp] theorem hasKey_insert {s : Ascending key} {a : α} {k : Key} :
    (s.insert a).HasKey k ↔ key a = k ∨ s.HasKey k :=
  hasKey_insertAscending

theorem hasKey_foldl_insert {s : Ascending key} {l : List α} {k : Key} :
    (l.foldl insert s).HasKey k ↔ s.HasKey k ∨ ∃ a ∈ l, key a = k := by
  induction l generalizing s with
  | nil => simp
  | cons a l ih =>
    rw [List.foldl_cons, ih, hasKey_insert]
    simp only [List.mem_cons, exists_eq_or_imp]
    rw [or_assoc, or_left_comm]

theorem hasKey_union {s t : Ascending key} {k : Key} :
    (s.union t).HasKey k ↔ s.HasKey k ∨ t.HasKey k :=
  hasKey_foldl_insert

/-- Elements of a union come from either side. -/
theorem mem_foldl_insert {s : Ascending key} {l : List α} {a : α}
    (h : a ∈ (l.foldl insert s).toList) : a ∈ s.toList ∨ a ∈ l := by
  induction l generalizing s with
  | nil => exact .inl h
  | cons b l ih =>
    rcases ih h with h | h
    · rcases mem_insertAscending h with rfl | h
      · exact .inr List.mem_cons_self
      · exact .inl h
    · exact .inr (List.mem_cons_of_mem b h)

theorem mem_of_mem_ofList {l : List α} {a : α} (h : a ∈ (ofList l : Ascending key).toList) :
    a ∈ l := by
  rcases mem_foldl_insert h with h | h
  · cases h
  · exact h

/-! ## 2. When ascending lists are equal -/

theorem eq_of_key_eq {s : Ascending key} {a b : α} (ha : a ∈ s.toList) (hb : b ∈ s.toList)
    (h : key a = key b) : a = b := by
  by_contra hne
  have hapart : s.toList.Pairwise fun x y => key x ≠ key y := by
    refine s.ascending.imp fun {x y} hxy heq => ?_
    rw [heq, Key.before_irrefl] at hxy
    cases hxy
  have hsymm : Std.Symm fun x y : α => key x ≠ key y := ⟨fun _ _ hxy => hxy.symm⟩
  exact hapart.forall ha hb hne h

theorem subset_insertAscending (a : α) (l : List α) : l ⊆ insertAscending key a l := by
  induction l with
  | nil => simp
  | cons b l ih =>
    rw [insertAscending]
    split
    · exact List.subset_cons_self a _
    · split
      · exact List.cons_subset_cons b ih
      · exact List.Subset.refl _

/-- An element is added if its key is new. -/
theorem mem_insert {s : Ascending key} {a b : α} :
    b ∈ (s.insert a).toList ↔ b ∈ s.toList ∨ b = a ∧ ¬ s.HasKey (key a) := by
  constructor
  · intro h
    by_cases hb : b ∈ s.toList
    · exact .inl hb
    · obtain rfl := (mem_insertAscending h).resolve_right hb
      refine .inr ⟨rfl, ?_⟩
      rintro ⟨c, hc, hkey⟩
      exact hb (eq_of_key_eq (subset_insertAscending b s.toList hc) h hkey ▸ hc)
  · rintro (hb | ⟨rfl, hnew⟩)
    · exact subset_insertAscending a s.toList hb
    · obtain ⟨c, hc, hkey⟩ := (hasKey_insert (s := s) (a := b)).2 (.inl rfl)
      rcases mem_insertAscending hc with rfl | hc
      · exact hc
      · exact absurd ⟨c, hc, hkey⟩ hnew

theorem nodup (s : Ascending key) : s.toList.Nodup := by
  refine s.ascending.imp fun {a b} h hab => ?_
  rw [hab, Key.before_irrefl] at h
  cases h

/-- Where the key determines the element, membership is a matter of keys. -/
theorem mem_iff_hasKey (hkey : Function.Injective key) {s : Ascending key} {a : α} :
    a ∈ s.toList ↔ s.HasKey (key a) :=
  ⟨fun h => ⟨a, h, rfl⟩, fun ⟨_, hb, heq⟩ => hkey heq ▸ hb⟩

theorem mem_insert_iff (hkey : Function.Injective key) {s : Ascending key} {a b : α} :
    b ∈ (s.insert a).toList ↔ b = a ∨ b ∈ s.toList := by
  rw [mem_iff_hasKey hkey, hasKey_insert, ← mem_iff_hasKey hkey, hkey.eq_iff, eq_comm]

theorem mem_foldl_insert_iff (hkey : Function.Injective key) {s : Ascending key} {l : List α}
    {a : α} : a ∈ (l.foldl insert s).toList ↔ a ∈ s.toList ∨ a ∈ l := by
  refine ⟨mem_foldl_insert, fun h => ?_⟩
  rw [mem_iff_hasKey hkey, hasKey_foldl_insert, ← mem_iff_hasKey hkey]
  exact h.imp_right fun h => ⟨a, h, rfl⟩

theorem mem_union_iff (hkey : Function.Injective key) {s t : Ascending key} {a : α} :
    a ∈ (s.union t).toList ↔ a ∈ s.toList ∨ a ∈ t.toList :=
  mem_foldl_insert_iff hkey

theorem mem_ofList_iff (hkey : Function.Injective key) {l : List α} {a : α} :
    a ∈ (ofList l : Ascending key).toList ↔ a ∈ l := by
  rw [ofList, mem_foldl_insert_iff hkey]
  simp [empty]

/-- Ascending lists with the same elements are equal. -/
theorem ext_mem {s t : Ascending key} (h : ∀ a, a ∈ s.toList ↔ a ∈ t.toList) : s = t := by
  refine eq_of_toList_eq (List.Perm.eq_of_pairwise ?_ s.ascending t.ascending
    ((List.perm_ext_iff_of_nodup s.nodup t.nodup).2 h))
  intro a b _ _ hab hba
  rw [Key.not_before_of_before hab] at hba
  cases hba

theorem insertAscending_of_last {a : α} {l : List α}
    (h : ∀ b ∈ l, Key.before (key b) (key a) = true) : insertAscending key a l = l ++ [a] := by
  induction l with
  | nil => rfl
  | cons b l ih =>
    have hb := h b List.mem_cons_self
    rw [insertAscending, if_neg (by rw [Key.not_before_of_before hb]; simp), if_pos hb,
      ih fun c hc => h c (List.mem_cons_of_mem b hc), List.cons_append]

/-- Inserting the rest of an ascending list in order appends it. -/
theorem foldl_insert_append {l : List α} {s : Ascending key}
    (h : (s.toList ++ l).Pairwise fun a b => Key.before (key a) (key b) = true) :
    (l.foldl insert s).toList = s.toList ++ l := by
  induction l generalizing s with
  | nil => simp
  | cons a l ih =>
    have hlast : (s.insert a).toList = s.toList ++ [a] :=
      insertAscending_of_last fun b hb => (List.pairwise_append.1 h).2.2 b hb a List.mem_cons_self
    have hrest : ((s.insert a).toList ++ l).Pairwise
        fun a b => Key.before (key a) (key b) = true := by
      rw [hlast, List.append_assoc]
      exact h
    rw [List.foldl_cons, ih hrest, hlast, List.append_assoc]
    rfl

/-- An ascending list is what its elements give when added one by one. -/
theorem ofList_toList (s : Ascending key) : ofList s.toList = s :=
  eq_of_toList_eq (foldl_insert_append s.ascending)

/-! ## 3. Images -/

theorem map_eq_self_iff {f : α → α} {l : List α} : l.map f = l ↔ ∀ a ∈ l, f a = a := by
  simpa using List.map_inj_left (l := l) (f := f) (g := id)

/-- A function that changes nothing the second time takes an ascending list to itself only if it
changes none of its elements. -/
theorem ofList_map_eq_self_iff {f : α → α} (hf : ∀ a, f (f a) = f a) {s : Ascending key} :
    ofList (s.toList.map f) = s ↔ ∀ a ∈ s.toList, f a = a := by
  constructor
  · intro h a ha
    rw [← h] at ha
    obtain ⟨b, -, rfl⟩ := List.mem_map.1 (mem_of_mem_ofList ha)
    exact hf b
  · intro h
    rw [map_eq_self_iff.2 h, ofList_toList]

section Map

variable {β : Type} {key' : β → Key} (f : α → β) (h : ∀ a, key' (f a) = key a)

/-- The image of an ascending list under a function that keeps keys. -/
def mapKey (s : Ascending key) : Ascending key' :=
  ⟨s.toList.map f, List.pairwise_map.2 (by simpa only [h] using s.ascending)⟩

include h in
theorem map_insertAscending (a : α) (l : List α) :
    (insertAscending key a l).map f = insertAscending key' (f a) (l.map f) := by
  induction l with
  | nil => rfl
  | cons b l ih =>
    simp only [insertAscending, List.map_cons, h, ← ih]
    split
    · rfl
    · split <;> rfl

theorem mapKey_foldl_insert (l : List α) (s : Ascending key) :
    (l.foldl insert s).mapKey f h = (l.map f).foldl insert (s.mapKey f h) := by
  induction l generalizing s with
  | nil => rfl
  | cons a l ih =>
    have hstep : (s.insert a).mapKey f h = (s.mapKey f h).insert (f a) :=
      eq_of_toList_eq (map_insertAscending f h a s.toList)
    rw [List.foldl_cons, ih, hstep, List.map_cons, List.foldl_cons]

theorem mapKey_ofList (l : List α) : (ofList l : Ascending key).mapKey f h = ofList (l.map f) :=
  mapKey_foldl_insert f h l empty

end Map

end Ascending

/-! ## 4. Tables -/

namespace Table

variable {ρ : Type} [HasId ρ]

/-- The ids in a table. -/
def keys (t : Table ρ) : NameSet := t.mapKey HasId.id fun _ => rfl

/-- Rows stand in the order of their ids. -/
theorem before_rowKey_iff {r q : ρ} :
    Key.before (rowKey r) (rowKey q) = true ↔ HasId.id r < HasId.id q := by
  simpa [rowKey, Key.before] using
    Key.before_textKey (s := HasId.id r) (t := HasId.id q) (k := []) (l := [])

theorem mem_keys {t : Table ρ} {id : String} :
    id ∈ t.keys.toList ↔ ∃ row ∈ t.toList, HasId.id row = id :=
  List.mem_map

theorem hasKey_textKey {t : Table ρ} {id : String} :
    t.HasKey (textKey id) ↔ id ∈ t.keys.toList := by
  rw [mem_keys]
  constructor
  · rintro ⟨row, hrow, hkey⟩
    exact ⟨row, hrow, textKey_injective hkey⟩
  · rintro ⟨row, hrow, rfl⟩
    exact ⟨row, hrow, rfl⟩

theorem keys_ofList (rows : List ρ) :
    keys (Ascending.ofList rows) = Ascending.ofList (rows.map HasId.id) :=
  Ascending.mapKey_ofList _ _ rows

theorem mem_keys_union {s t : Table ρ} {id : String} :
    id ∈ (keys (s.union t)).toList ↔ id ∈ s.keys.toList ∨ id ∈ t.keys.toList := by
  rw [← hasKey_textKey, Ascending.hasKey_union, hasKey_textKey, hasKey_textKey]

theorem mem_insert {t : Table ρ} {r q : ρ} :
    q ∈ (t.insert r).toList ↔ q ∈ t.toList ∨ q = r ∧ HasId.id r ∉ t.keys.toList := by
  rw [Ascending.mem_insert, ← hasKey_textKey]
  rfl

theorem contains_iff {t : Table ρ} {id : String} : t.contains id = true ↔ id ∈ t.keys.toList := by
  rw [contains, List.any_eq_true, mem_keys]
  simp only [beq_iff_eq]

/-- An id tells the row. -/
theorem eq_of_id_eq {t : Table ρ} {r r' : ρ} (hr : r ∈ t.toList) (hr' : r' ∈ t.toList)
    (h : HasId.id r = HasId.id r') : r = r' :=
  Ascending.eq_of_key_eq hr hr' (congrArg textKey h)

theorem get?_eq_some_iff {t : Table ρ} {id : String} {r : ρ} :
    t.get? id = some r ↔ r ∈ t.toList ∧ HasId.id r = id := by
  rw [get?]
  constructor
  · intro h
    exact ⟨List.mem_of_find?_eq_some h, by simpa using List.find?_some h⟩
  · rintro ⟨hr, rfl⟩
    cases h : t.toList.find? fun row => HasId.id row == HasId.id r with
    | none =>
      have := List.find?_eq_none.1 h r hr
      simp at this
    | some r' =>
      have hid : HasId.id r' = HasId.id r := by simpa using List.find?_some h
      rw [eq_of_id_eq (List.mem_of_find?_eq_some h) hr hid]

/-- A table with every row changed in other fields than its id. -/
def mapRows (f : ρ → ρ) (h : ∀ r, HasId.id (f r) = HasId.id r) (t : Table ρ) : Table ρ :=
  t.mapKey f fun r => congrArg textKey (h r)

theorem mapRows_eq_self_iff {f : ρ → ρ} {h : ∀ r, HasId.id (f r) = HasId.id r} {t : Table ρ} :
    t.mapRows f h = t ↔ ∀ r ∈ t.toList, f r = r := by
  rw [← Ascending.map_eq_self_iff]
  exact ⟨congrArg Ascending.toList, fun hlist => Ascending.eq_of_toList_eq hlist⟩

/-- Rows in ascending order of their ids are never refused. -/
theorem extend_of_ascending (name : String) {rows : List ρ} {t : Table ρ}
    (h : (t.toList ++ rows).Pairwise
      fun a b => Key.before (textKey (HasId.id a)) (textKey (HasId.id b)) = true) :
    extend name t rows = .ok (rows.foldl Ascending.insert t) := by
  induction rows generalizing t with
  | nil => rfl
  | cons row rows ih =>
    have hbefore := (List.pairwise_append.1 h).2.2
    have hlast : (t.insert row).toList = t.toList ++ [row] :=
      Ascending.insertAscending_of_last fun b hb => hbefore b hb row List.mem_cons_self
    have hnew : ¬ t.contains (HasId.id row) = true := by
      rw [contains_iff, mem_keys]
      rintro ⟨b, hb, hid⟩
      have := hbefore b hb row List.mem_cons_self
      rw [hid, Key.before_irrefl] at this
      cases this
    rw [extend, if_neg hnew, List.foldl_cons]
    refine ih ?_
    rw [hlast, List.append_assoc]
    exact h

/-- The rows of a table give the table. -/
theorem ofRows_toList (name : String) (t : Table ρ) : ofRows name t.toList = .ok t := by
  rw [ofRows, extend_of_ascending name t.ascending]
  exact congrArg Except.ok t.ofList_toList

end Table

/-- A set of names has just the names that it is made of. -/
theorem NameSet.mem_ofList {names : List String} {name : String} :
    name ∈ (Ascending.ofList names : NameSet).toList ↔ name ∈ names :=
  Ascending.mem_ofList_iff fun _ _ => textKey_injective

/-! ## 5. The tables of a model -/

/-- A type of rows that has a table in every model. -/
class IsRow (ρ : Type) [HasId ρ] where
  row? : Entity → Option ρ
  table : Api → Table ρ
  table_empty : table {} = Ascending.empty
  table_add : ∀ (a : Api) (e : Entity), table (a.add e) = (row? e).elim (table a) (table a).insert
  table_merge : ∀ a b : Api, table (a.merge b) = (table a).union (table b)

instance : IsRow ModuleRow where
  row? | .module r => some r | _ => none
  table := Api.modules
  table_empty := rfl
  table_add _ e := by cases e <;> rfl
  table_merge _ _ := rfl

instance : IsRow ClassRow where
  row? | .class r => some r | _ => none
  table := Api.classes
  table_empty := rfl
  table_add _ e := by cases e <;> rfl
  table_merge _ _ := rfl

instance : IsRow FunctionRow where
  row? | .function r => some r | _ => none
  table := Api.functions
  table_empty := rfl
  table_add _ e := by cases e <;> rfl
  table_merge _ _ := rfl

instance : IsRow ParameterRow where
  row? | .parameter r => some r | _ => none
  table := Api.parameters
  table_empty := rfl
  table_add _ e := by cases e <;> rfl
  table_merge _ _ := rfl

instance : IsRow AttributeRow where
  row? | .attribute r => some r | _ => none
  table := Api.attributes
  table_empty := rfl
  table_add _ e := by cases e <;> rfl
  table_merge _ _ := rfl

instance : IsRow ResultRow where
  row? | .result r => some r | _ => none
  table := Api.results
  table_empty := rfl
  table_add _ e := by cases e <;> rfl
  table_merge _ _ := rfl

instance : IsRow EnumRow where
  row? | .enum r => some r | _ => none
  table := Api.enums
  table_empty := rfl
  table_add _ e := by cases e <;> rfl
  table_merge _ _ := rfl

instance : IsRow EnumInstanceRow where
  row? | .enumInstance r => some r | _ => none
  table := Api.enumInstances
  table_empty := rfl
  table_add _ e := by cases e <;> rfl
  table_merge _ _ := rfl

namespace IsRow

variable {ρ : Type} [HasId ρ] [IsRow ρ]

theorem table_foldl_add (es : List Entity) (a : Api) :
    (table (es.foldl Api.add a) : Table ρ)
      = (es.filterMap row?).foldl Ascending.insert (table a) := by
  induction es generalizing a with
  | nil => rfl
  | cons e es ih =>
    rw [List.foldl_cons, ih, table_add]
    cases h : (row? e : Option ρ) with
    | none => rw [List.filterMap_cons_none h]; rfl
    | some r => rw [List.filterMap_cons_some h]; rfl

/-- A table of a model built from entities has the rows of its type. -/
theorem table_foldl_add_empty (es : List Entity) :
    (table (es.foldl Api.add {}) : Table ρ) = Ascending.ofList (es.filterMap row?) := by
  rw [table_foldl_add, table_empty]
  rfl

end IsRow

end ApiSurface
