import ApiSurface.Import.Index
import ApiSurface.Proofs.DottedNames
import ApiSurface.Proofs.Tables
/-!
# Which imports offer a name

An entry of the reexports stands under two keys, and a query looks at a few keys only: the name and
what contains it, its endings, and everything beside each ending.  The keys as written are of no
help to a name that is not an ending of them; but every entry also stands under its resolved key,
and a query for a name that the entry denotes always looks there.  So a query finds just the entries
that a scan over all of them would find, in their order.

An index can be collected in any way: import by import, file by file, or by merging indexes.  All
that matters in the end is which entries were recorded.
-/

namespace ApiSurface

/-! ## 1. What an entry denotes -/

namespace ReexportEntry

/-- That an entry imports a name: a whole module or a symbol denotes itself and all below it, and a
wildcard everything directly below its module. -/
def Denotes (e : ReexportEntry) (qname : String) : Prop :=
  match e.kind with
  | .module | .symbol => e.origin = qname ∨ ∃ rest, qname = e.origin ++ "." ++ rest
  | .wildcard => ∃ last, Text.IsPlain last ∧ qname = e.origin ++ "." ++ last

theorem denotes_iff {e : ReexportEntry} {qname : String} :
    e.denotes qname = true ↔ e.Denotes qname := by
  rw [denotes, Denotes]
  cases e.kind with
  | module | symbol => exact Text.isWithin_iff
  | wildcard => rw [beq_iff_eq, Text.parentName?_eq_some]

/-- The absolute key of an entry. -/
def resolvedKey (e : ReexportEntry) : String :=
  match e.kind with
  | .wildcard => e.origin ++ ".*"
  | _ => e.origin

end ReexportEntry

/-! ## 2. The probes of a query -/

namespace Reexports

theorem mem_probes_of_start {scope qname : String} {more : List String}
    (h : Text.components qname = Text.components scope ++ more) : scope ∈ probes qname := by
  obtain ⟨n, hn⟩ : ∃ n, (Text.components scope).length = n + 1 :=
    Nat.exists_eq_succ_of_ne_zero fun h =>
      Text.components_ne_nil scope (List.length_eq_zero_iff.1 h)
  refine List.mem_append_left _ (List.mem_map.2 ⟨n, ?_, ?_⟩)
  · rw [List.mem_range, h, List.length_append, hn]
    omega
  · rw [h, ← hn, List.take_left, Text.joinDots_components]

theorem mem_probes_of_parent {scope last : String} (h : Text.IsPlain last) :
    scope ++ ".*" ∈ probes (scope ++ "." ++ last) := by
  have hparts : Text.components (scope ++ "." ++ last) = Text.components scope ++ [last] := by
    rw [Text.components_dot, Text.components_of_isPlain h]
  have hpos := List.length_pos_iff.2 (Text.components_ne_nil scope)
  refine List.mem_append_right _ (List.mem_flatMap.2 ⟨0, ?_, ?_⟩)
  · rw [List.mem_range, hparts, List.length_append]
    omega
  · refine List.mem_cons_of_mem _ ?_
    rw [hparts, List.length_append, List.length_singleton, if_pos (by omega), List.dropLast_concat,
      List.drop_zero, Text.joinDots_components]
    exact List.mem_singleton_self _

/-- A query looks under the resolved key of every entry that denotes the name. -/
theorem resolvedKey_mem_probes {e : ReexportEntry} {qname : String} (h : e.Denotes qname) :
    e.resolvedKey ∈ probes qname := by
  rw [ReexportEntry.Denotes] at h
  rw [ReexportEntry.resolvedKey]
  cases hkind : e.kind with
  | module | symbol =>
    rw [hkind] at h
    rcases h with rfl | ⟨rest, rfl⟩
    · exact mem_probes_of_start (List.append_nil _).symm
    · exact mem_probes_of_start (Text.components_dot _ _)
  | wildcard =>
    rw [hkind] at h
    obtain ⟨last, hlast, rfl⟩ := h
    exact mem_probes_of_parent hlast

end Reexports

/-! ## 3. The order of entries -/

theorem Key.before_optionKey {s t : Option String} {k l : Key} :
    Key.before (optionKey textKey s ++ k) (optionKey textKey t ++ l) = true
      ↔ s < t ∨ s = t ∧ Key.before k l = true := by
  cases s with
  | none => cases t <;> simp [optionKey, Key.before]
  | some s =>
    cases t with
    | none => simp [optionKey, Key.before]
    | some t => simpa [optionKey, Key.before] using Key.before_textKey

namespace ReexportEntry

/-- The order of entries: by module, then by origin, then by the name given to it, none first, and
last by kind. -/
def Before (a b : ReexportEntry) : Prop :=
  a.moduleId < b.moduleId ∨ a.moduleId = b.moduleId ∧ (a.origin < b.origin
    ∨ a.origin = b.origin ∧ (a.asName < b.asName
      ∨ a.asName = b.asName ∧ a.kind.rank < b.kind.rank))

theorem before_key {a b : ReexportEntry} : Key.before a.key b.key = true ↔ a.Before b := by
  rw [key, key, List.append_assoc, List.append_assoc, List.append_assoc, List.append_assoc,
    Key.before_textKey, Key.before_textKey, Key.before_optionKey]
  simp [Before, Key.before]

theorem key_injective : Function.Injective key := by
  intro a b h
  rw [key, key, List.append_assoc, List.append_assoc, List.append_assoc, List.append_assoc] at h
  obtain ⟨hmodule, h⟩ := readable_textKey _ _ _ _ h
  obtain ⟨horigin, h⟩ := readable_textKey _ _ _ _ h
  obtain ⟨hname, h⟩ := readable_textKey.option _ _ _ _ h
  have hkind : a.kind = b.kind := by
    cases ha : a.kind <;> cases hb : b.kind <;> simp [ha, hb, ImportKind.rank] at h ⊢
  cases a
  cases b
  cases hmodule
  cases horigin
  cases hname
  cases hkind
  rfl

end ReexportEntry

/-! ## 4. Lists under keys -/

theorem mem_pushNew {entries : List ReexportEntry} {a e : ReexportEntry} :
    a ∈ pushNew entries e ↔ a ∈ entries ∨ a = e := by
  rw [pushNew]
  split
  · rename_i hcontains
    refine ⟨.inl, fun h => h.elim id ?_⟩
    rintro rfl
    exact List.contains_iff_mem.1 hcontains
  · rw [List.mem_append, List.mem_singleton]

theorem mem_foldl_pushNew {entries more : List ReexportEntry} {a : ReexportEntry} :
    a ∈ more.foldl pushNew entries ↔ a ∈ entries ∨ a ∈ more := by
  induction more generalizing entries with
  | nil => simp
  | cons e more ih => rw [List.foldl_cons, ih, mem_pushNew, List.mem_cons, or_assoc]

namespace Reexports

variable {r s : Reexports} {key k : String} {a e : ReexportEntry}

theorem under_push (r : Reexports) (key k : String) (e : ReexportEntry) :
    (r.push key e).under k = if k = key then pushNew (r.under k) e else r.under k :=
  r.slots.get_change [] key k fun entries => pushNew entries e

theorem under_pushAll (r : Reexports) (key k : String) (entries : List ReexportEntry) :
    (entries.foldl (fun r e => r.push key e) r).under k
      = if k = key then entries.foldl pushNew (r.under k) else r.under k := by
  induction entries generalizing r with
  | nil => simp
  | cons e entries ih =>
    rw [List.foldl_cons, ih, under_push]
    split <;> rfl

/-- Merging goes through the keys one by one, but what comes to stand under a key is a matter of the
two lists under this key alone. -/
theorem under_merge (r s : Reexports) (k : String) :
    (r.merge s).under k = (s.under k).foldl pushNew (r.under k) := by
  refine Slots.get_foldl under (fun entries known => entries.foldl pushNew known) []
    (fun _ => rfl) ?_ r s.slots k
  exact fun r slot k => under_pushAll r slot.1 k slot.2

theorem mem_under_push : e ∈ (r.push key a).under k ↔ e ∈ r.under k ∨ k = key ∧ e = a := by
  rw [under_push]
  split
  · rename_i h
    rw [mem_pushNew, and_iff_right h]
  · rename_i h
    simp [h]

theorem mem_under_merge : e ∈ (r.merge s).under k ↔ e ∈ r.under k ∨ e ∈ s.under k := by
  rw [under_merge, mem_foldl_pushNew]

end Reexports

/-! ## 5. Stored entries -/

/-- The entry that an import becomes. -/
def ImportRecord.entry (record : ImportRecord) (moduleId : String) : ReexportEntry where
  moduleId := moduleId
  origin := record.origin
  asName := record.asName
  kind := record.kind

/-- That an import of a module stands as an entry under a key. -/
def ImportRecord.StandsUnder (r : ImportRecord) (moduleId key : String) (e : ReexportEntry) :
    Prop :=
  e = r.entry moduleId ∧ (key = r.writtenKey ∨ key = r.resolvedKey)

namespace Reexports

/-- That reexports hold these entries and no others, each at least under its resolved key. -/
structure Stores (r : Reexports) (entries : List ReexportEntry) : Prop where
  sound : ∀ key, ∀ e ∈ r.under key, e ∈ entries
  complete : ∀ e ∈ entries, e ∈ r.under e.resolvedKey

variable {r s : Reexports} {entries entries' : List ReexportEntry}

/-- Where the key as written is the resolved one, it does not matter that it is used once only. -/
theorem mem_under_insert {moduleId key : String} {record : ImportRecord} {e : ReexportEntry} :
    e ∈ (r.insert moduleId record).under key
      ↔ e ∈ r.under key ∨ record.StandsUnder moduleId key e := by
  have hentry : (⟨moduleId, record.origin, record.asName, record.kind⟩ : ReexportEntry)
      = record.entry moduleId := rfl
  rw [insert, hentry, mem_under_push, ImportRecord.StandsUnder]
  split
  · rename_i hsame
    rw [hsame]
    tauto
  · rw [mem_under_push]
    tauto

theorem Stores.insert (h : r.Stores entries) (moduleId : String) (record : ImportRecord) :
    (r.insert moduleId record).Stores (entries ++ [record.entry moduleId]) where
  sound key e he := by
    rw [List.mem_append, List.mem_singleton]
    exact (mem_under_insert.1 he).imp (h.sound key e) fun hentry => hentry.1
  complete e he := by
    rw [List.mem_append, List.mem_singleton] at he
    rcases he with he | rfl
    · exact mem_under_insert.2 (.inl (h.complete e he))
    · exact mem_under_insert.2 (.inr ⟨rfl, .inr rfl⟩)

theorem Stores.foldl_insert (h : r.Stores entries) (moduleId : String)
    (records : List ImportRecord) :
    (records.foldl (fun r record => r.insert moduleId record) r).Stores
      (entries ++ records.map fun record => record.entry moduleId) := by
  induction records generalizing r entries with
  | nil => simpa using h
  | cons record records ih =>
    have hrest := ih (h.insert moduleId record)
    rwa [List.append_assoc] at hrest

theorem Stores.merge (h : r.Stores entries) (h' : s.Stores entries') :
    (r.merge s).Stores (entries ++ entries') where
  sound key e he :=
    List.mem_append.2 ((mem_under_merge.1 he).imp (h.sound key e) (h'.sound key e))
  complete e he :=
    mem_under_merge.2 ((List.mem_append.1 he).imp (h.complete e) (h'.complete e))

/-- A query finds the stored entries that denote the name. -/
theorem Stores.mem_query (h : r.Stores entries) (qname : String) (e : ReexportEntry) :
    e ∈ r.query qname ↔ e ∈ entries ∧ e.Denotes qname := by
  rw [query, Ascending.mem_ofList_iff ReexportEntry.key_injective, List.mem_flatMap]
  simp only [List.mem_filter, ReexportEntry.denotes_iff]
  constructor
  · rintro ⟨key, -, he, hdenotes⟩
    exact ⟨h.sound key e he, hdenotes⟩
  · rintro ⟨he, hdenotes⟩
    exact ⟨e.resolvedKey, resolvedKey_mem_probes hdenotes, h.complete e he, hdenotes⟩

end Reexports

/-! ## 6. Collected indexes -/

/-- A way to collect an index: from nothing, by single imports, by whole files, and by merging. -/
inductive Collection
  | empty
  | insert (c : Collection) (moduleId : String) (record : ImportRecord)
  | scan (c : Collection) (file : FileScan)
  | merge (c d : Collection)

namespace Collection

def index : Collection → PackageIndex
  | .empty => {}
  | .insert c moduleId record =>
    { c.index with reexports := c.index.reexports.insert moduleId record }
  | .scan c file => c.index.addScan file
  | .merge c d => c.index.merge d.index

/-- The entries that were recorded on the way.  Of files, only package entries count. -/
def entries : Collection → List ReexportEntry
  | .empty => []
  | .insert c moduleId record => c.entries ++ [record.entry moduleId]
  | .scan c file =>
    c.entries ++ if file.isAggregator then file.imports.map fun r => r.entry file.moduleId else []
  | .merge c d => c.entries ++ d.entries

/-- An index stores what was recorded, however it was collected. -/
theorem stores (c : Collection) : c.index.reexports.Stores c.entries := by
  induction c with
  | empty =>
    exact ⟨fun _ _ he => absurd he List.not_mem_nil, fun _ he => absurd he List.not_mem_nil⟩
  | insert c moduleId record ih => exact ih.insert moduleId record
  | scan c file ih =>
    rw [index, PackageIndex.addScan, entries]
    cases file.isAggregator with
    | false => simpa using ih
    | true => exact ih.foldl_insert file.moduleId file.imports
  | merge c d ihc ihd => exact ihc.merge ihd

end Collection

/-- **A query is a scan of all entries.**  In whatever way an index was collected and whatever the
name is: the query gives just the recorded entries that denote the name, each once and in ascending
order, which is what remains of the sorted entries when those that do not denote it are left out. -/
theorem query_eq_scan (c : Collection) (qname : String) :
    (∀ e, e ∈ c.index.reexports.query qname ↔ e ∈ c.entries ∧ e.Denotes qname)
      ∧ (c.index.reexports.query qname).Pairwise ReexportEntry.Before
      ∧ (c.index.reexports.query qname).Nodup
      ∧ c.index.reexports.query qname
        = (Ascending.ofList c.entries : Ascending ReexportEntry.key).toList.filter
          fun e => e.denotes qname := by
  have hmem := c.stores.mem_query qname
  obtain ⟨found, hfound⟩ : ∃ found : Ascending ReexportEntry.key,
      c.index.reexports.query qname = found.toList := ⟨_, rfl⟩
  rw [hfound] at hmem ⊢
  refine ⟨hmem, found.ascending.imp ReexportEntry.before_key.1, found.nodup, ?_⟩
  let all : Ascending ReexportEntry.key := .ofList c.entries
  let scanned : Ascending ReexportEntry.key :=
    ⟨all.toList.filter fun e => e.denotes qname, all.ascending.filter _⟩
  have hsame : found = scanned := by
    refine Ascending.ext_mem fun e => ?_
    rw [hmem, List.mem_filter, Ascending.mem_ofList_iff ReexportEntry.key_injective,
      ReexportEntry.denotes_iff]
  exact congrArg Ascending.toList hsame

end ApiSurface
