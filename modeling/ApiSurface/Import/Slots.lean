/-!
# Slots under keys

A table from texts to values is a list of slots in the order in which their keys came, and no key
has two slots.  A key without a slot stands for an initial value, and gets its slot when that value
is changed.

The order of the slots shows how a table came about, but not in what stands under a key
(`Slots.get_eq_of_perm`).  Nor does it matter to a table into which the slots of another are put one
after the other: what stands under a key then is a matter of the two values under that key
(`Slots.get_foldl`).
-/

namespace ApiSurface

variable {α β : Type}

/-- The value in the slot of a key, or the initial one. -/
def slotValue (initial : α) (key : String) : List (String × α) → α
  | [] => initial
  | (k, a) :: more => if k = key then a else slotValue initial key more

/-- The slots with the value of a key changed. -/
def changeSlot (initial : α) (key : String) (change : α → α) :
    List (String × α) → List (String × α)
  | [] => [(key, change initial)]
  | (k, a) :: more =>
    if k = key then (k, change a) :: more else (k, a) :: changeSlot initial key change more

section Lists

variable {initial : α} {key k : String} {change : α → α} {slots : List (String × α)}

theorem mem_keys_changeSlot (h : k ∈ (changeSlot initial key change slots).map Prod.fst) :
    k = key ∨ k ∈ slots.map Prod.fst := by
  induction slots with
  | nil => exact .inl (List.mem_singleton.1 h)
  | cons slot more ih =>
    rw [changeSlot] at h
    split at h
    · exact .inr h
    · rcases List.mem_cons.1 h with h | h
      · exact .inr (List.mem_cons.2 (.inl h))
      · exact (ih h).imp_right (List.mem_cons_of_mem _)

theorem nodup_keys_changeSlot (h : (slots.map Prod.fst).Nodup) :
    ((changeSlot initial key change slots).map Prod.fst).Nodup := by
  induction slots with
  | nil => simp [changeSlot]
  | cons slot more ih =>
    obtain ⟨hslot, hmore⟩ := List.nodup_cons.1 h
    rw [changeSlot]
    split
    · exact h
    · rename_i hkey
      refine List.nodup_cons.2 ⟨fun hmem => ?_, ih hmore⟩
      exact (mem_keys_changeSlot hmem).elim hkey hslot

theorem forall_changeSlot {p : α → Prop} (hchange : ∀ a, p (change a))
    (h : ∀ slot ∈ slots, p slot.2) : ∀ slot ∈ changeSlot initial key change slots, p slot.2 := by
  induction slots with
  | nil => exact List.forall_mem_singleton.2 (hchange initial)
  | cons slot more ih =>
    obtain ⟨hslot, hmore⟩ := List.forall_mem_cons.1 h
    rw [changeSlot]
    split
    · exact List.forall_mem_cons.2 ⟨hchange slot.2, hmore⟩
    · exact List.forall_mem_cons.2 ⟨hslot, ih hmore⟩

theorem slotValue_of_not_mem (h : key ∉ slots.map Prod.fst) :
    slotValue initial key slots = initial := by
  induction slots with
  | nil => rfl
  | cons slot more ih =>
    rw [List.map_cons, List.mem_cons, not_or] at h
    rw [slotValue, if_neg (Ne.symm h.1), ih h.2]

theorem slotValue_of_mem {a : α} (hkeys : (slots.map Prod.fst).Nodup) (h : (key, a) ∈ slots) :
    slotValue initial key slots = a := by
  induction slots with
  | nil => cases h
  | cons slot more ih =>
    obtain ⟨hslot, hmore⟩ := List.nodup_cons.1 hkeys
    rw [slotValue]
    rcases List.mem_cons.1 h with rfl | h
    · exact if_pos rfl
    · have hother : slot.1 ≠ key := fun heq => hslot (heq ▸ List.mem_map_of_mem h)
      rw [if_neg hother, ih hmore h]

theorem slotValue_changeSlot (initial : α) (key k : String) (change : α → α)
    (slots : List (String × α)) :
    slotValue initial k (changeSlot initial key change slots)
      = if k = key then change (slotValue initial k slots) else slotValue initial k slots := by
  induction slots with
  | nil => by_cases h : key = k <;> simp [changeSlot, slotValue, h, eq_comm]
  | cons slot more ih =>
    obtain ⟨k', a⟩ := slot
    rw [changeSlot]
    by_cases hkey : k' = key
    · subst hkey
      rw [if_pos rfl, slotValue, slotValue]
      by_cases h : k' = k
      · rw [if_pos h, if_pos h, if_pos h.symm]
      · rw [if_neg h, if_neg h, if_neg (Ne.symm h)]
    · rw [if_neg hkey, slotValue, slotValue, ih]
      by_cases h : k' = k
      · rw [if_pos h, if_pos h, if_neg (h ▸ hkey)]
      · rw [if_neg h, if_neg h]

end Lists

/-- Slots in the order in which their keys came. -/
structure Slots (α : Type) where
  toList : List (String × α)
  nodup_keys : (toList.map Prod.fst).Nodup

namespace Slots

def empty : Slots α := ⟨[], List.nodup_nil⟩

/-- What stands under a key. -/
def get (s : Slots α) (initial : α) (key : String) : α := slotValue initial key s.toList

def change (s : Slots α) (initial : α) (key : String) (f : α → α) : Slots α where
  toList := changeSlot initial key f s.toList
  nodup_keys := nodup_keys_changeSlot s.nodup_keys

theorem forall_change {s : Slots α} {initial : α} {key : String} {f : α → α} (p : α → Prop)
    (hf : ∀ a, p (f a)) (h : ∀ slot ∈ s.toList, p slot.2) :
    ∀ slot ∈ (s.change initial key f).toList, p slot.2 :=
  forall_changeSlot hf h

theorem get_change (s : Slots α) (initial : α) (key k : String) (f : α → α) :
    (s.change initial key f).get initial k
      = if k = key then f (s.get initial k) else s.get initial k :=
  slotValue_changeSlot initial key k f s.toList

theorem get_of_mem {s : Slots α} {key : String} {a : α} (initial : α)
    (h : (key, a) ∈ s.toList) : s.get initial key = a :=
  slotValue_of_mem s.nodup_keys h

theorem get_of_not_mem {s : Slots α} {key : String} (initial : α)
    (h : key ∉ s.toList.map Prod.fst) : s.get initial key = initial :=
  slotValue_of_not_mem h

theorem get_eq_of_perm {s t : Slots α} (h : s.toList.Perm t.toList) (initial : α)
    (key : String) : s.get initial key = t.get initial key := by
  by_cases hkey : key ∈ s.toList.map Prod.fst
  · obtain ⟨⟨k, a⟩, hslot, rfl⟩ := List.mem_map.1 hkey
    rw [get_of_mem initial hslot, get_of_mem initial (h.mem_iff.1 hslot)]
  · have hkey' : key ∉ t.toList.map Prod.fst := fun hmem => hkey ((h.map _).mem_iff.2 hmem)
    rw [get_of_not_mem initial hkey, get_of_not_mem initial hkey']

/-- The slots of a table are put one after the other into something with a value under each key.
If a slot changes nothing but the value under its key, and the initial value changes nothing, then
of the table only the value under a key matters to the value under that key. -/
theorem get_foldl {γ : Type} {put : γ → String × β → γ} (under : γ → String → α)
    (change : β → α → α) (initial : β) (hinitial : ∀ a, change initial a = a)
    (hput : ∀ c slot k, under (put c slot) k
      = if k = slot.1 then change slot.2 (under c k) else under c k)
    (c : γ) (s : Slots β) (k : String) :
    under (s.toList.foldl put c) k = change (s.get initial k) (under c k) := by
  obtain ⟨slots, hkeys⟩ := s
  show under (slots.foldl put c) k = change (slotValue initial k slots) (under c k)
  induction slots generalizing c with
  | nil => exact (hinitial _).symm
  | cons slot more ih =>
    obtain ⟨key, b⟩ := slot
    obtain ⟨hkey, hmore⟩ := List.nodup_cons.1 hkeys
    rw [List.foldl_cons, ih _ hmore, hput, slotValue]
    by_cases h : key = k
    · subst h
      rw [if_pos rfl, if_pos rfl, slotValue_of_not_mem hkey, hinitial]
    · rw [if_neg h, if_neg (Ne.symm h)]

end Slots

end ApiSurface
