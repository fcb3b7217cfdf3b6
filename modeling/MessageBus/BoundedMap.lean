import Mathlib.Data.List.AList
import Mathlib.Tactic

/-!
# Finite maps with a capacity

An association list without duplicate keys together with a bound on its size.
Entries are kept newest first and a modification leaves an entry where it is,
so that the list also records the order in which entries are met.
-/

namespace MessageBus

structure BoundedMap (Key Value : Type) where
  capacity : ℕ
  store : AList fun _ : Key => Value
  size_le : store.entries.length ≤ capacity

namespace BoundedMap

variable {Key Value : Type} [DecidableEq Key]

def size (map : BoundedMap Key Value) : ℕ := map.store.entries.length

def get (map : BoundedMap Key Value) (key : Key) : Option Value :=
  map.store.lookup key

def empty (Key Value : Type) (capacity : ℕ) : BoundedMap Key Value where
  capacity := capacity
  store := ∅
  size_le := by simp

theorem insert_length_le
    (store : AList fun _ : Key => Value) (key : Key) (value : Value) :
    (store.insert key value).entries.length ≤ store.entries.length + 1 := by
  rw [AList.entries_insert, List.length_cons]
  have hsub : (store.entries.kerase key).Sublist store.entries :=
    List.kerase_sublist key store.entries
  have hlength := hsub.length_le
  omega

/-- Store a value under a key; there must be room for one more entry. -/
def put
    (map : BoundedMap Key Value) (key : Key) (value : Value)
    (hroom : map.size < map.capacity) : BoundedMap Key Value where
  capacity := map.capacity
  store := map.store.insert key value
  size_le := (insert_length_le map.store key value).trans hroom

theorem keys_modifyEntries
    (entries : List (Σ _ : Key, Value)) (key : Key) (change : Value → Value) :
    (entries.map fun entry =>
      if entry.1 = key then ⟨entry.1, change entry.2⟩ else entry).keys =
        entries.keys := by
  rw [List.keys, List.map_map]
  apply List.map_congr_left
  intro entry _
  simp only [Function.comp_apply]
  split_ifs <;> rfl

/-- Change the value stored under a key, if there is one, in place. -/
def modify
    (map : BoundedMap Key Value) (key : Key) (change : Value → Value) :
    BoundedMap Key Value where
  capacity := map.capacity
  store :=
    { entries := map.store.entries.map fun entry =>
        if entry.1 = key then ⟨entry.1, change entry.2⟩ else entry
      nodupKeys := by
        rw [List.NodupKeys, keys_modifyEntries]
        exact map.store.nodupKeys }
  size_le := by
    rw [List.length_map]
    exact map.size_le

def erase (map : BoundedMap Key Value) (key : Key) :
    BoundedMap Key Value where
  capacity := map.capacity
  store := map.store.erase key
  size_le := by
    have hsub : (map.store.entries.kerase key).Sublist map.store.entries :=
      List.kerase_sublist key map.store.entries
    exact hsub.length_le.trans map.size_le

/-! ## Looking up after a change -/

variable {map : BoundedMap Key Value} {key other : Key} {value : Value}

@[simp] theorem get_empty (capacity : ℕ) (key : Key) :
    (empty Key Value capacity).get key = none :=
  AList.lookup_empty key

@[simp] theorem get_put_self (hroom : map.size < map.capacity) :
    (map.put key value hroom).get key = some value :=
  AList.lookup_insert map.store

@[simp] theorem get_put_of_ne
    (hroom : map.size < map.capacity) (hne : other ≠ key) :
    (map.put key value hroom).get other = map.get other :=
  AList.lookup_insert_ne hne

@[simp] theorem get_erase_self : (map.erase key).get key = none :=
  AList.lookup_erase key map.store

@[simp] theorem get_erase_of_ne (hne : other ≠ key) :
    (map.erase key).get other = map.get other :=
  AList.lookup_erase_ne hne

theorem dlookup_modifyEntries
    (entries : List (Σ _ : Key, Value)) (key other : Key)
    (change : Value → Value) :
    List.dlookup other (entries.map fun entry =>
        if entry.1 = key then ⟨entry.1, change entry.2⟩ else entry) =
      if other = key then (List.dlookup other entries).map change
      else List.dlookup other entries := by
  induction entries with
  | nil => simp
  | cons entry entries ih =>
      obtain ⟨name, value⟩ := entry
      by_cases hother : other = name
      · subst hother
        by_cases hkey : other = key
        · subst hkey
          simp
        · simp [hkey]
      · by_cases hkey : name = key
        · rw [List.map_cons, if_pos hkey, List.dlookup_cons_ne _ _ hother, ih,
            List.dlookup_cons_ne _ _ hother]
        · rw [List.map_cons, if_neg hkey, List.dlookup_cons_ne _ _ hother, ih,
            List.dlookup_cons_ne _ _ hother]

@[simp] theorem get_modify_self (change : Value → Value) :
    (map.modify key change).get key = (map.get key).map change := by
  have hlookup :=
    dlookup_modifyEntries map.store.entries key key change
  rw [if_pos rfl] at hlookup
  exact hlookup

@[simp] theorem get_modify_of_ne
    (change : Value → Value) (hne : other ≠ key) :
    (map.modify key change).get other = map.get other := by
  have hlookup :=
    dlookup_modifyEntries map.store.entries key other change
  rw [if_neg hne] at hlookup
  exact hlookup

/-! ## The entries as a list -/

theorem entries_put
    (hroom : map.size < map.capacity) (habsent : map.get key = none) :
    (map.put key value hroom).store.entries =
      ⟨key, value⟩ :: map.store.entries :=
  AList.entries_insert_of_notMem (AList.lookup_eq_none.mp habsent)

theorem entries_erase :
    (map.erase key).store.entries =
      map.store.entries.filter fun entry => entry.1 ≠ key := by
  change map.store.entries.kerase key = _
  have hnodup := map.store.nodupKeys
  generalize map.store.entries = entries at hnodup
  induction entries with
  | nil => rfl
  | cons entry entries ih =>
      rw [List.nodupKeys_cons] at hnodup
      by_cases hkey : key = entry.1
      · rw [List.kerase_cons_eq hkey]
        symm
        rw [List.filter_cons_of_neg (by simp [hkey])]
        apply List.filter_eq_self.mpr
        intro other hother
        have hne : other.1 ≠ key := by
          intro heq
          apply hnodup.1
          rw [← hkey, ← heq]
          exact List.mem_keys_of_mem hother
        simpa using hne
      · rw [List.kerase_cons_ne hkey, ih hnodup.2]
        rw [List.filter_cons_of_pos (by simpa using Ne.symm hkey)]

theorem modify_congr
    {first second : Value → Value}
    (hsame : ∀ value, map.get key = some value → first value = second value) :
    map.modify key first = map.modify key second := by
  have hentries : (map.store.entries.map fun entry =>
        if entry.1 = key then ⟨entry.1, first entry.2⟩ else entry) =
      map.store.entries.map fun entry =>
        if entry.1 = key then ⟨entry.1, second entry.2⟩ else entry := by
    apply List.map_congr_left
    intro entry hentry
    by_cases hkey : entry.1 = key
    · subst hkey
      rw [if_pos rfl, if_pos rfl, hsame entry.2 (AList.mem_lookup_iff.mpr hentry)]
    · rw [if_neg hkey, if_neg hkey]
  simp only [modify, hentries]

theorem get_eq_some_iff :
    map.get key = some value ↔
      (⟨key, value⟩ : Σ _ : Key, Value) ∈ map.store.entries :=
  AList.mem_lookup_iff

end BoundedMap

end MessageBus
