import Mathlib.Logic.Function.Basic
import ShapeCodec.Proofs.Entries

/-!
# Ordered maps

What entries are meant to be: a sequence of distinct keys, and a value for each of them. Setting and
taking away say what becomes of the keys and what becomes of the values, each on their own. Entries
with distinct keys are such a map, and change as it does.
-/

namespace ShapeCodec

/-- Keys in an order, and the value that each of them has. -/
structure OrderedMap (α : Type) where
  keys : List String
  value : String → Option α
  nodup : keys.Nodup
  mem_iff : ∀ key, key ∈ keys ↔ (value key).isSome = true

namespace OrderedMap

variable {α : Type}

/-- Sets a key. One that is new goes last, another one keeps its place. -/
def put (M : OrderedMap α) (key : String) (value : α) : OrderedMap α where
  keys := if key ∈ M.keys then M.keys else M.keys ++ [key]
  value := Function.update M.value key (some value)
  nodup := by
    by_cases hkey : key ∈ M.keys
    · rw [if_pos hkey]
      exact M.nodup
    · rw [if_neg hkey, ← List.concat_eq_append]
      exact M.nodup.concat hkey
  mem_iff other := by
    by_cases hother : other = key
    · subst hother
      rw [Function.update_self]
      split <;> simp_all
    · rw [Function.update_of_ne hother, ← M.mem_iff]
      split <;> simp [hother]

/-- Takes a key away. The others keep their order. -/
def remove (M : OrderedMap α) (key : String) : OrderedMap α where
  keys := M.keys.filter (· != key)
  value := Function.update M.value key none
  nodup := M.nodup.filter _
  mem_iff other := by
    by_cases hother : other = key
    · simp [hother]
    · simp [hother, M.mem_iff]

/-- The map of one key. -/
def single (key : String) (value : α) : OrderedMap α where
  keys := [key]
  value := Function.update (fun _ => none) key (some value)
  nodup := List.nodup_singleton key
  mem_iff other := by by_cases hother : other = key <;> simp [hother]

/-- The map of entries with distinct keys. -/
def ofEntries (es : Entries α) (h : es.keys.Nodup) : OrderedMap α where
  keys := es.keys
  value key := es.find? key
  nodup := h
  mem_iff _ := by rw [← Entries.contains_iff, Entries.contains]

/-! ### Maps as entries -/

/-- The entries of a map, in the order of its keys. -/
def entries (M : OrderedMap α) : Entries α :=
  M.keys.filterMap fun key => (M.value key).map (key, ·)

variable {M : OrderedMap α}

theorem mem_entries {key : String} {value : α} :
    (key, value) ∈ M.entries ↔ M.value key = some value := by
  rw [entries, List.mem_filterMap]
  constructor
  · rintro ⟨other, -, hvalue⟩
    obtain ⟨v, hv, he⟩ := Option.map_eq_some_iff.mp hvalue
    obtain ⟨rfl, rfl⟩ := Prod.mk.inj he
    exact hv
  · intro hvalue
    exact ⟨key, (M.mem_iff key).mpr (by rw [hvalue]; rfl), by rw [hvalue]; rfl⟩

theorem keys_entries : M.entries.keys = M.keys := by
  have hkey (key : String) (hkey : key ∈ M.keys) :
      ((M.value key).map (key, ·)).map Prod.fst = some key := by
    obtain ⟨v, hv⟩ := Option.isSome_iff_exists.mp ((M.mem_iff key).mp hkey)
    rw [hv]
    rfl
  rw [Entries.keys, entries, List.map_filterMap, List.filterMap_congr hkey, List.filterMap_some]

theorem nodup_entries : M.entries.keys.Nodup := by
  rw [keys_entries]
  exact M.nodup

theorem find?_entries (key : String) : M.entries.find? key = M.value key := by
  cases hvalue : M.value key with
  | some v => exact Entries.find?_of_mem nodup_entries (mem_entries.mpr hvalue)
  | none =>
      rw [Entries.find?_eq_none_iff, keys_entries, M.mem_iff, hvalue]
      exact nofun

/-- Entries are those of the map that has their keys and their values. -/
theorem eq_entries {es : Entries α} (hk : es.keys = M.keys)
    (hv : ∀ key, es.find? key = M.value key) : es = M.entries := by
  have hn : es.keys.Nodup := hk ▸ M.nodup
  have hentry (e : String × α) (he : e ∈ es) : (M.value e.1).map (e.1, ·) = some e := by
    rw [← hv, Entries.find?_of_mem hn he]
    rfl
  rw [entries, ← hk, Entries.keys, List.filterMap_map]
  exact ((List.filterMap_congr hentry).trans List.filterMap_some).symm

theorem entries_ofEntries {es : Entries α} (h : es.keys.Nodup) : (ofEntries es h).entries = es :=
  (eq_entries rfl fun _ => rfl).symm

/-! ### Changes of entries -/

theorem value_put (key : String) (value : α) :
    (M.put key value).value = Function.update M.value key (some value) := rfl

theorem value_remove (key : String) :
    (M.remove key).value = Function.update M.value key none := rfl

theorem entries_put (key : String) (value : α) :
    (M.put key value).entries = M.entries.insert key value := by
  refine (eq_entries ?_ fun other => ?_).symm
  · rw [Entries.keys_insert, keys_entries]
    rfl
  · by_cases hother : other = key
    · subst hother
      rw [Entries.find?_insert_self, value_put, Function.update_self]
    · rw [Entries.find?_insert_of_ne hother, find?_entries, value_put,
        Function.update_of_ne hother]

theorem entries_remove (key : String) : (M.remove key).entries = M.entries.erase key := by
  refine (eq_entries ?_ fun other => ?_).symm
  · rw [Entries.keys_erase, nodup_entries.erase_eq_filter, keys_entries]
    rfl
  · by_cases hother : other = key
    · subst hother
      rw [Entries.find?_erase_self nodup_entries, value_remove, Function.update_self]
    · rw [Entries.find?_erase_of_ne hother, find?_entries, value_remove,
        Function.update_of_ne hother]

theorem entries_single (key : String) (value : α) :
    (single key value).entries = [(key, value)] := by
  rw [entries, single]
  simp

end OrderedMap
end ShapeCodec
