import Mathlib.Data.List.AList

/-!
# Entries and their recency list

A bounded map beside the list of its keys, in the order in which they were last used. The list is
right as long as it has the keys of the map, each of them once, and every operation on the map is
matched by one on the list: a key that is used moves to the end, a key that is taken out is taken
out of the list, and the map makes room at the front.
-/

namespace RsProxy.Data.Recency

open List AList

variable {κ ν : Type} [DecidableEq κ] {entries : AList fun _ : κ => ν} {order : List κ}

theorem perm_erase (h : order.Perm entries.keys) (key : κ) :
    (order.filter (· ≠ key)).Perm (entries.erase key).keys := by
  have hfilter : order.filter (· ≠ key) = order.erase key := by
    rw [(h.nodup_iff.mpr entries.keys_nodup).erase_eq_filter]
    exact filter_congr fun x _ => by by_cases hx : x = key <;> simp [hx]
  rw [keys_erase, hfilter]
  exact h.erase key

theorem length_keys_erase_le {entries : AList fun _ => ν} {key : κ} :
    (entries.erase key).keys.length ≤ entries.keys.length := by
  rw [keys_erase]
  exact length_erase_le

/-- A key that is used again, or for the first time, is the last one of the list. -/
theorem perm_insert (h : order.Perm entries.keys) (key : κ) (value : ν) :
    (order.filter (· ≠ key) ++ [key]).Perm (entries.insert key value).keys := by
  have hrest := perm_erase h key
  rw [keys_erase] at hrest
  rw [keys_insert]
  exact (perm_append_singleton key _).trans (hrest.cons key)

theorem length_keys_insert {key} (hkey : key ∈ entries) {value} :
    (entries.insert key value).keys.length = entries.keys.length := by
  rw [keys_insert, length_cons, length_erase_add_one (mem_keys.mp hkey)]

/-- Takes the oldest entries out until there is room for one more. -/
def makeRoom (capacity : Nat) (entries : AList fun _ : κ => ν) :
    List κ → (AList fun _ : κ => ν) × List κ
  | [] => (entries, [])
  | oldest :: order =>
    if capacity ≤ entries.keys.length then makeRoom capacity (entries.erase oldest) order
    else (entries, oldest :: order)

theorem makeRoom_spec {capacity} (hcapacity : 0 < capacity) (h : order.Perm entries.keys) :
    (makeRoom capacity entries order).2.Perm (makeRoom capacity entries order).1.keys ∧
      (makeRoom capacity entries order).1.keys.length < capacity ∧
      ∀ key, key ∈ (makeRoom capacity entries order).1 → key ∈ entries := by
  induction order generalizing entries with
  | nil =>
    refine ⟨h, ?_, fun _ => id⟩
    rwa [makeRoom, ← h.length_eq]
  | cons oldest order ih =>
    rw [makeRoom]
    split
    · have hrest : order.Perm (entries.erase oldest).keys := by
        simpa using h.erase oldest
      obtain ⟨hperm, hlength, hmem⟩ := ih hrest
      exact ⟨hperm, hlength, fun key hkey => (mem_erase.mp (hmem key hkey)).2⟩
    next hroom => exact ⟨h, Nat.not_le.mp hroom, fun _ => id⟩

/-- An entry under a key that was not there goes to the end. -/
theorem perm_insert_new {key} (h : order.Perm entries.keys) (hkey : key ∉ entries) {value} :
    (order ++ [key]).Perm (entries.insert key value).keys ∧
      (entries.insert key value).keys.length = entries.keys.length + 1 := by
  have hnew : key ∉ entries.keys := mt mem_keys.mpr hkey
  rw [keys_insert, erase_of_not_mem hnew]
  exact ⟨(perm_append_singleton key _).trans (h.cons key), rfl⟩

end RsProxy.Data.Recency
