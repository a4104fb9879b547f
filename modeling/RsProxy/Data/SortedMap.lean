import Mathlib.Order.Lattice
import Mathlib.Tactic.Common

/-!
# Ordered maps

A map from an ordered type of keys is the list of its entries in increasing order of their keys.
The order is part of the type, so that two maps with the same entries are equal and iteration
follows the keys.

`upsert` is the one way to build a map: it replaces or adds the value of a key by a function of the
value that was there.
-/

namespace RsProxy.Data

open List Option

variable {κ ν : Type} [LinearOrder κ]

structure SortedMap (κ ν : Type) [LinearOrder κ] where
  entries : List (κ × ν)
  sorted : entries.Pairwise fun a b => a.1 < b.1

variable {es : List (κ × ν)} {m : SortedMap κ ν} {k : κ}

namespace SortedMap

def empty : SortedMap κ ν := ⟨[], Pairwise.nil⟩

def get? (m : SortedMap κ ν) (k : κ) : Option ν :=
  (m.entries.find? fun e => e.1 = k).map Prod.snd

def keys (m : SortedMap κ ν) : List κ := m.entries.map Prod.fst

def values (m : SortedMap κ ν) : List ν := m.entries.map Prod.snd

/-- Put `f` of the present value at the key, at the key's place in the order. -/
def upsertEntries (k : κ) (f : Option ν → ν) : List (κ × ν) → List (κ × ν)
  | [] => [(k, f none)]
  | e :: es =>
    if k < e.1 then (k, f none) :: e :: es
    else if k = e.1 then (k, f (some e.2)) :: es
    else e :: upsertEntries k f es

theorem mem_upsertEntries {f x} (h : x ∈ upsertEntries k f es) : x.1 = k ∨ x ∈ es := by
  induction es with
  | nil =>
    rw [upsertEntries, mem_singleton] at h
    left
    rw [h]
  | cons e es ih =>
    rw [upsertEntries] at h
    split at h
    · rcases mem_cons.mp h with rfl | h
      · exact .inl rfl
      · exact .inr h
    · split at h
      · rcases mem_cons.mp h with rfl | h
        · exact .inl rfl
        · exact .inr (mem_cons_of_mem _ h)
      · rcases mem_cons.mp h with rfl | h
        · exact .inr mem_cons_self
        · exact (ih h).imp id (mem_cons_of_mem _)

theorem sorted_upsertEntries {f} (h : es.Pairwise fun a b => a.1 < b.1) :
    (upsertEntries k f es).Pairwise fun a b => a.1 < b.1 := by
  induction es with
  | nil => exact pairwise_singleton _ _
  | cons e es ih =>
    rw [pairwise_cons] at h
    rw [upsertEntries]
    split
    next hlt =>
      refine pairwise_cons.mpr ⟨?_, pairwise_cons.mpr h⟩
      intro b hb
      rcases mem_cons.mp hb with rfl | hb
      · exact hlt
      · exact lt_trans hlt (h.1 b hb)
    next hlt =>
      split
      next heq =>
        refine pairwise_cons.mpr ⟨?_, h.2⟩
        intro b hb
        rw [heq]
        exact h.1 b hb
      next hne =>
        refine pairwise_cons.mpr ⟨?_, ih h.2⟩
        intro b hb
        rcases mem_upsertEntries hb with hk | hb
        · rw [hk]
          exact lt_of_le_of_ne (not_lt.mp hlt) (Ne.symm hne)
        · exact h.1 b hb

def upsert (m : SortedMap κ ν) (k : κ) (f : Option ν → ν) : SortedMap κ ν :=
  ⟨upsertEntries k f m.entries, sorted_upsertEntries m.sorted⟩

/-- Add a key without a value: the map is used as a set. -/
def insertKey (m : SortedMap κ Unit) (k : κ) : SortedMap κ Unit := m.upsert k fun _ => ()

@[simp] theorem get?_empty : (empty : SortedMap κ ν).get? k = none := rfl

private theorem find?_eq_none_of_lt (h : ∀ e ∈ es, k < e.1) :
    es.find? (fun e => e.1 = k) = none := by
  rw [find?_eq_none]
  intro e he
  have hne : e.1 ≠ k := ne_of_gt (h e he)
  simpa using hne

/-- After an update the key holds the new value and every other key what it held before. -/
theorem get?_upsert (m : SortedMap κ ν) {k' f} :
    (m.upsert k f).get? k' = if k' = k then some (f (m.get? k)) else m.get? k' := by
  obtain ⟨es, hs⟩ := m
  simp only [get?, upsert]
  induction es with
  | nil =>
    by_cases h : k' = k
    · simp [upsertEntries, h]
    · simp [upsertEntries, h, Ne.symm h]
  | cons e es ih =>
    rw [pairwise_cons] at hs
    have ih := ih hs.2
    rw [upsertEntries]
    split
    next hlt =>
      -- The key is smaller than every key of the list, so it was not there.
      have hnone : (e :: es).find? (fun e => e.1 = k) = none := by
        refine find?_eq_none_of_lt fun b hb => ?_
        rcases mem_cons.mp hb with rfl | hb
        · exact hlt
        · exact lt_trans hlt (hs.1 b hb)
      by_cases h : k' = k
      · rw [hnone, h]
        simp
      · rw [if_neg h, find?_cons_of_neg (by simpa using Ne.symm h)]
    next hlt =>
      split
      next heq =>
        by_cases h : k' = k
        · rw [if_pos h, h, find?_cons_of_pos (by simp), find?_cons_of_pos (by simp [heq])]
          rfl
        · have h' : e.1 ≠ k' := by rw [← heq]; exact Ne.symm h
          rw [if_neg h, find?_cons_of_neg (by simpa using Ne.symm h),
            find?_cons_of_neg (by simpa using h')]
      next hne =>
        have hek : e.1 ≠ k := Ne.symm hne
        rw [find?_cons_of_neg (p := fun e : κ × ν => decide (e.1 = k)) (by simpa using hek)]
        by_cases h : e.1 = k'
        · have hkk : k' ≠ k := by rw [← h]; exact hek
          rw [if_neg hkk, find?_cons_of_pos (by simpa using h),
            find?_cons_of_pos (by simpa using h)]
        · rwa [find?_cons_of_neg (by simpa using h), find?_cons_of_neg (by simpa using h)]

/-- A value that is found has a place among the values, and its key has the same place among the
keys. -/
theorem exists_place_of_get? {v} (h : m.get? k = some v) :
    ∃ i : Nat, m.keys[i]? = some k ∧ m.values[i]? = some v := by
  obtain ⟨e, he, rfl⟩ := map_eq_some_iff.mp h
  have hk : e.1 = k := by simpa using find?_some he
  obtain ⟨i, hi⟩ := getElem?_of_mem (mem_of_find?_eq_some he)
  refine ⟨i, ?_, ?_⟩
  · rw [keys, getElem?_map, hi, map_some, hk]
  · rw [values, getElem?_map, hi, map_some]

theorem get?_of_mem {e} (h : e ∈ m.entries) : m.get? e.1 = some e.2 := by
  obtain ⟨es, hs⟩ := m
  simp only [get?] at h ⊢
  induction es with
  | nil => cases h
  | cons a es ih =>
    rw [pairwise_cons] at hs
    rcases mem_cons.mp h with rfl | h
    · rw [find?_cons_of_pos (by simp)]
      rfl
    · have hne : a.1 ≠ e.1 := ne_of_lt (hs.1 e h)
      rw [find?_cons_of_neg (by simpa using hne)]
      exact ih hs.2 h

theorem exists_get?_of_mem_values {v} (h : v ∈ m.values) : ∃ k, m.get? k = some v := by
  obtain ⟨e, he, rfl⟩ := mem_map.mp h
  exact ⟨e.1, get?_of_mem he⟩

theorem mem_keys_iff : k ∈ m.keys ↔ (m.get? k).isSome := by
  constructor
  · intro h
    obtain ⟨e, he, rfl⟩ := mem_map.mp h
    rw [get?_of_mem he]
    rfl
  · intro h
    obtain ⟨v, hv⟩ := isSome_iff_exists.mp h
    obtain ⟨i, hi, -⟩ := exists_place_of_get? hv
    exact mem_of_getElem? hi

/-- After a series of updates a key holds the value of its last one. -/
theorem get?_foldl_upsert (f : κ → ν) (m : SortedMap κ ν) (ks : List κ) (k : κ) :
    (ks.foldl (fun m k => m.upsert k fun _ => f k) m).get? k =
      if k ∈ ks then some (f k) else m.get? k := by
  induction ks generalizing m with
  | nil => rfl
  | cons k' ks ih =>
    rw [foldl_cons, ih, get?_upsert]
    by_cases hmem : k ∈ ks
    · simp [hmem]
    · by_cases heq : k = k' <;> simp [heq]

/-- What holds of the keys and of a new one holds of the keys with it. -/
theorem forall_insertKey {m : SortedMap κ Unit} {P : κ → Prop}
    (h : ∀ k, (m.get? k).isSome → P k) (hk : P k) :
    ∀ k', ((m.insertKey k).get? k').isSome → P k' := by
  intro k' hget
  rw [insertKey, get?_upsert] at hget
  split at hget
  next heq => exact heq ▸ hk
  · exact h k' hget

theorem mem_keys_foldl_insertKey {m} {ks : List κ} :
    k ∈ (ks.foldl insertKey m).keys ↔ k ∈ ks ∨ k ∈ m.keys := by
  have hfold : ks.foldl insertKey m = ks.foldl (fun m k => m.upsert k fun _ => ()) m := rfl
  rw [mem_keys_iff, mem_keys_iff, hfold, get?_foldl_upsert (fun _ => ())]
  by_cases hmem : k ∈ ks <;> simp [hmem]

end SortedMap

end RsProxy.Data
