import Mathlib.Algebra.BigOperators.Group.List.Basic
import Mathlib.Algebra.GroupWithZero.Nat
import Mathlib.Algebra.Order.BigOperators.Group.List
import Mathlib.Algebra.Order.Group.Nat
import Mathlib.Data.List.AList

/-!
# The weight of a map

A map whose values weigh something. Entries that are taken out take their weight with them, and a
sum kept beside the map follows it when it changes by what goes in and out.
-/

namespace RsProxy.Data

open List Option Bool AList

variable {κ ν : Type} {f : ν → Nat} {m : AList fun _ : κ => ν}

def weight (f : ν → Nat) (m : AList fun _ : κ => ν) : Nat := (m.entries.map fun e => f e.2).sum

/-- The entries whose values pass the test. -/
def retain (keep : ν → Bool) (m : AList fun _ : κ => ν) : AList fun _ : κ => ν :=
  ⟨m.entries.filter fun e => keep e.2, m.nodupKeys.sublist filter_sublist⟩

variable (keep : ν → Bool)

theorem weight_retain :
    weight f (retain keep m) +
      ((m.entries.filter fun e => !keep e.2).map fun e => f e.2).sum = weight f m := by
  show ((m.entries.filter fun e => keep e.2).map fun e => f e.2).sum +
    ((m.entries.filter fun e => !keep e.2).map fun e => f e.2).sum =
      (m.entries.map fun e => f e.2).sum
  induction m.entries with
  | nil => rfl
  | cons e l ih =>
    cases hkeep : keep e.2
    all_goals
      simp only [filter_cons, hkeep, Bool.not_true, Bool.not_false, if_true, false_eq_true,
        if_false, map_cons, sum_cons] at ih ⊢
      omega

variable [DecidableEq κ]

theorem weight_erase (key : κ) :
    weight f (m.erase key) + ((m.lookup key).map f).getD 0 = weight f m := by
  by_cases hkey : key ∈ m.entries.keys
  · obtain ⟨v, l₁, l₂, hnot, hl, herase⟩ := exists_of_kerase hkey
    have hlookup : m.lookup key = some v := by
      apply mem_lookup_iff.mpr
      rw [hl]
      simp
    show ((m.entries.kerase key).map fun e => f e.2).sum + _ = (m.entries.map fun e => f e.2).sum
    rw [hlookup, herase, hl]
    simp only [map_append, map_cons, sum_append, sum_cons, map_some, getD_some]
    omega
  · have hlookup : m.lookup key = none := lookup_eq_none.mpr hkey
    show ((m.entries.kerase key).map fun e => f e.2).sum + _ = (m.entries.map fun e => f e.2).sum
    rw [hlookup, kerase_of_notMem_keys hkey]
    rfl

theorem weight_insert (key : κ) (v : ν) :
    weight f (m.insert key v) = f v + weight f (m.erase key) := rfl

theorem weight_erase_le {key} : weight f (m.erase key) ≤ weight f m :=
  ((kerase_sublist key m.entries).map _).sum_le_sum fun _ _ => Nat.zero_le _

variable {key : κ} {v : ν}

/-- An entry that is replaced, and one that is taken out. -/
theorem weight_replace (v' : ν) (h : m.lookup key = some v) :
    weight f (m.insert key v') + f v = weight f m + f v' := by
  have herase := weight_erase (f := f) (m := m) key
  rw [h, map_some, getD_some] at herase
  rw [weight_insert]
  omega

theorem weight_remove (h : m.lookup key = some v) : weight f (m.erase key) + f v = weight f m := by
  have herase := weight_erase (f := f) (m := m) key
  rwa [h] at herase

theorem keys_perm_cons_erase (h : m.lookup key = some v) :
    m.keys.Perm (key :: (m.erase key).keys) := by
  rw [keys_erase]
  apply perm_cons_erase
  rw [← AList.mem_keys, ← lookup_isSome, h]
  rfl

theorem keys_insert_perm (v' : ν) (h : m.lookup key = some v) :
    (m.insert key v').keys.Perm m.keys := by
  exact (keys_perm_cons_erase h).symm

theorem lookup_retain : (retain keep m).lookup key = (m.lookup key).filter keep := by
  ext v
  have hretain : v ∈ (retain keep m).lookup key ↔ ⟨key, v⟩ ∈ m.entries ∧ keep v := by
    rw [mem_lookup_iff]
    exact mem_filter
  rw [mem_def] at hretain
  rw [hretain, filter_eq_some_iff, ← mem_def, mem_lookup_iff]

end RsProxy.Data
