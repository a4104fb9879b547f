import Mathlib.Data.List.Forall2
import Mathlib.Data.List.Infix
import Mathlib.Tactic.Common

/-!
# Greedy selection

One pass over a list that keeps an element or drops it, depending on what has been kept so far. The
selection is determined by the rule `keeps` alone; whatever an implementation remembers about the
elements it has kept is a function of the list of those elements.
-/

namespace RsProxy.Data

open List

variable {α : Type} (keeps : List α → α → Bool)

/-- Go through the elements, with those kept before. -/
def select : List α → List α → List α
  | kept, [] => kept
  | kept, a :: as => select (if keeps kept a then kept ++ [a] else kept) as

theorem select_cons (kept : List α) (a : α) (as : List α) :
    select keeps kept (a :: as) = select keeps (if keeps kept a then kept ++ [a] else kept) as :=
  rfl

theorem select_append (kept as bs : List α) :
    select keeps kept (as ++ bs) = select keeps (select keeps kept as) bs := by
  induction as generalizing kept with
  | nil => rfl
  | cons a as ih => rw [cons_append, select_cons, select_cons, ih]

/-- What is kept stays, and is followed by some of the elements in their order. -/
theorem select_eq_append (kept as : List α) :
    ∃ new, select keeps kept as = kept ++ new ∧ new.Sublist as := by
  induction as generalizing kept with
  | nil => exact ⟨[], (append_nil kept).symm, .slnil⟩
  | cons a as ih =>
    rw [select_cons]
    obtain ⟨new, hnew, hsub⟩ := ih (if keeps kept a then kept ++ [a] else kept)
    split at hnew
    · exact ⟨a :: new, by simp_all, hsub.cons_cons a⟩
    · exact ⟨new, by simp_all, hsub.cons a⟩

theorem prefix_select (kept as : List α) : kept <+: select keeps kept as := by
  obtain ⟨new, hnew, -⟩ := select_eq_append keeps kept as
  exact ⟨new, hnew.symm⟩

theorem select_sublist (as : List α) : (select keeps [] as).Sublist as := by
  obtain ⟨new, hnew, hsub⟩ := select_eq_append keeps [] as
  rwa [hnew]

variable {as : List α}

/-- An element of the input is kept, unless those kept before it rule it out. -/
theorem mem_select_or_not_keeps {xs ys a} (h : as = xs ++ a :: ys) :
    a ∈ select keeps [] as ∨ keeps (select keeps [] xs) a = false := by
  subst h
  rw [select_append, select_cons]
  cases hkeep : keeps (select keeps [] xs) a with
  | false => exact .inr rfl
  | true =>
    left
    exact (prefix_select keeps _ ys).subset (mem_append_right _ (mem_singleton_self a))

/-- A relation between an acceptable element and those kept before it holds between any two
selected elements. -/
theorem pairwise_select {R} (h : ∀ kept a, keeps kept a → ∀ k ∈ kept, R k a) :
    (select keeps [] as).Pairwise R := by
  induction as using reverseRecOn with
  | nil => exact .nil
  | append_singleton as a ih =>
    rw [select_append, select_cons]
    split
    next hkeep =>
      refine pairwise_append.mpr ⟨ih, pairwise_singleton R a, fun k hk b hb => ?_⟩
      rw [mem_singleton.mp hb]
      exact h _ a hkeep k hk
    · exact ih

/-- Selections from corresponding lists by corresponding rules correspond. -/
theorem forall₂_select {β keeps' R}
    (h : ∀ kept kept' a b, List.Forall₂ R kept kept' → R a b → keeps kept a = keeps' kept' b) {kept}
    {bs kept' : List β} (hkept : List.Forall₂ R kept kept') (has : List.Forall₂ R as bs) :
    List.Forall₂ R (select keeps kept as) (select keeps' kept' bs) := by
  induction has generalizing kept kept' with
  | nil => exact hkept
  | @cons a b as bs hab _ ih =>
    rw [select_cons, select_cons, ← h kept kept' a b hkept hab]
    refine ih ?_
    split
    · exact rel_append hkept (.cons hab .nil)
    · exact hkept

/-! ### First occurrences -/

variable [DecidableEq α]

/-- Every element at its first occurrence. -/
def firstOccurrences (as : List α) : List α := select (fun kept a => !kept.contains a) [] as

theorem nodup_firstOccurrences : (firstOccurrences as).Nodup := by
  refine pairwise_select _ (fun kept a hfresh k hk => ?_)
  rintro rfl
  simp [hk] at hfresh

theorem mem_firstOccurrences {a} : a ∈ firstOccurrences as ↔ a ∈ as := by
  constructor
  · exact fun h => (select_sublist _ as).subset h
  · intro h
    obtain ⟨xs, ys, rfl⟩ := append_of_mem h
    rcases mem_select_or_not_keeps (fun kept (a : α) => !kept.contains a) rfl with h | h
    · exact h
    · -- The element was kept before.
      have hmem : a ∈ firstOccurrences xs := contains_iff_mem.mp (Bool.not_eq_eq_eq_not.mp h)
      unfold firstOccurrences
      rw [select_append]
      exact (prefix_select _ _ _).subset hmem

end RsProxy.Data
