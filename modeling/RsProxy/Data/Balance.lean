import Mathlib.Algebra.BigOperators.Pi
import Mathlib.Algebra.Order.BigOperators.Group.Finset

/-!
# A shared counter and its holders

A counter under keys that should say how much a finite family of holders has in hand. A holder that
changes keeps the balance when it keeps its amounts, or when the counter changes with it.
-/

namespace RsProxy.Data

open Finset

variable {κ ι τ : Type} [Fintype ι]

/-- The count under each key is what the holders have in hand together. -/
def Balanced (held : κ → τ → Nat) (count : κ → Nat) (holders : ι → τ) : Prop :=
  ∀ key, count key = ∑ i, held key (holders i)

variable [DecidableEq ι]

/-- What the holders have together when one of them changes. -/
theorem sum_holders_update (amount : τ → Nat) (holders : ι → τ) (i : ι) (t : τ) :
    ∑ j, amount (Function.update holders i t j) + amount (holders i) =
      ∑ j, amount (holders j) + amount t := by
  have hupdate : ∀ j, amount (Function.update holders i t j) =
      Function.update (amount ∘ holders) i (amount t) j := fun j =>
    congrFun (Function.comp_update amount holders i t) j
  have hothers : ∑ j, amount (holders j) =
      ∑ j ∈ univ \ {i}, amount (holders j) + amount (holders i) :=
    sum_eq_sum_sdiff_singleton_add (mem_univ i) _
  rw [sum_congr rfl fun j _ => hupdate j, sum_update_of_mem (mem_univ i)]
  simp only [Function.comp_apply]
  omega

namespace Balanced

variable {held : κ → τ → Nat} {count count' : κ → Nat} {holders : ι → τ} {i : ι} {t : τ}

/-- The counter and one holder change by the same amount under each key. -/
theorem update (h : Balanced held count holders)
    (hchange : ∀ key, count' key + held key (holders i) = count key + held key t) :
    Balanced held count' (Function.update holders i t) := by
  intro key
  have hsum := sum_holders_update (held key) holders i t
  have hcount := h key
  have hkey := hchange key
  omega

omit [DecidableEq ι] in
theorem held_le (h : Balanced held count holders) (key : κ) (i : ι) :
    held key (holders i) ≤ count key := by
  rw [h key]
  exact single_le_sum (f := fun j => held key (holders j)) (fun _ _ => Nat.zero_le _)
    (mem_univ i)

end Balanced

end RsProxy.Data
