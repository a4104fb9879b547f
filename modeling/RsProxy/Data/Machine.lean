import Mathlib.Tactic.Common

/-!
# Systems that move by actions

A machine has one state to begin with and takes one action after the other; an action may be
impossible in a state. Interleavings are lists of actions, so a system of several parties is a
machine whose actions say who moves.
-/

namespace RsProxy.Data

structure Machine (σ α : Type) where
  initial : σ
  step : σ → α → Option σ

namespace Machine

variable {σ α : Type} (m : Machine σ α)

/-- The states that actions of one kind lead to. -/
inductive Reachable (allowed : α → Prop) : σ → Prop where
  | initial : Reachable allowed m.initial
  | step {s s' a} :
      Reachable allowed s → allowed a → m.step s a = some s' → Reachable allowed s'

/-- The state behind a list of actions. -/
def run (s : σ) : List α → Option σ
  | [] => some s
  | a :: as => (m.step s a).bind fun s' => run s' as

/-- The machine without the steps that do not pass a test. -/
def restrict (test : σ → α → Bool) : Machine σ α where
  initial := m.initial
  step s a := if test s a then m.step s a else none

/-- Some actions lead from one state to another. -/
def CanReach (s s' : σ) : Prop := ∃ as, m.run s as = some s'

variable {m} {allowed : α → Prop} {s s' : σ}

theorem restrict_step {test a} (h : (m.restrict test).step s a = some s') :
    test s a ∧ m.step s a = some s' := by
  simp only [restrict] at h
  split_ifs at h with htest
  exact ⟨htest, h⟩

/-- What holds at the beginning and is kept by every step holds of all states that are reached. -/
theorem Reachable.invariant {I : σ → Prop} (hinitial : I m.initial)
    (hstep : ∀ {s s' a}, m.Reachable allowed s → I s → allowed a → m.step s a = some s' → I s')
    (h : m.Reachable allowed s) : I s := by
  induction h with
  | initial => exact hinitial
  | step hreach hallowed hs ih => exact hstep hreach ih hallowed hs

theorem Reachable.run (h : m.Reachable allowed s) (as : List α) (hallowed : ∀ a ∈ as, allowed a)
    (hrun : m.run s as = some s') : m.Reachable allowed s' := by
  induction as generalizing s with
  | nil =>
    cases hrun
    exact h
  | cons a as ih =>
    obtain ⟨next, hnext, hrun⟩ := Option.bind_eq_some_iff.mp hrun
    rw [List.forall_mem_cons] at hallowed
    exact ih (h.step hallowed.1 hnext) hallowed.2 hrun

/-- A run whose last state passes a test shows a reachable state that does. -/
theorem exists_reachable_of_run (as : List α) (hallowed : ∀ a ∈ as, allowed a) {p} [DecidablePred p]
    (h : (m.run m.initial as).any (p ·)) :
    ∃ s, m.Reachable allowed s ∧ p s := by
  rcases hrun : m.run m.initial as with _ | s <;> rw [hrun] at h
  · cases h
  exact ⟨s, Reachable.initial.run as hallowed hrun, of_decide_eq_true h⟩

theorem CanReach.refl (s : σ) : m.CanReach s s := ⟨[], rfl⟩

/-- One step, and then others. -/
theorem CanReach.step {s'' a} (hstep : m.step s a = some s') (h : m.CanReach s' s'') :
    m.CanReach s s'' := by
  obtain ⟨as, has⟩ := h
  refine ⟨a :: as, ?_⟩
  rwa [run, hstep]

theorem CanReach.trans {s''} (h : m.CanReach s s') (h' : m.CanReach s' s'') : m.CanReach s s'' := by
  obtain ⟨as, has⟩ := h
  induction as generalizing s with
  | nil =>
    cases has
    exact h'
  | cons a as ih =>
    obtain ⟨next, hnext, has⟩ := Option.bind_eq_some_iff.mp has
    exact (ih has).step hnext

theorem Reachable.canReach (h : m.Reachable (fun _ => True) s) (hreach : m.CanReach s s') :
    m.Reachable (fun _ => True) s' := by
  obtain ⟨as, has⟩ := hreach
  exact h.run as (fun _ _ => trivial) has

end Machine

end RsProxy.Data
