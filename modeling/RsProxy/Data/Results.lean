import Mathlib.Data.List.Forall2
import Mathlib.Control.Basic

/-!
# Inverting successful computations

What a result of a computation in `Except` or `Option` says about its steps.
-/

namespace RsProxy.Data

open List Option

section Except

variable {ε α β : Type} {f : α → Except ε β} {x : Except ε α} {b : β} {l : List α}

/-! ### Except -/

theorem bind_eq_ok : x.bind f = .ok b ↔ ∃ a, x = .ok a ∧ f a = .ok b := by
  cases x <;> simp [Except.bind]

theorem map_eq_ok {f} : x.map f = .ok b ↔ ∃ a, x = .ok a ∧ f a = b := by
  cases x <;> simp [Except.map]

theorem ok_bind {a} : ((Except.ok a : Except ε α) >>= f) = f a := rfl

/-- The same for the notation `do`. -/
theorem do_eq_ok : (x >>= f) = .ok b ↔ ∃ a, x = .ok a ∧ f a = .ok b := bind_eq_ok

theorem mapM_eq_ok {bs} : l.mapM f = .ok bs ↔ List.Forall₂ (fun a b => f a = .ok b) l bs := by
  induction l generalizing bs with
  | nil => simp [pure, Except.pure]
  | cons a l ih =>
    rw [mapM_cons, do_eq_ok, forall₂_cons_left_iff]
    constructor
    · rintro ⟨b, hb, h⟩
      obtain ⟨bs', hbs, h⟩ := do_eq_ok.mp h
      cases h
      exact ⟨b, bs', hb, ih.mp hbs, rfl⟩
    · rintro ⟨b, bs', hb, hbs, rfl⟩
      exact ⟨b, hb, do_eq_ok.mpr ⟨bs', ih.mpr hbs, rfl⟩⟩

/-- A fold that succeeds succeeded at every element. -/
theorem forall_of_foldlM_eq_ok {f : β → α → Except ε β} {P : α → Prop}
    (hf : ∀ b a b', f b a = .ok b' → P a) {b'} (h : l.foldlM f b = .ok b') :
    ∀ a ∈ l, P a := by
  induction l generalizing b with
  | nil => nofun
  | cons a l ih =>
    obtain ⟨c, hc, h⟩ := do_eq_ok.mp h
    exact forall_mem_cons.mpr ⟨hf b a c hc, ih h⟩

/-- What every step of a fold keeps, the fold keeps. -/
theorem invariant_of_foldlM {f : β → α → Except ε β} {I : β → Prop}
    (hf : ∀ a ∈ l, ∀ {b b'}, I b → f b a = .ok b' → I b') {b'} (hb : I b)
    (h : l.foldlM f b = .ok b') : I b' := by
  induction l generalizing b with
  | nil =>
    cases h
    exact hb
  | cons a l ih =>
    obtain ⟨c, hc, h⟩ := do_eq_ok.mp h
    rw [forall_mem_cons] at hf
    exact ih hf.2 (hf.1 hb hc) h

theorem forM_eq_ok {f : α → Except ε Unit} : l.forM f = .ok () ↔ ∀ a ∈ l, f a = .ok () := by
  induction l with
  | nil => exact iff_of_true rfl nofun
  | cons a l ih =>
    rw [List.forM, do_eq_ok, forall_mem_cons, ← ih]
    exact ⟨fun ⟨_, h⟩ => h, fun h => ⟨(), h⟩⟩

end Except

/-! ### Option -/

section Option

variable {α β : Type}

theorem mapM_eq_some {f} {l : List α} {bs : List β} :
    l.mapM f = some bs ↔ List.Forall₂ (fun a b => f a = some b) l bs := by
  induction l generalizing bs with
  | nil => simp
  | cons a l ih =>
    rw [mapM_cons, bind_eq_bind, bind_eq_some_iff, forall₂_cons_left_iff]
    constructor
    · rintro ⟨b, hb, h⟩
      obtain ⟨bs', hbs, h⟩ := bind_eq_some_iff.mp h
      cases h
      exact ⟨b, bs', hb, ih.mp hbs, rfl⟩
    · rintro ⟨b, bs', hb, hbs, rfl⟩
      exact ⟨b, hb, bind_eq_some_iff.mpr ⟨bs', ih.mpr hbs, rfl⟩⟩

end Option

/-- Every right-hand member of two related lists has a partner. -/
theorem exists_of_mem_right {α β : Type} {R} {l : List α} {bs} (h : List.Forall₂ R l bs) {b : β}
    (hb : b ∈ bs) : ∃ a ∈ l, R a b := by
  induction h with
  | nil => cases hb
  | cons hab _ ih =>
    rcases mem_cons.mp hb with rfl | hb
    · exact ⟨_, mem_cons_self, hab⟩
    · obtain ⟨a, ha, hR⟩ := ih hb
      exact ⟨a, mem_cons_of_mem _ ha, hR⟩

/-- Every left-hand member has a partner at the same place. -/
theorem exists_mem_zip_of_mem_left {α β : Type} {R l} {bs : List β} (h : List.Forall₂ R l bs)
    {a : α} (ha : a ∈ l) : ∃ b, (a, b) ∈ l.zip bs ∧ R a b := by
  induction h with
  | nil => cases ha
  | @cons a' b' l' bs' hab _ ih =>
    rcases mem_cons.mp ha with rfl | ha
    · exact ⟨b', mem_cons_self, hab⟩
    · obtain ⟨b, hb, hab⟩ := ih ha
      exact ⟨b, mem_cons_of_mem _ hb, hab⟩

/-- What a function of related pairs says about the left element alone. -/
theorem map_zip_of_forall₂ {α β γ : Type} {R as bs} (h : List.Forall₂ R as bs) {f : α × β → γ} {g}
    (hf : ∀ a ∈ as, ∀ b, R a b → f (a, b) = g a) : (as.zip bs).map f = as.map g := by
  induction h with
  | nil => rfl
  | @cons a b as bs hab _ ih =>
    rw [forall_mem_cons] at hf
    rw [zip_cons_cons, map_cons, map_cons, ih hf.2, hf.1 b hab]

theorem exists_forall₂ {α β : Type} {R : α → β → Prop} {as} (h : ∀ a ∈ as, ∃ b, R a b) :
    ∃ bs, List.Forall₂ R as bs := by
  induction as with
  | nil => exact ⟨[], .nil⟩
  | cons a as ih =>
    rw [forall_mem_cons] at h
    obtain ⟨b, hb⟩ := h.1
    obtain ⟨bs, hbs⟩ := ih h.2
    exact ⟨b :: bs, .cons hb hbs⟩

end RsProxy.Data
