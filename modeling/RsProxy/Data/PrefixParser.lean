import Mathlib.Data.List.Basic

/-!
# Taking items off the front of a stream

A prefix parser looks at the front of a list and finds an item there, an error, or that it has not
seen enough. What it finds is final: more input behind it changes nothing. The items of a list are
then the same however the list arrives, which is `items_append`.
-/

namespace RsProxy.Data

open List

structure PrefixParser (β α ε : Type) where
  parse : List β → Except ε (Option (α × Nat))
  used_pos {l a used} : parse l = .ok (some (a, used)) → 0 < used ∧ used ≤ l.length
  parse_append {l} (more : List β) : parse l ≠ .ok none → parse (l ++ more) = parse l

/-- The items at the front of a list, what is left behind them, and the error that stands there. -/
structure Items (β α ε : Type) where
  taken : List α
  rest : List β
  error : Option ε

namespace Items

variable {β α ε : Type} (a : α)

def cons (a : α) (items : Items β α ε) : Items β α ε := { items with taken := a :: items.taken }

variable (items : Items β α ε)

@[simp] theorem taken_cons : (items.cons a).taken = a :: items.taken := rfl

@[simp] theorem rest_cons : (items.cons a).rest = items.rest := rfl

@[simp] theorem error_cons : (items.cons a).error = items.error := rfl

end Items

namespace PrefixParser

variable {β α ε : Type} (p : PrefixParser β α ε)

def itemsLoop : (rounds : Nat) → List β → Items β α ε
  | 0, l => ⟨[], l, none⟩
  | rounds + 1, l =>
    match p.parse l with
    | .error e => ⟨[], l, some e⟩
    | .ok none => ⟨[], l, none⟩
    | .ok (some (a, used)) => (itemsLoop rounds (l.drop used)).cons a

/-- Every item uses an element at least, so the length gives rounds enough. -/
def items (l : List β) : Items β α ε := p.itemsLoop (l.length + 1) l

variable {p} {l : List β}

theorem itemsLoop_of_error {e} (h : p.parse l = .error e) (rounds : Nat) :
    p.itemsLoop (rounds + 1) l = ⟨[], l, some e⟩ := by
  rw [itemsLoop, h]

theorem itemsLoop_of_none (h : p.parse l = .ok none) (rounds : Nat) :
    p.itemsLoop (rounds + 1) l = ⟨[], l, none⟩ := by
  rw [itemsLoop, h]

theorem itemsLoop_of_some {a used} (h : p.parse l = .ok (some (a, used))) (rounds : Nat) :
    p.itemsLoop (rounds + 1) l = (p.itemsLoop rounds (l.drop used)).cons a := by
  rw [itemsLoop, h]

/-- Rounds beyond the length change nothing. -/
theorem itemsLoop_eq_items {rounds} (h : l.length < rounds) : p.itemsLoop rounds l = p.items l := by
  -- by induction on the rounds, for the loop of `items` as much as for the given one
  have key : ∀ rounds rounds', ∀ l, l.length < rounds → l.length < rounds' →
      p.itemsLoop rounds l = p.itemsLoop rounds' l := by
    intro rounds
    induction rounds with
    | zero => intro rounds' l hl; omega
    | succ rounds ih =>
      intro rounds' l hl hl'
      obtain ⟨rounds', rfl⟩ : ∃ n, rounds' = n + 1 := ⟨rounds' - 1, by omega⟩
      match hparse : p.parse l with
      | .error e => rw [itemsLoop_of_error hparse, itemsLoop_of_error hparse]
      | .ok none => rw [itemsLoop_of_none hparse, itemsLoop_of_none hparse]
      | .ok (some (a, used)) =>
        obtain ⟨hpos, hle⟩ := p.used_pos hparse
        rw [itemsLoop_of_some hparse, itemsLoop_of_some hparse]
        rw [ih rounds' (l.drop used)] <;> rw [length_drop] <;> omega
  exact key rounds (l.length + 1) l h (Nat.lt_succ_self _)

theorem items_of_error {e} (h : p.parse l = .error e) :
    p.items l = ⟨[], l, some e⟩ := itemsLoop_of_error h _

theorem items_of_none (h : p.parse l = .ok none) : p.items l = ⟨[], l, none⟩ :=
  itemsLoop_of_none h _

theorem items_of_some {a used} (h : p.parse l = .ok (some (a, used))) :
    p.items l = (p.items (l.drop used)).cons a := by
  obtain ⟨hpos, hle⟩ := p.used_pos h
  rw [items, itemsLoop_of_some h, itemsLoop_eq_items]
  rw [length_drop]
  omega

/-- An induction that follows the parser from item to item. -/
theorem items_induction {motive : List β → Prop} (error : ∀ l e, p.parse l = .error e → motive l)
    (none : ∀ l, p.parse l = .ok none → motive l)
    (some : ∀ l a used, p.parse l = .ok (some (a, used)) → motive (l.drop used) → motive l)
    (l : List β) : motive l := by
  induction hn : l.length using Nat.strongRecOn generalizing l with
  | ind n ih =>
    match hparse : p.parse l with
    | .error e => exact error l e hparse
    | .ok .none => exact none l hparse
    | .ok (.some (a, used)) =>
      obtain ⟨hpos, hle⟩ := p.used_pos hparse
      apply some l a used hparse
      apply ih _ _ _ rfl
      rw [length_drop]
      omega

/-- With more input behind it, a list has its items and then those of what it left and the rest. -/
theorem items_append (h : (p.items l).error = none) (more : List β) :
    p.items (l ++ more) =
      { p.items ((p.items l).rest ++ more) with
        taken := (p.items l).taken ++ (p.items ((p.items l).rest ++ more)).taken } := by
  induction l using p.items_induction with
  | error l e hparse =>
    rw [items_of_error hparse] at h
    cases h
  | none l hparse =>
    rw [items_of_none hparse]
    rfl
  | some l a used hparse ih =>
    have hmore : p.parse (l ++ more) = .ok (some (a, used)) := by
      rw [p.parse_append more (by rw [hparse]; simp), hparse]
    rw [items_of_some hparse] at h ⊢
    rw [items_of_some hmore, drop_append_of_le_length (p.used_pos hparse).2, ih h]
    rfl

end PrefixParser

end RsProxy.Data
