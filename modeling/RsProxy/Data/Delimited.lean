import Mathlib.Data.List.Basic
import Mathlib.Logic.Function.Basic

/-!
# Codes that say where they end

A code is delimited when what it writes can be cut off the front of a text: the value and the rest
are both determined. Some codes need to know what comes behind them (a numeral ends at the first
character that is no digit), so the notion has the possible rests as a parameter.
-/

namespace RsProxy.Data

open List

variable {α β γ : Type}

/-- In front of two rests from `Next`, equal texts come from equal values and equal rests. -/
def Delimited (Next : List γ → Prop) (code : α → List γ) : Prop :=
  ∀ ⦃a a' : α⦄ ⦃rest rest' : List γ⦄, Next rest → Next rest' →
    code a ++ rest = code a' ++ rest' → a = a' ∧ rest = rest'

/-- Every rest is allowed. -/
abbrev SelfDelimited (code : α → List γ) : Prop := Delimited (fun _ => True) code

/-- The rest is empty or begins with an element outside `p`. -/
def Stops (p : γ → Bool) (rest : List γ) : Prop := ∀ c ∈ rest.head?, p c = false

variable {p : γ → Bool}

theorem stops_cons {c} (hc : p c = false) (rest : List γ) : Stops p (c :: rest) := by
  intro d hd
  cases hd
  exact hc

/-- An injective code over the elements of `p` ends at the first element outside `p`. -/
theorem delimited_of_forall {code : α → List γ} (hcode : ∀ a, ∀ c ∈ code a, p c)
    (hinj : Function.Injective code) : Delimited (Stops p) code := by
  have hspan : ∀ a rest, Stops p rest → (code a ++ rest).takeWhile p = code a := by
    intro a rest hrest
    rw [takeWhile_append_of_pos (hcode a)]
    cases rest with
    | nil => simp
    | cons c rest => simp [hrest c rfl]
  intro a a' rest rest' hrest hrest' heq
  have hcodes : code a = code a' := by
    rw [← hspan a rest hrest, heq, hspan a' rest' hrest']
  refine ⟨hinj hcodes, ?_⟩
  rw [hcodes] at heq
  exact append_cancel_left heq

/-! ### Words in a row -/

/-- A list of delimited words, none of which begins with `stop`, up to `stop`. -/
theorem delimited_flatMap {word} {stop : γ} (hword : SelfDelimited word) (hne : ∀ a, word a ≠ [])
    (hstop : ∀ a, (word a).head? ≠ some stop) :
    SelfDelimited fun l : List α => l.flatMap word ++ [stop] := by
  have hhead : ∀ a (t u : List γ), word a ++ t ≠ stop :: u := by
    intro a t u heq
    cases hw : word a with
    | nil => exact hne a hw
    | cons c w =>
      rw [hw] at heq
      refine hstop a ?_
      rw [hw, (cons.inj heq).1]
      rfl
  intro l l' rest rest' _ _ heq
  simp only [append_assoc, singleton_append] at heq
  induction l generalizing l' with
  | nil =>
    cases l' with
    | nil => exact ⟨rfl, (cons.inj heq).2⟩
    | cons a' l' =>
      rw [flatMap_cons, append_assoc] at heq
      exact absurd heq.symm (hhead a' _ _)
  | cons a l ih =>
    rw [flatMap_cons, append_assoc] at heq
    cases l' with
    | nil => exact absurd heq (hhead a _ _)
    | cons a' l' =>
      rw [flatMap_cons, append_assoc] at heq
      obtain ⟨rfl, htail⟩ := hword trivial trivial heq
      obtain ⟨rfl, hrest⟩ := ih htail
      exact ⟨rfl, hrest⟩

/-- Each element behind a separator. -/
def behindEach (separator : List γ) (code : α → List γ) : List α → List γ
  | [] => []
  | a :: l => separator ++ (code a ++ behindEach separator code l)

/-- A list with its elements behind separators, up to `stop`. -/
theorem delimited_behindEach {Next code separator} {first stop : γ} (hcode : Delimited Next code)
    (hfirst : separator.head? = some first) (hne : first ≠ stop)
    (hnext : ∀ c rest, c = first ∨ c = stop → Next (c :: rest)) :
    SelfDelimited fun l : List α => behindEach separator code l ++ [stop] := by
  obtain ⟨tail, rfl⟩ : ∃ tail, separator = first :: tail := by
    cases separator with
    | nil => cases hfirst
    | cons c tail =>
      cases hfirst
      exact ⟨tail, rfl⟩
  have hbehind : ∀ l rest, Next (behindEach (first :: tail) code l ++ stop :: rest) := by
    intro l rest
    cases l with
    | nil => exact hnext stop rest (.inr rfl)
    | cons a l => exact hnext first _ (.inl rfl)
  intro l l' rest rest' _ _ heq
  simp only [append_assoc] at heq
  induction l generalizing l' with
  | nil =>
    cases l' with
    | nil => exact ⟨rfl, (cons.inj heq).2⟩
    | cons a' l' => exact absurd (cons.inj heq).1.symm hne
  | cons a l ih =>
    cases l' with
    | nil => exact absurd (cons.inj heq).1 hne
    | cons a' l' =>
      simp only [behindEach, append_assoc, append_cancel_left_eq] at heq
      obtain ⟨rfl, htail⟩ := hcode (hbehind l rest) (hbehind l' rest') heq
      obtain ⟨rfl, hrest⟩ := ih htail
      exact ⟨rfl, hrest⟩

end RsProxy.Data
