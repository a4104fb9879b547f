import Mathlib.Data.List.Count
import RsProxy.Regex.Glob

/-!
# Texts of a glob

A pattern without wildcards and escapes is the one text it matches. Any other pattern matches the
text that has some character in place of every wildcard, and that text is not the pattern. What a
glob begins or ends with literally, its texts begin or end with.
-/

namespace RsProxy.Regex.Glob

open Text List Option

/-- The characters that mean something else than themselves. -/
def isActive (c : Char) : Bool := c == '*' || c == '\\'

variable {c : Char}

theorem isActive_eq_false : isActive c = false ↔ c ≠ '\\' ∧ c ≠ '*' := by
  simp [isActive, and_comm]

/-! ### Literal patterns -/

variable {p : Str}

theorem tokens_of_literal (h : p.any isActive = false) : tokens p = some (p.map .lit) := by
  induction p with
  | nil => rfl
  | cons c cs ih =>
    obtain ⟨hc, hcs⟩ := Bool.or_eq_false_iff.mp h
    obtain ⟨hescape, hstar⟩ := isActive_eq_false.mp hc
    rw [tokens_lit hescape hstar, ih hcs]
    rfl

theorem find_literals {sep s} : find sep (p.map .lit) s = if p = s then some [] else none := by
  induction p generalizing s with
  | nil => cases s <;> rfl
  | cons c cs ih =>
    cases s with
    | nil => rfl
    | cons d ds =>
      rw [map_cons, find, ih]
      by_cases hcd : c = d <;> simp [hcd]

/-! ### A text for every pattern -/

/-- The text with a character in place of every wildcard. -/
def fill (w : Char) : List Token → Str
  | [] => []
  | .lit c :: ts => c :: fill w ts
  | .star :: ts | .dstar :: ts => w :: fill w ts

variable {w sep : Char}

theorem exists_splits_fill (hw : w ≠ sep) {ts} : ∃ ws, Splits sep ts (fill w ts) ws := by
  induction ts with
  | nil => exact ⟨[], .nil⟩
  | cons t ts ih =>
    obtain ⟨ws, hws⟩ := ih
    cases t with
    | lit c => exact ⟨ws, .lit hws⟩
    | star => exact ⟨[w] :: ws, Splits.star (w := [w]) (by simpa using hw) hws⟩
    | dstar => exact ⟨[w] :: ws, Splits.dstar (w := [w]) hws⟩

variable {ts : List Token}

theorem mem_fill (h : tokens p = some ts) : ∀ c ∈ fill w ts, c = w ∨ c ∈ p := by
  fun_induction tokens p generalizing ts with
  | case1 | case4 =>
    cases h
    simp [fill]
  | case2 => cases h
  | case3 _ _ ih | case5 _ _ ih | case6 _ _ _ _ ih | case7 _ _ _ _ ih =>
    obtain ⟨ts, hts, rfl⟩ := map_eq_some_iff.mp h
    intro c hc
    rcases mem_cons.mp hc with rfl | hc
    · simp
    · rcases ih hts c hc with rfl | hmem
      · exact .inl rfl
      · simp_all

/-- Wildcards and escapes cost the pattern a character that the text does not have. -/
theorem countP_fill (hw : isActive w = false) (h : tokens p = some ts) :
    (fill w ts).countP isActive ≤ p.countP isActive ∧
      (p.any isActive → (fill w ts).countP isActive < p.countP isActive) := by
  have hstar : isActive '*' := rfl
  have hescape : isActive '\\' := rfl
  fun_induction tokens p generalizing ts with
  | case1 =>
    cases h
    simp [fill]
  | case2 => cases h
  | case3 d ds ih =>
    obtain ⟨ts, hts, rfl⟩ := map_eq_some_iff.mp h
    have ih := (ih hts).1
    simp only [fill, countP_cons, hescape, if_true]
    omega
  | case4 =>
    cases h
    simp [fill, hw, hstar]
  | case5 ds _ ih | case6 d ds _ _ ih =>
    obtain ⟨ts, hts, rfl⟩ := map_eq_some_iff.mp h
    have ih := (ih hts).1
    rw [fill, countP_cons, countP_cons]
    simp only [countP_cons, hstar, hw, if_true, Bool.false_eq_true, if_false] at ih ⊢
    omega
  | case7 c cs hc hc' ih =>
    obtain ⟨ts, hts, rfl⟩ := map_eq_some_iff.mp h
    have hplain : isActive c = false := isActive_eq_false.mpr ⟨hc, hc'⟩
    simp only [fill, countP_cons, any_cons, hplain]
    exact ih hts

/-! ### Ends -/

/-- The last character is that of the pattern, or it stands for a wildcard. -/
theorem getLast?_fill (h : tokens p = some ts) :
    (fill w ts).getLast? = some w ∨ (fill w ts).getLast? = p.getLast? := by
  fun_induction tokens p generalizing ts with
  | case1 =>
    cases h
    exact .inr rfl
  | case2 => cases h
  | case4 =>
    cases h
    exact .inl rfl
  | case3 d ds ih | case6 d ds _ _ ih | case7 c cs _ _ ih =>
    obtain ⟨ts, hts, rfl⟩ := map_eq_some_iff.mp h
    rcases ih hts with hlast | hlast <;> simp [fill, getLast?_cons, hlast]
  | case5 ds _ ih =>
    obtain ⟨ts, hts, rfl⟩ := map_eq_some_iff.mp h
    rcases ih hts with hlast | hlast
    · simp [fill, getLast?_cons, hlast]
    · cases hds : ds.getLast? <;> simp [fill, getLast?_cons, hlast, hds]

/-- The first character stands for a wildcard, is that of the pattern, or is escaped there. -/
theorem head?_fill (h : tokens p = some ts) :
    (fill w ts).head? = some w ∨ (fill w ts).head? = p.head? ∨
      ∃ d ds, p = '\\' :: d :: ds ∧ (fill w ts).head? = some d := by
  fun_cases tokens p with
  | case1 =>
    cases h
    exact .inr (.inl rfl)
  | case2 => cases h
  | case4 =>
    cases h
    exact .inl rfl
  | case3 d ds =>
    obtain ⟨ts, hts, rfl⟩ := map_eq_some_iff.mp h
    exact .inr (.inr ⟨d, ds, rfl, rfl⟩)
  | case5 ds =>
    obtain ⟨ts, hts, rfl⟩ := map_eq_some_iff.mp h
    exact .inl rfl
  | case6 d ds hd =>
    rw [tokens_star hd] at h
    obtain ⟨ts, hts, rfl⟩ := map_eq_some_iff.mp h
    exact .inl rfl
  | case7 c cs hescape hstar =>
    rw [tokens_lit hescape hstar] at h
    obtain ⟨ts, hts, rfl⟩ := map_eq_some_iff.mp h
    exact .inr (.inl rfl)

variable {ws : List Str}

theorem Splits.head?_lit {s} (h : Splits sep (.lit c :: ts) s ws) : s.head? = some c := by
  cases h
  rfl

/-- A pattern that does not end in a wildcard ends in a literal. -/
theorem getLast?_tokens (h : tokens p = some ts) (hc : p.getLast? = some c) (hstar : c ≠ '*') :
    ts.getLast? = some (.lit c) := by
  fun_induction tokens p generalizing ts with
  | case1 => cases hc
  | case2 => cases h
  | case4 =>
    cases hc
    exact absurd rfl hstar
  | case3 d ds ih | case5 ds _ ih | case7 d ds _ _ ih =>
    obtain ⟨ts, hts, rfl⟩ := map_eq_some_iff.mp h
    cases ds with
    | nil =>
      cases hts
      cases hc
      first
      | rfl
      | exact absurd rfl hstar
    | cons e es =>
      rw [getLast?_cons, ih hts hc]
      rfl
  | case6 d ds _ _ ih =>
    obtain ⟨ts, hts, rfl⟩ := map_eq_some_iff.mp h
    rw [getLast?_cons, ih hts hc]
    rfl

theorem Splits.getLast?_lit {s} (h : Splits sep ts s ws) (hlast : ts.getLast? = some (.lit c)) :
    s.getLast? = some c := by
  induction h with
  | nil => cases hlast
  | @lit d ts s ws hrest ih =>
    cases ts with
    | nil =>
      cases hrest
      cases hlast
      rfl
    | cons t ts =>
      rw [getLast?_cons, ih hlast]
      rfl
  | @star w ts s ws _ _ ih | @dstar w ts s ws _ ih =>
    cases ts with
    | nil => cases hlast
    | cons t ts =>
      rw [getLast?_append, ih hlast]
      rfl

end RsProxy.Regex.Glob
