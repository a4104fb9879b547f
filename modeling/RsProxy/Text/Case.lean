import RsProxy.Text.Basic

/-!
# ASCII case

Changing the case of a character moves its code point by 32 within the ASCII letters and leaves
everything else alone. The facts about texts follow character by character.
-/

namespace RsProxy.Text

open List Char

/-! ### Characters -/

variable (c : Char)

theorem toNat_toLower :
    c.toLower.toNat = if 65 ≤ c.toNat ∧ c.toNat ≤ 90 then c.toNat + 32 else c.toNat := by
  have hrange : ('A'.val ≤ c.val ∧ c.val ≤ 'Z'.val) ↔ (65 ≤ c.toNat ∧ c.toNat ≤ 90) := by
    rfl
  unfold toLower
  split
  next h =>
    have hle : c.val.toNat ≤ 90 := (hrange.mp h).2
    rw [if_pos (hrange.mp h)]
    change (c.val + 32).toNat = c.val.toNat + 32
    change (c.val.toNat + 32) % 2 ^ 32 = _
    omega
  next h => rw [if_neg (fun h' => h (hrange.mpr h'))]

theorem toNat_toUpper :
    c.toUpper.toNat = if 97 ≤ c.toNat ∧ c.toNat ≤ 122 then c.toNat - 32 else c.toNat := by
  have hrange : ('a'.val ≤ c.val ∧ c.val ≤ 'z'.val) ↔ (97 ≤ c.toNat ∧ c.toNat ≤ 122) := by
    rfl
  unfold toUpper
  split
  next h =>
    have hle : 97 ≤ c.val.toNat ∧ c.val.toNat ≤ 122 := hrange.mp h
    rw [if_pos (hrange.mp h)]
    change (c.val + 4294967264).toNat = c.val.toNat - 32
    rw [UInt32.toNat_add]
    change (c.val.toNat + 4294967264) % 2 ^ 32 = _
    omega
  next h => rw [if_neg (fun h' => h (hrange.mpr h'))]

theorem isAlphanum_iff :
    c.isAlphanum ↔ (65 ≤ c.toNat ∧ c.toNat ≤ 90 ∨ 97 ≤ c.toNat ∧ c.toNat ≤ 122) ∨
      48 ≤ c.toNat ∧ c.toNat ≤ 57 := by
  have hdef : c.isAlphanum = (decide (65 ≤ c.toNat ∧ c.toNat ≤ 90) ||
      decide (97 ≤ c.toNat) && decide (c.toNat ≤ 122) ||
      decide (48 ≤ c.toNat) && decide (c.toNat ≤ 57)) := rfl
  simp [hdef]

/-- Lowering the case yields a character that is no letter only from itself. -/
theorem toLower_eq_iff {c k : Char} (hupper : ¬(65 ≤ k.toNat ∧ k.toNat ≤ 90))
    (hlower : ¬(97 ≤ k.toNat ∧ k.toNat ≤ 122)) : c.toLower = k ↔ c = k := by
  rw [← toNat_inj, ← toNat_inj, toNat_toLower]
  grind

theorem toUpper_toLower : c.toLower.toUpper = c.toUpper := by
  apply toNat_inj.mp
  simp only [toNat_toLower, toNat_toUpper]
  grind

theorem toUpper_toUpper : c.toUpper.toUpper = c.toUpper := by
  apply toNat_inj.mp
  simp only [toNat_toUpper]
  grind

theorem toLower_toLower : c.toLower.toLower = c.toLower := by
  apply toNat_inj.mp
  simp only [toNat_toLower]
  grind

theorem toLower_toUpper : c.toUpper.toLower = c.toLower := by
  apply toNat_inj.mp
  simp only [toNat_toLower, toNat_toUpper]
  grind

theorem isWhitespace_toLower : isWhitespace c.toLower = isWhitespace c := by
  simp only [isWhitespace, toNat_toLower]
  grind

/-! ### Texts -/

variable (s : Str)

@[simp] theorem toAsciiLowercase_idem :
    toAsciiLowercase (toAsciiLowercase s) = toAsciiLowercase s := by
  simp only [toAsciiLowercase, map_map, Function.comp_def, toLower_toLower]

@[simp] theorem toAsciiUppercase_idem :
    toAsciiUppercase (toAsciiUppercase s) = toAsciiUppercase s := by
  simp only [toAsciiUppercase, map_map, Function.comp_def, toUpper_toUpper]

theorem toAsciiLowercase_intercalate {f : Str → Str}
    (hf : ∀ part, toAsciiLowercase (f part) = toAsciiLowercase part) {sep : Str}
    {parts : List Str} : toAsciiLowercase (sep.intercalate (parts.map f)) =
      toAsciiLowercase (sep.intercalate parts) := by
  induction parts with
  | nil => rfl
  | cons part parts ih =>
    cases parts with
    | nil => simpa using hf part
    | cons next parts =>
      have hpart := hf part
      simp only [toAsciiLowercase, intercalate, map_cons, intersperse_cons_cons,
        flatten_cons, map_append] at ih hpart ⊢
      rw [hpart, ih]

theorem toAsciiUppercase_lowercase :
    toAsciiUppercase (toAsciiLowercase s) = toAsciiUppercase s := by
  simp only [toAsciiUppercase, toAsciiLowercase, map_map, Function.comp_def, toUpper_toLower]

theorem toAsciiLowercase_eq_self_iff {s} : toAsciiLowercase s = s ↔ ∀ c ∈ s, c.toLower = c := by
  induction s with
  | nil => simp [toAsciiLowercase]
  | cons c cs ih =>
    rw [forall_mem_cons, ← ih]
    exact cons_eq_cons

/-- No letter, so no other character becomes this one. -/
def isCaseless (c : Char) : Prop :=
  ¬(65 ≤ c.toNat ∧ c.toNat ≤ 90) ∧ ¬(97 ≤ c.toNat ∧ c.toNat ≤ 122)

instance (c : Char) : Decidable (isCaseless c) :=
  inferInstanceAs (Decidable (¬(65 ≤ c.toNat ∧ c.toNat ≤ 90) ∧ ¬(97 ≤ c.toNat ∧ c.toNat ≤ 122)))

theorem toAsciiLowercase_eq_iff {l s} (hl : ∀ c ∈ l, isCaseless c) :
    toAsciiLowercase s = l ↔ s = l := by
  induction s generalizing l with
  | nil => exact Iff.rfl
  | cons c cs ih =>
    cases l with
    | nil => simp [toAsciiLowercase]
    | cons d l =>
      rw [forall_mem_cons] at hl
      change c.toLower :: toAsciiLowercase cs = d :: l ↔ _
      rw [cons.injEq, cons.injEq, toLower_eq_iff hl.1.1 hl.1.2, ih hl.2]

theorem isPrefixOf_toAsciiLowercase {l : Str} (hl : ∀ c ∈ l, isCaseless c) {s} :
    l.isPrefixOf (toAsciiLowercase s) = l.isPrefixOf s := by
  induction l generalizing s with
  | nil => rfl
  | cons d l ih =>
    rw [forall_mem_cons] at hl
    cases s with
    | nil => rfl
    | cons c cs =>
      change (d == c.toLower && l.isPrefixOf (toAsciiLowercase cs)) = _
      rw [ih hl.2, isPrefixOf, Bool.eq_iff_iff]
      simp only [Bool.and_eq_true, beq_iff_eq]
      rw [eq_comm, toLower_eq_iff hl.1.1 hl.1.2, eq_comm]

/-- A text in upper case that equals another one up to case is its upper case. -/
theorem eq_uppercase_of_eqIgnoreAsciiCase {a b} (ha : toAsciiUppercase a = a)
    (h : eqIgnoreAsciiCase a b) : a = toAsciiUppercase b := by
  have hlower : toAsciiLowercase a = toAsciiLowercase b := by simpa [eqIgnoreAsciiCase] using h
  rw [← ha, ← toAsciiUppercase_lowercase a, hlower, toAsciiUppercase_lowercase]

end RsProxy.Text
