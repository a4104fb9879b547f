import RsProxy.Rules.Matching
import RsProxy.Text.Case

/-!
# Host patterns

A host pattern has one of four shapes: every host, the hosts at and below a name, the hosts one
label below a name, or a text that may contain wildcards. Only the last one needs a program.
-/

namespace RsProxy.Rules

open Text Option Bool

inductive HostShape where
  /-- `*` and `**`. -/
  | anything
  /-- `**.base`. -/
  | subtree (base : Str)
  /-- `*.base`. -/
  | child (base : Str)
  | text (pattern : Str)
  deriving DecidableEq, Repr

/-- The shape of a pattern in lower case and without brackets. -/
def hostShape (pattern : Str) : HostShape :=
  if pattern = "**" ∨ pattern = "*" then .anything
  else
    match stripPrefix "**." pattern with
    | some base => .subtree base
    | none =>
      match stripPrefix "*." pattern with
      | some base => .child base
      | none => .text pattern

/-- Does the shape admit a host, when `verdict` is what a program for its wildcards says? -/
def HostShape.admits (host : Str) (verdict : Bool) : HostShape → Bool
  | .anything => true
  | .subtree base => host == base || (dottedSuffixPrefix host base).isSome
  | .child base => (dottedSuffixPrefix host base).any fun labels =>
    !labels.isEmpty && !labels.contains '.'
  | .text pattern => if globSyntaxIsActive pattern then verdict else pattern == host

/-- The form in which hosts and host patterns are compared. -/
def normalizeHost (host : Str) : Str := toAsciiLowercase (trimBrackets host)

theorem hostMatchesId_eq [Crates] {globs : CompiledGlobSet} {pattern host id} :
    globs.hostMatchesId pattern host id =
      (hostShape (normalizeHost pattern)).admits (normalizeHost host)
        (id.any fun id => globs.globMatchId id (normalizeHost host)) := by
  unfold CompiledGlobSet.hostMatchesId hostShape normalizeHost
  generalize toAsciiLowercase (trimBrackets pattern) = p
  generalize toAsciiLowercase (trimBrackets host) = h
  by_cases hstar : p = "**" ∨ p = "*"
  · rw [if_pos hstar, if_pos hstar]
    rfl
  rw [if_neg hstar, if_neg hstar]
  cases stripPrefix "**." p with
  | some base => rfl
  | none =>
    cases stripPrefix "*." p with
    | some base =>
      dsimp only [HostShape.admits]
      cases dottedSuffixPrefix h base <;> rfl
    | none => cases id <;> rfl

/-! ### Normal form -/

theorem isBracket_toLower (c : Char) : isBracket c.toLower = isBracket c := by
  unfold isBracket
  rw [Bool.eq_iff_iff]
  simp only [or_eq_true, beq_iff_eq]
  rw [toLower_eq_iff (by decide) (by decide), toLower_eq_iff (by decide) (by decide)]

theorem trimBrackets_toAsciiLowercase (s : Str) :
    trimBrackets (toAsciiLowercase s) = toAsciiLowercase (trimBrackets s) :=
  trimMatches_map isBracket_toLower s

theorem normalizeHost_idem (host : Str) :
    normalizeHost (normalizeHost host) = normalizeHost host := by
  unfold normalizeHost
  rw [trimBrackets_toAsciiLowercase, toAsciiLowercase_idem]
  congr 1
  exact trimMatches_idem

variable {host : Str}

theorem trimBrackets_of_normal (h : normalizeHost host = host) : trimBrackets host = host := by
  calc trimBrackets host
      = trimBrackets (toAsciiLowercase (trimBrackets host)) := by rw [← normalizeHost, h]
    _ = toAsciiLowercase (trimBrackets (trimBrackets host)) := trimBrackets_toAsciiLowercase _
    _ = toAsciiLowercase (trimBrackets host) := congrArg _ trimMatches_idem
    _ = host := h

variable {pattern : Str}

/-- Only a pattern with wildcards and of none of the other shapes has a program. -/
theorem hostPatternUsesRegex_iff :
    hostPatternUsesRegex pattern ↔
      hostShape (trimBrackets pattern) = .text (trimBrackets pattern) ∧
        globSyntaxIsActive (trimBrackets pattern) := by
  unfold hostPatternUsesRegex hostShape
  dsimp only
  generalize trimBrackets pattern = p
  by_cases hdeep : p = "**"
  · rw [hdeep]
    decide
  by_cases hstar : p = "*"
  · rw [hstar]
    decide
  have hpre : ∀ q, (q.isPrefixOf p) = (stripPrefix q p).isSome := by
    intro q
    unfold stripPrefix
    split
    next h => simp [h]
    next h => exact eq_false_iff.mpr h
  have hdeep' : ¬p = ['*', '*'] := hdeep
  have hstar' : ¬p = ['*'] := hstar
  rw [hpre, hpre]
  cases stripPrefix "**." p <;> cases stripPrefix "*." p <;> simp [hdeep', hstar']

theorem globSyntaxIsActive_toAsciiLowercase {p} :
    globSyntaxIsActive (toAsciiLowercase p) = globSyntaxIsActive p := by
  unfold globSyntaxIsActive toAsciiLowercase
  rw [List.any_map]
  congr 1
  funext c
  rw [Function.comp_apply, Bool.eq_iff_iff]
  simp only [or_eq_true, beq_iff_eq]
  rw [toLower_eq_iff (by decide) (by decide), toLower_eq_iff (by decide) (by decide)]

/-- Whether a pattern has a program does not depend on its case. -/
theorem hostPatternUsesRegex_toAsciiLowercase :
    hostPatternUsesRegex (toAsciiLowercase pattern) = hostPatternUsesRegex pattern := by
  have hne : ∀ l, (∀ c ∈ l, isCaseless c) →
      (toAsciiLowercase (trimBrackets pattern) != l) = (trimBrackets pattern != l) := by
    intro l hl
    rw [Bool.eq_iff_iff, bne_iff_ne, bne_iff_ne, ne_eq, toAsciiLowercase_eq_iff hl]
  unfold hostPatternUsesRegex
  dsimp only
  rw [trimBrackets_toAsciiLowercase, globSyntaxIsActive_toAsciiLowercase, hne _ (by decide),
    hne _ (by decide), isPrefixOf_toAsciiLowercase (by decide),
    isPrefixOf_toAsciiLowercase (by decide)]

/-- The same in terms of the normal form. -/
theorem hostPatternUsesRegex_iff_normal :
    hostPatternUsesRegex pattern ↔
      hostShape (normalizeHost pattern) = .text (normalizeHost pattern) ∧
        globSyntaxIsActive (normalizeHost pattern) := by
  rw [← hostPatternUsesRegex_toAsciiLowercase, hostPatternUsesRegex_iff,
    trimBrackets_toAsciiLowercase]
  rfl

theorem normalizeHost_eq_self_iff :
    normalizeHost host = host ↔ toAsciiLowercase host = host ∧ trimBrackets host = host := by
  constructor
  · intro h
    refine ⟨?_, trimBrackets_of_normal h⟩
    conv_lhs => rw [← h]
    rwa [normalizeHost, toAsciiLowercase_idem]
  · rintro ⟨hlower, htrim⟩
    rw [normalizeHost, htrim, hlower]

/-! ### Shapes and texts -/

variable {base : Str}

theorem eq_of_dottedSuffixPrefix {labels} (h : dottedSuffixPrefix host base = some labels) :
    host = labels ++ '.' :: base := by
  obtain ⟨rest, hrest, hlabels⟩ := bind_eq_some_iff.mp h
  rw [stripSuffix_eq_some.mp hrest, stripSuffix_eq_some.mp hlabels]
  simp

theorem dottedSuffixPrefix_append (labels base : Str) :
    dottedSuffixPrefix (labels ++ '.' :: base) base = some labels := by
  have hbase : stripSuffix base (labels ++ '.' :: base) = some (labels ++ ['.']) :=
    stripSuffix_eq_some.mpr (by simp)
  rw [dottedSuffixPrefix, hbase]
  exact stripSuffix_eq_some.mpr rfl

/-- The host is the base or a name below it. -/
def IsWithin (base host : Str) : Prop := host = base ∨ ∃ labels, host = labels ++ '.' :: base

theorem isWithin_iff :
    IsWithin base host ↔ (host == base || (dottedSuffixPrefix host base).isSome) := by
  rw [or_eq_true, beq_iff_eq, isSome_iff_exists]
  refine or_congr_right ⟨?_, ?_⟩
  · rintro ⟨labels, rfl⟩
    exact ⟨labels, dottedSuffixPrefix_append labels base⟩
  · rintro ⟨labels, hlabels⟩
    exact ⟨labels, eq_of_dottedSuffixPrefix hlabels⟩

theorem IsWithin.trans {mid} (h : IsWithin base mid) (h' : IsWithin mid host) :
    IsWithin base host := by
  rcases h with rfl | ⟨labels, rfl⟩
  · exact h'
  · rcases h' with rfl | ⟨labels', rfl⟩
    · exact .inr ⟨labels, rfl⟩
    · exact .inr ⟨labels' ++ '.' :: labels, by simp⟩

/-- One label below a name is below it. -/
theorem isWithin_of_child {verdict} (h : (HostShape.child base).admits host verdict) :
    IsWithin base host := by
  rw [HostShape.admits, any_eq_true] at h
  obtain ⟨labels, hlabels, -⟩ := h
  exact .inr ⟨labels, eq_of_dottedSuffixPrefix hlabels⟩

theorem hostShape_subtree : hostShape ("**." ++ base) = .subtree base := by
  unfold hostShape
  rw [if_neg, stripPrefix_append]
  rintro (h | h) <;> cases h

/-- A pattern without wildcards is its own text. -/
theorem hostShape_of_not_active (h : globSyntaxIsActive pattern = false) :
    hostShape pattern = .text pattern := by
  have hstar : ∀ rest, pattern ≠ '*' :: rest := by
    rintro rest rfl
    cases h
  unfold hostShape
  rw [if_neg, stripPrefix_eq_none.mpr, stripPrefix_eq_none.mpr]
  · rintro ⟨t, ht⟩
    exact hstar _ ht.symm
  · rintro ⟨t, ht⟩
    exact hstar _ ht.symm
  · rintro (h | h) <;> exact hstar _ h

end RsProxy.Rules
