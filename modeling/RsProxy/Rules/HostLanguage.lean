import RsProxy.Rules.TextAgrees

/-!
# The language of a host pattern

A star stands for a run of characters inside one label, two stars for any run, and a backslash for
the character after it. In front of a base, `**.` asks for any labels or none and `*.` for one
label. The base is a pattern of the same kind.

`InHostLanguage` says so without programs, shapes or searching. What a snapshot does with a host
pattern agrees with it, up to two kinds of patterns: a lone star, which the snapshot takes for every
host, and a base with wildcards or escapes, which the snapshot compares as it is spelled. A host
condition has to be free of brackets around a glob as well.
-/

namespace RsProxy.Rules

open Text Regex

/-- The text is the pattern with its wildcards filled in, label by label. -/
def InGlob (pattern text : Str) : Prop :=
  ∃ ts pieces, Glob.tokens pattern = some ts ∧ Glob.Splits '.' ts text pieces

/-- The hosts of a pattern, both in lower case and without brackets. -/
def InHostLanguage (pattern host : Str) : Prop :=
  match stripPrefix "**." pattern with
  | some base =>
    InGlob base host ∨ ∃ labels rest, host = labels ++ '.' :: rest ∧ InGlob base rest
  | none =>
    match stripPrefix "*." pattern with
    | some base =>
      ∃ label rest, host = label ++ '.' :: rest ∧ label ≠ [] ∧ '.' ∉ label ∧ InGlob base rest
    | none => InGlob pattern host

/-! ### The language and the text of a pattern -/

variable {pattern : Str}

theorem globMatch_isSome_iff {text} :
    (globMatch pattern '.' text).isSome ↔ InGlob pattern text := by
  constructor
  · exact exists_splits_of_globMatch
  · rintro ⟨ts, pieces, hts, hsplits⟩
    rw [globMatch, hts, Option.bind_some, Glob.find_isSome_iff]
    exact ⟨pieces, hsplits⟩

/-- Two stars stand for every text. -/
theorem inGlob_dstar {text} : InGlob "**" text := by
  have htokens : Glob.tokens "**" = some [.dstar] := rfl
  exact globMatch_isSome_iff.mp ((Glob.find_all_iff_of_tokens htokens).mpr (by decide) text)

/-- One star stands for a single label. -/
theorem not_inGlob_star {text} (h : '.' ∈ text) : ¬ InGlob "*" text := by
  rintro ⟨ts, pieces, hts, hsplits⟩
  cases hts
  exact Glob.not_mem_of_splits hsplits (by decide) (by decide) h

theorem inHostLanguage_iff (hstar : pattern ≠ "*") (host : Str) :
    InHostLanguage pattern host ↔ (hostShape pattern).admitsText host := by
  unfold InHostLanguage hostShape
  by_cases hdstar : pattern = "**"
  · subst hdstar
    exact iff_of_true inGlob_dstar rfl
  · rw [if_neg (not_or.mpr ⟨hdstar, hstar⟩)]
    cases stripPrefix "**." pattern with
    | some base => simp [subtree_admitsText_iff, globMatch_isSome_iff]
    | none =>
      cases stripPrefix "*." pattern with
      | some base => simp [child_admitsText_iff, globMatch_isSome_iff]
      | none => exact globMatch_isSome_iff.symm

/-! ### The language and the programs -/

/-- A test for hosts that is right about patterns other than a star, where there is no gap, is right
about the language exactly there. -/
theorem agrees_inHostLanguage_iff {matches? : Str → Bool} {gap}
    (hstar : normalizeHost pattern = "*" → ∀ host, matches? host)
    (htext : (∀ host, matches? host = hostMatchesText pattern host) ↔ gap = false) :
    (∀ host, matches? host ↔
        InHostLanguage (normalizeHost pattern) (normalizeHost host)) ↔
      gap = false ∧ normalizeHost pattern ≠ "*" := by
  by_cases hpattern : normalizeHost pattern = "*"
  · refine iff_of_false ?_ fun h => h.2 hpattern
    intro h
    have hhost := (h "a.b").mp (hstar hpattern _)
    rw [hpattern] at hhost
    exact not_inGlob_star (by decide) hhost
  · rw [← htext, and_iff_left hpattern]
    refine forall_congr' fun host => ?_
    have hlanguage := inHostLanguage_iff hpattern (normalizeHost host)
    rw [hlanguage, ← hostMatchesText, ← Bool.eq_iff_iff]

theorem hostMatchesId_star [Crates] {globs : CompiledGlobSet} (h : normalizeHost pattern = "*")
    {host id} :
    globs.hostMatchesId pattern host id := by
  rw [hostMatchesId_eq, h]
  rfl

namespace RuleSet

variable [Crates]

/-- The verdict on a host for the pattern of a matcher. -/
def matcherHostMatches (rs : RuleSet) (pattern host : Str) : Bool :=
  rs.index.compiledGlobs.hostMatchesId pattern host
    (if hostPatternUsesRegex pattern then rs.index.compiledGlobs.id pattern '.' else none)

/-- The verdict on a host for the pattern of a condition. -/
def conditionHostMatches (rs : RuleSet) (pattern host : Str) : Bool :=
  rs.index.compiledGlobs.hostMatchesId pattern host
    (if hostPatternUsesRegex pattern then
      rs.index.compiledGlobs.id (toAsciiLowercase pattern) '.' else none)

/-- The host pattern of a matcher matches the hosts of its language exactly when it is not a lone
star and has no wildcards or escapes below `**.` or `*.`. For the pattern of a host condition there
must be no brackets around a glob either. -/
theorem hostMatches_language_iff (hruns : RunsFragment) {requireHeader : Bool}
    {groups : List (Str × Str)} {rs : RuleSet}
    (hparse : parseGroupsWithProfile groups requireHeader = some (.ok rs)) {rule : Rule}
    (hrule : rule ∈ rs.rules) :
    (∀ g ∈ rule.matcher.glob?,
      (∀ host, rs.matcherHostMatches g.host host = true ↔
          InHostLanguage (normalizeHost g.host) (normalizeHost host)) ↔
        hostBaseGap g.host = false ∧ normalizeHost g.host ≠ "*") ∧
    ∀ pattern, Condition.host pattern ∈ rule.conditions.flatMap Condition.nodes →
      ((∀ host, rs.conditionHostMatches pattern host = true ↔
          InHostLanguage (normalizeHost pattern) (normalizeHost host)) ↔
        (hostBaseGap pattern || hostBracketGap pattern) = false ∧ normalizeHost pattern ≠ "*") := by
  refine ⟨fun g hg => ?_, fun pattern hpattern => ?_⟩
  · have hchecked := ((accepted_of_parse hparse).checked hrule).matcher
    refine agrees_inHostLanguage_iff (fun hstar host => hostMatchesId_star hstar) ?_
    refine matcher_host_agrees_iff hruns rs.numbers (Matcher.checked_of_glob? hg hchecked).host ?_
    intro hregex
    refine rs.exists_id hrule (p := (g.host, '.')) ?_
    rw [Rule.patterns, List.mem_append, Matcher.patterns_of_glob? hg]
    left
    rw [Matcher.patterns, if_pos hregex]
    simp
  · refine agrees_inHostLanguage_iff (fun hstar host => hostMatchesId_star hstar) ?_
    refine condition_host_agrees_iff hruns rs.numbers fun hregex => ?_
    refine rs.exists_id hrule (p := (toAsciiLowercase pattern, '.')) ?_
    rw [Rule.patterns, List.mem_append]
    right
    exact List.mem_flatMap_of_mem hpattern (by simp [Condition.patterns, hregex])

omit [Crates] in
theorem hostMatches_language_of_subdomain :
    let groups := [("g".toList, "*.a.test status(503)".toList)]
    ∃ rs, @parseGroupsWithProfile reference groups false = some (.ok rs) ∧
      ∀ host, @matcherHostMatches reference rs "*.a.test" host = true ↔
        InHostLanguage "*.a.test" (normalizeHost host) := by
  intro groups
  obtain ⟨rs, hparse, rule, hrule, g, hg, hhost⟩ := @exists_of_parsesTo reference groups false
    (fun rs => ∃ rule ∈ @rules reference rs, ∃ g ∈ rule.matcher.glob?,
      g.host = "*.a.test") _ (by decide +kernel)
  have hiff := (@hostMatches_language_iff reference reference_runsFragment _ _ rs hparse rule
    hrule).1 g hg
  rw [hhost] at hiff
  exact ⟨rs, hparse, hiff.mpr (by decide)⟩

omit [Crates] in
/-- `*.*.test` does not match `a.b.test`, and a lone star matches `a.b`. -/
theorem hostMatches_outside_language :
    let groups := [("g".toList, "*.*.test status(503)\n* status(503)".toList)]
    ∃ rs, @parseGroupsWithProfile reference groups false = some (.ok rs) ∧
      ((@rules reference rs).map fun rule => rule.matcher.glob?.map (·.host)) =
        [some "*.*.test".toList, some "*"] ∧
      @matcherHostMatches reference rs "*.*.test" "a.b.test" = false ∧
      InHostLanguage "*.*.test" "a.b.test" ∧
      @matcherHostMatches reference rs "*" "a.b" = true ∧
      ¬ InHostLanguage "*" "a.b" := by
  intro groups
  obtain ⟨rs, hparse, hhosts, hbelow, hstar⟩ := @exists_of_parsesTo reference groups false
    (fun rs => ((@rules reference rs).map fun rule =>
        rule.matcher.glob?.map (·.host)) = [some "*.*.test".toList, some "*"] ∧
      @matcherHostMatches reference rs "*.*.test" "a.b.test" = false ∧
      @matcherHostMatches reference rs "*" "a.b" = true) _ (by decide +kernel)
  refine ⟨rs, hparse, hhosts, hbelow, ?_, hstar, ?_⟩
  · rw [inHostLanguage_iff (by decide)]
    decide +kernel
  · exact not_inGlob_star (by decide)

end RuleSet

end RsProxy.Rules
