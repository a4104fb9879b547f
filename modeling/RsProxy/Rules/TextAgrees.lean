import RsProxy.Regex.GlobText
import RsProxy.Rules.BodyLiterals
import RsProxy.Rules.Parser.Parsed
import RsProxy.Rules.Phases
import RsProxy.Rules.Resolution
import RsProxy.Rules.TextMatch

/-!
# The compiled form of a rule and its text

The programs of a snapshot and the numbers bound to the rules give the verdicts and the captures
that the text of the patterns has, component by component. There are two exceptions, both about
hosts. A wildcard or an escape below `**.` or `*.` is compared as it is spelled, and a glob in
brackets in a host condition is registered with its brackets, which no host has.
-/

namespace RsProxy.Rules

open Text Data Regex List Bool CompiledGlobSet Glob Condition HostShape

/-! ### Globs -/

variable {pattern : Str}

theorem globMatch_literal (h : globSyntaxIsActive pattern = false) {sep text} :
    globMatch pattern sep text = if pattern = text then some [] else none := by
  rw [globMatch, tokens_of_literal h, Option.bind_some, find_literals]

theorem globMatch_literal_isSome (h : globSyntaxIsActive pattern = false) {sep text} :
    (globMatch pattern sep text).isSome ↔ pattern = text := by
  rw [globMatch_literal h]
  by_cases heq : pattern = text <;> simp

variable {sep : Char} {text : Str}

theorem exists_splits_of_globMatch (h : (globMatch pattern sep text).isSome) :
    ∃ ts ws, tokens pattern = some ts ∧ Glob.Splits sep ts text ws := by
  obtain ⟨ws, hws⟩ := Option.isSome_iff_exists.mp h
  obtain ⟨ts, hts, hfind⟩ := Option.bind_eq_some_iff.mp hws
  exact ⟨ts, ws, hts, splits_of_find hfind⟩

variable {ts : List Glob.Token}

/-- A glob matches its text with a letter for every wildcard. -/
theorem globMatch_fill (h : tokens pattern = some ts) :
    (globMatch pattern '.' (fill 'y' ts)).isSome := by
  rw [globMatch, h]
  exact find_isSome_iff.mpr (exists_splits_fill (by decide))

/-! ### Shapes of hosts -/

variable {host : Str}

theorem subtree_admitsText_iff {base} :
    (subtree base).admitsText host ↔ (globMatch base '.' host).isSome ∨
      ∃ labels rest, host = labels ++ '.' :: rest ∧ (globMatch base '.' rest).isSome := by
  rw [admitsText, or_eq_true, any_eq_true]
  refine or_congr_right ⟨?_, ?_⟩
  · rintro ⟨t, ht, hmatch⟩
    rw [and_eq_true, beq_iff_eq] at hmatch
    obtain ⟨labels, rfl⟩ := (mem_tails _ _).mp ht
    obtain ⟨rest, rfl⟩ := head?_eq_some_iff.mp hmatch.1
    exact ⟨labels, rest, rfl, hmatch.2⟩
  · rintro ⟨labels, rest, rfl, hrest⟩
    refine ⟨'.' :: rest, (mem_tails _ _).mpr ⟨labels, rfl⟩, ?_⟩
    rw [and_eq_true]
    exact ⟨rfl, hrest⟩

theorem child_admitsText_iff {base} :
    (child base).admitsText host ↔ ∃ label rest, host = label ++ '.' :: rest ∧
      label ≠ [] ∧ '.' ∉ label ∧ (globMatch base '.' rest).isSome := by
  rw [admitsText]
  constructor
  · intro hmatch
    split at hmatch
    next label rest hsplit =>
      obtain ⟨rfl, hdot⟩ := splitOnce_singleton.mp hsplit
      rw [and_eq_true] at hmatch
      exact ⟨label, rest, rfl, by simpa using hmatch.1, hdot, hmatch.2⟩
    · cases hmatch
  · rintro ⟨label, rest, rfl, hlabel, hdot, hrest⟩
    rw [splitOnce_singleton.mpr ⟨rfl, hdot⟩]
    rw [and_eq_true]
    exact ⟨by simpa using hlabel, hrest⟩

/-- Without wildcards in a base the shapes mean the same. -/
theorem HostShape.admits_eq_admitsText {shape : HostShape} (hbase : shape.hasGlobBase = false)
    {verdict}
    (hverdict : ∀ pattern, shape = .text pattern → globSyntaxIsActive pattern →
      verdict = (globMatch pattern '.' host).isSome) :
    shape.admits host verdict = shape.admitsText host := by
  rw [Bool.eq_iff_iff]
  cases shape with
  | anything => rfl
  | subtree base =>
    rw [subtree_admitsText_iff, globMatch_literal_isSome hbase, @eq_comm _ base]
    simp only [globMatch_literal_isSome hbase, exists_eq_right']
    exact isWithin_iff.symm
  | child base =>
    rw [child_admitsText_iff, admits, Option.any_eq_true]
    simp only [globMatch_literal_isSome hbase]
    constructor
    · rintro ⟨labels, hlabels, hmatch⟩
      rw [and_eq_true] at hmatch
      exact ⟨labels, base, eq_of_dottedSuffixPrefix hlabels, by simpa using hmatch.1,
        by simpa using hmatch.2, rfl⟩
    · rintro ⟨label, rest, rfl, hlabel, hdot, rfl⟩
      exact ⟨label, dottedSuffixPrefix_append label base, by simpa using ⟨hlabel, hdot⟩⟩
  | text pattern =>
    rw [admits, admitsText]
    cases hactive : globSyntaxIsActive pattern with
    | true => rw [if_pos rfl, hverdict pattern rfl hactive]
    | false =>
      rw [globMatch_literal_isSome hactive]
      exact beq_iff_eq

/-! ### Wildcards in a base -/

theorem eq_of_hostShape_subtree {base} (h : hostShape pattern = .subtree base) :
    pattern = "**." ++ base := by
  unfold hostShape at h
  split_ifs at h
  split at h
  next hbase =>
    cases h
    exact stripPrefix_eq_some.mp hbase
  · split at h <;> cases h

theorem eq_of_hostShape_child {base} (h : hostShape pattern = .child base) :
    pattern = "*." ++ base := by
  unfold hostShape at h
  split_ifs at h
  split at h
  · cases h
  split at h
  next hbase =>
    cases h
    exact stripPrefix_eq_some.mp hbase
  · cases h

/-- What is left of a host in normal form keeps its end and its case. -/
theorem normal_append {a b} (h : normalizeHost (a ++ b) = a ++ b) :
    toAsciiLowercase b = b ∧ ∀ c ∈ b.getLast?, isBracket c = false := by
  obtain ⟨hlower, htrim⟩ := normalizeHost_eq_self_iff.mp h
  constructor
  · unfold toAsciiLowercase at hlower
    rw [map_append] at hlower
    exact (append_inj hlower (length_map _)).2
  · intro c hc
    refine (trimMatches_eq_self_iff.mp htrim).2 c ?_
    rw [getLast?_append, hc]
    rfl

theorem normal_label {rest} (hlower : toAsciiLowercase rest = rest)
    (hlast : ∀ c ∈ rest.getLast?, isBracket c = false) :
    normalizeHost ('x' :: '.' :: rest) = 'x' :: '.' :: rest := by
  refine normalizeHost_eq_self_iff.mpr ⟨?_, trimMatches_eq_self_iff.mpr ⟨?_, ?_⟩⟩
  · change 'x' :: '.' :: toAsciiLowercase rest = _
    rw [hlower]
  · intro c hc
    cases hc
    decide
  · intro c hc
    rw [getLast?_cons, getLast?_cons] at hc
    cases hrest : rest.getLast? with
    | none =>
      rw [hrest] at hc
      cases hc
      decide
    | some d =>
      rw [hrest] at hc
      cases hc
      exact hlast d hrest

/-- The text of a glob is in normal form at its end if the glob is. -/
theorem normal_fill {base} (hts : tokens base = some ts)
    (hlower : toAsciiLowercase base = base) (hlast : ∀ c ∈ base.getLast?, isBracket c = false) :
    toAsciiLowercase (fill 'y' ts) = fill 'y' ts ∧
      ∀ c ∈ (fill 'y' ts).getLast?, isBracket c = false := by
  constructor
  · refine toAsciiLowercase_eq_self_iff.mpr fun c hc => ?_
    rcases mem_fill hts c hc with rfl | hmem
    · rfl
    · exact toAsciiLowercase_eq_self_iff.mp hlower c hmem
  · intro c hc
    rcases getLast?_fill hts with hy | hbase
    · rw [hy] at hc
      cases hc
      decide
    · rw [hbase] at hc
      exact hlast c hc

/-- The text of a glob base does not end with the base as it is spelled. -/
theorem fill_ne_append {base labels : Str} (hts : tokens base = some ts)
    (hactive : globSyntaxIsActive base) :
    'x' :: '.' :: fill 'y' ts ≠ labels ++ base := by
  intro heq
  have hlt := (countP_fill (w := 'y') (by decide) hts).2 hactive
  have hle : base.countP isActive ≤ (fill 'y' ts).countP isActive := by
    calc base.countP isActive
        ≤ (labels ++ base).countP isActive := by
          rw [countP_append]
          exact Nat.le_add_left _ _
      _ = ('x' :: '.' :: fill 'y' ts).countP isActive := by rw [heq]
      _ = (fill 'y' ts).countP isActive := rfl
  omega

/-- The shapes with a base. -/
def HostShape.IsBelow (base : Str) (shape : HostShape) : Prop :=
  shape = .subtree base ∨ shape = .child base

namespace HostShape.IsBelow

variable {base : Str} {shape : HostShape}

section

variable (h : shape.IsBelow base)

include h

theorem admitsText_label {rest} (hrest : (globMatch base '.' rest).isSome) :
    shape.admitsText ('x' :: '.' :: rest) := by
  rcases h with rfl | rfl
  · exact subtree_admitsText_iff.mpr (.inr ⟨['x'], rest, rfl, hrest⟩)
  · exact child_admitsText_iff.mpr ⟨['x'], rest, rfl, by decide, by decide, hrest⟩

theorem not_admitsText_of_tokens (hnone : tokens base = none) :
    shape.admitsText host = false := by
  have hmatch : ∀ text, globMatch base '.' text = none := by
    intro text
    rw [globMatch, hnone]
    rfl
  rcases h with rfl | rfl
  · simp [admitsText, hmatch]
  · rw [admitsText]
    split
    · simp [hmatch]
    · rfl

theorem admits_label {verdict} :
    shape.admits ('x' :: '.' :: base) verdict := by
  have hdotted : dottedSuffixPrefix ('x' :: '.' :: base) base = some ['x'] :=
    dottedSuffixPrefix_append ['x'] base
  rcases h with rfl | rfl
  · rw [admits, hdotted, Option.isSome_some, Bool.or_true]
  · rw [admits, hdotted]
    decide

theorem not_admits (hhost : ∀ labels, host ≠ labels ++ base) {verdict} :
    shape.admits host verdict = false := by
  have hdotted : dottedSuffixPrefix host base = none := by
    refine Option.eq_none_iff_forall_ne_some.mpr fun labels hlabels => ?_
    refine hhost (labels ++ ['.']) ?_
    rw [eq_of_dottedSuffixPrefix hlabels, append_assoc]
    rfl
  rcases h with rfl | rfl
  · rw [admits, hdotted, Option.isSome_none, Bool.or_false, beq_eq_false_iff_ne]
    exact hhost []
  · rw [admits, hdotted]
    rfl

end

end HostShape.IsBelow

/-- A host one label below the text of the base is admitted by the text of the pattern only. If
the base is no glob at all, a host that spells it is admitted by the compiled form only. -/
theorem HostShape.exists_ne_of_hasGlobBase (hnormal : normalizeHost pattern = pattern)
    (hgap : (hostShape pattern).hasGlobBase) :
    ∃ host, normalizeHost host = host ∧ ∀ verdict,
      (hostShape pattern).admits host verdict ≠ (hostShape pattern).admitsText host := by
  obtain ⟨pre, base, hpattern, hbelow, hactive⟩ : ∃ pre base, pattern = pre ++ base ∧
      (hostShape pattern).IsBelow base ∧ globSyntaxIsActive base := by
    cases hshape : hostShape pattern with
    | subtree base =>
      rw [hshape] at hgap
      exact ⟨_, base, eq_of_hostShape_subtree hshape, .inl rfl, hgap⟩
    | child base =>
      rw [hshape] at hgap
      exact ⟨_, base, eq_of_hostShape_child hshape, .inr rfl, hgap⟩
    | anything | text =>
      rw [hshape] at hgap
      cases hgap
  rw [hpattern] at hnormal
  obtain ⟨hlower, hlast⟩ := normal_append hnormal
  cases hts : tokens base with
  | none =>
    refine ⟨'x' :: '.' :: base, normal_label hlower hlast, fun verdict => ?_⟩
    rw [hbelow.admits_label, hbelow.not_admitsText_of_tokens hts]
    decide
  | some ts =>
    obtain ⟨hlower, hlast⟩ := normal_fill hts hlower hlast
    refine ⟨'x' :: '.' :: fill 'y' ts, normal_label hlower hlast, fun verdict => ?_⟩
    rw [hbelow.admitsText_label (globMatch_fill hts),
      hbelow.not_admits fun labels => fill_ne_append hts hactive]
    decide

/-! ### Globs in brackets -/

theorem isBracket_ne {c} (h : isBracket c) : c ≠ '\\' ∧ c ≠ '*' := by
  constructor
  all_goals
    rintro rfl
    cases h

/-- A glob with an outer bracket asks for that bracket, and no trimmed text has it. -/
theorem not_globMatch_of_outer_bracket
    (hpattern : startsWithEscapedBracket pattern ∨ trimBrackets pattern ≠ pattern)
    (htext : trimBrackets text = text) : (globMatch pattern sep text).isSome = false := by
  refine eq_false_iff.mpr fun hmatch => ?_
  obtain ⟨ts, ws, hts, hsplits⟩ := exists_splits_of_globMatch hmatch
  obtain ⟨hhead, hlast⟩ := trimMatches_eq_self_iff.mp htext
  rcases hpattern with hpattern | hpattern
  · unfold startsWithEscapedBracket at hpattern
    split at hpattern
    next c cs =>
      obtain ⟨ts, -, rfl⟩ := Option.map_eq_some_iff.mp hts
      exact eq_false_iff.mp (hhead c hsplits.head?_lit) hpattern
    · cases hpattern
  apply hpattern
  refine trimMatches_eq_self_iff.mpr ⟨fun c hc => ?_, fun c hc => ?_⟩
  · by_contra hbracket
    rw [not_eq_false] at hbracket
    obtain ⟨cs, rfl⟩ := head?_eq_some_iff.mp hc
    obtain ⟨hescape, hstar⟩ := isBracket_ne hbracket
    rw [tokens_lit hescape hstar] at hts
    obtain ⟨ts, -, rfl⟩ := Option.map_eq_some_iff.mp hts
    exact eq_false_iff.mp (hhead c hsplits.head?_lit) hbracket
  · by_contra hbracket
    rw [not_eq_false] at hbracket
    have hlit := getLast?_tokens hts hc (isBracket_ne hbracket).2
    exact eq_false_iff.mp (hlast c (hsplits.getLast?_lit hlit)) hbracket

theorem trimBrackets_toAsciiLowercase_ne (h : trimBrackets pattern ≠ pattern) :
    trimBrackets (toAsciiLowercase pattern) ≠ toAsciiLowercase pattern := by
  intro heq
  apply h
  refine trimMatches_sublist.eq_of_length ?_
  rw [trimBrackets_toAsciiLowercase] at heq
  have hlen := congrArg length heq
  rwa [toAsciiLowercase, toAsciiLowercase, length_map, length_map] at hlen

/-- In the gap there is a host that the text of the pattern admits. -/
theorem exists_host_of_hostBracketGap (h : hostBracketGap pattern) :
    ∃ host, normalizeHost host = host ∧ hostMatchesText pattern host := by
  unfold hostBracketGap at h
  simp only [and_eq_true] at h
  obtain ⟨⟨⟨hregex, -⟩, htokens⟩, hescaped⟩ := h
  obtain ⟨ts, hts⟩ := Option.isSome_iff_exists.mp htokens
  obtain ⟨hlower, htrim⟩ := normalizeHost_eq_self_iff.mp (normalizeHost_idem pattern)
  obtain ⟨hhead, hlast⟩ := trimMatches_eq_self_iff.mp htrim
  obtain ⟨hlower, hlast⟩ := normal_fill hts hlower hlast
  have hhead' : ∀ c ∈ (fill 'y' ts).head?, isBracket c = false := by
    intro c hc
    rcases head?_fill hts with hy | hsame | ⟨d, ds, hpattern, hd⟩
    · rw [hy] at hc
      cases hc
      decide
    · rw [hsame] at hc
      exact hhead c hc
    · rw [hd] at hc
      cases hc
      rw [hpattern] at hescaped
      exact not_eq_eq_eq_not.mp hescaped
  have hnormal : normalizeHost (fill 'y' ts) = fill 'y' ts :=
    normalizeHost_eq_self_iff.mpr ⟨hlower, trimMatches_eq_self_iff.mpr ⟨hhead', hlast⟩⟩
  refine ⟨fill 'y' ts, hnormal, ?_⟩
  rw [hostMatchesText, hnormal, (hostPatternUsesRegex_iff_normal.mp hregex).1]
  exact globMatch_fill hts

/-- Outside of the gap no host is admitted by a glob in brackets. -/
theorem not_hostMatchesText_of_brackets (hregex : hostPatternUsesRegex pattern)
    (hbrackets : trimBrackets pattern ≠ pattern) (hgap : hostBracketGap pattern = false)
    (host : Str) : hostMatchesText pattern host = false := by
  have htrim := trimBrackets_of_normal (normalizeHost_idem host)
  rw [hostMatchesText, (hostPatternUsesRegex_iff_normal.mp hregex).1, admitsText]
  unfold hostBracketGap at hgap
  rw [hregex, bne_iff_ne.mpr hbrackets, and_eq_false_iff] at hgap
  rcases hgap with hnone | hescaped
  · rw [globMatch, Option.isSome_eq_false_iff.mp hnone |> Option.isNone_iff_eq_none.mp]
    rfl
  · exact not_globMatch_of_outer_bracket (.inl (by simpa using hescaped)) htrim

/-! ### Hosts -/

variable {c : Condition} {g : GlobMatcher} {r : CompiledConditionResources}
  {context : ConditionMatchContext} {matcher : Matcher}

section Components

variable [Crates] {globs : CompiledGlobSet}

theorem hostMatchesId_eq_text (hgap : hostBaseGap pattern = false) {id}
    (hverdict : hostPatternUsesRegex pattern →
      (id.any fun id => globs.globMatchId id (normalizeHost host)) =
        (globMatch (normalizeHost pattern) '.' (normalizeHost host)).isSome) :
    globs.hostMatchesId pattern host id = hostMatchesText pattern host := by
  rw [hostMatchesId_eq]
  refine admits_eq_admitsText hgap fun p hp hactive => ?_
  have hsame : p = normalizeHost pattern := by
    unfold hostShape at hp
    grind
  rw [hsame] at hp hactive ⊢
  exact hverdict (hostPatternUsesRegex_iff_normal.mpr ⟨hp, hactive⟩)

theorem exists_host_of_hostBaseGap (hgap : hostBaseGap pattern) {id} :
    ∃ host, globs.hostMatchesId pattern host id ≠ hostMatchesText pattern host := by
  obtain ⟨host, hnormal, hne⟩ :=
    exists_ne_of_hasGlobBase (normalizeHost_idem pattern) hgap
  refine ⟨host, ?_⟩
  rw [hostMatchesId_eq, hostMatchesText, hnormal]
  exact hne _

variable (hruns : RunsFragment) (hnumbers : globs.Numbers) {bodyLiterals : CompiledBodyContainsSet}

include hruns hnumbers

/-- The host of a matcher is in normal form, so its program is that of its text. -/
theorem matcher_host_agrees_iff (hnormal : normalizeHost pattern = pattern)
    (hid : hostPatternUsesRegex pattern → ∃ id, globs.id pattern '.' = some id) :
    (∀ host, globs.hostMatchesId pattern host
        (if hostPatternUsesRegex pattern then globs.id pattern '.' else none) =
      hostMatchesText pattern host) ↔ hostBaseGap pattern = false := by
  constructor
  · intro h
    by_contra hgap
    obtain ⟨host, hne⟩ := exists_host_of_hostBaseGap (not_eq_false _ |>.mp hgap)
    exact hne (h host)
  · intro hgap host
    refine hostMatchesId_eq_text hgap fun hregex => ?_
    obtain ⟨id, hid⟩ := hid hregex
    rw [if_pos hregex, hid, hnormal]
    exact globMatchId_eq hruns hnumbers hid

/-- The host of a condition is registered in lower case, but with its brackets. -/
theorem condition_host_agrees_iff
    (hid : hostPatternUsesRegex pattern → ∃ id, globs.id (toAsciiLowercase pattern) '.' = some id) :
    (∀ host, globs.hostMatchesId pattern host
        (if hostPatternUsesRegex pattern then globs.id (toAsciiLowercase pattern) '.' else none) =
      hostMatchesText pattern host) ↔ (Condition.host pattern).hostGap = false := by
  rw [Condition.hostGap, or_eq_false_iff]
  -- With outer brackets the program matches no host at all.
  have hprogram : trimBrackets pattern ≠ pattern → hostPatternUsesRegex pattern →
      ∀ host, globs.hostMatchesId pattern host
        (if hostPatternUsesRegex pattern then globs.id (toAsciiLowercase pattern) '.' else none) =
          false := by
    intro hbrackets hregex host
    obtain ⟨id, hid⟩ := hid hregex
    rw [hostMatchesId_eq, (hostPatternUsesRegex_iff_normal.mp hregex).1, HostShape.admits,
      if_pos (hostPatternUsesRegex_iff_normal.mp hregex).2, if_pos hregex, hid, Option.any_some,
      globMatchId_eq hruns hnumbers hid]
    exact not_globMatch_of_outer_bracket (.inr (trimBrackets_toAsciiLowercase_ne hbrackets))
      (trimBrackets_of_normal (normalizeHost_idem host))
  constructor
  · intro h
    constructor
    · by_contra hgap
      obtain ⟨host, hne⟩ := exists_host_of_hostBaseGap (not_eq_false _ |>.mp hgap)
      exact hne (h host)
    · by_contra hgap
      rw [not_eq_false] at hgap
      obtain ⟨host, -, hmatch⟩ := exists_host_of_hostBracketGap hgap
      unfold hostBracketGap at hgap
      simp only [and_eq_true, bne_iff_ne] at hgap
      rw [← h host, hprogram hgap.1.1.2 hgap.1.1.1 host] at hmatch
      cases hmatch
  · rintro ⟨hbase, hbracket⟩ host
    by_cases hregex : hostPatternUsesRegex pattern
    · by_cases htrim : trimBrackets pattern = pattern
      · refine hostMatchesId_eq_text hbase fun _ => ?_
        obtain ⟨id, hid⟩ := hid hregex
        have hlower : normalizeHost pattern = toAsciiLowercase pattern := by
          rw [normalizeHost, htrim]
        rw [if_pos hregex, hid, hlower]
        exact globMatchId_eq hruns hnumbers hid
      · rw [hprogram htrim hregex host, not_hostMatchesText_of_brackets hregex htrim hbracket host]
    · exact hostMatchesId_eq_text hbase fun h => absurd h hregex

/-! ### Matchers -/

theorem port_agrees (hid : ∀ pattern ∈ g.port, ∃ id, globs.id pattern '.' = some id)
    (url : UrlParts) :
    g.portMatches url globs (g.port.bind fun pattern => globs.id pattern '.') =
      g.portMatchesText url := by
  unfold GlobMatcher.portMatches GlobMatcher.portMatchesText
  cases hport : g.port with
  | none => rfl
  | some pattern =>
    obtain ⟨id, hid⟩ := hid pattern hport
    cases url.effectivePort with
    | none => rfl
    | some port =>
      rw [Option.bind_some, hid]
      exact globMatchId_eq hruns hnumbers hid

theorem path_agrees
    (hid : ∀ pattern ∈ g.path, globSyntaxIsActive pattern → ∃ id, globs.id pattern '/' = some id)
    (url : UrlParts) :
    g.pathCaptures url globs (g.path.bind fun pattern =>
        if globSyntaxIsActive pattern then globs.id pattern '/' else none) =
      (g.pathPieces url).map Captures.default.append := by
  unfold GlobMatcher.pathCaptures GlobMatcher.pathPieces
  cases hpath : g.path with
  | none => rfl
  | some pattern =>
    dsimp only
    by_cases hactive : globSyntaxIsActive pattern
    · obtain ⟨id, hid⟩ := hid pattern hpath hactive
      rw [if_pos hactive, if_pos hactive, Option.bind_some, if_pos hactive, hid]
      exact globMatchWithCapturesId_eq hruns hnumbers hid
    · rw [if_neg hactive]
      split <;> rfl

theorem query_agrees (hid : ∀ pattern ∈ g.query, ∃ id, globs.id pattern '&' = some id)
    (url : UrlParts) (captures : Captures) :
    g.queryCaptures url globs (g.query.bind fun pattern => globs.id pattern '&') captures =
      (g.queryPieces url).map captures.append := by
  unfold GlobMatcher.queryCaptures GlobMatcher.queryPieces
  cases hquery : g.query with
  | none => simp [Captures.append]
  | some pattern =>
    obtain ⟨id, hid⟩ := hid pattern hquery
    rw [Option.bind_some, hid]
    exact globMatchWithCapturesId_eq hruns hnumbers hid

omit hruns hnumbers in
/-- Every component of a glob, with the number bound to it, does what its text says. -/
structure GlobMatcher.ComponentsAgree (globs : CompiledGlobSet) (g : GlobMatcher) : Prop where
  host : ∀ host, globs.hostMatchesId g.host host
      (if hostPatternUsesRegex g.host then globs.id g.host '.' else none) =
    hostMatchesText g.host host
  port : ∀ url, g.portMatches url globs (g.port.bind fun pattern => globs.id pattern '.') =
    g.portMatchesText url
  path : ∀ url, g.pathCaptures url globs (g.path.bind fun pattern =>
      if globSyntaxIsActive pattern then globs.id pattern '/' else none) =
    (g.pathPieces url).map Captures.default.append
  query : ∀ url captures, g.queryCaptures url globs
      (g.query.bind fun pattern => globs.id pattern '&') captures =
    (g.queryPieces url).map captures.append

theorem GlobMatcher.componentsAgree_iff (hchecked : g.Checked)
    (hids : ∀ p ∈ (Matcher.glob g).patterns, ∃ id, globs.id p.1 p.2 = some id) :
    g.ComponentsAgree globs ↔ hostBaseGap g.host = false := by
  have hhost := matcher_host_agrees_iff hruns hnumbers hchecked.host fun hregex =>
    hids (g.host, '.') (by simp [Matcher.patterns, hregex])
  constructor
  · intro h
    exact hhost.mp h.host
  · intro hgap
    refine ⟨hhost.mpr hgap, port_agrees hruns hnumbers fun pattern hpattern => ?_,
      path_agrees hruns hnumbers fun pattern hpattern hactive => ?_,
      query_agrees hruns hnumbers fun pattern hpattern => ?_⟩
    · exact hids (pattern, '.') (by simp [Matcher.patterns, Option.mem_def.mp hpattern])
    · exact hids (pattern, '/') (by simp [Matcher.patterns, Option.mem_def.mp hpattern, hactive])
    · exact hids (pattern, '&') (by simp [Matcher.patterns, Option.mem_def.mp hpattern])

omit hruns hnumbers in
theorem GlobMatcher.matchesCompiled_of_componentsAgree (h : g.ComponentsAgree globs) {url rawUrl} :
    (Matcher.glob g).matchesCompiled url rawUrl globs (bindMatcherResources globs (.glob g)) =
      g.matchesText url := by
  rw [Matcher.matchesCompiled, bindMatcherResources, GlobMatcher.matchesCompiled, h.host, h.port,
    h.path]
  unfold GlobMatcher.matchesText
  cases g.schemeMatches url <;> cases hostMatchesText g.host url.host <;>
    cases g.portMatchesText url <;> try rfl
  cases g.pathPieces url with
  | none => rfl
  | some path =>
    change g.queryCaptures url globs _ (Captures.default.append path) = (g.queryPieces url).bind _
    rw [h.query]
    cases g.queryPieces url with
    | none => rfl
    | some query =>
      change some _ = some _
      rw [Captures.append_append]

theorem Matcher.matchesCompiled_eq_text (hchecked : matcher.Checked)
    (hids : ∀ p ∈ matcher.patterns, ∃ id, globs.id p.1 p.2 = some id)
    (hgap : matcher.hostGap = false) (url : UrlParts) (rawUrl : Str) :
    matcher.matchesCompiled url rawUrl globs (bindMatcherResources globs matcher) =
      matcher.matchesText url rawUrl := by
  induction matcher with
  | glob g =>
    exact GlobMatcher.matchesCompiled_of_componentsAgree
      ((GlobMatcher.componentsAgree_iff hruns hnumbers hchecked hids).mpr hgap)
  | not inner ih =>
    change (if (inner.matchesCompiled url rawUrl globs (bindMatcherResources globs inner)).isNone
      then some Captures.default else none) = _
    rw [ih hchecked hids hgap, Matcher.matchesText]
  | exactUrl | port | regex => rfl

/-! ### Addresses -/

omit [Crates] hruns hnumbers in
/-- Normalising an address introduces no wildcard. -/
theorem globSyntaxIsActive_of_normalizeIpValue (h : globSyntaxIsActive (normalizeIpValue pattern)) :
    globSyntaxIsActive pattern := by
  obtain ⟨c, hc, hactive⟩ := any_eq_true.mp h
  unfold normalizeIpValue at hc
  split at hc
  next ip _ =>
    have hdigit : ∀ d < 16, isActive (Nat.digitChar d) = false := by decide
    rcases isAddressChar_of_mem_display hc with rfl | rfl | ⟨d, hd, rfl⟩
    · cases hactive
    · cases hactive
    · exact absurd hactive (eq_false_iff.mp (hdigit d hd))
  · have hsub : (trimBrackets (trim pattern)).Sublist pattern :=
      trimMatches_sublist.trans trimMatches_sublist
    exact any_eq_true.mpr ⟨c, hsub.subset hc, hactive⟩

theorem ip_agrees
    (hid : isIpGlob pattern →
      ∃ id, globs.id (normalizeIpValue pattern) '\x00' = some id) {actual} :
    globs.ipMatchesId pattern actual (globs.id (normalizeIpValue pattern) '\x00') =
      ipMatchesText pattern actual := by
  unfold ipMatchesId ipMatchesText
  by_cases hany : normalizeIpValue pattern = "*" ∨ normalizeIpValue pattern = "**"
  · rw [if_pos hany, if_pos hany]
  rw [if_neg hany, if_neg hany]
  by_cases hactive : globSyntaxIsActive (normalizeIpValue pattern)
  · -- The pattern is none of the two that are not registered, since these are their own values.
    have hglob : isIpGlob pattern := by
      unfold isIpGlob
      rw [globSyntaxIsActive_of_normalizeIpValue hactive, Bool.true_and, and_eq_true,
        bne_iff_ne, bne_iff_ne]
      constructor
      · rintro rfl
        exact hany (.inl (by decide))
      · rintro rfl
        exact hany (.inr (by decide))
    obtain ⟨id, hid⟩ := hid hglob
    rw [if_pos hactive, if_pos hactive, hid]
    exact globMatchId_eq hruns hnumbers hid
  · rw [if_neg hactive, if_neg hactive]

theorem anyIp_agrees {patterns}
    (hids : ∀ p ∈ (patterns.filter isIpGlob).map
      fun pattern => (normalizeIpValue pattern, '\x00'), ∃ id, globs.id p.1 p.2 = some id)
    (actual : Str) :
    anyIpMatches globs patterns (bindIps globs patterns) actual =
      patterns.any (ipMatchesText · actual) := by
  replace hids : ∀ pattern ∈ patterns, isIpGlob pattern →
      ∃ id, globs.id (normalizeIpValue pattern) '\x00' = some id := fun pattern hpattern hglob =>
    hids _ (mem_map_of_mem (mem_filter.mpr ⟨hpattern, hglob⟩))
  unfold anyIpMatches bindIps
  induction patterns with
  | nil => rfl
  | cons pattern patterns ih =>
    rw [forall_mem_cons] at hids
    rw [map_cons, zip_cons_cons, any_cons, any_cons, ih hids.2, ip_agrees hruns hnumbers hids.1]

/-! ### Conditions -/

omit [Crates] hruns hnumbers in
/-- The globs of a condition have numbers, and its literal is searched for. -/
structure Condition.Registered (globs : CompiledGlobSet) (bodyLiterals : CompiledBodyContainsSet)
    (c : Condition) : Prop where
  ids : ∀ p ∈ c.patterns, ∃ id, globs.id p.1 p.2 = some id
  literal : ∀ l, c = .bodyContains l → ∀ i, bodyLiterals.id l = some i → ∀ text,
    CompiledBodyContainsSet.matchesId i (bodyLiterals.scan text) =
      containsAsciiCaseInsensitive text l

/-- The context has the programs and the literals. -/
structure ConditionMatchContext.On (context : ConditionMatchContext) (globs : CompiledGlobSet)
    (bodyLiterals : CompiledBodyContainsSet) : Prop where
  globs : context.globs = globs
  bodyLiterals : context.bodyLiterals = bodyLiterals

theorem url_agrees {condition} (hbound : (url condition).BoundTo globs bodyLiterals r)
    (hregistered : (url condition).Registered globs bodyLiterals) {rawUrl} :
    condition.matches rawUrl globs r = condition.matchesText rawUrl := by
  cases condition with
  | regex r => rfl
  | glob pattern =>
    cases hbound
    unfold UrlCondition.matches UrlCondition.matchesText
    dsimp only
    by_cases hactive : globSyntaxIsActive pattern
    · obtain ⟨id, hid⟩ := hregistered.ids (pattern, '\x00') (by simp [patterns, hactive])
      rw [if_pos hactive, if_pos hactive, hid]
      exact globMatchId_eq hruns hnumbers hid
    · rw [not_eq_true] at hactive
      rw [hactive, Bool.eq_iff_iff, globMatch_literal_isSome hactive]
      exact beq_iff_eq

theorem host_agrees (hbound : (Condition.host pattern).BoundTo globs bodyLiterals r)
    (hregistered : (Condition.host pattern).Registered globs bodyLiterals) :
    (∀ context, context.On globs bodyLiterals →
      (Condition.host pattern).matchesWithCompiled context r =
        (Condition.host pattern).matchesText context) ↔
      (Condition.host pattern).hostGap = false := by
  cases hbound
  rw [← condition_host_agrees_iff hruns hnumbers fun hregex =>
    hregistered.ids (toAsciiLowercase pattern, '.') (by simp [patterns, hregex])]
  constructor
  · intro h host
    -- A context with a request for that host.
    exact h ⟨some ⟨[], host, none, [], none⟩, none, 0, globs, bodyLiterals,
      ⟨[], [], [], [], none, none⟩, fun _ => none⟩ ⟨rfl, rfl⟩
  · intro h context hcontext
    unfold matchesWithCompiled matchesText
    rw [hcontext.globs]
    cases context.url with
    | none => rfl
    | some parts => exact h parts.host

theorem Condition.leaf_agrees (hleaf : c.isLeaf) (hbound : c.BoundTo globs bodyLiterals r)
    (hregistered : c.Registered globs bodyLiterals) (hgap : c.hostGap = false)
    (hcontext : context.On globs bodyLiterals) :
    c.matchesWithCompiled context r = c.matchesText context := by
  cases c with
  | host pattern => exact (host_agrees hruns hnumbers hbound hregistered).mpr hgap context hcontext
  | url condition =>
    unfold matchesWithCompiled
    rw [hcontext.globs]
    exact url_agrees hruns hnumbers hbound hregistered
  | clientIp patterns | serverIp patterns =>
    cases hbound
    unfold matchesWithCompiled matchesText
    rw [hcontext.globs]
    have hsome := anyIp_agrees hruns hnumbers hregistered.ids
    cases context.clientIp <;> cases context.serverIp <;> first | rfl | exact hsome _
  | bodyContains l =>
    obtain ⟨i, hi, rfl⟩ := Option.map_eq_some_iff.mp hbound
    unfold matchesWithCompiled
    dsimp only [ConditionMatchContext.bodyContains]
    rw [hcontext.bodyLiterals]
    exact hregistered.literal l rfl i hi _
  | resHeaderPresent name | resHeaderContains name value | status statuses =>
    unfold matchesWithCompiled matchesText
    cases context.res <;> rfl
  | any | all | not => cases hleaf
  | _ => rfl

/-- A tree agrees if its nodes are registered and none of them is in the gap. -/
theorem Condition.matchesWithCompiled_eq_text
    (hregistered : ∀ d ∈ c.nodes, d.Registered globs bodyLiterals)
    (hgap : ∀ d ∈ c.nodes, d.hostGap = false) (hbound : c.BoundTo globs bodyLiterals r)
    (hcontext : context.On globs bodyLiterals) :
    c.matchesWithCompiled context r = c.matchesText context := by
  induction c using tree_induction generalizing r with
  | leaf c hleaf =>
    have hself := mem_nodes_self c
    exact leaf_agrees hruns hnumbers hleaf hbound (hregistered c hself) (hgap c hself) hcontext
  | any cs ih | all cs ih =>
    rw [nodes, nodesAll_eq, forall_mem_cons] at hregistered hgap
    obtain ⟨rs, hrs, rfl⟩ := boundTo_any.mp hbound
    have hmap : (cs.zip rs).map (fun p => matchesWithCompiled context p.1 p.2) =
        cs.map (matchesText context) :=
      map_zip_of_forall₂ hrs fun c hc r hr =>
        ih c hc (fun d hd => hregistered.2 d (mem_flatMap_of_mem hc hd))
          (fun d hd => hgap.2 d (mem_flatMap_of_mem hc hd)) hr
    have hany := congrArg (List.any · id) hmap
    have hall := congrArg (List.all · id) hmap
    simp only [matchesWithCompiled, anyMatch_eq, allMatch_eq, matchesText,
      anyMatchesText_eq, allMatchText_eq]
    first
      | simpa using hany
      | simpa using hall
  | not c ih =>
    rw [nodes, forall_mem_cons] at hregistered hgap
    obtain ⟨r, hr, rfl⟩ := boundTo_not.mp hbound
    rw [matchesWithCompiled, matchesText, ih hregistered.2 hgap.2 hr]
    cases (context.res.isNone && c.dependsOnResponse) <;> rfl

end Components

/-! ### Rules -/

theorem Matcher.patterns_of_glob? (h : matcher.glob? = some g) :
    matcher.patterns = (Matcher.glob g).patterns := by
  induction matcher with
  | glob g' =>
    cases h
    rfl
  | not inner ih => exact ih h
  | exactUrl | port | regex => cases h

variable [Crates]

theorem Matcher.checked_of_glob? (h : matcher.glob? = some g) (hchecked : matcher.Checked) :
    g.Checked := by
  induction matcher with
  | glob g' =>
    cases h
    exact hchecked
  | not inner ih => exact ih h hchecked
  | exactUrl | port | regex => cases h

/-- The compiled form of a rule has the verdicts and the captures of its text: every component of
its matcher, the matcher, every condition in the trees of its conditions, and all of them. -/
structure Rule.AgreesWithText (rule : Rule) (resources : CompiledRuleResources)
    (index : RuleIndex) : Prop where
  components : ∀ g ∈ rule.matcher.glob?, g.ComponentsAgree index.compiledGlobs
  matcher : ∀ url rawUrl,
    rule.matcher.matchesCompiled url rawUrl index.compiledGlobs resources.matcher =
      rule.matcher.matchesText url rawUrl
  nodes : ∀ c ∈ rule.conditions.flatMap nodes, ∀ r,
    c.BoundTo index.compiledGlobs index.compiledBodyLiterals r →
      ∀ context,
        context.On index.compiledGlobs index.compiledBodyLiterals →
          c.matchesWithCompiled context r = c.matchesText context
  conditions : ∀ context,
    context.On index.compiledGlobs index.compiledBodyLiterals →
      rule.conditionsMatch resources context =
        rule.conditions.all (matchesText context)

variable {resources : CompiledRuleResources} {idx : Nat}

namespace RuleSet

variable (hruns : RunsFragment) {rs : RuleSet} {rule : Rule} (hrule : rule ∈ rs.rules)

include hrule in
theorem registered (hexact : SearchIsExact) (hc : c ∈ rule.conditions.flatMap nodes) :
    c.Registered rs.index.compiledGlobs rs.index.compiledBodyLiterals := by
  constructor
  · intro p hp
    refine rs.exists_id hrule ?_
    rw [Rule.patterns, mem_append]
    exact .inr (mem_flatMap_of_mem hc hp)
  · rintro l rfl i hi text
    refine CompiledBodyContainsSet.matchesId_iff hexact rs.builtFrom.bodyLiterals ?_ hi
    exact mem_flatMap_of_mem hrule (Rule.mem_bodyLiterals.mpr hc)

include hruns hrule in
theorem matcher_components_iff (hchecked : rule.matcher.Checked) :
    (∀ g ∈ rule.matcher.glob?, g.ComponentsAgree rs.index.compiledGlobs) ↔
      rule.matcher.hostGap = false := by
  unfold Matcher.hostGap
  cases hglob : rule.matcher.glob? with
  | none => simp
  | some g =>
    have hids : ∀ p ∈ (Matcher.glob g).patterns,
        ∃ id, rs.index.compiledGlobs.id p.1 p.2 = some id := by
      intro p hp
      refine rs.exists_id hrule ?_
      rw [Rule.patterns, mem_append, Matcher.patterns_of_glob? hglob]
      exact .inl hp
    rw [Option.any_some, ← GlobMatcher.componentsAgree_iff hruns rs.numbers
      (Matcher.checked_of_glob? hglob hchecked) hids]
    constructor
    · exact fun h => h g rfl
    · rintro h g' hg'
      cases hg'
      exact h

/-- Where no host is in the gap, conditions agree as well. -/
theorem nodes_agree (hruns : RunsFragment) (hexact : SearchIsExact) {rule} (hrule : rule ∈ rs.rules)
    (hgap : (rule.conditions.flatMap nodes).any hostGap = false)
    (hc : c ∈ rule.conditions.flatMap nodes)
    (hbound : c.BoundTo rs.index.compiledGlobs rs.index.compiledBodyLiterals r)
    (hcontext : context.On rs.index.compiledGlobs rs.index.compiledBodyLiterals) :
    c.matchesWithCompiled context r = c.matchesText context := by
  obtain ⟨top, htop, hc⟩ := mem_flatMap.mp hc
  have hmem : ∀ d ∈ c.nodes, d ∈ rule.conditions.flatMap nodes := fun d hd =>
    mem_flatMap_of_mem htop (mem_nodes_trans hc hd)
  refine matchesWithCompiled_eq_text hruns rs.numbers
    (fun d hd => registered hrule hexact (hmem d hd)) (fun d hd => ?_) hbound hcontext
  exact eq_false_iff.mpr (any_eq_false.mp hgap d (hmem d hd))

/-- What the results about one rule of a parsed snapshot share. -/
structure RuleAt (rs : RuleSet) (idx : Nat) (rule : Rule) (resources : CompiledRuleResources) :
    Prop where
  checked : rule.matcher.Checked
  rule : rs.rules[idx]? = some rule
  resources : rs.index.compiledResources[idx]? = some resources

theorem RuleAt.hostGap_of_agrees (hruns : RunsFragment) (hexact : SearchIsExact) {rule}
    (hat : rs.RuleAt idx rule resources) (h : rule.AgreesWithText resources rs.index) :
    rule.hostGap = false := by
  have hrule := mem_of_getElem? hat.rule
  rw [Rule.hostGap, or_eq_false_iff]
  refine ⟨(matcher_components_iff hruns hrule hat.checked).mp h.components, ?_⟩
  refine any_eq_false.mpr fun c hc hgap => ?_
  cases c with
  | host pattern =>
    have hagrees := (host_agrees hruns rs.numbers rfl (registered hrule hexact hc)).mp
      (h.nodes _ hc _ rfl)
    exact eq_false_iff.mp hagrees hgap
  | _ => cases hgap

theorem RuleAt.agrees_of_hostGap (hruns : RunsFragment) (hexact : SearchIsExact) {rule}
    (hat : rs.RuleAt idx rule resources) (hgap : rule.hostGap = false) :
    rule.AgreesWithText resources rs.index := by
  have hrule := mem_of_getElem? hat.rule
  obtain ⟨hmatcher, hconditions⟩ := or_eq_false_iff.mp hgap
  obtain ⟨conditions, hbind, hresources⟩ :=
    Option.map_eq_some_iff.mp (rs.bindRule_of_resources hat.rule hat.resources)
  rw [← hresources]
  refine ⟨(matcher_components_iff hruns hrule hat.checked).mpr hmatcher, ?_,
    fun c hc r hr context hcontext => nodes_agree hruns hexact hrule hconditions hc hr hcontext,
    fun context hcontext => ?_⟩
  · refine Matcher.matchesCompiled_eq_text hruns rs.numbers hat.checked (fun p hp => ?_) hmatcher
    refine rs.exists_id hrule ?_
    rw [Rule.patterns, mem_append]
    exact .inl hp
  · have hmap : (rule.conditions.zip conditions).map
        (fun p => p.1.matchesWithCompiled context p.2) =
          rule.conditions.map (matchesText context) := by
      refine map_zip_of_forall₂ (bindAll_eq_some.mp hbind) fun c hc r hr => ?_
      exact nodes_agree hruns hexact hrule hconditions
        (mem_flatMap_of_mem hc c.mem_nodes_self) hr hcontext
    have hall := congrArg (all · id) hmap
    simpa [Rule.conditionsMatch] using hall

/-! ### Whole rules -/

/-- The captures of a rule that applies to the query by its text. -/
def textCapturesAt (rs : RuleSet) (q : Query) (idx : Nat) : Option Captures :=
  match rs.rules[idx]? with
  | none => none
  | some rule =>
    if rule.disabled then none
    else
      match q.parts.bind fun url => rule.matcher.matchesText url q.req.url with
      | none => none
      | some captures =>
        if !q.includeRequestBody && rule.conditions.any dependsOnRequestBody then none
        else if rule.conditions.all (matchesText (q.context rs.index rule.line)) then
          some captures
        else none

/-- A rule that agrees with its text applies where the text says so, with the text's captures. -/
theorem RuleAt.capturesAt_eq {rule} (hat : rs.RuleAt idx rule resources)
    (h : rule.AgreesWithText resources rs.index) {q} :
    rs.capturesAt q idx = rs.textCapturesAt q idx := by
  unfold capturesAt textCapturesAt
  rw [hat.rule, hat.resources]
  dsimp only [Rule.applies]
  rw [h.conditions _ ⟨rfl, rfl⟩]
  have hmatcher : (q.parts.bind fun url => rule.matcher.matchesCompiled url q.req.url
      rs.index.compiledGlobs resources.matcher) =
      q.parts.bind fun url => rule.matcher.matchesText url q.req.url :=
    Option.bind_congr fun url _ => h.matcher url q.req.url
  exact hmatcher ▸ rfl

/-- The compiled form of a rule agrees with its text exactly when none of its host patterns has a
wildcard or an escape below `**.` or `*.`, and none of those in its conditions is a glob in
brackets. Then the rule applies to a query where its text says so, with the captures of its
text. -/
theorem agreesWithText_iff (hruns : RunsFragment) (hexact : SearchIsExact) {requireHeader : Bool}
    {groups : List (Str × Str)} {rs : RuleSet}
    (hparse : parseGroupsWithProfile groups requireHeader = some (.ok rs)) {idx : Nat}
    {rule : Rule} {resources : CompiledRuleResources} (hidx : rs.rules[idx]? = some rule)
    (hresources : rs.index.compiledResources[idx]? = some resources) :
    (rule.AgreesWithText resources rs.index ↔ rule.hostGap = false) ∧
      (rule.hostGap = false → ∀ q, rs.capturesAt q idx = rs.textCapturesAt q idx) := by
  have hat : rs.RuleAt idx rule resources :=
    ⟨((accepted_of_parse hparse).checked (mem_of_getElem? hidx)).matcher, hidx, hresources⟩
  refine ⟨⟨hat.hostGap_of_agrees hruns hexact, hat.agrees_of_hostGap hruns hexact⟩,
    fun hgap q => ?_⟩
  exact hat.capturesAt_eq (hat.agrees_of_hostGap hruns hexact hgap)

omit [Crates] in
/-- A rule with a subdomain pattern and a glob in its path. -/
theorem agreesWithText_of_subdomain :
    let groups := [("g".toList, "*.a.test/x/* status(503) when host(b*)".toList)]
    ∃ rs, @parseGroupsWithProfile reference groups false = some (.ok rs) ∧
      ∃ (rule : Rule) (resources : CompiledRuleResources),
        (@rules reference rs)[0]? = some rule ∧
        (@index reference rs).compiledResources[0]? = some resources ∧
        rule.hostGap = false ∧
        @Rule.AgreesWithText reference rule resources (@index reference rs) := by
  intro groups
  obtain ⟨rs, hparse, rule, hidx, hgap⟩ := @exists_of_parsesTo reference groups false
    (fun rs => ∃ rule ∈ (@rules reference rs)[0]?, rule.hostGap = false) _ (by decide +kernel)
  obtain ⟨resources, hresources, -⟩ := @exists_resources reference rs 0 rule hidx
  exact ⟨rs, hparse, rule, resources, hidx, hresources, hgap,
    (@agreesWithText_iff reference reference_runsFragment reference_searchIsExact _ _ rs hparse
      0 rule resources hidx hresources).1.mpr hgap⟩

omit [Crates] in
/-- `*.*.test` does not apply to `a.b.test`, and a condition on the hosts `[2001:db8::*]` fails for
`[2001:db8::1]`. -/
theorem compiled_hosts_differ_from_text :
    let groups := [("g".toList,
      "*.*.test status(503)\n** status(503) when host([2001:db8::*])".toList)]
    let query := fun url : String => Query.mk (RequestMeta.get url.toList) none true fun _ => none
    ∃ rs, @parseGroupsWithProfile reference groups false = some (.ok rs) ∧
      (@capturesAt reference rs (query "http://a.b.test/") 0).isSome = false ∧
      (@textCapturesAt reference rs (query "http://a.b.test/") 0).isSome = true ∧
      (@capturesAt reference rs (query "http://[2001:db8::1]/") 1).isSome = false ∧
      (@textCapturesAt reference rs (query "http://[2001:db8::1]/") 1).isSome = true := by
  intro groups query
  exact @exists_of_parsesTo reference _ _ _ _ (by decide +kernel)

end RuleSet

end RsProxy.Rules
