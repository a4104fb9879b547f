import RsProxy.Rules.GlobPrograms
import RsProxy.Rules.Lint.Shadow
import RsProxy.Rules.ResolutionLaws

/-!
# What a shadow finding says

A rule reported as shadowed never contributes an action of the reported families, provided the
earlier matcher really matches every URL of the later one. The syntactic check guarantees this with
one exception: an exact URL without a query matches every query, but a glob with a query pattern is
only tried on the empty one.
-/

namespace RsProxy.Rules

open Text Data Regex List Matcher Option

variable [Crates] {globs : CompiledGlobSet} {pattern rawUrl : Str} {g : GlobMatcher}
  {url url' parts : UrlParts} {st st' : LintState} {finding : LintFinding} {rule : Rule}
  {a : Action} {rs : RuleSet} {q : Query}

/-! ### Coverage -/

/-- The matcher, bound to the programs of a snapshot, matches the URL. -/
def Matcher.matchesBound (matcher : Matcher) (globs : CompiledGlobSet) (url : UrlParts)
    (rawUrl : Str) : Bool :=
  (matcher.matchesCompiled url rawUrl globs (bindMatcherResources globs matcher)).isSome

/-- The first matcher matches every URL that the second one matches. -/
def Matcher.Covers (globs : CompiledGlobSet) (a b : Matcher) : Prop :=
  ∀ url rawUrl, b.matchesBound globs url rawUrl → a.matchesBound globs url rawUrl

/-- The number bound to a host pattern. -/
def boundHostId (globs : CompiledGlobSet) (pattern : Str) : Option Nat :=
  if hostPatternUsesRegex pattern then globs.id pattern '.' else none

/-- Only a text with wildcards asks its program. -/
theorem hostMatchesId_boundHostId (h : normalizeHost pattern = pattern) {host} :
    globs.hostMatchesId pattern host (globs.id pattern '.') =
      globs.hostMatchesId pattern host (boundHostId globs pattern) := by
  rw [hostMatchesId_eq, hostMatchesId_eq, h]
  unfold boundHostId
  split
  · rfl
  next hregex =>
    rw [hostPatternUsesRegex_iff, trimBrackets_of_normal h, not_and] at hregex
    cases hshape : hostShape pattern with
    | anything | subtree | child => rfl
    | text p =>
      have hp : p = pattern := by
        unfold hostShape at hshape
        grind
      subst hp
      have hactive : globSyntaxIsActive p = false := by simpa using hregex hshape
      simp [HostShape.admits, hactive]

theorem hostPatternSubsumes_covers {a b} (ha : normalizeHost a = a) (hb : normalizeHost b = b)
    (h : hostPatternSubsumes a b globs) (host : Str)
    (hmatch : globs.hostMatchesId b host (boundHostId globs b)) :
    globs.hostMatchesId a host (boundHostId globs a) := by
  unfold hostPatternSubsumes at h
  split at h
  next hsame =>
    rcases hsame with rfl | rfl | rfl
    · exact hmatch
    all_goals rfl
  split at h
  next hliteral =>
    -- A literal host is matched by itself only, so both patterns are tried on the same host.
    have hactive : globSyntaxIsActive b = false := by simpa using hliteral
    rw [hostMatchesId_eq, hb, hostShape_of_not_active hactive] at hmatch
    have hhost : b = normalizeHost host := by simpa [HostShape.admits, hactive] using hmatch
    change globs.hostMatchesId a b (globs.id (normalizeHost a) '.') at h
    rw [ha, hostMatchesId_boundHostId ha, hostMatchesId_eq, hb] at h
    rwa [hostMatchesId_eq, ← hhost]
  split at h
  next base laterBase hbase hlater =>
    rw [Bool.and_eq_true, ← isWithin_iff] at h
    rw [hostMatchesId_eq, ha, stripPrefix_eq_some.mp hbase, hostShape_subtree]
    refine isWithin_iff.mp (h.2.trans ?_)
    rw [hostMatchesId_eq, hb] at hmatch
    cases hdeep : stripPrefix "**." b with
    | some base' =>
      rw [hdeep] at hlater
      cases hlater
      rw [stripPrefix_eq_some.mp hdeep] at hmatch
      exact isWithin_iff.mpr hmatch
    | none =>
      rw [hdeep] at hlater
      rw [stripPrefix_eq_some.mp hlater] at hmatch
      exact isWithin_of_child hmatch
  · cases h

theorem matchesBound_glob :
    (glob g).matchesBound globs url rawUrl ↔
      g.schemeMatches url ∧
      globs.hostMatchesId g.host url.host (boundHostId globs g.host) ∧
      g.portMatches url globs (g.port.bind fun pattern => globs.id pattern '.') ∧
      (g.pathCaptures url globs (g.path.bind fun pattern =>
        if globSyntaxIsActive pattern then globs.id pattern '/' else none)).isSome ∧
      g.queryMatches url globs (g.query.bind fun pattern => globs.id pattern '&') :=
  GlobMatcher.matchesCompiled_isSome

omit [Crates] in
/-- What holds without a pattern and for the covered component holds for the covering one. -/
theorem of_componentSubsumes {a b} (h : componentSubsumes a b) (P : Option Str → Prop)
    (hnone : P none) (hb : P b) : P a := by
  unfold componentSubsumes at h
  rw [Bool.or_eq_true, isNone_iff_eq_none, beq_iff_eq] at h
  rcases h with rfl | rfl
  · exact hnone
  · exact hb

theorem globSubsumes_covers {a b} (ha : a.Checked) (hb : b.Checked) (h : globSubsumes a b globs) :
    Matcher.Covers globs (.glob a) (.glob b) := by
  intro url rawUrl hmatch
  simp only [globSubsumes, Bool.and_eq_true] at h
  obtain ⟨⟨⟨⟨hscheme, hhost⟩, hport⟩, hpath⟩, hquery⟩ := h
  rw [matchesBound_glob] at hmatch ⊢
  obtain ⟨hscheme', hhost', hport', hpath', hquery'⟩ := hmatch
  refine ⟨?_, hostPatternSubsumes_covers ha.host hb.host hhost url.host hhost', ?_, ?_, ?_⟩
  · exact of_componentSubsumes hscheme
      (fun scheme => { a with scheme }.schemeMatches url) rfl hscheme'
  · exact of_componentSubsumes hport
      (fun port => { a with port }.portMatches url globs (port.bind fun pattern =>
        globs.id pattern '.')) rfl hport'
  · exact of_componentSubsumes hpath
      (fun path => ({ a with path }.pathCaptures url globs (path.bind fun pattern =>
        if globSyntaxIsActive pattern then globs.id pattern '/' else none)).isSome) rfl hpath'
  · exact of_componentSubsumes hquery
      (fun query => { a with query }.queryMatches url globs (query.bind fun pattern =>
        globs.id pattern '&')) rfl hquery'

/-! ### Queries -/

/-- A query pattern that matches every query: a run of two or more asterisks. -/
def matchesEveryQuery (pattern : Str) : Bool := pattern.all (· == '*') && 2 ≤ pattern.length

/-- The earlier matcher restricts the query, and the later one is an exact URL without a query. -/
def queryGap (earlier later : Matcher) : Bool :=
  match earlier, later with
  | .glob g, .exactUrl url =>
    match g.query, UrlParts.parse url with
    | some pattern, .ok parts => !matchesEveryQuery pattern && parts.query.isNone
    | _, _ => false
  | _, _ => false

omit [Crates] in
theorem matchesEveryQuery_iff {ts} (h : Glob.tokens pattern = some ts) :
    matchesEveryQuery pattern ↔ ∀ query, (globMatch pattern '&' query).isSome := by
  unfold globMatch
  rw [h]
  simp only [bind_some]
  rw [Glob.find_all_iff_of_tokens h, matchesEveryQuery]
  simp

/-- The components that a glob looks at, apart from the query, agree. -/
structure UrlParts.SameButQuery (url url' : UrlParts) : Prop where
  scheme : url.scheme = url'.scheme
  host : url.host = url'.host
  port : url.effectivePort = url'.effectivePort
  path : url.path = url'.path

/-- Whether a glob matches depends on the query only through its query pattern. -/
theorem matchesBound_glob_congr {rawUrl'} (hsame : url.SameButQuery url')
    (hmatch : (glob g).matchesBound globs url rawUrl) :
    (glob g).matchesBound globs url' rawUrl' ↔
      g.queryMatches url' globs (g.query.bind fun pattern => globs.id pattern '&') := by
  rw [matchesBound_glob] at hmatch ⊢
  obtain ⟨hscheme, hhost, hport, hpath, -⟩ := hmatch
  unfold GlobMatcher.schemeMatches at hscheme ⊢
  unfold GlobMatcher.portMatches at hport ⊢
  unfold GlobMatcher.pathCaptures at hpath ⊢
  rw [hsame.scheme] at hscheme
  rw [hsame.host] at hhost
  rw [hsame.port] at hport
  rw [hsame.path] at hpath
  exact ⟨fun h => h.2.2.2.2, fun h => ⟨hscheme, hhost, hport, hpath, h⟩⟩

/-- A registered query pattern is tried on the query, or on nothing. -/
theorem queryMatches_eq (hruns : RunsFragment) (hnumbers : globs.Numbers)
    (hquery : g.query = some pattern) {id} (hid : globs.id pattern '&' = some id) :
    g.queryMatches url globs (g.query.bind fun pattern => globs.id pattern '&') =
      (globMatch pattern '&' (url.query.getD [])).isSome := by
  unfold GlobMatcher.queryMatches
  rw [hquery, bind_some, hid]
  exact CompiledGlobSet.globMatchId_eq hruns hnumbers hid

theorem tokens_of_compiles {sep} (h : (compileGlobRegex pattern sep).isSome) :
    ∃ ts, Glob.tokens pattern = some ts := by
  obtain ⟨regex, hregex⟩ := isSome_iff_exists.mp h
  obtain ⟨source, hsource, -⟩ := bind_eq_some_iff.mp hregex
  rw [globSourceLoop_eq, map_eq_some_iff] at hsource
  obtain ⟨ts, hts, -⟩ := hsource
  exact ⟨ts, hts⟩

theorem matchesBound_exactUrl {url} (hparts : UrlParts.parse url = .ok parts) :
    (exactUrl url).matchesBound globs url' rawUrl ↔
      parts.SameButQuery url' ∧ (parts.query = none ∨ parts.query = url'.query) := by
  have hbound : (exactUrl url).matchesBound globs url' rawUrl =
      exactUrlMatches url url' := by
    unfold matchesBound matchesCompiled
    cases exactUrlMatches url url' <;> rfl
  rw [hbound, exactUrlMatches_iff]
  constructor
  · rintro ⟨parts', hparts', hscheme, hhost, hport, hpath, hquery⟩
    rw [hparts] at hparts'
    cases hparts'
    exact ⟨⟨hscheme, hhost, hport, hpath⟩, hquery⟩
  · rintro ⟨⟨hscheme, hhost, hport, hpath⟩, hquery⟩
    exact ⟨parts, hparts, hscheme, hhost, hport, hpath, hquery⟩

/-- A glob that matches an exact URL covers it, unless only the glob restricts the query. -/
theorem glob_covers_exactUrl_iff (hruns : RunsFragment) (hnumbers : globs.Numbers) (hg : g.Checked)
    (hids : ∀ pattern ∈ g.query, ∃ id, globs.id pattern '&' = some id) {url}
    (hparts : UrlParts.parse url = .ok parts)
    (hmatch : (glob g).matchesBound globs parts url) :
    Matcher.Covers globs (.glob g) (.exactUrl url) ↔
      queryGap (.glob g) (.exactUrl url) = false := by
  cases hquery : g.query with
  | none =>
    have hgap : queryGap (.glob g) (.exactUrl url) = false := by simp [queryGap, hquery]
    refine iff_of_true (fun url' rawUrl h => ?_) hgap
    rw [matchesBound_glob_congr ((matchesBound_exactUrl hparts).mp h).1 hmatch]
    simp [GlobMatcher.queryMatches, hquery]
  | some pattern =>
    obtain ⟨id, hid⟩ := hids pattern hquery
    obtain ⟨ts, hts⟩ := tokens_of_compiles (hg.queryCompiles pattern hquery)
    have hcovered : ∀ {url' rawUrl'}, parts.SameButQuery url' →
        ((glob g).matchesBound globs url' rawUrl' ↔
          (globMatch pattern '&' (url'.query.getD [])).isSome) := by
      intro url' rawUrl' hsame
      rw [matchesBound_glob_congr hsame hmatch, queryMatches_eq hruns hnumbers hquery hid]
    cases hnone : parts.query with
    | some query =>
      -- Both URLs have the query of the exact one.
      have hgap : queryGap (.glob g) (.exactUrl url) = false := by
        simp [queryGap, hquery, hparts, hnone]
      refine iff_of_true (fun url' rawUrl h => ?_) hgap
      obtain ⟨hsame, hquery'⟩ := (matchesBound_exactUrl hparts).mp h
      have hmatch' := (hcovered ⟨rfl, rfl, rfl, rfl⟩).mp hmatch
      rw [hquery'.resolve_left (by rw [hnone]; nofun)] at hmatch'
      exact (hcovered hsame).mpr hmatch'
    | none =>
      have hgap : queryGap (.glob g) (.exactUrl url) = false ↔ matchesEveryQuery pattern := by
        simp [queryGap, hquery, hparts, hnone]
      rw [hgap, matchesEveryQuery_iff hts]
      constructor
      · intro hcovers query
        -- The exact URL also matches with this query.
        have hsame : parts.SameButQuery { parts with query := some query } := ⟨rfl, rfl, rfl, rfl⟩
        have hlater : (exactUrl url).matchesBound globs
            { parts with query := some query } [] :=
          (matchesBound_exactUrl hparts).mpr ⟨hsame, .inl hnone⟩
        exact (hcovered hsame).mp (hcovers _ _ hlater)
      · intro hall url' rawUrl h
        exact (hcovered ((matchesBound_exactUrl hparts).mp h).1).mpr (hall _)

/-- The check for coverage is right, except for a gap in the queries. -/
theorem matcherSubsumes_covers_iff (hruns : RunsFragment) (hnumbers : globs.Numbers) {a b}
    (ha : a.Checked) (hb : b.Checked) (hids : ∀ p ∈ a.patterns, ∃ id, globs.id p.1 p.2 = some id)
    (h : matcherSubsumes a b globs) :
    Matcher.Covers globs a b ↔ queryGap a b = false := by
  unfold matcherSubsumes at h
  split at h
  next g g' => exact iff_of_true (globSubsumes_covers ha hb h) rfl
  next g url =>
    split at h
    next parts hparts =>
      refine glob_covers_exactUrl_iff hruns hnumbers ha (fun pattern hpattern => ?_) hparts h
      exact hids (pattern, '&') (by
        rw [mem_def] at hpattern
        simp [patterns, hpattern])
    · cases h
  next url url' =>
    obtain rfl : url = url' := beq_iff_eq.mp h
    exact iff_of_true (fun _ _ h => h) rfl
  · cases h

/-! ### Where findings come from -/

/-- The finding reports the later rule as shadowed by the earlier one. -/
structure Shadows (globs : CompiledGlobSet) (earlier later : LintEntry) (finding : LintFinding) :
    Prop where
  unconditional : earlier.rule.conditions = []
  subsumes : matcherSubsumes earlier.rule.matcher later.rule.matcher globs
  places : finding = lintFinding later.rule earlier.rule finding.families
  families : ∀ family ∈ finding.families, family ∈ earlier.families

omit [Crates] in
theorem LintState.findings_compare {size} (h : st.compare size = some st') :
    st'.findings = st.findings := by
  unfold compare at h
  grind

omit [Crates] in
theorem LintState.findings_push (h : st.push finding = some st') :
    st'.findings = st.findings ++ [finding] := by
  unfold push at h
  grind

/-- The findings of the second state that are not in the first one are about the later rule and one
of the earlier ones. -/
def FindingsFrom (globs : CompiledGlobSet) (before : List LintEntry) (later : LintEntry)
    (st st' : LintState) : Prop :=
  ∀ finding ∈ st'.findings,
    finding ∈ st.findings ∨ ∃ earlier ∈ before, Shadows globs earlier later finding

theorem FindingsFrom.of_eq {before later} (h : st'.findings = st.findings) :
    FindingsFrom globs before later st st' := by
  intro finding hfinding
  rw [h] at hfinding
  exact .inl hfinding

/-- One more comparison in front. -/
theorem FindingsFrom.cons {globs before earlier later st st' st''}
    (hfirst : FindingsFrom globs [earlier] later st st')
    (hrest : FindingsFrom globs before later st' st'') :
    FindingsFrom globs (earlier :: before) later st st'' := by
  intro finding hfinding
  rcases hrest finding hfinding with hfinding | ⟨e, he, hshadows⟩
  · rcases hfirst finding hfinding with hfinding | ⟨e, he, hshadows⟩
    · exact .inl hfinding
    · rw [mem_singleton.mp he] at hshadows
      exact .inr ⟨earlier, mem_cons_self, hshadows⟩
  · exact .inr ⟨e, mem_cons_of_mem _ he, hshadows⟩

/-- Comparing a rule with those in front of it adds only findings about it and one of them. -/
theorem lintEarlier_findings (globs : CompiledGlobSet) (later : LintEntry) (before : List LintEntry)
    (remaining : List Str) (st : LintState) :
    FindingsFrom globs before later st (lintEarlier globs later before remaining st).2 := by
  -- The comparison itself adds nothing, and a push adds one finding about the pair.
  have hpush : ∀ {earlier} {p} {st st' st''} {size},
      st.compare size = some st' →
      ¬(!earlier.rule.conditions.isEmpty) →
      ¬(!matcherSubsumes earlier.rule.matcher later.rule.matcher globs) →
      st'.push (lintFinding later.rule earlier.rule (earlier.families.filter p)) = some st'' →
      FindingsFrom globs [earlier] later st st'' := by
    intro earlier p st st' st'' size hcompare hconditions hsubsumes hpush finding hmem
    rw [LintState.findings_push hpush, LintState.findings_compare hcompare, mem_append,
      mem_singleton] at hmem
    rcases hmem with hmem | rfl
    · exact .inl hmem
    · refine .inr ⟨earlier, mem_singleton_self _, ?_, ?_, rfl, fun f hf => (mem_filter.mp hf).1⟩
      · simpa using hconditions
      · simpa using hsubsumes
  fun_induction lintEarlier globs later before remaining st with
  | case1 | case2 => exact .of_eq rfl
  | case3 earlier rest remaining st st' hst hconditions ih
  | case4 earlier rest remaining st st' hst hconditions shared hshared ih
  | case5 earlier rest remaining st st' hst hconditions shared hshared hsubsumes ih =>
    exact .cons (.of_eq (LintState.findings_compare hst)) ih
  | case6 earlier rest remaining st st' hst =>
    have hsame : st'.findings = st.findings := LintState.findings_compare hst
    exact .of_eq hsame
  | case7 earlier rest remaining st st' hst hconditions shared hshared hsubsumes remaining' st''
      hst'' =>
    exact .cons (hpush hst hconditions hsubsumes hst'') (.of_eq rfl)
  | case8 earlier rest remaining st st' hst hconditions shared hshared hsubsumes remaining' st''
      hst'' hremaining ih =>
    exact .cons (hpush hst hconditions hsubsumes hst'') ih

/-- Every finding of the report is about two rules in the order of the visit. -/
theorem lintLater_findings (globs : CompiledGlobSet) (before rest : List LintEntry)
    (st : LintState) :
    ∀ finding ∈ (lintLater globs before rest st).findings, finding ∈ st.findings ∨
      ∃ earlier later, [earlier, later].Sublist (before ++ rest) ∧
        Shadows globs earlier later finding := by
  induction rest generalizing before st with
  | nil => exact fun finding h => .inl h
  | cons later rest ih =>
    -- The next rule has been compared with those in front of it, the others still have to be.
    have hlist : before ++ later :: rest = (before ++ [later]) ++ rest := by simp
    have hpair : ∀ earlier ∈ before, [earlier, later].Sublist (before ++ later :: rest) :=
      fun earlier hearlier => (singleton_sublist.mpr hearlier).append
        (singleton_sublist.mpr mem_cons_self)
    intro finding hfinding
    rw [lintLater] at hfinding
    split at hfinding
    · rw [hlist]
      exact ih _ _ finding hfinding
    · have hfrom := lintEarlier_findings globs later before later.families st
      generalize lintEarlier globs later before later.families st = early at hfinding hfrom
      refine Or.elim (?_ : finding ∈ early.2.findings ∨ _) (fun hfinding => ?_) .inr
      · split at hfinding
        · rw [hlist]
          exact ih _ _ finding hfinding
        · exact .inl hfinding
      · rcases hfrom finding hfinding with hfinding | ⟨earlier, hearlier, hshadows⟩
        · exact .inl hfinding
        · exact .inr ⟨earlier, later, hpair earlier hearlier, hshadows⟩

omit [Crates] in
theorem mem_actions_of_mem_effectiveActions (h : a ∈ effectiveActions rule) : a ∈ rule.actions := by
  have hfrom : ∀ actions skip, a ∈ effectiveActionsFrom skip actions → a ∈ actions := by
    intro actions
    induction actions with
    | nil => exact fun _ h => h
    | cons b actions ih =>
      intro skip h
      rw [effectiveActionsFrom] at h
      split at h
      · exact mem_cons_of_mem _ (ih _ h)
      · rcases mem_cons.mp h with rfl | h
        · exact mem_cons_self
        · exact mem_cons_of_mem _ (ih _ h)
  exact hfrom rule.actions _ h

omit [Crates] in
theorem exists_action_of_mem_singleFamilies {family} (h : family ∈ singleFamilies rule) :
    ∃ a ∈ rule.actions, a.isSingle ∧ a.family.asStr = family := by
  have hfold : ∀ (actions : List Action) families,
      family ∈ actions.foldl (fun families action =>
          if action.isSingle && !families.contains action.family.asStr then
            families ++ [action.family.asStr]
          else families) families →
        family ∈ families ∨ ∃ a ∈ actions, a.isSingle ∧ a.family.asStr = family := by
    intro actions
    induction actions with
    | nil => exact fun _ h => .inl h
    | cons a actions ih =>
      intro families h
      rw [foldl_cons] at h
      rcases ih _ h with h | ⟨b, hb, hfamily⟩
      · split at h
        next hsingle =>
          rw [Bool.and_eq_true] at hsingle
          rw [mem_append, mem_singleton] at h
          exact h.imp_right fun h => ⟨a, mem_cons_self, hsingle.1, h.symm⟩
        · exact .inl h
      · exact .inr ⟨b, mem_cons_of_mem _ hb, hfamily⟩
  rcases hfold _ _ h with h | ⟨a, ha, hsingle, hfamily⟩
  · cases h
  · exact ⟨a, mem_actions_of_mem_effectiveActions ha, hsingle, hfamily⟩

namespace RuleSet

theorem lintOrder_eq (rs : RuleSet) : rs.lintOrder = rs.enabledRules := by
  rw [← rs.sortRules_enabledRules]
  refine Perm.eq_of_pairwise' (pairwise_insertionSort _ _)
    (pairwise_insertionSort _ _) ?_
  refine (perm_insertionSort _ _).trans (.trans ?_ (perm_insertionSort _ _).symm)
  refine (perm_ext_iff_of_nodup (nodup_range.filter _) rs.nodup_enabledRules).mpr ?_
  intro idx
  rw [mem_enabledRules, mem_filter, mem_range]
  refine ⟨fun h => h.2, fun h => ⟨?_, h⟩⟩
  by_contra hge
  rw [isEnabled, getElem?_eq_none (Nat.le_of_not_lt hge)] at h
  cases h

/-- The entries of the rules in the order of the visit. -/
theorem pairwise_lintEntries (rs : RuleSet) :
    (rs.lintOrder.filterMap (lintEntry rs)).Pairwise fun earlier later =>
      earlier.index ≠ later.index ∧ rs.Precedes earlier.index later.index := by
  rw [lintOrder_eq]
  refine (rs.nodup_enabledRules.and rs.pairwise_enabledRules).filterMap _ ?_
  intro i j h e he e' he'
  obtain ⟨rule, -, rfl⟩ := map_eq_some_iff.mp he
  obtain ⟨rule', -, rfl⟩ := map_eq_some_iff.mp he'
  exact h

theorem mem_lintEntries {e} (h : e ∈ rs.lintOrder.filterMap (lintEntry rs)) :
    rs.rules[e.index]? = some e.rule ∧ e.rule.disabled = false ∧
      e.families = singleFamilies e.rule := by
  obtain ⟨idx, hidx, he⟩ := mem_filterMap.mp h
  obtain ⟨rule, hrule, rfl⟩ := map_eq_some_iff.mp he
  rw [lintOrder_eq, mem_enabledRules, isEnabled, hrule] at hidx
  exact ⟨hrule, by simpa using hidx, rfl⟩

/-! ### Covered rules -/

theorem matchesBound_of_capturesAt {idx captures} (hrule : rs.rules[idx]? = some rule)
    (h : rs.capturesAt q idx = some captures) :
    ∃ url, q.parts = some url ∧ rule.matcher.matchesBound rs.index.compiledGlobs url q.req.url := by
  obtain ⟨resources, hresources, hbind⟩ := rs.exists_resources hrule
  obtain ⟨conditions, -, rfl⟩ := map_eq_some_iff.mp hbind
  rw [capturesAt, hrule, hresources] at h
  obtain ⟨-, hmatch, -, -⟩ := Rule.applies_eq_some.mp h
  obtain ⟨url, hurl, hmatch⟩ := bind_eq_some_iff.mp hmatch
  exact ⟨url, hurl, isSome_of_mem hmatch⟩

/-- An enabled rule without conditions applies wherever its matcher matches. -/
theorem exists_capturesAt {idx} (hrule : rs.rules[idx]? = some rule)
    (henabled : rule.disabled = false) (hconditions : rule.conditions = [])
    (hurl : q.parts = some url)
    (hmatch : rule.matcher.matchesBound rs.index.compiledGlobs url q.req.url) :
    ∃ captures, rs.capturesAt q idx = some captures := by
  obtain ⟨resources, hresources, hbind⟩ := rs.exists_resources hrule
  obtain ⟨conditions, -, rfl⟩ := map_eq_some_iff.mp hbind
  obtain ⟨captures, hcaptures⟩ := isSome_iff_exists.mp hmatch
  refine ⟨captures, ?_⟩
  rw [capturesAt, hrule, hresources]
  refine Rule.applies_eq_some.mpr ⟨henabled, ?_, .inr (by rw [hconditions]; rfl), ?_⟩
  · rwa [hurl]
  · rw [Rule.conditionsMatch, hconditions]
    rfl

end RuleSet

omit [Crates] in
/-- Actions of first-wins families do not need the request's body. -/
theorem actionForBodyAvailability_of_isSingle (h : a.isSingle) {available} :
    actionForBodyAvailability a available = some a := by
  cases available with
  | true => rfl
  | false =>
    cases a with
    | reqBody op => cases op <;> cases h
    | delete ops => cases h
    | _ => rfl

namespace RuleSet

/-- A rule covered by an earlier one without conditions contributes no action of a first-wins
family that the earlier one has an action of. -/
theorem family_ne_of_covered {i j earlier later} (hi : rs.rules[i]? = some earlier)
    (hj : rs.rules[j]? = some later) (hne : i ≠ j) (hprecedes : rs.Precedes i j)
    (henabled : earlier.disabled = false) (hconditions : earlier.conditions = [])
    (hcovers : Matcher.Covers rs.index.compiledGlobs earlier.matcher later.matcher)
    (ha : a ∈ earlier.actions) (hsingle : a.isSingle) {o} (ho : o ∈ rs.kept q)
    (hrule : o.rule = j) : o.action.family ≠ a.family := by
  obtain ⟨rule, captures, -, hrule', hcaptures, -⟩ := isOffer_of_mem_kept ho
  rw [hrule] at hrule' hcaptures
  -- Where the later rule applies, the earlier one applies and offers its action first.
  obtain ⟨url, hurl, hmatch⟩ := matchesBound_of_capturesAt hj hcaptures
  obtain ⟨captures', hcaptures'⟩ :=
    exists_capturesAt hi henabled hconditions hurl (hcovers url q.req.url hmatch)
  obtain ⟨position, hposition⟩ := getElem?_of_mem ha
  have hoffer : rs.IsOffer q ⟨i, position, a, earlier.brief, captures', q.res⟩ :=
    ⟨earlier, captures', a, hi, hcaptures', hposition,
      actionForBodyAvailability_of_isSingle hsingle, rfl⟩
  exact family_ne_of_offered_before hoffer hsingle ho (.inl ⟨hrule ▸ hne, hrule ▸ hprecedes⟩)

/-- What a finding of the lint is about. -/
theorem exists_shadows_of_mem_lint (h : finding ∈ rs.lint) :
    ∃ earlier later, earlier.index ≠ later.index ∧ rs.Precedes earlier.index later.index ∧
      rs.rules[earlier.index]? = some earlier.rule ∧ rs.rules[later.index]? = some later.rule ∧
      earlier.rule.disabled = false ∧ earlier.families = singleFamilies earlier.rule ∧
      Shadows rs.index.compiledGlobs earlier later finding := by
  rcases lintLater_findings _ _ _ _ finding h with h | ⟨earlier, later, hsublist, hshadows⟩
  · cases h
  obtain ⟨hi, henabled, hfamilies⟩ :=
    mem_lintEntries (hsublist.subset (show earlier ∈ [earlier, later] by simp))
  obtain ⟨hj, -, -⟩ := mem_lintEntries (hsublist.subset (show later ∈ [earlier, later] by simp))
  have hordered := pairwise_pair.mp (rs.pairwise_lintEntries.sublist hsublist)
  exact ⟨earlier, later, hordered.1, hordered.2, hi, hj, henabled, hfamilies, hshadows⟩

/-- Every finding is about two rules of the snapshot. The earlier one matches every URL of the later
one exactly when there is no gap in the queries, and without a gap the later rule contributes no
action of a reported family to any resolution. -/
theorem lint_sound_without_query_gap (hsearch : SearchIsExact) (hfollows : FollowsHir)
    (hruns : RunsFragment) {requireHeader : Bool} {groups : List (Str × Str)} {rs : RuleSet}
    (hparse : parseGroupsWithProfile groups requireHeader = some (.ok rs))
    {finding : LintFinding} (hfinding : finding ∈ rs.lint) :
    ∃ (i j : Nat) (earlier later : Rule),
      rs.rules[i]? = some earlier ∧ rs.rules[j]? = some later ∧
      finding = lintFinding later earlier finding.families ∧
      (Matcher.Covers rs.index.compiledGlobs earlier.matcher later.matcher ↔
        queryGap earlier.matcher later.matcher = false) ∧
      (queryGap earlier.matcher later.matcher = false → ∀ q,
        (rs.resolveInner q).actions = (rs.kept q).map (fun o => o.resolved) ∧
        (∀ o ∈ rs.kept q, o.rule = j → o.action.family.asStr ∉ finding.families) ∧
        ((groups.map Prod.fst).Nodup → ∀ a ∈ (rs.resolveInner q).actions,
          (a.rule.group, a.rule.line) = (finding.group, finding.line) →
          a.action.family.asStr ∉ finding.families)) := by
  obtain ⟨earlier, later, hne, hprecedes, hi, hj, henabled, hfamilies, hshadows⟩ :=
    exists_shadows_of_mem_lint hfinding
  have haccepted := accepted_of_parse hparse
  have hcovers : Matcher.Covers rs.index.compiledGlobs earlier.rule.matcher later.rule.matcher ↔
      queryGap earlier.rule.matcher later.rule.matcher = false := by
    refine matcherSubsumes_covers_iff hruns rs.numbers
      (haccepted.checked (mem_of_getElem? hi)).matcher
      (haccepted.checked (mem_of_getElem? hj)).matcher (fun p hp => ?_) hshadows.subsumes
    exact rs.exists_id (mem_of_getElem? hi) (mem_append_left _ hp)
  refine ⟨earlier.index, later.index, earlier.rule, later.rule, hi, hj, hshadows.places, hcovers,
    fun hgap q => ?_⟩
  have hresult := rs.resolveInner_eq_selected hsearch hfollows q
  have hkept : ∀ o ∈ rs.kept q, o.rule = later.index →
      o.action.family.asStr ∉ finding.families := by
    intro o ho hrule hmem
    have hmem' := hshadows.families _ hmem
    rw [hfamilies] at hmem'
    obtain ⟨a, ha, hsingle, hfamily⟩ := exists_action_of_mem_singleFamilies hmem'
    have hne := family_ne_of_covered hi hj hne hprecedes henabled hshadows.unconditional
      (hcovers.mpr hgap) ha hsingle ho hrule
    exact hne (ActionFamily.asStr_inj hfamily.symm)
  refine ⟨by rw [hresult]; rfl, hkept, fun hnames a ha hplace => ?_⟩
  rw [hresult] at ha
  obtain ⟨o, ho, rfl⟩ := mem_map.mp ha
  -- With distinct group names the place of an action tells its rule.
  have hbrief := briefAt_of_isOffer (isOffer_of_mem_kept ho)
  have hlater : rs.briefAt later.index = some later.rule.brief := by
    rw [briefAt, hj]
    rfl
  rw [hshadows.places] at hplace
  exact hkept o ho (briefAt_inj (haccepted.places_nodup hnames) hbrief hlater hplace)

omit [Crates] in
/-- A host glob in front of an exact URL that it covers. -/
theorem lint_sound_of_host_glob :
    let groups := [("g".toList, "*.foo.test status(503)\n=http://a.foo.test/x status(200)".toList)]
    ∃ rs, @parseGroupsWithProfile reference groups false = some (.ok rs) ∧
      ∃ finding ∈ @lint reference rs, (finding.group, finding.line) = ("g".toList, 2) ∧
        ∀ q, ∀ a ∈ (@resolveInner reference rs q).actions,
          (a.rule.group, a.rule.line) = ("g".toList, 2) →
            a.action.family.asStr ∉ finding.families := by
  intro groups
  obtain ⟨rs, hparse, ⟨finding, hfinding, hplace⟩, hgaps⟩ :=
    @exists_of_parsesTo reference groups false
      (fun rs => (∃ finding ∈ @lint reference rs,
          (finding.group, finding.line) = ("g".toList, 2)) ∧
        ∀ a ∈ @rules reference rs, ∀ b ∈ @rules reference rs,
          queryGap a.matcher b.matcher = false) _
      (by decide +kernel)
  obtain ⟨i, j, earlier, later, hi, hj, -, -, hsound⟩ := @lint_sound_without_query_gap reference
    reference_searchIsExact reference_followsHir reference_runsFragment _ _ rs hparse _ hfinding
  have hgap := hgaps earlier (mem_of_getElem? hi) later (mem_of_getElem? hj)
  refine ⟨rs, hparse, finding, hfinding, hplace, fun q => ?_⟩
  rw [← hplace]
  exact (hsound hgap q).2.2 (by decide)

omit [Crates] in
/-- The glob matches the exact URL with the empty query only, and the later rule takes effect for
every other query. -/
theorem lint_reports_effective_rule :
    let groups := [("g".toList,
      "foo.test/health? status(503)\n=http://foo.test/health status(200)".toList)]
    let q : Query :=
      ⟨RequestMeta.get "http://foo.test/health?x=1", none, true, fun _ => none⟩
    ∃ rs, @parseGroupsWithProfile reference groups false = some (.ok rs) ∧
      (@lint reference rs).map (fun f => (f.line, f.shadowedByLine, f.families)) =
        [(2, 1, ["status".toList])] ∧
      (@resolveInner reference rs q).actions.map
        (fun a => (a.rule.line, a.action.family.asStr)) = [(2, "status".toList)] := by
  intro groups q
  exact @exists_of_parsesTo reference _ _ _ _ (by decide +kernel)

end RuleSet

end RsProxy.Rules
