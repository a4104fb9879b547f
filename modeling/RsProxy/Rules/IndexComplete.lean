import RsProxy.Rules.Parser.Parsed
import RsProxy.Rules.Reference
import RsProxy.Rules.Resolution
import RsProxy.Rules.Snapshot

/-!
# The index loses no rule

A rule that matches a request is among its candidates: the key it is filed under is a necessary
condition of a match. Resolution through the index therefore gives the same result as a visit of
all enabled rules.
-/

namespace RsProxy.Rules

open Text Data Regex List RuleIndex Nat

/-! ### Required literals -/

theorem mem_of_maxByLen {bs b} (h : maxByLen bs = some b) : b ∈ bs := by
  induction bs with
  | nil => cases h
  | cons a bs ih =>
    rw [maxByLen] at h
    split at h
    next best hbest =>
      split at h
      · cases h
        exact mem_cons_self
      · cases h
        exact mem_cons_of_mem _ (ih hbest)
    · cases h
      exact mem_cons_self

mutual

/-- Whatever an expression matches contains the literal it requires. -/
theorem infix_of_longestRequired (h : Hir) {b pre mid post} (hb : longestRequired h = some b)
    (hm : h.Matches pre mid post) : b <:+: mid := by
  cases h with
  | literal bytes =>
    cases hb
    cases hm
    exact infix_rfl
  | capture sub =>
    cases hm with
    | capture hsub => exact infix_of_longestRequired sub hb hsub
  | concat parts =>
    cases hm with
    | concat hseq => exact infix_of_requiredParts parts (mem_of_maxByLen hb) hseq
  | repetition min max sub =>
    rw [longestRequired] at hb
    split_ifs at hb with hmin
    cases hm with
    | repetition n hn _ hseq =>
      -- The expression is repeated at least once, so one copy of it matches inside.
      have hmem : sub ∈ replicate n sub := mem_replicate.mpr ⟨by omega, rfl⟩
      obtain ⟨pre', mid', post', hsub, hin⟩ := hseq.part hmem
      exact (infix_of_longestRequired sub hb hsub).trans hin
  | empty | cls | look | alternation => cases hb

theorem infix_of_requiredParts (hs : List Hir) {b pre mid post : Bytes} (hb : b ∈ requiredParts hs)
    (hm : Hir.MatchesSeq hs pre mid post) : b <:+: mid := by
  cases hs with
  | nil => cases hb
  | cons h hs =>
    cases hm with
    | @cons _ _ _ m m' _ hfirst hrest =>
      rw [requiredParts] at hb
      have hrest' : b ∈ requiredParts hs → b <:+: m ++ m' := fun hb =>
        (infix_of_requiredParts hs hb hrest).trans (suffix_append _ _).isInfix
      split at hb
      next b' hb' =>
        rcases mem_cons.mp hb with rfl | hb
        · exact (infix_of_longestRequired h hb' hfirst).trans (prefix_append _ _).isInfix
        · exact hrest' hb
      · exact hrest' hb

end

theorem utf8_of_fromUtf8 {bytes s} (h : fromUtf8 bytes = some s) : utf8 s = bytes := by
  unfold fromUtf8 at h
  dsimp only at h
  split_ifs at h with hutf8
  cases h
  exact hutf8

section Regex

variable [Crates]

/-- A match of a case-sensitive expression is a match of its parsed form. -/
theorem RegexMatcher.matchesIn (hfollows : FollowsHir) {r : RegexMatcher} {text hir}
    (hci : r.caseInsensitive = false) (hhir : Crates.regexSyntax r.pattern = some hir)
    (hm : (r.matches text).isSome) : hir.MatchesIn (utf8 text) := by
  unfold RegexMatcher.matches at hm
  split at hm
  · split at hm
    next regex hregex =>
      rw [hci] at hregex
      obtain ⟨m, hm⟩ := Option.isSome_iff_exists.mp (Option.isSome_map .. ▸ hm)
      exact hfollows.linear _ _ _ _ hregex hhir _ _ hm
    · cases hm
  · split at hm
    next regex hregex =>
      rw [hci] at hregex
      split at hm
      next m hm' =>
        obtain ⟨m, rfl⟩ := Option.isSome_iff_exists.mp (Option.isSome_map .. ▸ hm)
        exact hfollows.fancy _ _ _ _ hregex hhir _ _ hm'
      · cases hm
    · cases hm

theorem occurs_of_requiredRegexLiteral (hfollows : FollowsHir) {r literal text}
    (hlit : requiredRegexLiteral r = some literal) (hm : (r.matches text).isSome) :
    Occurs false literal text := by
  unfold requiredRegexLiteral at hlit
  split_ifs at hlit with hci
  obtain ⟨hir, hhir, hlit⟩ := Option.bind_eq_some_iff.mp hlit
  obtain ⟨bytes, hbytes, hlit⟩ := Option.bind_eq_some_iff.mp hlit
  obtain ⟨s, hs, hlit⟩ := Option.bind_eq_some_iff.mp hlit
  split_ifs at hlit
  cases hlit
  obtain ⟨pre, mid, post, htext, hmatch⟩ :=
    RegexMatcher.matchesIn hfollows (Bool.eq_false_iff.mpr hci) hhir hm
  have hin : bytes <:+: mid := infix_of_longestRequired hir hbytes hmatch
  show utf8 literal <:+: utf8 text
  rw [utf8_of_fromUtf8 hs, htext]
  exact hin.trans (infix_append pre mid post)

end Regex

/-! ### Host keys -/

/-- The key's bucket is looked up for the host. -/
def MatcherIndexKey.Admits (key : MatcherIndexKey) (host : Str) : Prop :=
  match key with
  | .exact h => h = host
  | .suffix s => s ∈ hostSuffixes host
  | .global => True

theorem mem_afterDots {labels} {base : Str} (hne : base ≠ []) :
    base ∈ afterDots (labels ++ '.' :: base) := by
  induction labels with
  | nil =>
    rw [nil_append, afterDots, if_pos ⟨rfl, hne⟩]
    exact mem_cons_self
  | cons c labels ih =>
    rw [cons_append, afterDots]
    split
    · exact mem_cons_of_mem _ ih
    · exact ih

theorem mem_hostSuffixes (labels : Str) {base : Str} (hne : base ≠ []) :
    base ∈ hostSuffixes (labels ++ '.' :: base) :=
  mem_cons_of_mem _ (mem_afterDots hne)

theorem ne_nil_of_isPlainDomain {s} (h : isPlainDomain s) : s ≠ [] := by
  rintro rfl
  cases h

theorem not_active_of_isPlainDomain {s} (h : isPlainDomain s) : globSyntaxIsActive s = false := by
  unfold isPlainDomain at h
  rw [Bool.and_eq_true] at h
  refine any_eq_false.mpr fun c hc hactive => ?_
  have hplain := all_eq_true.mp h.2 c hc
  rcases (by simpa using hactive : c = '*' ∨ c = '\\') with rfl | rfl <;> simp at hplain

theorem mem_hostSuffixes_of_isWithin {base host : Str} (hne : base ≠ []) (h : IsWithin base host) :
    base ∈ hostSuffixes host := by
  rcases h with rfl | ⟨labels, rfl⟩
  · exact mem_cons_self
  · exact mem_hostSuffixes labels hne

/-- A host glob that matches is filed under a key of the host. -/
theorem globIndexKey_admits {glob host verdict}
    (h : (hostShape (normalizeHost glob.host)).admits host verdict) :
    (globIndexKey glob).Admits host := by
  unfold globIndexKey
  unfold normalizeHost at h
  dsimp only
  generalize toAsciiLowercase (trimBrackets glob.host) = pattern at h ⊢
  split
  · trivial
  cases hdeep : stripPrefix "**." pattern with
  | some base =>
    rw [stripPrefix_eq_some.mp hdeep] at h
    dsimp only [Option.orElse]
    split
    next hplain =>
      exact mem_hostSuffixes_of_isWithin (ne_nil_of_isPlainDomain hplain) (isWithin_iff.mpr h)
    · trivial
  | none =>
    cases hchild : stripPrefix "*." pattern with
    | some base =>
      rw [stripPrefix_eq_some.mp hchild] at h
      dsimp only [Option.orElse]
      split
      next hplain =>
        exact mem_hostSuffixes_of_isWithin (ne_nil_of_isPlainDomain hplain) (isWithin_of_child h)
      · trivial
    | none =>
      cases hdot : stripPrefix "." pattern with
      | some base =>
        dsimp only [Option.orElse]
        split
        next hplain =>
          -- A leading dot is no wildcard: the pattern is compared as it stands.
          have hactive : globSyntaxIsActive pattern = false := by
            rw [stripPrefix_eq_some.mp hdot]
            have := not_active_of_isPlainDomain hplain
            simpa [globSyntaxIsActive] using this
          rw [hostShape_of_not_active hactive] at h
          have hhost : pattern = host := by simpa [HostShape.admits, hactive] using h
          rw [← hhost, stripPrefix_eq_some.mp hdot]
          exact mem_hostSuffixes [] (ne_nil_of_isPlainDomain hplain)
        · trivial
      | none =>
        dsimp only [Option.orElse]
        split
        · trivial
        · split
          next hplain =>
            have hactive := not_active_of_isPlainDomain hplain
            rw [hostShape_of_not_active hactive] at h
            show pattern = host
            simpa [HostShape.admits, hactive] using h
          · trivial

/-! ### Buckets -/

section Buckets

variable [Crates] (b : Buckets)

/-- The rule with the number is filed where its matcher belongs. -/
def Buckets.Files (b : Buckets) (idx : Nat) (matcher : Matcher) : Prop :=
  match Buckets.prefilterLiteral matcher with
  | some literal =>
    idx ∈ (b.prefilterLiteralRules.get? literal).getD [] ∧ idx ∈ b.prefilterRuleIds
  | none =>
    match matcherIndexKey matcher with
    | .exact host => idx ∈ (b.domainExact.get? host).getD []
    | .suffix host => idx ∈ (b.domainSuffix.get? host).getD []
    | .global => idx ∈ b.global

omit [Crates] in
theorem mem_upsert_pushId {m : SortedMap Str (List Nat)} {k k' idx i} :
    i ∈ ((m.upsert k (Buckets.pushId idx)).get? k').getD [] ↔
      i ∈ (m.get? k').getD [] ∨ (k' = k ∧ i = idx) := by
  rw [SortedMap.get?_upsert]
  by_cases hk : k' = k
  · subst hk
    simp [Buckets.pushId]
  · simp [hk]

theorem Buckets.files_insert (idx : Nat) (matcher : Matcher) :
    (b.insert idx matcher).Files idx matcher := by
  unfold Buckets.Files Buckets.insert
  cases prefilterLiteral matcher with
  | some literal =>
    exact ⟨mem_upsert_pushId.mpr (.inr ⟨rfl, rfl⟩), by simp⟩
  | none =>
    unfold insertByKey
    cases matcherIndexKey matcher with
    | exact | suffix => exact mem_upsert_pushId.mpr (.inr ⟨rfl, rfl⟩)
    | global => exact mem_append_right _ (mem_singleton_self idx)

/-- What is in a bucket stays there. -/
structure Buckets.Le (b b' : Buckets) : Prop where
  domainExact : ∀ i k, i ∈ (b.domainExact.get? k).getD [] → i ∈ (b'.domainExact.get? k).getD []
  domainSuffix : ∀ i k, i ∈ (b.domainSuffix.get? k).getD [] → i ∈ (b'.domainSuffix.get? k).getD []
  global : ∀ i ∈ b.global, i ∈ b'.global
  literals : ∀ i k, i ∈ (b.prefilterLiteralRules.get? k).getD [] →
    i ∈ (b'.prefilterLiteralRules.get? k).getD []
  prefilterRuleIds : ∀ i ∈ b.prefilterRuleIds, i ∈ b'.prefilterRuleIds

theorem Buckets.le_insert (idx : Nat) (matcher : Matcher) : b.Le (b.insert idx matcher) := by
  have hpush : ∀ {m : SortedMap Str (List Nat)} {k} (i : Nat) (k' : Str),
      i ∈ (m.get? k').getD [] → i ∈ ((m.upsert k (pushId idx)).get? k').getD [] :=
    fun _ _ h => mem_upsert_pushId.mpr (.inl h)
  unfold Buckets.insert
  cases prefilterLiteral matcher with
  | some literal =>
    exact ⟨fun _ _ h => h, fun _ _ h => h, fun _ h => h, hpush,
      fun _ h => mem_append_left _ h⟩
  | none =>
    unfold insertByKey
    cases matcherIndexKey matcher with
    | exact host => exact ⟨hpush, fun _ _ h => h, fun _ h => h, fun _ _ h => h, fun _ h => h⟩
    | suffix host => exact ⟨fun _ _ h => h, hpush, fun _ h => h, fun _ _ h => h, fun _ h => h⟩
    | global =>
      exact ⟨fun _ _ h => h, fun _ _ h => h, fun _ h => mem_append_left _ h, fun _ _ h => h,
        fun _ h => h⟩

theorem Buckets.Files.mono {b b' : Buckets} {idx matcher} (h : b.Files idx matcher)
    (hle : b.Le b') : b'.Files idx matcher := by
  unfold Buckets.Files at h ⊢
  cases hlit : prefilterLiteral matcher with
  | some literal =>
    rw [hlit] at h
    exact ⟨hle.literals _ _ h.1, hle.prefilterRuleIds _ h.2⟩
  | none =>
    rw [hlit] at h
    cases hkey : matcherIndexKey matcher with
    | exact host => rw [hkey] at h; exact hle.domainExact _ _ h
    | suffix host => rw [hkey] at h; exact hle.domainSuffix _ _ h
    | global => rw [hkey] at h; exact hle.global _ h

/-- The rules behind literals are numbered once, below the next number. -/
structure Buckets.Numbered (b : Buckets) (next : Nat) : Prop where
  nodup : b.prefilterRuleIds.Nodup
  lt : ∀ i ∈ b.prefilterRuleIds, i < next
  literals : ∀ k, ∀ i ∈ (b.prefilterLiteralRules.get? k).getD [], i ∈ b.prefilterRuleIds

theorem Buckets.Numbered.insert {b : Buckets} {next} (h : b.Numbered next) (matcher : Matcher) :
    (b.insert next matcher).Numbered (next + 1) := by
  have hlt : ∀ i ∈ b.prefilterRuleIds, i < next + 1 := fun i hi => lt_succ_of_lt (h.lt i hi)
  unfold Buckets.insert
  cases prefilterLiteral matcher with
  | some literal =>
    refine ⟨?_, ?_, ?_⟩
    · refine nodup_append.mpr ⟨h.nodup, nodup_singleton _, fun a ha b hb => ?_⟩
      rw [mem_singleton.mp hb]
      exact (h.lt a ha).ne
    · intro i hi
      rcases mem_append.mp hi with hi | hi
      · exact hlt i hi
      · rw [mem_singleton.mp hi]
        exact lt_succ_self next
    · intro k i hi
      rcases mem_upsert_pushId.mp hi with hi | ⟨-, rfl⟩
      · exact mem_append_left _ (h.literals k i hi)
      · exact mem_append_right _ (mem_singleton_self _)
  | none =>
    unfold insertByKey
    cases matcherIndexKey matcher <;> exact ⟨h.nodup, hlt, h.literals⟩

theorem Buckets.le_insertAll (next : Nat) (rules : List Rule) : b.Le (b.insertAll next rules) := by
  induction rules generalizing b next with
  | nil => exact ⟨fun _ _ h => h, fun _ _ h => h, fun _ h => h, fun _ _ h => h, fun _ h => h⟩
  | cons rule rules ih =>
    have h₁ := b.le_insert next rule.matcher
    have h₂ := ih (b.insert next rule.matcher) (next + 1)
    exact ⟨fun i k h => h₂.domainExact i k (h₁.domainExact i k h),
      fun i k h => h₂.domainSuffix i k (h₁.domainSuffix i k h),
      fun i h => h₂.global i (h₁.global i h), fun i k h => h₂.literals i k (h₁.literals i k h),
      fun i h => h₂.prefilterRuleIds i (h₁.prefilterRuleIds i h)⟩

/-- Sorting in files every rule under its number. -/
theorem Buckets.files_insertAll (next : Nat) {rules j rule} (hrule : rules[j]? = some rule) :
    (b.insertAll next rules).Files (next + j) rule.matcher := by
  induction rules generalizing b next j with
  | nil => simp at hrule
  | cons first rules ih =>
    cases j with
    | zero =>
      cases hrule
      exact (b.files_insert next rule.matcher).mono (le_insertAll _ _ _)
    | succ j =>
      have := ih (b.insert next first.matcher) (next + 1) hrule
      rwa [add_assoc, add_comm 1 j] at this

theorem Buckets.numbered_insertAll {b : Buckets} {next} (h : b.Numbered next) (rules : List Rule) :
    (b.insertAll next rules).Numbered (next + rules.length) := by
  induction rules generalizing b next with
  | nil => exact h
  | cons rule rules ih =>
    rw [length_cons, ← add_assoc, add_right_comm]
    exact ih (h.insert rule.matcher)

omit [Crates] in
theorem Buckets.numbered_empty : Buckets.empty.Numbered 0 where
  nodup := nodup_nil
  lt := nofun
  literals k i hi := by simp [Buckets.empty] at hi

end Buckets

open Buckets

/-! ### Candidates -/

theorem mem_extendUnique {out values i} : i ∈ extendUnique out values ↔ i ∈ out ∨ i ∈ values := by
  unfold extendUnique
  induction values generalizing out with
  | nil => simp
  | cons v values ih =>
    rw [foldl_cons, ih, mem_cons]
    split
    next hv =>
      constructor
      · rintro (h | h)
        · exact .inl h
        · exact .inr (.inr h)
      · rintro (h | rfl | h)
        · exact .inl h
        · exact .inl hv
        · exact .inr h
    · rw [mem_append, mem_singleton, or_assoc]

theorem nodup_extendUnique {out} (h : out.Nodup) (values : List Nat) :
    (extendUnique out values).Nodup := by
  unfold extendUnique
  induction values generalizing out with
  | nil => exact h
  | cons v values ih =>
    rw [foldl_cons]
    split
    · exact ih h
    next hv =>
      refine ih (nodup_append.mpr ⟨h, nodup_singleton v, fun a ha b hb => ?_⟩)
      rw [mem_singleton.mp hb]
      rintro rfl
      exact hv ha

/-- The search may stop early only when nothing is left to be found. -/
theorem mem_prefilterLoop {literalRules} {all : List Nat}
    (hrules : ∀ rules ∈ literalRules, ∀ i ∈ rules, i ∈ all) {found out} (hout : out.Nodup)
    (hsub : ∀ i ∈ out, i ∈ all) {i} (hi : i ∈ all)
    (hfound : i ∈ out ∨ ∃ p ∈ found, ∃ rules, literalRules[p]? = some rules ∧ i ∈ rules) :
    i ∈ prefilterLoop literalRules all.length found out := by
  induction found generalizing out with
  | nil =>
    rcases hfound with h | ⟨p, hp, -⟩
    · exact h
    · cases hp
  | cons p found ih =>
    rw [prefilterLoop]
    cases hp : literalRules[p]? with
    | none =>
      refine ih hout hsub (hfound.imp id ?_)
      rintro ⟨p', hp', rules, hrules', hi'⟩
      rcases mem_cons.mp hp' with rfl | hp'
      · rw [hp] at hrules'
        cases hrules'
      · exact ⟨p', hp', rules, hrules', hi'⟩
    | some rules =>
      dsimp only
      have hout' := nodup_extendUnique hout rules
      have hsub' : ∀ i ∈ extendUnique out rules, i ∈ all := by
        intro j hj
        rcases mem_extendUnique.mp hj with hj | hj
        · exact hsub j hj
        · exact hrules rules (mem_of_getElem? hp) j hj
      split
      next hlen =>
        have hperm := (subperm_of_subset hout' hsub').perm_of_length_le (le_of_eq hlen.symm)
        exact hperm.mem_iff.mpr hi
      · refine ih hout' hsub' ?_
        rcases hfound with h | ⟨p', hp', rules', hrules', hi'⟩
        · exact .inl (mem_extendUnique.mpr (.inl h))
        · rcases mem_cons.mp hp' with rfl | hp'
          · rw [hp] at hrules'
            cases hrules'
            exact .inl (mem_extendUnique.mpr (.inr hi'))
          · exact .inr ⟨p', hp', rules', hrules', hi'⟩

section Complete

variable [Crates] {rawUrl : Str}

/-- A matcher that matches is filed under a key of the host, or behind a literal in the URL. -/
theorem Matcher.filed_of_matches (hfollows : FollowsHir) {matcher url globs resources}
    (h : (matcher.matchesCompiled url rawUrl globs resources).isSome) :
    (∀ literal, prefilterLiteral matcher = some literal → Occurs false literal rawUrl) ∧
      (matcherIndexKey matcher).Admits (normalizeHost url.host) := by
  cases matcher with
  | exactUrl expected =>
    refine ⟨by simp [prefilterLiteral], ?_⟩
    rw [matchesCompiled] at h
    split at h
    next hexact =>
      obtain ⟨parts, hparse, -, hhost, -⟩ := exactUrlMatches_iff.mp hexact
      rw [matcherIndexKey, hparse]
      show toAsciiLowercase (trimBrackets parts.host) = normalizeHost url.host
      rw [hhost]
      rfl
    · cases h
  | glob g =>
    refine ⟨by simp [prefilterLiteral], ?_⟩
    cases resources with
    | glob hostId portId pathId queryId =>
      obtain ⟨captures, hcaptures⟩ := Option.isSome_iff_exists.mp h
      obtain ⟨-, hhost, -⟩ := GlobMatcher.matchesCompiled_eq_some.mp hcaptures
      rw [hostMatchesId_eq] at hhost
      exact globIndexKey_admits hhost
    | none | not => cases h
  | port | not => exact ⟨by simp [prefilterLiteral], trivial⟩
  | regex r =>
    refine ⟨fun literal hliteral => ?_, trivial⟩
    exact occurs_of_requiredRegexLiteral hfollows hliteral h

variable {idx : Nat} (rs : RuleSet)

namespace RuleSet

/-- The buckets looked up for a request, as a set. -/
theorem mem_candidateRuleIndices {rs : RuleSet} {url i} :
    i ∈ rs.candidateRuleIndices (some url) rawUrl ↔
      i ∈ bucket rs.index.domainExact (normalizeHost url.host) ∨
      (∃ suffix ∈ hostSuffixes (normalizeHost url.host), i ∈ bucket rs.index.domainSuffix suffix) ∨
      i ∈ rs.index.global ∨ i ∈ rs.index.prefilterMatches rawUrl := by
  have hfold : ∀ (suffixes : List Str) out,
      i ∈ suffixes.foldl (fun indices suffix =>
          extendUnique indices (bucket rs.index.domainSuffix suffix)) out ↔
        i ∈ out ∨ ∃ suffix ∈ suffixes, i ∈ bucket rs.index.domainSuffix suffix := by
    intro suffixes
    induction suffixes with
    | nil => simp
    | cons s suffixes ih =>
      intro out
      rw [foldl_cons, ih, mem_extendUnique]
      simp [or_assoc]
  unfold candidateRuleIndices
  rw [mem_extendUnique, mem_extendUnique, hfold, mem_extendUnique]
  simp only [not_mem_nil, false_or, or_assoc]
  rfl

theorem nodup_candidateRuleIndices (url : Option UrlParts) (rawUrl : Str) :
    (rs.candidateRuleIndices url rawUrl).Nodup := by
  have hfold : ∀ (suffixes : List Str) out, out.Nodup →
      (suffixes.foldl (fun indices suffix =>
        extendUnique indices (bucket rs.index.domainSuffix suffix)) out).Nodup := by
    intro suffixes
    induction suffixes with
    | nil => exact fun _ h => h
    | cons s suffixes ih =>
      intro out hout
      exact ih _ (nodup_extendUnique hout _)
  cases url with
  | none => exact nodup_range
  | some url =>
    apply nodup_extendUnique
    apply nodup_extendUnique
    apply hfold
    apply nodup_extendUnique
    exact nodup_nil

/-- With an automaton, a rule filed behind a literal of the URL is found by the search. -/
theorem mem_prefilterMatches (hsearch : SearchIsExact) (rs : RuleSet) {search}
    (hprefilter : rs.index.prefilter = some search) {literal}
    (hidx : idx ∈ ((empty.insertAll 0 rs.rules).prefilterLiteralRules.get? literal).getD [])
    (hoccurs : Occurs false literal rawUrl) : idx ∈ rs.index.prefilterMatches rawUrl := by
  have hnumbered := numbered_insertAll numbered_empty rs.rules
  obtain ⟨hautomaton, hrules, hids⟩ := rs.builtFrom.filtered search hprefilter
  set buckets := empty.insertAll 0 rs.rules
  have hall : idx ∈ buckets.prefilterRuleIds := hnumbered.literals literal idx hidx
  rcases hget : buckets.prefilterLiteralRules.get? literal with _ | ids <;> rw [hget] at hidx
  · cases hidx
  obtain ⟨place, hkey, hvalue⟩ := SortedMap.exists_place_of_get? hget
  have hfound : place ∈ search rawUrl :=
    (hsearch _ _ _ hautomaton rawUrl place).mpr ⟨literal, hkey, hoccurs⟩
  unfold prefilterMatches
  rw [hprefilter, hrules, hids]
  refine mem_prefilterLoop ?_ nodup_nil nofun hall
    (.inr ⟨place, hfound, ids, hvalue, hidx⟩)
  intro rules hmem i hi
  obtain ⟨key, hkey⟩ := SortedMap.exists_get?_of_mem_values hmem
  exact hnumbered.literals key i (by rw [hkey]; exact hi)

/-- Without one, it is a global rule. -/
theorem mem_global_of_literal (hprefilter : rs.index.prefilter = none) {literal}
    (hidx : idx ∈ ((empty.insertAll 0 rs.rules).prefilterLiteralRules.get? literal).getD []) :
    idx ∈ rs.index.global := by
  cases hget : (empty.insertAll 0 rs.rules).prefilterLiteralRules.get? literal with
  | none =>
    rw [hget] at hidx
    cases hidx
  | some ids =>
    rw [hget] at hidx
    obtain ⟨place, -, hvalue⟩ := SortedMap.exists_place_of_get? hget
    exact rs.builtFrom.unfiltered hprefilter ids (mem_of_getElem? hvalue) idx hidx

/-- A rule whose matcher matches is a candidate. -/
theorem mem_candidateRuleIndices_of_matches (hsearch : SearchIsExact) (hfollows : FollowsHir)
    (rs : RuleSet) {rule} (hrule : rs.rules[idx]? = some rule) {url resources}
    (h : (rule.matcher.matchesCompiled url rawUrl rs.index.compiledGlobs resources).isSome) :
    idx ∈ rs.candidateRuleIndices (some url) rawUrl := by
  obtain ⟨hliteral, hkey⟩ := Matcher.filed_of_matches hfollows h
  have hfiled : (empty.insertAll 0 rs.rules).Files idx rule.matcher :=
    zero_add idx ▸ files_insertAll empty 0 hrule
  unfold Buckets.Files at hfiled
  rw [mem_candidateRuleIndices]
  cases hlit : prefilterLiteral rule.matcher with
  | some literal =>
    rw [hlit] at hfiled
    cases hprefilter : rs.index.prefilter with
    | some search =>
      have hfound := rs.mem_prefilterMatches hsearch hprefilter hfiled.1 (hliteral literal hlit)
      exact .inr (.inr (.inr hfound))
    | none => exact .inr (.inr (.inl (rs.mem_global_of_literal hprefilter hfiled.1)))
  | none =>
    rw [hlit] at hfiled
    rw [rs.builtFrom.domainExact, rs.builtFrom.domainSuffix]
    cases hmatcher : matcherIndexKey rule.matcher with
    | exact host =>
      rw [hmatcher] at hfiled hkey
      obtain rfl : host = normalizeHost url.host := hkey
      exact .inl hfiled
    | suffix host =>
      rw [hmatcher] at hfiled hkey
      exact .inr (.inl ⟨host, hkey, hfiled⟩)
    | global =>
      rw [hmatcher] at hfiled
      exact .inr (.inr (.inl (rs.builtFrom.global idx hfiled)))

/-! ### Resolution without the index -/

def isEnabled (rs : RuleSet) (idx : Nat) : Bool := rs.rules[idx]?.any fun rule => !rule.disabled

/-- Every enabled rule, important ones first and otherwise in rule order. -/
def enabledRules (rs : RuleSet) : List Nat :=
  let enabled := (range rs.rules.length).filter rs.isEnabled
  enabled.filter rs.isImportant ++ enabled.filter (!rs.isImportant ·)

/-- A resolution that tries every enabled rule. -/
def resolveNaive (rs : RuleSet) (q : Query) : ResolveResult := rs.resolveOrdered q rs.enabledRules

theorem mem_enabledRules {rs : RuleSet} : idx ∈ rs.enabledRules ↔ rs.isEnabled idx := by
  have hlt : rs.isEnabled idx → idx < rs.rules.length := by
    intro h
    by_contra hge
    rw [isEnabled, getElem?_eq_none (Nat.le_of_not_lt hge)] at h
    cases h
  simp only [enabledRules, mem_append, mem_filter]
  cases rs.isImportant idx <;> simpa using hlt

theorem pairwise_enabledRules : rs.enabledRules.Pairwise rs.Precedes := by
  have hrange : ((range rs.rules.length).filter rs.isEnabled).Pairwise (· ≤ ·) :=
    (pairwise_le_range).filter _
  have hpart : ∀ p important, (∀ i, p i → rs.isImportant i = important) →
      (((range rs.rules.length).filter rs.isEnabled).filter p).Pairwise rs.Precedes := by
    intro p important hp
    refine (hrange.filter p).imp_of_mem fun hi hj hle => .inr ⟨?_, hle⟩
    rw [hp _ (mem_filter.mp hi).2, hp _ (mem_filter.mp hj).2]
  refine pairwise_append.mpr ⟨hpart _ true fun i h => h, hpart _ false ?_, ?_⟩
  · simp
  · intro i hi j hj
    exact .inl ⟨(mem_filter.mp hi).2, by simpa using (mem_filter.mp hj).2⟩

theorem sortRules_enabledRules : rs.sortRules rs.enabledRules = rs.enabledRules :=
  rs.pairwise_enabledRules.insertionSort_eq

theorem nodup_enabledRules : rs.enabledRules.Nodup := by
  have hnodup : ((range rs.rules.length).filter rs.isEnabled).Nodup := nodup_range.filter _
  refine nodup_append.mpr ⟨hnodup.filter _, hnodup.filter _, ?_⟩
  rintro i hi _ hj rfl
  have himportant := (mem_filter.mp hi).2
  simp [himportant] at hj

/-- A rule that applies is a candidate and is enabled. -/
theorem visited_of_capturesAt (hsearch : SearchIsExact) (hfollows : FollowsHir) (rs : RuleSet) {q}
    (h : (rs.capturesAt q idx).isSome) :
    idx ∈ rs.candidateRuleIndices q.parts q.req.url ∧ idx ∈ rs.enabledRules := by
  unfold capturesAt at h
  cases hrule : rs.rules[idx]? with
  | none => simp [hrule] at h
  | some rule =>
    cases hresources : rs.index.compiledResources[idx]? with
    | none => simp [hresources] at h
    | some resources =>
      rw [hrule, hresources] at h
      obtain ⟨captures, hcaptures⟩ := Option.isSome_iff_exists.mp h
      obtain ⟨henabled, hmatch, -, -⟩ := Rule.applies_eq_some.mp hcaptures
      obtain ⟨url, hurl, hmatch⟩ := Option.bind_eq_some_iff.mp hmatch
      constructor
      · rw [hurl]
        exact rs.mem_candidateRuleIndices_of_matches hsearch hfollows hrule
          (Option.isSome_of_mem hmatch)
      · simp [mem_enabledRules, isEnabled, hrule, henabled]

/-- The candidates offer what the enabled rules offer. -/
theorem offers_candidates (hsearch : SearchIsExact) (hfollows : FollowsHir) (rs : RuleSet) {q} :
    rs.offers q (rs.sortRules (rs.candidateRuleIndices q.parts q.req.url)) =
      rs.offers q rs.enabledRules := by
  rw [← rs.offers_filter q, ← rs.offers_filter q rs.enabledRules, ← rs.sortRules_enabledRules]
  rw [rs.filter_sortRules_eq (rs.nodup_candidateRuleIndices _ _) rs.nodup_enabledRules]
  intro idx hidx
  obtain ⟨hcandidate, henabled⟩ := rs.visited_of_capturesAt hsearch hfollows hidx
  exact iff_of_true hcandidate henabled

/-- Resolution selects among the offers of the enabled rules. -/
theorem resolveInner_eq_selected (hsearch : SearchIsExact) (hfollows : FollowsHir) (rs : RuleSet)
    (q : Query) :
    rs.resolveInner q =
      ⟨(rs.selected q rs.enabledRules).map fun o => o.resolved,
        contributingRules (rs.selected q rs.enabledRules)⟩ := by
  unfold resolveInner
  split
  next hempty =>
    have hnone : rs.enabledRules = [] := by
      simp [enabledRules, isEmpty_iff.mp hempty]
    rw [hnone]
    rfl
  · rw [resolveOrdered_eq, selected, rs.offers_candidates hsearch hfollows]
    rfl

/-- Resolution through the candidate index gives the actions, in the same order and with the same
captures, and the matched rules that a visit of every enabled rule gives. -/
theorem resolveInner_eq_resolveNaive (hsearch : SearchIsExact) (hfollows : FollowsHir)
    (rs : RuleSet) (q : Query) : rs.resolveInner q = rs.resolveNaive q := by
  rw [rs.resolveInner_eq_selected hsearch hfollows, resolveNaive, resolveOrdered_eq]

omit [Crates] in
/-- A rule of each bucket, and one that is in none of those looked up. -/
theorem resolveInner_eq_resolveNaive_of_buckets :
    let groups := [("g".toList,
      "a.test tag(exact)\n*.test tag(suffix)\n/health/ tag(literal)\n:80 tag(global)\n".toList ++
        "b.test tag(none)".toList)]
    let q : Query := ⟨RequestMeta.get "http://a.test/health", none, true, fun _ => none⟩
    ∃ rs, @parseGroupsWithProfile reference groups false = some (.ok rs) ∧
      (@candidateRuleIndices reference rs q.parts q.req.url).length = 4 ∧
      (@resolveNaive reference rs q).matchedRules.map MatchedRule.line = [1, 2, 3, 4] ∧
      @resolveInner reference rs q = @resolveNaive reference rs q := by
  intro groups q
  obtain ⟨rs, hparse, hcandidates, hlines⟩ := @exists_of_parsesTo reference groups false
    (fun rs => (@candidateRuleIndices reference rs q.parts q.req.url).length = 4 ∧
      (@resolveNaive reference rs q).matchedRules.map MatchedRule.line = [1, 2, 3, 4]) _
    (by decide +kernel)
  exact ⟨rs, hparse, hcandidates, hlines,
    @resolveInner_eq_resolveNaive reference reference_searchIsExact reference_followsHir rs q⟩

end RuleSet

end Complete

end RsProxy.Rules
