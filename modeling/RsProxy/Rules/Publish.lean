import RsProxy.Rules.BodyLiterals
import RsProxy.Rules.GlobPrograms
import RsProxy.Rules.Parser.Parsed
import RsProxy.Rules.Reference

/-!
# From sources to snapshots

A source is published exactly when it is accepted, with the rules of its effective lines. Otherwise
there are diagnostics, at most as many as the limit allows, and nothing is published.

Building the index of accepted rules can only fail in the engines: a glob whose program does not
compile, or a literal search that does not build. The parser has tried the globs it has read, but
some are registered in another form than they were tried in.
-/

namespace RsProxy.Rules

open Text Data List Option Condition CompiledGlobSet CompiledBodyContainsSet

/-- The literals a snapshot searches for. -/
def searchedLiterals (rules : List Rule) : List Str :=
  let source := (rules.flatMap Rule.bodyLiterals).foldl SortedMap.insertKey SortedMap.empty
  ((source.keys.map toAsciiLowercase).foldl SortedMap.insertKey SortedMap.empty).keys

variable [Crates] {bodyLiterals : CompiledBodyContainsSet} {globs : CompiledGlobSet}
  {rules : List Rule}

/-- The globs of a condition that are registered in another form than the parser has tried. -/
def Condition.alteredPatterns : Condition → List (Str × Char)
  | .url _ => []
  | c => c.patterns

/-- The engines accept the globs that the parser has not tried, and the literals of the rules. -/
structure Compiles (rules : List Rule) : Prop where
  globs : ∀ rule ∈ rules, ∀ c ∈ rule.conditions.flatMap nodes, ∀ p ∈ c.alteredPatterns,
    (compileGlobRegex p.1 p.2).isSome
  literals : searchedLiterals rules ≠ [] →
    (Crates.ahoCorasick true (searchedLiterals rules)).isSome

/-! ### Building the index -/

theorem CompiledBodyContainsSet.build_isSome_iff {rules} :
    (build rules).isSome ↔
      (searchedLiterals rules ≠ [] →
        (Crates.ahoCorasick true (searchedLiterals rules)).isSome) := by
  rw [build_eq]
  unfold fromLiterals
  change (if (searchedLiterals rules).isEmpty then _ else _ : Option _).isSome ↔ _
  by_cases hnil : searchedLiterals rules = []
  · simp [hnil]
  · rw [if_neg (by simpa using hnil), isSome_map]
    exact ⟨fun h _ => h, fun h => h hnil⟩

omit [Crates] in
/-- A condition whose literals have numbers can be bound. -/
theorem exists_boundTo {c : Condition}
    (h : ∀ l, bodyContains l ∈ c.nodes → (bodyLiterals.id l).isSome) :
    ∃ r, c.BoundTo globs bodyLiterals r := by
  induction c using tree_induction with
  | leaf c hleaf =>
    cases c with
    | bodyContains l =>
      obtain ⟨i, hi⟩ := isSome_iff_exists.mp (h l (mem_nodes_self _))
      exact ⟨.bodyContains i, map_eq_some_iff.mpr ⟨i, hi, rfl⟩⟩
    | url condition => cases condition <;> exact ⟨_, rfl⟩
    | any | all | not => cases hleaf
    | _ => exact ⟨_, rfl⟩
  | any cs ih | all cs ih =>
    rw [nodes, nodesAll_eq] at h
    obtain ⟨rs, hrs⟩ := exists_forall₂ fun c hc =>
      ih c hc fun l hl => h l (mem_cons_of_mem _ (mem_flatMap_of_mem hc hl))
    exact ⟨.children rs, boundTo_any.mpr ⟨rs, hrs, rfl⟩⟩
  | not c ih =>
    obtain ⟨r, hr⟩ := ih fun l hl => h l (mem_cons_of_mem _ hl)
    exact ⟨.not r, boundTo_not.mpr ⟨r, hr, rfl⟩⟩

theorem exists_bindRule (hbuild : CompiledBodyContainsSet.build rules = some bodyLiterals) {rule}
    (hrule : rule ∈ rules) :
    ∃ resources, bindRule globs bodyLiterals rule = some resources := by
  have hids : ∀ l, bodyContains l ∈ rule.conditions.flatMap nodes →
      (bodyLiterals.id l).isSome := by
    intro l hl
    obtain ⟨i, _, hi, -⟩ := build_spec hbuild
      (mem_flatMap_of_mem hrule (Rule.mem_bodyLiterals.mpr hl))
    rw [hi]
    rfl
  have hbound : ∀ c ∈ rule.conditions, ∃ r, c.BoundTo globs bodyLiterals r := fun c hc =>
    exists_boundTo fun l hl => hids l (mem_flatMap_of_mem hc hl)
  obtain ⟨rs, hforall⟩ := exists_forall₂ hbound
  have hrs := bindAll_eq_some.mpr hforall
  exact ⟨_, by rw [bindRule, hrs]; rfl⟩

theorem Matcher.Checked.compiles {matcher : Matcher} (h : matcher.Checked) :
    ∀ p ∈ matcher.patterns, (compileGlobRegex p.1 p.2).isSome := by
  induction matcher with
  | glob g =>
    intro p hp
    simp only [Matcher.patterns, mem_append, List.mem_map, mem_filter, mem_toList] at hp
    rcases hp with
      ((hp | ⟨pattern, hport, rfl⟩) | ⟨pattern, ⟨hpath, -⟩, rfl⟩) | ⟨pattern, hquery, rfl⟩
    · split at hp
      · rw [mem_singleton.mp hp]
        exact h.hostCompiles
      · cases hp
    · exact h.portCompiles pattern hport
    · exact h.pathCompiles pattern hpath
    · exact h.queryCompiles pattern hquery
  | not inner ih => exact ih h
  | exactUrl | port | regex => exact forall_mem_nil _

/-- The parser has tried every glob that is registered as it was read. -/
theorem compiles_patterns_iff (hchecked : ∀ rule ∈ rules, rule.Checked) :
    (∀ p ∈ rules.flatMap Rule.patterns, (compileGlobRegex p.1 p.2).isSome) ↔
      ∀ rule ∈ rules, ∀ c ∈ rule.conditions.flatMap nodes, ∀ p ∈ c.alteredPatterns,
        (compileGlobRegex p.1 p.2).isSome := by
  constructor
  · intro h rule hrule c hc p hp
    refine h p (mem_flatMap_of_mem hrule (mem_append_right _ (mem_flatMap_of_mem hc ?_)))
    cases c with
    | url => cases hp
    | _ => exact hp
  · intro h p hp
    obtain ⟨rule, hrule, hp⟩ := mem_flatMap.mp hp
    rcases mem_append.mp hp with hp | hp
    · exact (hchecked rule hrule).matcher.compiles p hp
    obtain ⟨c, hc, hp⟩ := mem_flatMap.mp hp
    cases c with
    | url condition =>
      obtain ⟨root, hroot, hnode⟩ := mem_flatMap.mp hc
      have hurl := (hchecked rule hrule).conditions root hroot _ hnode
      cases condition with
      | glob pattern =>
        rw [patterns] at hp
        split at hp
        · rw [mem_singleton.mp hp]
          exact hurl
        · cases hp
      | regex => cases hp
    | _ => exact h rule hrule _ hc p hp

/-- The index of checked rules builds exactly when the engines accept what is left to try. -/
theorem RuleIndex.build_isSome_iff {rules} (hchecked : ∀ rule ∈ rules, rule.Checked) :
    (RuleIndex.build rules).isSome ↔ Compiles rules := by
  have hpatterns := compiles_patterns_iff hchecked
  constructor
  · intro h
    obtain ⟨index, hindex⟩ := isSome_iff_exists.mp h
    have hbuilt := RuleIndex.builtFrom hindex
    constructor
    · have hglobs := hbuilt.globs
      rw [CompiledGlobSet.build_eq] at hglobs
      exact hpatterns.mp ((registerAll_isSome numbers_empty).mp
        (by rw [hglobs]; rfl))
    · exact CompiledBodyContainsSet.build_isSome_iff.mp (by rw [hbuilt.bodyLiterals]; rfl)
  · intro h
    have hglobs := (registerAll_isSome numbers_empty).mpr
      (hpatterns.mpr h.globs)
    rw [← CompiledGlobSet.build_eq] at hglobs
    obtain ⟨globs, hglobs⟩ := isSome_iff_exists.mp hglobs
    obtain ⟨bodyLiterals, hbody⟩ :=
      isSome_iff_exists.mp (CompiledBodyContainsSet.build_isSome_iff.mpr h.literals)
    have hbind : ∀ rule ∈ rules, ∃ resources, bindRule globs bodyLiterals rule = some resources :=
      fun rule hrule => exists_bindRule hbody hrule
    obtain ⟨resources, hforall⟩ := exists_forall₂ hbind
    have hresources := mapM_eq_some.mpr hforall
    unfold RuleIndex.build
    rw [hglobs, bind_eq_bind, bind_some, hbody, bind_eq_bind, bind_some, hresources]
    rfl

/-! ### Publishing -/

theorem Accepted.unique {requireHeader groups rules rules'}
    (h : Accepted requireHeader groups rules) (h' : Accepted requireHeader groups rules') :
    rules = rules' := by
  obtain ⟨parts, hparts, rfl⟩ := h.parsed
  obtain ⟨parts', hparts', rfl⟩ := h'.parsed
  rw [hparts] at hparts'
  cases hparts'
  rfl

namespace RuleSet

theorem exists_publish (hchecked : ∀ rule ∈ rules, rule.Checked) (h : Compiles rules) :
    ∃ rs, publish rules = some rs ∧ rs.rules = rules := by
  obtain ⟨index, hindex⟩ := isSome_iff_exists.mp ((RuleIndex.build_isSome_iff hchecked).mpr h)
  refine ⟨⟨rules, index, hindex⟩, ?_, rfl⟩
  unfold publish
  split
  next index' hindex' =>
    rw [hindex] at hindex'
    cases hindex'
    rfl
  next hnone =>
    rw [hindex] at hnone
    cases hnone

/-- Sources whose rules the engines accept are published exactly when the sources are accepted,
and then with the rules on their effective lines in order. Other sources have between one and the
limit of diagnostics, the last one being the notice when there are as many as the limit. -/
theorem parseGroups_spec {groups : List (Str × Str)}
    (hcompiles : ∀ rules, Accepted false groups rules → Compiles rules) :
    (∀ rules, (∃ rs, parseGroups groups = some (.ok rs) ∧ rs.rules = rules) ↔
      Accepted false groups rules) ∧
    ((∀ rules, ¬Accepted false groups rules) →
      ∃ errors, parseGroups groups = some (.error errors) ∧ 1 ≤ errors.length ∧
        WithinLimit errors) := by
  unfold parseGroups parseGroupsWithProfile
  dsimp only
  rcases parseGroupsLoop_spec with ⟨hnil, haccepted⟩ | ⟨hne, hrejected⟩
  · obtain ⟨rs, hpublish, hrules⟩ :=
      exists_publish (fun _ => haccepted.checked) (hcompiles _ haccepted)
    rw [hnil, hpublish]
    refine ⟨fun rules => ⟨?_, fun h => ?_⟩, fun hnone => absurd haccepted (hnone _)⟩
    · rintro ⟨rs', hrs', rfl⟩
      cases hrs'
      rwa [hrules]
    · exact ⟨rs, rfl, hrules.trans (haccepted.unique h)⟩
  · rw [if_neg (by simpa using hne)]
    refine ⟨fun rules => ⟨?_, fun h => absurd h (hrejected rules)⟩, fun _ => ?_⟩
    · rintro ⟨rs, hrs, -⟩
      cases hrs
    · refine ⟨_, rfl, length_pos_iff.mpr hne, ?_⟩
      refine (pushed_parseGroupsLoop false 0 groups .initial).withinLimit ⟨Nat.zero_le _, ?_⟩
      intro hfull
      cases hfull

omit [Crates] in
/-- A group of one rule. -/
theorem parseGroups_spec_of_rule :
    let groups := [("g".toList, "# first\n\na.test status(503)".toList)]
    (∀ rules, @Accepted reference false groups rules → @Compiles reference rules) ∧
      ∃ rs, @parseGroups reference groups = some (.ok rs) ∧
        @Accepted reference false groups (@RuleSet.rules reference rs) := by
  intro groups
  obtain ⟨rs, hparse, -⟩ := @exists_of_parsesTo reference groups false (fun _ => True) _
    (by decide +kernel)
  have haccepted := @accepted_of_parse reference _ _ _ hparse
  have hcompiles : ∀ rules, @Accepted reference false groups rules → @Compiles reference rules := by
    intro rules hrules
    rw [← @Accepted.unique reference _ _ _ _ haccepted hrules]
    exact (@RuleIndex.build_isSome_iff reference _ fun _ =>
      @Accepted.checked reference _ _ _ _ haccepted).mp (by rw [@built reference rs]; rfl)
  obtain ⟨rs', hparse', hrules⟩ :=
    ((@parseGroups_spec reference groups hcompiles).1 _).mpr haccepted
  exact ⟨hcompiles, rs', hparse', hrules ▸ haccepted⟩

omit [Crates] in
/-- The parser tries the glob in its brackets, where the backslash escapes the bracket. It is
registered without them, where the backslash escapes nothing, and the build panics. -/
theorem parseGroups_panics :
    let groups := [("g".toList, "a.test direct when client.ip(\"[*\\\\]\")".toList)]
    (∃ rules, @Accepted reference false groups rules) ∧ @parseGroups reference groups = none := by
  intro groups
  have hnone : (@parseGroups reference groups).isNone := by decide +kernel
  refine ⟨?_, isNone_iff_eq_none.mp hnone⟩
  rcases @parseGroupsLoop_spec reference groups false with ⟨-, haccepted⟩ | ⟨hne, -⟩
  · exact ⟨_, haccepted⟩
  · unfold parseGroups parseGroupsWithProfile at hnone
    rw [if_neg (by simpa using hne)] at hnone
    cases hnone

omit [Crates] in
/-- A group without a name is rejected, although it has no line and exceeds no limit. -/
theorem parseGroups_rejects_empty_name :
    lines ([] : Str) = [] ∧ ∃ errors, @parseGroups reference [([], [])] = some (.error errors) :=
  ⟨rfl, _, rfl⟩

end RuleSet

end RsProxy.Rules
