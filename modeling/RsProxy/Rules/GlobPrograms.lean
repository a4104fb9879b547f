import RsProxy.Rules.Snapshot

/-!
# The programs of a snapshot

Building a snapshot registers the globs of its rules one after the other. This file says which globs
these are, that the number of a registered glob is the number of its program, and what the program
does with a text: it finds the pieces that the wildcards of the glob stand for.
-/

namespace RsProxy.Rules

open Text Data Regex List Option CompiledGlobSet Nat Function Glob

/-! ### The source of a glob's program -/

variable {source : Str}

theorem pushLiteral_eq {c} : pushLiteral source c = source ++ escape c := by
  unfold pushLiteral escape
  split <;> rfl

variable (sep : Char)

theorem pushWildcard_single {captures} :
    pushWildcard sep captures false source =
      source ++ (Item.lazy (0 < maxRuleGlobCaptures - captures) (some sep)).source := by
  unfold pushWildcard Item.source classSource
  simp only [Nat.sub_pos_iff_lt, pushLiteral_eq, Bool.false_eq_true, if_false, decide_eq_true_eq]
  split <;> simp

theorem pushWildcard_double {captures} :
    pushWildcard sep captures true source =
      source ++ (Item.lazy (0 < maxRuleGlobCaptures - captures) none).source := by
  unfold pushWildcard Item.source classSource
  simp only [Nat.sub_pos_iff_lt, if_true, decide_eq_true_eq]
  split <;> simp

theorem sub_countCapture {captures} :
    maxRuleGlobCaptures - countCapture captures = maxRuleGlobCaptures - captures - 1 := by
  unfold countCapture
  split <;> omega

/-- The loop writes the items of the glob, the first wildcards as groups. -/
theorem globSourceLoop_eq {pattern captures} :
    globSourceLoop sep pattern captures source =
      (tokens pattern).map fun ts =>
        source ++ (items sep (maxRuleGlobCaptures - captures) ts).flatMap Item.source ++
          "\\z" := by
  fun_induction globSourceLoop sep pattern captures source with
  | case1 => simp [tokens, items]
  | case2 => simp [tokens]
  | case3 captures source d ds ih =>
    rw [ih, tokens_escape, pushLiteral_eq]
    simp [items, comp_def, Item.source]
  | case4 captures source _ ih =>
    rw [ih, pushWildcard_single]
    simp [tokens, items]
  | case5 captures source ds _ ih =>
    rw [ih, sub_countCapture, pushWildcard_double]
    simp [tokens, items, comp_def]
  | case6 captures source d ds hd _ ih =>
    rw [ih, sub_countCapture, pushWildcard_single, tokens_star hd]
    simp [items, comp_def]
  | case7 captures source c cs hescape hstar ih =>
    rw [ih, tokens_lit hescape hstar, pushLiteral_eq]
    simp [items, comp_def, Item.source]

/-! ### What a program finds -/

variable [Crates]

/-- The pieces that the wildcards of a pattern stand for in a text it matches. -/
def globMatch (pattern : Str) (separator : Char) (text : Str) : Option (List Str) :=
  (tokens pattern).bind fun ts => find separator ts text

variable {pattern : Str}

/-- A program reports the first pieces as its groups. -/
theorem compileGlobRegex_run (hruns : RunsFragment) {separator regex}
    (h : compileGlobRegex pattern separator = some regex) {text} :
    regex text = (globMatch pattern separator text).map fun pieces =>
      ⟨some text :: (pieces.take maxRuleGlobCaptures).map some, []⟩ := by
  obtain ⟨source, hsource, hregex⟩ := bind_eq_some_iff.mp h
  rw [globSourceLoop_eq, map_eq_some_iff] at hsource
  obtain ⟨ts, hts, rfl⟩ := hsource
  have hcompiled : Crates.linearRegex (source (items separator maxRuleGlobCaptures ts))
      false (some globRegexSizeLimit) = .ok regex := by
    change (Crates.linearRegex (source (items separator maxRuleGlobCaptures ts)) false
      (some globRegexSizeLimit)).toOption = _ at hregex
    generalize Crates.linearRegex _ _ _ = result at hregex ⊢
    cases result <;> cases hregex
    rfl
  rw [hruns _ _ _ _ (parse_source _) hcompiled text, exec, run_items, globMatch, hts,
    Option.map_map]
  rfl

/-! ### Which globs are registered -/

/-- The globs of a matcher, each with its separator. -/
def Matcher.patterns : Matcher → List (Str × Char)
  | .glob g =>
    (if hostPatternUsesRegex g.host then [(g.host, '.')] else []) ++
      g.port.toList.map (·, '.') ++
      (g.path.toList.filter globSyntaxIsActive).map (·, '/') ++
      g.query.toList.map (·, '&')
  | .not inner => inner.patterns
  | .exactUrl _ | .port _ | .regex _ => []

/-- The globs of one node of a condition tree. -/
def Condition.patterns : Condition → List (Str × Char)
  | .host pattern =>
    if hostPatternUsesRegex pattern then [(toAsciiLowercase pattern, '.')] else []
  | .url (.glob pattern) => if globSyntaxIsActive pattern then [(pattern, '\x00')] else []
  | .clientIp patterns | .serverIp patterns =>
    (patterns.filter isIpGlob).map fun pattern => (normalizeIpValue pattern, '\x00')
  | _ => []

def Rule.patterns (rule : Rule) : List (Str × Char) :=
  rule.matcher.patterns ++ (rule.conditions.flatMap Condition.nodes).flatMap Condition.patterns

variable {globs globs' : CompiledGlobSet} {patterns : List (Str × Char)}

namespace CompiledGlobSet

section

variable (globs : CompiledGlobSet)

def registerAll (patterns : List (Str × Char)) :
    Option CompiledGlobSet :=
  patterns.foldlM (fun globs p => globs.register p.1 p.2) globs

@[simp] theorem registerAll_nil : globs.registerAll [] = some globs := rfl

theorem registerAll_cons {p ps} :
    globs.registerAll (p :: ps) = (globs.register p.1 p.2).bind (·.registerAll ps) :=
  foldlM_cons

theorem registerAll_append {ps qs} :
    globs.registerAll (ps ++ qs) = (globs.registerAll ps).bind (·.registerAll qs) :=
  foldlM_append

theorem registerAll_singleton (p : Str × Char) :
    globs.registerAll [p] = globs.register p.1 p.2 := by
  rw [registerAll_cons]
  cases globs.register p.1 p.2 <;> rfl

theorem registerIf_eq {wanted sep} :
    globs.registerIf wanted pattern sep =
      globs.registerAll (if wanted then [(pattern, sep)] else []) := by
  cases wanted with
  | false => rfl
  | true => exact (globs.registerAll_singleton (pattern, sep)).symm

end

/-- A family of steps, each of which registers patterns, registers them all. -/
theorem foldlM_registerAll {α : Type} {step patterns}
    (h : ∀ globs a, step globs a = globs.registerAll (patterns a)) (globs : CompiledGlobSet)
    {as : List α} : as.foldlM step globs = globs.registerAll (as.flatMap patterns) := by
  induction as generalizing globs with
  | nil => rfl
  | cons a as ih =>
    rw [foldlM_cons, flatMap_cons, registerAll_append, h]
    exact bind_congr fun globs _ => ih globs

section

variable (globs : CompiledGlobSet)

theorem registerOption_eq {component : Option Str} {sep} :
    (match component with
      | some pattern => globs.register pattern sep
      | none => some globs) = globs.registerAll (component.toList.map (·, sep)) := by
  cases component with
  | none => rfl
  | some pattern => exact (globs.registerAll_singleton (pattern, sep)).symm

theorem registerPath_eq {path : Option Str} :
    (match path with
      | some path => globs.registerIf (globSyntaxIsActive path) path '/'
      | none => some globs) =
      globs.registerAll ((path.toList.filter globSyntaxIsActive).map (·, '/')) := by
  cases path with
  | none => rfl
  | some path =>
    dsimp only
    rw [registerIf_eq, toList_some, filter_singleton]
    cases globSyntaxIsActive path <;> rfl

theorem registerMatcher_eq {matcher} :
    globs.registerMatcher matcher = globs.registerAll matcher.patterns := by
  induction matcher with
  | glob g =>
    simp only [registerMatcher, Matcher.patterns, registerAll_append, registerIf_eq,
      ← registerOption_eq, ← registerPath_eq, bind_assoc]
    cases g.port <;> cases g.path <;> rfl
  | not inner ih => exact ih
  | exactUrl | port | regex => rfl

theorem registerIps_eq {patterns} :
    globs.registerIps patterns =
      globs.registerAll ((patterns.filter isIpGlob).map fun p => (normalizeIpValue p, '\x00')) := by
  unfold registerIps registerAll
  rw [foldlM_map]

theorem registerNode_eq {node} :
    globs.registerNode node = globs.registerAll node.patterns := by
  cases node with
  | host pattern => exact globs.registerIf_eq
  | url condition =>
    cases condition with
    | glob pattern => exact globs.registerIf_eq
    | regex r => rfl
  | clientIp patterns | serverIp patterns => exact globs.registerIps_eq
  | _ => rfl

theorem registerRule_eq {rule} :
    globs.registerRule rule = globs.registerAll rule.patterns := by
  rw [registerRule, Rule.patterns, registerAll_append, registerMatcher_eq]
  refine bind_congr fun globs _ => ?_
  rw [flatMap_assoc]
  refine foldlM_registerAll (fun globs condition => ?_) globs
  exact foldlM_registerAll registerNode_eq globs

end

/-- Building a set registers the globs of the rules in their order. -/
theorem build_eq (rules : List Rule) :
    build rules = empty.registerAll (rules.flatMap Rule.patterns) :=
  foldlM_registerAll registerRule_eq empty

/-! ### Numbers and programs -/

/-- Every number is the number of the pattern's program. -/
def Numbers (globs : CompiledGlobSet) : Prop :=
  ∀ pattern sep id, globs.id pattern sep = some id →
    ∃ regex, compileGlobRegex pattern sep = some regex ∧ globs.programs[id]? = some regex

/-- What has a number keeps it. -/
def Le (globs globs' : CompiledGlobSet) : Prop :=
  ∀ pattern sep id, globs.id pattern sep = some id → globs'.id pattern sep = some id

theorem numbers_empty : empty.Numbers := nofun

omit [Crates] in
theorem id_upsert (globs : CompiledGlobSet) {pattern' sep sep' number programs} :
    (mk (globs.ids.upsert sep fun patterns =>
        (patterns.getD .empty).upsert pattern fun _ => number) programs).id pattern' sep' =
      if pattern' = pattern ∧ sep' = sep then some number else globs.id pattern' sep' := by
  unfold id
  rw [SortedMap.get?_upsert]
  by_cases hsep : sep' = sep
  · subst hsep
    rw [if_pos rfl, bind_some, SortedMap.get?_upsert]
    by_cases hpattern : pattern' = pattern
    · simp [hpattern]
    · rw [if_neg hpattern, if_neg (fun h => hpattern h.1)]
      cases globs.ids.get? sep' <;> rfl
  · rw [if_neg hsep, if_neg (fun h => hsep h.2)]

/-- Registering a glob gives it a number and changes no other number. -/
theorem register_spec {sep} (h : globs.register pattern sep = some globs')
    (hnumbers : globs.Numbers) :
    globs'.Numbers ∧ globs.Le globs' ∧ (globs'.id pattern sep).isSome := by
  unfold register at h
  split at h
  next id hid =>
    cases h
    exact ⟨hnumbers, fun _ _ _ h => h, by rw [hid]; rfl⟩
  next hid =>
    obtain ⟨regex, hregex, rfl⟩ := map_eq_some_iff.mp h
    refine ⟨?_, ?_, ?_⟩
    · intro pattern' sep' id' hid'
      rw [id_upsert] at hid'
      split at hid'
      next heq =>
        obtain ⟨rfl, rfl⟩ := heq
        cases hid'
        exact ⟨regex, hregex, by simp⟩
      · obtain ⟨regex', hregex', hprogram⟩ := hnumbers pattern' sep' id' hid'
        refine ⟨regex', hregex', ?_⟩
        rwa [getElem?_append_left (List.getElem?_eq_some_iff.mp hprogram).1]
    · intro pattern' sep' id' hid'
      rw [id_upsert, if_neg]
      · exact hid'
      · rintro ⟨rfl, rfl⟩
        rw [hid] at hid'
        cases hid'
    · rw [id_upsert, if_pos ⟨rfl, rfl⟩]
      rfl

theorem registerAll_spec (h : globs.registerAll patterns = some globs') (hnumbers : globs.Numbers) :
    globs'.Numbers ∧ globs.Le globs' ∧ ∀ p ∈ patterns, (globs'.id p.1 p.2).isSome := by
  induction patterns generalizing globs with
  | nil =>
    cases h
    exact ⟨hnumbers, fun _ _ _ h => h, nofun⟩
  | cons p patterns ih =>
    obtain ⟨mid, hmid, h⟩ := bind_eq_some_iff.mp h
    obtain ⟨hnumbers', hle, hid⟩ := register_spec hmid hnumbers
    obtain ⟨hnumbers'', hle', hids⟩ := ih h hnumbers'
    refine ⟨hnumbers'', fun _ _ _ h => hle' _ _ _ (hle _ _ _ h), fun p' hp' => ?_⟩
    rcases mem_cons.mp hp' with rfl | hp'
    · obtain ⟨id, hid⟩ := isSome_iff_exists.mp hid
      rw [hle' _ _ _ hid]
      rfl
    · exact hids p' hp'

/-- The globs can be registered exactly when each of them compiles. -/
theorem registerAll_isSome (hnumbers : globs.Numbers) :
    (globs.registerAll patterns).isSome ↔ ∀ p ∈ patterns, (compileGlobRegex p.1 p.2).isSome := by
  induction patterns generalizing globs with
  | nil => simp
  | cons p patterns ih =>
    rw [registerAll_cons, forall_mem_cons]
    cases hregister : globs.register p.1 p.2 with
    | none =>
      have hnone : compileGlobRegex p.1 p.2 = none := by
        unfold register at hregister
        split at hregister
        · cases hregister
        · exact map_eq_none_iff.mp hregister
      simp [hnone]
    | some globs' =>
      obtain ⟨hnumbers', -, hid⟩ := register_spec hregister hnumbers
      obtain ⟨id, hid⟩ := isSome_iff_exists.mp hid
      obtain ⟨regex, hregex, -⟩ := hnumbers' _ _ _ hid
      rw [bind_some, ih hnumbers', hregex]
      simp

/-! ### Matching by number is matching the text -/

theorem globMatchId_eq (hruns : RunsFragment) (hnumbers : globs.Numbers) {sep id}
    (hid : globs.id pattern sep = some id) {text} :
    globs.globMatchId id text = (globMatch pattern sep text).isSome := by
  obtain ⟨regex, hregex, hprogram⟩ := hnumbers _ _ _ hid
  rw [globMatchId, hprogram]
  dsimp only
  rw [compileGlobRegex_run hruns hregex, isSome_map]

end CompiledGlobSet

/-- Number the pieces of a match, as far as there is room for nine. -/
def Captures.append (captures : Captures) (pieces : List Str) : Captures :=
  { captures with
    indexed := captures.indexed ++ pieces.take (maxRuleGlobCaptures - captures.indexed.length) }

variable (captures : Captures)

omit [Crates] in
theorem Captures.append_append {a b} : (captures.append a).append b = captures.append (a ++ b) := by
  unfold Captures.append
  rw [append_assoc, length_append, length_take, take_append]
  congr 4
  omega

omit [Crates] in
theorem Captures.foldl_insertIndex {pieces}
    (h : captures.indexed.length + pieces.length ≤ maxRuleGlobCaptures) :
    (pieces.map some).foldl (fun c (group : Option Str) => c.insertIndex (group.getD [])) captures =
      { captures with indexed := captures.indexed ++ pieces } := by
  induction pieces generalizing captures with
  | nil => simp
  | cons piece pieces ih =>
    rw [length_cons] at h
    have hroom : captures.indexed.length < 9 := by
      unfold maxRuleGlobCaptures at h
      omega
    rw [map_cons, foldl_cons, Captures.insertIndex, if_pos hroom, ih]
    · simp
    · simp only [length_append, length_singleton]
      omega

theorem CompiledGlobSet.globMatchWithCapturesId_eq (hruns : RunsFragment) (hnumbers : globs.Numbers)
    {sep id} (hid : globs.id pattern sep = some id) {text captures} :
    globs.globMatchWithCapturesId id text captures =
      (globMatch pattern sep text).map captures.append := by
  obtain ⟨regex, hregex, hprogram⟩ := hnumbers _ _ _ hid
  rw [globMatchWithCapturesId, hprogram, bind_some, compileGlobRegex_run hruns hregex,
    Option.map_map]
  refine map_congr fun pieces _ => ?_
  simp only [comp_apply, appendGlobCaptures, drop_succ_cons, drop_zero]
  rw [← map_take, take_take, min_eq_left (sub_le _ _)]
  by_cases hfull : maxRuleGlobCaptures ≤ captures.indexed.length
  · simp [Captures.append, Nat.sub_eq_zero_of_le hfull]
  · refine captures.foldl_insertIndex ?_
    have := length_take_le (maxRuleGlobCaptures - captures.indexed.length) pieces
    omega

variable (rs : RuleSet)

namespace RuleSet

theorem numbers : rs.index.compiledGlobs.Numbers := by
  have hbuild := rs.builtFrom.globs
  rw [build_eq] at hbuild
  exact (registerAll_spec hbuild numbers_empty).1

/-- The globs of the rules have numbers. -/
theorem exists_id {rule} (hrule : rule ∈ rs.rules) {p} (hp : p ∈ rule.patterns) :
    ∃ id, rs.index.compiledGlobs.id p.1 p.2 = some id := by
  have hbuild := rs.builtFrom.globs
  rw [build_eq] at hbuild
  have hids := (registerAll_spec hbuild numbers_empty).2.2
  exact isSome_iff_exists.mp (hids p (mem_flatMap.mpr ⟨rule, hrule, hp⟩))

end RuleSet

end RsProxy.Rules
