import RsProxy.Rules.HostPattern
import RsProxy.Rules.Parser.Accepted

/-!
# What is known about parsed rules

Every rule of an accepted source was parsed from one of its lines, and its conditions and actions
from tokens of the line. What the parser checks is carried over to the rules in this way.
-/

namespace RsProxy.Rules

open Text Data List

variable [Crates] {requireHeader : Bool} {rules : List Rule} {group input : Str}
  {groups : List (Str × Str)} {rule : Rule} {ls args : List Str} {n : Nat} {profile : SyntaxProfile}
  {parts parts' : RuleParts} {token : RuleToken} {separator : Char} {context action : String}
  {matcher : Matcher} {c : Condition} {a : Action} {ops : List DeleteOp}

/-! ### Lines and rules -/

/-- Only a leading directive is no rule of its group. -/
theorem groupRules_eq_some {ls} (h : groupRules requireHeader group ls = some rules) :
    ∃ ls' profile, ls' <:+ ls ∧
      List.Forall₂ (fun l rule => parseRule group l.1 l.2 profile = .ok rule) ls' rules := by
  have hline : ∀ {l} {profile} {rule},
      lineRule group profile l = some rule → parseRule group l.1 l.2 profile = .ok rule := by
    intro l profile rule hrule
    unfold lineRule at hrule
    split_ifs at hrule
    cases hparse : parseRule group l.1 l.2 profile with
    | error e => rw [hparse] at hrule; cases hrule
    | ok r => rw [hparse] at hrule; cases hrule; rfl
  cases ls with
  | nil =>
    cases h
    exact ⟨[], .compatible, suffix_rfl, .nil⟩
  | cons l ls =>
    rw [groupRules] at h
    split at h
    · split_ifs at h
      exact ⟨ls, .canonicalV3, suffix_cons _ _, (mapM_eq_some.mp h).imp fun _ _ => hline⟩
    · split_ifs at h
      exact ⟨l :: ls, .compatible, suffix_rfl, (mapM_eq_some.mp h).imp fun _ _ => hline⟩

/-- Every accepted rule is the rule of one line. -/
theorem Accepted.parseRule (h : Accepted requireHeader groups rules) (hrule : rule ∈ rules) :
    ∃ group n line profile, parseRule group n line profile = .ok rule := by
  obtain ⟨parts, hparts, rfl⟩ := h.parsed
  obtain ⟨part, hpart, hrule⟩ := mem_flatten.mp hrule
  obtain ⟨g, -, hg⟩ := exists_of_mem_right (mapM_eq_some.mp hparts) hpart
  obtain ⟨ls, profile, -, hall⟩ := groupRules_eq_some hg
  obtain ⟨l, -, hl⟩ := exists_of_mem_right hall hrule
  exact ⟨g.1, l.1, l.2, profile, hl⟩

omit [Crates] in
theorem le_of_mem_numberedLines {l} (h : l ∈ numberedLines n ls) : n ≤ l.1 := by
  induction ls generalizing n with
  | nil => cases h
  | cons raw rest ih =>
    rw [numberedLines] at h
    split at h
    · rcases mem_cons.mp h with rfl | h
      · exact Nat.le_refl _
      · exact Nat.le_of_succ_le (ih h)
    · exact Nat.le_of_succ_le (ih h)

omit [Crates] in
theorem pairwise_numberedLines (n : Nat) (ls : List Str) :
    (numberedLines n ls).Pairwise fun a b => a.1 < b.1 := by
  induction ls generalizing n with
  | nil => exact .nil
  | cons raw rest ih =>
    rw [numberedLines]
    split
    · exact .cons (fun l hl => le_of_mem_numberedLines hl) (ih (n + 1))
    · exact ih (n + 1)

/-! ### Tokens -/

theorem RuleParts.addCondition_ok (h : parts.addCondition profile token = .ok parts') :
    ∃ c, parseCondition profile token.text = .ok c ∧ parts'.actions = parts.actions ∧
      parts'.conditions = parts.conditions ++ [c] := by
  unfold addCondition at h
  split at h
  · cases h
  next c hc =>
    dsimp only at h
    split_ifs at h
    cases h
    exact ⟨c, hc, rfl, rfl⟩

theorem RuleParts.addAction_ok (h : parts.addAction profile token = .ok parts') :
    ∃ a, parseAction profile token.text = .ok a ∧ parts'.actions = parts.actions ++ [a] ∧
      parts'.conditions = parts.conditions := by
  unfold addAction at h
  split_ifs at h
  split at h
  · cases h
  next a ha =>
    cases h
    exact ⟨a, ha, rfl, rfl⟩

omit [Crates] in
theorem RuleParts.addProperty_ok (h : parts.addProperty token = .ok parts') :
    parts'.actions = parts.actions ∧ parts'.conditions = parts.conditions := by
  unfold addProperty at h
  dsimp only at h
  split_ifs at h
  split at h <;> cases h <;> exact ⟨rfl, rfl⟩

/-- The parts were parsed from tokens. -/
def RuleParts.FromTokens (profile : SyntaxProfile) (parts : RuleParts) : Prop :=
  (∀ a ∈ parts.actions, ∃ text, parseAction profile text = .ok a) ∧
    ∀ c ∈ parts.conditions, ∃ text, parseCondition profile text = .ok c

theorem RuleParts.read_ok {tokens} (h : RuleParts.read profile parts tokens = .ok parts')
    (hparts : parts.FromTokens profile) :
    parts'.FromTokens profile := by
  fun_induction RuleParts.read profile parts tokens with
  | case1 parts =>
    cases h
    exact hparts
  | case2 => cases h
  | case3 parts token hwhen condition tokens ih =>
    obtain ⟨mid, hmid, h⟩ := bind_eq_ok.mp h
    obtain ⟨c, hc, hactions, hconditions⟩ := addCondition_ok hmid
    refine ih mid h ⟨hactions ▸ hparts.1, fun d hd => ?_⟩
    rw [hconditions, mem_append, mem_singleton] at hd
    rcases hd with hd | rfl
    · exact hparts.2 d hd
    · exact ⟨_, hc⟩
  | case4 parts token tokens hwhen hat ih =>
    obtain ⟨mid, hmid, h⟩ := bind_eq_ok.mp h
    obtain ⟨hactions, hconditions⟩ := addProperty_ok hmid
    exact ih mid h ⟨hactions ▸ hparts.1, hconditions ▸ hparts.2⟩
  | case5 parts token tokens hwhen hat ih =>
    obtain ⟨mid, hmid, h⟩ := bind_eq_ok.mp h
    obtain ⟨a, ha, hactions, hconditions⟩ := addAction_ok hmid
    refine ih mid h ⟨fun b hb => ?_, hconditions ▸ hparts.2⟩
    rw [hactions, mem_append, mem_singleton] at hb
    rcases hb with hb | rfl
    · exact hparts.1 b hb
    · exact ⟨_, ha⟩

/-- The rule of a line: where it stands, and where its parts come from. -/
theorem parseRule_ok {line} (h : parseRule group n line profile = .ok rule) :
    rule.group = group ∧ rule.line = n ∧ rule.raw = line ∧ rule.actions ≠ [] ∧
      (∃ text, parseMatcher text = .ok rule.matcher) ∧
      (∀ a ∈ rule.actions, ∃ text, parseAction profile text = .ok a) ∧
      ∀ c ∈ rule.conditions, ∃ text, parseCondition profile text = .ok c := by
  unfold parseRule at h
  split at h
  · cases h
  · cases h
  next first tokens _ =>
    split at h
    · cases h
    next matcher hmatcher =>
      obtain ⟨parts, hparts, h⟩ := bind_eq_ok.mp h
      have htokens := RuleParts.read_ok hparts ⟨nofun, nofun⟩
      split_ifs at h with hne
      cases h
      refine ⟨rfl, rfl, rfl, ?_, ⟨first.text, hmatcher⟩, htokens.1, htokens.2⟩
      simpa using hne

/-- The place of a rule in its source. -/
def Rule.place (rule : Rule) : Str × Nat := (rule.group, rule.line)

theorem groupRules_places (h : groupRules requireHeader group (numberedLines n ls) = some rules) :
    (∀ rule ∈ rules, rule.group = group) ∧ rules.Pairwise fun a b => a.line < b.line := by
  obtain ⟨ls', profile, hsuffix, hall⟩ := groupRules_eq_some h
  constructor
  · intro rule hrule
    obtain ⟨l, -, hl⟩ := exists_of_mem_right hall hrule
    exact (parseRule_ok hl).1
  · have hlines : ls'.map Prod.fst = rules.map Rule.line := by
      clear hsuffix h
      induction hall with
      | nil => rfl
      | cons hl _ ih => rw [map_cons, map_cons, ih, (parseRule_ok hl).2.1]
    have hsorted := (pairwise_numberedLines n ls).sublist hsuffix.sublist
    rwa [← pairwise_map, ← hlines, pairwise_map]

/-- With distinct group names no two rules have the same place. -/
theorem Accepted.places_nodup (h : Accepted requireHeader groups rules)
    (hnames : (groups.map Prod.fst).Nodup) : (rules.map Rule.place).Nodup := by
  obtain ⟨parts, hparts, rfl⟩ := h.parsed
  replace hparts := mapM_eq_some.mp hparts
  clear h
  rw [List.Nodup, pairwise_map, pairwise_flatten]
  constructor
  · intro part hpart
    obtain ⟨g, -, hg⟩ := exists_of_mem_right hparts hpart
    refine (groupRules_places hg).2.imp fun {a b} hlt heq => ?_
    have hline : a.line = b.line := congrArg Prod.snd heq
    omega
  · induction hparts with
    | nil => exact .nil
    | @cons g part groups parts hg hrest ih =>
      rw [map_cons, nodup_cons] at hnames
      refine .cons (fun part' hpart' a ha b hb heq => ?_) (ih hnames.2)
      obtain ⟨g', hg', hpart''⟩ := exists_of_mem_right hrest hpart'
      have hgroup : a.group = b.group := congrArg Prod.fst heq
      rw [(groupRules_places hg).1 a ha, (groupRules_places hpart'').1 b hb] at hgroup
      exact hnames.1 (mem_map.mpr ⟨g', hg', hgroup.symm⟩)

/-! ### Matchers -/

theorem validateGlobPattern_ok {pattern u}
    (h : validateGlobPattern pattern separator context = .ok u) :
    (compileGlobRegex pattern separator).isSome := by
  unfold validateGlobPattern at h
  split_ifs at h
  split at h
  next hregex => rw [hregex]; rfl
  · cases h

theorem validateComponent_ok {component u}
    (h : validateComponent component separator context = .ok u) :
    ∀ pattern ∈ component, (compileGlobRegex pattern separator).isSome := by
  intro pattern hpattern
  rw [hpattern] at h
  exact validateGlobPattern_ok h

/-- What the parser checks about the globs of a matcher. -/
structure GlobMatcher.Checked (g : GlobMatcher) : Prop where
  host : normalizeHost g.host = g.host
  hostCompiles : (compileGlobRegex g.host '.').isSome
  portCompiles : ∀ pattern ∈ g.port, (compileGlobRegex pattern '.').isSome
  pathCompiles : ∀ pattern ∈ g.path, (compileGlobRegex pattern '/').isSome
  queryCompiles : ∀ pattern ∈ g.query, (compileGlobRegex pattern '&').isSome

theorem parseGlobMatcher_ok {g} (h : parseGlobMatcher input = .ok g) : g.Checked := by
  obtain ⟨⟨scheme, rest⟩, -, h⟩ := bind_eq_ok.mp h
  dsimp only at h
  split_ifs at h
  obtain ⟨⟨rawHost, port⟩, -, h⟩ := bind_eq_ok.mp h
  split_ifs at h
  obtain ⟨_, hhost, h⟩ := bind_eq_ok.mp h
  obtain ⟨_, hport, h⟩ := bind_eq_ok.mp h
  obtain ⟨_, hpath, h⟩ := bind_eq_ok.mp h
  obtain ⟨_, hquery, h⟩ := bind_eq_ok.mp h
  cases h
  exact ⟨normalizeHost_idem rawHost, validateGlobPattern_ok hhost, validateComponent_ok hport,
    validateComponent_ok hpath, validateComponent_ok hquery⟩


/-- The URL of an exact matcher parses, and the globs inside a matcher are checked. -/
def Matcher.Checked : Matcher → Prop
  | .exactUrl url => ∃ parts, UrlParts.parse url = .ok parts
  | .glob g => g.Checked
  | .not inner => inner.Checked
  | .port _ | .regex _ => True

theorem parseExactMatcher_ok {url} (h : parseExactMatcher url = .ok matcher) : matcher.Checked := by
  unfold parseExactMatcher at h
  split_ifs at h
  split at h
  · cases h
  · cases h
  next parts hparts _ =>
    cases h
    exact ⟨_, ‹_›⟩

theorem parseMatcherWithin_ok {fuel} (h : parseMatcherWithin fuel input = .ok matcher) :
    matcher.Checked := by
  induction fuel generalizing input matcher with
  | zero => cases h
  | succ fuel ih =>
    cases input with
    | nil =>
      rw [parseMatcherWithin] at h
      obtain ⟨g, hg, rfl⟩ := map_eq_ok.mp h
      exact parseGlobMatcher_ok hg
    | cons c rest =>
      rw [parseMatcherWithin] at h
      split at h
      · obtain ⟨inner, hinner, rfl⟩ := map_eq_ok.mp h
        exact (ih hinner : inner.Checked)
      split at h
      · exact parseExactMatcher_ok h
      split at h
      · obtain ⟨r, -, rfl⟩ := map_eq_ok.mp h
        trivial
      split at h
      · unfold parsePortMatcher at h
        split at h <;> cases h
        trivial
      · obtain ⟨g, hg, rfl⟩ := map_eq_ok.mp h
        exact parseGlobMatcher_ok hg

/-! ### Conditions -/

/-- What the parser has checked of a single condition. -/
def Condition.Checked : Condition → Prop
  | .method methods => ∀ m ∈ methods, toAsciiUppercase m = m
  | .host pattern => (compileGlobRegex pattern '.').isSome
  | .url (.glob pattern) => (compileGlobRegex pattern '\x00').isSome
  | .clientIp patterns | .serverIp patterns =>
    ∀ pattern ∈ patterns, (compileGlobRegex pattern '\x00').isSome
  | _ => True

omit [Crates] in
theorem parseMethodCondition_ok {methods} (h : parseMethodCondition args = .ok methods) :
    ∀ m ∈ methods, toAsciiUppercase m = m := by
  intro m hm
  unfold parseMethodCondition at h
  split_ifs at h
  obtain ⟨arg, -, harg⟩ := exists_of_mem_right (mapM_eq_ok.mp h) hm
  unfold parseMethod at harg
  dsimp only at harg
  split_ifs at harg
  cases harg
  exact toAsciiUppercase_idem _

theorem parseIpPatterns_ok {patterns name} (h : parseIpPatterns args name = .ok patterns) :
    ∀ pattern ∈ patterns, (compileGlobRegex pattern '\x00').isSome := by
  intro pattern hpattern
  unfold parseIpPatterns at h
  split_ifs at h
  obtain ⟨arg, -, harg⟩ := exists_of_mem_right (mapM_eq_ok.mp h) hpattern
  unfold parseIpPattern at harg
  dsimp only at harg
  split_ifs at harg
  obtain ⟨u, hu, rfl⟩ := map_eq_ok.mp harg
  exact validateGlobPattern_ok hu

theorem parseUrlCondition_ok {condition} (h : parseUrlCondition input = .ok condition) :
    (Condition.url condition).Checked := by
  unfold parseUrlCondition at h
  dsimp only at h
  split at h
  · obtain ⟨r, -, rfl⟩ := map_eq_ok.mp h
    trivial
  · obtain ⟨u, hu, rfl⟩ := map_eq_ok.mp h
    exact validateGlobPattern_ok hu

/-- A condition whose nodes are all checked. -/
def Condition.AllChecked (c : Condition) : Prop := ∀ l ∈ c.nodes, l.Checked

theorem Condition.allChecked_leaf (hleaf : c.isLeaf) (h : c.Checked) : c.AllChecked := by
  intro l hl
  have hl' : l = c := by cases c <;> first | exact mem_singleton.mp hl | cases hleaf
  rwa [hl']

theorem Condition.allChecked_of_members {cs : List Condition}
    (hnodes : c.nodes = c :: cs.flatMap nodes) (hself : c.Checked) (h : ∀ c ∈ cs, c.AllChecked) :
    c.AllChecked := by
  intro l hl
  rw [hnodes, mem_cons, mem_flatMap] at hl
  rcases hl with rfl | ⟨c, hc, hl⟩
  · exact hself
  · exact h c hc l hl

theorem Condition.allChecked_not (h : c.AllChecked) : (Condition.not c).AllChecked :=
  allChecked_of_members (by simp [nodes]) trivial (forall_mem_singleton.mpr h)

open Condition (allChecked_leaf allChecked_not)

theorem parseHeaderCondition_ok {response} (h : parseHeaderCondition input response = .ok c) :
    c.AllChecked := by
  unfold parseHeaderCondition at h
  split at h
  · obtain ⟨name, -, h⟩ := do_eq_ok.mp h
    dsimp only at h
    split at h
    · cases h
    cases h
    split <;> exact allChecked_leaf rfl trivial
  · obtain ⟨name, -, rfl⟩ := map_eq_ok.mp h
    split <;> exact allChecked_leaf rfl trivial

theorem parseBodyCondition_ok (h : parseBodyCondition input = .ok c) : c.AllChecked := by
  unfold parseBodyCondition at h
  dsimp only at h
  split at h
  · obtain ⟨r, -, rfl⟩ := map_eq_ok.mp h
    exact allChecked_leaf rfl trivial
  · split_ifs at h
    cases h
    exact allChecked_leaf rfl trivial

theorem parseEnvCondition_ok {arg} (h : parseEnvCondition arg = .ok c) : c.AllChecked := by
  unfold parseEnvCondition at h
  split at h <;> obtain ⟨_, -, rfl⟩ := map_eq_ok.mp h <;>
    exact allChecked_leaf rfl trivial

theorem parseChanceCondition_ok {raw} (h : parseChanceCondition raw = .ok c) : c.AllChecked := by
  unfold parseChanceCondition at h
  split at h
  · cases h
  split_ifs at h
  cases h
  exact allChecked_leaf rfl trivial

/-- A named condition is checked if its member conditions are. -/
theorem parseNamedCondition_ok {inner} (hinner : ∀ text c, inner text = .ok c → c.AllChecked) {name}
    (h : parseNamedCondition inner name args = .ok c) :
    c.AllChecked := by
  have hmembers : ∀ {cs}, args.mapM (fun arg => inner (trim arg)) = .ok cs →
      ∀ c ∈ cs, c.AllChecked := by
    intro cs hcs c hc
    obtain ⟨arg, -, harg⟩ := exists_of_mem_right (mapM_eq_ok.mp hcs) hc
    exact hinner _ _ harg
  cases name with
  | method =>
    obtain ⟨methods, hmethods, rfl⟩ := map_eq_ok.mp h
    exact allChecked_leaf rfl (parseMethodCondition_ok hmethods)
  | host =>
    obtain ⟨arg, -, h⟩ := bind_eq_ok.mp h
    obtain ⟨u, hu, rfl⟩ := map_eq_ok.mp h
    exact allChecked_leaf rfl (validateGlobPattern_ok hu)
  | url =>
    obtain ⟨arg, -, h⟩ := bind_eq_ok.mp h
    obtain ⟨condition, hcondition, rfl⟩ := map_eq_ok.mp h
    exact allChecked_leaf rfl (parseUrlCondition_ok hcondition)
  | clientIp | serverIp =>
    obtain ⟨patterns, hpatterns, rfl⟩ := map_eq_ok.mp h
    exact allChecked_leaf rfl (parseIpPatterns_ok hpatterns)
  | header | resHeader | body | chance | env =>
    obtain ⟨arg, -, h⟩ := bind_eq_ok.mp h
    first
    | exact parseHeaderCondition_ok h
    | exact parseBodyCondition_ok h
    | exact parseChanceCondition_ok h
    | exact parseEnvCondition_ok h
  | status =>
    obtain ⟨statuses, -, rfl⟩ := map_eq_ok.mp h
    exact allChecked_leaf rfl trivial
  | any | all =>
    simp only [parseNamedCondition] at h
    split_ifs at h
    obtain ⟨cs, hcs, rfl⟩ := map_eq_ok.mp h
    refine Condition.allChecked_of_members ?_ trivial (hmembers hcs)
    rw [Condition.nodes, Condition.nodesAll_eq]
  | not =>
    obtain ⟨arg, -, h⟩ := bind_eq_ok.mp h
    obtain ⟨c, hc, rfl⟩ := map_eq_ok.mp h
    exact allChecked_not (hinner _ _ hc)

theorem parseConditionWithin_ok {fuel} (h : parseConditionWithin profile fuel input = .ok c) :
    c.AllChecked := by
  induction fuel generalizing input c with
  | zero => cases h
  | succ fuel ih =>
    rw [parseConditionWithin] at h
    split at h
    · obtain ⟨c, hc, rfl⟩ := map_eq_ok.mp h
      exact allChecked_not (ih hc)
    · obtain ⟨⟨inputName, args⟩, -, h⟩ := bind_eq_ok.mp h
      dsimp only at h
      split at h
      · cases h
      · exact parseNamedCondition_ok (fun _ _ => ih) h

/-! ### Actions -/

/-- What the parser has checked of an action: a `delete` deletes something. -/
def Action.Checked : Action → Prop
  | .delete ops => ops ≠ []
  | _ => True

section Actions

omit [Crates]

/-- Every way to read the form yields an operation. -/
def DeleteForm.Yields : DeleteForm → Prop
  | .exact _ ops => ops ≠ []
  | .nested _ parse => ∀ s ops, parse s = .ok ops → ops ≠ []

theorem deleteForms_yield : ∀ form ∈ deleteForms, form.Yields := by
  simp +contextual [deleteForms, DeleteForm.Yields, deleteNamed, map_eq_ok]

theorem parseDeleteArg_ok {arg} (h : parseDeleteArg arg = .ok ops) : ops ≠ [] := by
  unfold parseDeleteArg at h
  dsimp only at h
  split at h
  · cases h
  unfold parseDeleteProperty at h
  split at h
  next result hresult =>
    obtain ⟨form, hform, hread⟩ := exists_of_findSome?_eq_some hresult
    have hyields := deleteForms_yield form hform
    cases form with
    | exact names ops' =>
      simp only [DeleteForm.read] at hread
      split_ifs at hread
      cases hread
      cases h
      exact hyields
    | nested starts parse =>
      obtain ⟨s, -, hs⟩ := Option.map_eq_some_iff.mp hread
      exact hyields s ops (hs.trans h)
  · cases h

theorem parseDeleteOps_ok (h : parseDeleteOps args = .ok ops) : ops ≠ [] := by
  unfold parseDeleteOps at h
  split_ifs at h with hne
  obtain ⟨parts, hparts, rfl⟩ := map_eq_ok.mp h
  rcases mapM_eq_ok.mp hparts with _ | ⟨harg, -⟩
  · exact absurd rfl hne
  · exact append_ne_nil_of_left_ne_nil (parseDeleteArg_ok harg) _

theorem parseSingle_ok {make} (h : parseSingle make action args = .ok a) : ∃ v, a = make v := by
  obtain ⟨arg, -, h⟩ := bind_eq_ok.mp h
  obtain ⟨v, -, rfl⟩ := map_eq_ok.mp h
  exact ⟨v, rfl⟩

theorem parseFinalStatus_ok {make message}
    (h : parseFinalStatus make action context message args = .ok a) :
    ∃ code, a = make code := by
  obtain ⟨raw, -, h⟩ := do_eq_ok.mp h
  split at h
  · cases h
  next code _ =>
    obtain ⟨-, -, h⟩ := do_eq_ok.mp h
    cases h
    exact ⟨code, rfl⟩

theorem parsePhased_ok {make parseAmount amount}
    (h : parsePhased make parseAmount action amount args = .ok a) :
    ∃ phase n, a = make phase n := by
  unfold parsePhased at h
  split at h
  · obtain ⟨phase, -, h⟩ := do_eq_ok.mp h
    obtain ⟨n, -, h⟩ := do_eq_ok.mp h
    cases h
    exact ⟨phase, n, rfl⟩
  · cases h

theorem parseUpstream_checked (h : parseUpstream args = .ok a) : a.Checked := by
  unfold parseUpstream at h
  split at h
  · cases h
  · obtain ⟨v, -, rfl⟩ := map_eq_ok.mp h
    trivial
  · cases h
    trivial

theorem parseMock_checked (h : parseMock args = .ok a) : a.Checked := by
  unfold parseMock at h
  split at h
  · obtain ⟨op, -, h⟩ := do_eq_ok.mp h
    split_ifs at h
    cases h
    trivial
  · obtain ⟨arg, -, h⟩ := bind_eq_ok.mp h
    obtain ⟨v, -, rfl⟩ := map_eq_ok.mp h
    trivial

theorem parseRedirect_checked (h : parseRedirect args = .ok a) : a.Checked := by
  unfold parseRedirect at h
  split at h
  · cases h
  obtain ⟨code, -, h⟩ := do_eq_ok.mp h
  split at h
  · cases h
  split at h
  · cases h
  obtain ⟨url, -, h⟩ := do_eq_ok.mp h
  split at h
  · split at h
    · cases h
      trivial
    · obtain ⟨-, -, h⟩ := do_eq_ok.mp h
      cases h
      trivial
  · cases h
    trivial

theorem parseAttachment_checked (h : parseAttachment args = .ok a) : a.Checked := by
  unfold parseAttachment at h
  split at h
  · cases h
    trivial
  · split at h
    · cases h
      trivial
    · obtain ⟨v, -, rfl⟩ := map_eq_ok.mp h
      trivial
  · cases h

end Actions

theorem parseNamedAction_checked {name} (h : parseNamedAction input name args = .ok a) :
    a.Checked := by
  cases name with
  | delete =>
    obtain ⟨ops, hops, rfl⟩ := map_eq_ok.mp h
    exact parseDeleteOps_ok hops
  | mockRaw | reqMethod | reqUa | reqReferer | reqAuth | reqForwarded | reqType | reqCharset
  | resType | resCharset | resMerge | reqBodySet | reqBodyPrepend | reqBodyAppend | resBodySet
  | resBodyPrepend | resBodyAppend | tag =>
    obtain ⟨v, rfl⟩ := parseSingle_ok h
    trivial
  | status | resStatus =>
    obtain ⟨code, rfl⟩ := parseFinalStatus_ok h
    trivial
  | delay | throttle =>
    obtain ⟨phase, n, rfl⟩ := parsePhased_ok h
    trivial
  | upstream => exact parseUpstream_checked h
  | mock => exact parseMock_checked h
  | redirect => exact parseRedirect_checked h
  | attachment => exact parseAttachment_checked h
  | resCors | cache | tls | urlQuery | reqBodyReplace | resBodyReplace | inject | skip =>
    obtain ⟨op, -, rfl⟩ := map_eq_ok.mp h
    trivial
  | reqHeader | resHeader | reqCookie | resCookie =>
    obtain ⟨arg, -, h⟩ := bind_eq_ok.mp h
    obtain ⟨op, -, rfl⟩ := map_eq_ok.mp h
    trivial
  | host =>
    obtain ⟨addresses, -, h⟩ := do_eq_ok.mp h
    obtain ⟨pool, -, rfl⟩ := map_eq_ok.mp h
    trivial
  | mapRemote | resTrailer =>
    obtain ⟨arg, -, h⟩ := do_eq_ok.mp h
    obtain ⟨value, -, h⟩ := do_eq_ok.mp h
    obtain ⟨-, -, h⟩ := do_eq_ok.mp h
    cases h
    trivial
  | urlRewrite =>
    simp only [parseNamedAction] at h
    split at h
    · obtain ⟨source, -, h⟩ := do_eq_ok.mp h
      obtain ⟨target, -, h⟩ := do_eq_ok.mp h
      cases h
      trivial
    · cases h
  | direct | bypass | hide => cases h

theorem parseAction_checked (h : parseAction profile input = .ok a) : a.Checked := by
  unfold parseAction at h
  split at h
  next hbare =>
    cases h
    unfold bareAction at hbare
    split at hbare <;> cases hbare <;> trivial
  · split at h
    · cases h
    obtain ⟨⟨inputName, args⟩, -, h⟩ := do_eq_ok.mp h
    dsimp only at h
    split at h
    · cases h
    obtain ⟨action, haction, h⟩ := do_eq_ok.mp h
    obtain ⟨-, -, h⟩ := do_eq_ok.mp h
    cases h
    exact parseNamedAction_checked haction

/-! ### Rules -/

/-- What is known about every rule of an accepted source. -/
structure Rule.Checked (rule : Rule) : Prop where
  conditions : ∀ c ∈ rule.conditions, c.AllChecked
  actions : ∀ a ∈ rule.actions, a.Checked
  actions_ne_nil : rule.actions ≠ []
  matcher : rule.matcher.Checked

theorem Accepted.checked (h : Accepted requireHeader groups rules) (hrule : rule ∈ rules) :
    rule.Checked := by
  obtain ⟨group, n, line, profile, hparse⟩ := h.parseRule hrule
  obtain ⟨-, -, -, hne, hmatcher, hactions, hconditions⟩ := parseRule_ok hparse
  refine ⟨fun c hc => ?_, fun a ha => ?_, hne, ?_⟩
  · obtain ⟨text, htext⟩ := hconditions c hc
    exact parseConditionWithin_ok htext
  · obtain ⟨text, htext⟩ := hactions a ha
    exact parseAction_checked htext
  · obtain ⟨text, htext⟩ := hmatcher
    exact parseMatcherWithin_ok htext

/-- A published snapshot holds the rules of an accepted source. -/
theorem RuleSet.accepted_of_parse {requireHeader groups rs}
    (h : RuleSet.parseGroupsWithProfile groups requireHeader = some (.ok rs)) :
    Accepted requireHeader groups rs.rules := by
  unfold parseGroupsWithProfile at h
  dsimp only at h
  rcases parseGroupsLoop_spec with ⟨hnil, hacc⟩ | ⟨hne, -⟩
  · rw [hnil] at h
    obtain ⟨rs', hpublish, hrs⟩ := Option.map_eq_some_iff.mp h
    cases hrs
    unfold publish at hpublish
    split at hpublish
    · cases hpublish
      exact hacc
    · cases hpublish
  · rw [if_neg (by simpa using hne)] at h
    cases h

/-! ### Testing a snapshot -/

/-- Does the source parse to a snapshot that passes the test? -/
def RuleSet.parsesTo (groups : List (Str × Str)) (requireHeader : Bool) (test : RuleSet → Bool) :
    Bool :=
  match RuleSet.parseGroupsWithProfile groups requireHeader with
  | some (.ok rs) => test rs
  | _ => false

theorem RuleSet.exists_of_parsesTo {groups requireHeader p} [DecidablePred p]
    (h : RuleSet.parsesTo groups requireHeader (p ·)) :
    ∃ rs, RuleSet.parseGroupsWithProfile groups requireHeader = some (.ok rs) ∧ p rs := by
  unfold parsesTo at h
  split at h
  next rs hrs => exact ⟨rs, hrs, of_decide_eq_true h⟩
  · cases h

end RsProxy.Rules
