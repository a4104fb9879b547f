import RsProxy.Rules.Lint.SemanticSound
import RsProxy.Rules.ResolutionLaws

/-!
# Actions behind a skip of their own rule

The lint goes through the actions of one rule and reports those that an earlier `skip` of the rule
suppresses. Resolution does the same for all the rules that apply, so the `skip` in question may be
suppressed itself, by a rule that was visited before and skips the family `skip`. This file says
exactly when a reported action is in a result nevertheless.
-/

namespace RsProxy.Rules

open Text Data List Option Rules.Action

/-! ### Skips -/

variable {f : ActionFamily}

theorem Action.family_of_skips {a : Action} (h : a.skips f) : a.family = .skip := by
  cases a with
  | skip families => rfl
  | _ => cases h

/-- What is left of an action without the body has the same family and skips the same. -/
theorem family_of_available {a b available} (h : actionForBodyAvailability a available = some b) :
    b.family = a.family ∧ ∀ f, b.skips f = a.skips f := by
  unfold actionForBodyAvailability at h
  split at h
  · cases h
    exact ⟨rfl, fun _ => rfl⟩
  · split at h
    · cases h
    · dsimp only at h
      split_ifs at h
      cases h
      exact ⟨rfl, fun _ => rfl⟩
    · cases h
      exact ⟨rfl, fun _ => rfl⟩

theorem available_of_skips {a} (h : a.skips f) (available : Bool) :
    actionForBodyAvailability a available = some a := by
  cases a with
  | skip families => cases available <;> rfl
  | _ => cases h

/-! ### The pass over one rule -/

/-- The skips of a rule after some of its actions. -/
def localSkip (skip : SkipState) (actions : List Action) : SkipState :=
  actions.foldl (fun skip a => if skip.suppresses a.family then skip else skip.observe a) skip

/-- What the skips of a rule suppress in front of one of its actions. -/
def skipBefore (actions : List Action) (position : Nat) : SkipState :=
  localSkip .initial (actions.take position)

variable {actions : List Action}

theorem skipBefore_succ {position a} (h : actions[position]? = some a) :
    skipBefore actions (position + 1) =
      if (skipBefore actions position).suppresses a.family then skipBefore actions position
      else (skipBefore actions position).observe a := by
  unfold skipBefore localSkip
  rw [take_add_one, h, foldl_append]
  rfl

theorem skipBefore_succ_of_none {position} (h : actions[position]? = none) :
    skipBefore actions (position + 1) = skipBefore actions position := by
  unfold skipBefore
  rw [take_add_one, h]
  simp

/-- A family is suppressed by an action in front that skips it and is not suppressed itself. -/
theorem suppresses_skipBefore_iff {position} :
    (skipBefore actions position).suppresses f ↔
      ∃ i < position, ∃ a, actions[i]? = some a ∧ a.skips f ∧
        (skipBefore actions i).suppresses .skip = false := by
  induction position with
  | zero => simp [skipBefore, localSkip]
  | succ n ih =>
    have hsplit : (∃ i < n + 1, ∃ a, actions[i]? = some a ∧ a.skips f ∧
          (skipBefore actions i).suppresses .skip = false) ↔
        (skipBefore actions n).suppresses f ∨ ∃ a, actions[n]? = some a ∧
          a.skips f ∧ (skipBefore actions n).suppresses .skip = false := by
      rw [ih]
      constructor
      · rintro ⟨i, hi, h⟩
        rcases Nat.lt_or_eq_of_le (Nat.le_of_lt_succ hi) with hlt | rfl
        · exact .inl ⟨i, hlt, h⟩
        · exact .inr h
      · rintro (⟨i, hi, h⟩ | h)
        · exact ⟨i, Nat.lt_succ_of_lt hi, h⟩
        · exact ⟨n, Nat.lt_succ_self n, h⟩
    rw [hsplit]
    cases hn : actions[n]? with
    | none =>
      rw [skipBefore_succ_of_none hn]
      simp
    | some a =>
      rw [skipBefore_succ hn]
      by_cases hskips : a.skips f
      · have hfamily := family_of_skips hskips
        rw [hfamily]
        cases (skipBefore actions n).suppresses .skip with
        | true | false => simp
      · split <;> simp [hskips]

/-- Skips of the family `skip` suppress every later one, whether they are suppressed or not. -/
theorem suppresses_skip_of_skips {i position a} (ha : actions[i]? = some a) (hskips : a.skips .skip)
    (hlt : i < position) :
    (skipBefore actions position).suppresses .skip := by
  rw [suppresses_skipBefore_iff]
  cases hi : (skipBefore actions i).suppresses .skip with
  | false => exact ⟨i, hlt, a, ha, hskips, hi⟩
  | true =>
    obtain ⟨j, hj, h⟩ := suppresses_skipBefore_iff.mp hi
    exact ⟨j, hj.trans hlt, h⟩

/-- The action stands behind a skip of its family in the same rule. -/
def Rule.FollowsSkip (rule : Rule) (position : Nat) (a : Action) : Prop :=
  rule.actions[position]? = some a ∧
    (skipBefore rule.actions position).suppresses a.family

theorem mem_skippedFamilies {skip} :
    f ∈ skippedFamilies skip actions ↔ ∃ i a, actions[i]? = some a ∧ a.family = f ∧
      (localSkip skip (actions.take i)).suppresses f := by
  induction actions generalizing skip with
  | nil => simp [skippedFamilies]
  | cons a actions ih =>
    have hsplit : (∃ i b, (a :: actions)[i]? = some b ∧ b.family = f ∧
          (localSkip skip ((a :: actions).take i)).suppresses f) ↔
        (a.family = f ∧ skip.suppresses f) ∨
          f ∈ skippedFamilies (if skip.suppresses a.family then skip else skip.observe a)
            actions := by
      rw [ih]
      constructor
      · rintro ⟨i, b, hb, hfamily, h⟩
        cases i with
        | zero =>
          cases hb
          exact .inl ⟨hfamily, h⟩
        | succ i => exact .inr ⟨i, b, hb, hfamily, h⟩
      · rintro (⟨hfamily, h⟩ | ⟨i, b, hb, hfamily, h⟩)
        · exact ⟨0, a, rfl, hfamily, h⟩
        · exact ⟨i + 1, b, hb, hfamily, h⟩
    rw [hsplit, skippedFamilies]
    cases hsuppressed : skip.suppresses a.family with
    | true =>
      rw [if_pos rfl, mem_cons]
      refine or_congr_left ⟨?_, fun h => h.1.symm⟩
      rintro rfl
      exact ⟨rfl, hsuppressed⟩
    | false =>
      refine (or_iff_right ?_).symm
      rintro ⟨rfl, h⟩
      rw [hsuppressed] at h
      cases h

/-- The families of a report are those of the actions behind a skip. -/
theorem mem_actionsAfterSkip {rule name} :
    name ∈ actionsAfterSkip rule ↔
      ∃ position a, rule.FollowsSkip position a ∧ a.family.asStr = name := by
  unfold actionsAfterSkip sortedFamilies
  rw [SortedMap.mem_keys_foldl_insertKey]
  constructor
  · rintro (h | h)
    · obtain ⟨f, hf, rfl⟩ := mem_map.mp h
      obtain ⟨i, a, ha, rfl, hsuppressed⟩ := mem_skippedFamilies.mp hf
      exact ⟨i, a, ⟨ha, hsuppressed⟩, rfl⟩
    · cases h
  · rintro ⟨i, a, ⟨ha, hsuppressed⟩, rfl⟩
    exact .inl (mem_map_of_mem (mem_skippedFamilies.mpr ⟨i, a, ha, rfl, hsuppressed⟩))

/-! ### The rules visited before -/

variable [Crates] {captures : Captures}

namespace RuleSet

/-- What resolution has kept when it comes to a rule. -/
def keptBefore (rs : RuleSet) (q : Query) (idx : Nat) : List Offer :=
  rs.selected q (rs.enabledRules.takeWhile (· != idx))

theorem mem_keptBefore {rs : RuleSet} {q idx} (hidx : idx ∈ rs.enabledRules) {k} :
    k ∈ rs.keptBefore q idx ↔ k ∈ rs.kept q ∧ k.rule ≠ idx ∧ rs.Precedes k.rule idx := by
  obtain ⟨pre, post, hsplit⟩ := append_of_mem hidx
  have hnodup := rs.nodup_enabledRules
  have hordered := rs.pairwise_enabledRules
  rw [hsplit, nodup_append] at hnodup
  rw [hsplit, pairwise_append, pairwise_cons] at hordered
  have hpre : ∀ i ∈ pre, i ≠ idx := fun i hi => hnodup.2.2 i hi idx mem_cons_self
  have hbefore : rs.enabledRules.takeWhile (· != idx) = pre := by
    rw [hsplit, takeWhile_append_of_pos fun i hi => bne_iff_ne.mpr (hpre i hi),
      takeWhile_cons_of_neg (by simp), append_nil]
  have hoffers : rs.offers q rs.enabledRules =
      rs.offers q pre ++ (rs.offersOf q idx ++ rs.offers q post) := by
    rw [hsplit, offers, flatMap_append]
    rfl
  have hrule : ∀ {o visited}, o ∈ rs.offers q visited → o.rule ∈ visited := by
    intro o visited ho
    obtain ⟨i, hi, ho⟩ := mem_flatMap.mp ho
    rw [(mem_offersOf.mp ho).1]
    exact hi
  unfold keptBefore kept selected
  rw [hbefore, hoffers, select_append]
  constructor
  · intro hk
    have hmem := hrule ((select_sublist _ _).subset hk)
    exact ⟨(prefix_select _ _ _).subset hk, hpre _ hmem, hordered.2.2 _ hmem _ mem_cons_self⟩
  · rintro ⟨hk, hne, hprecedes⟩
    obtain ⟨new, hnew, hsub⟩ :=
      select_eq_append Offer.keeps (select Offer.keeps [] (rs.offers q pre))
        (rs.offersOf q idx ++ rs.offers q post)
    rw [hnew, mem_append] at hk
    rcases hk with hk | hk
    · exact hk
    · -- The rule of a later offer is this one or comes after it.
      rcases mem_append.mp (hsub.subset hk) with ho | ho
      · exact absurd (mem_offersOf.mp ho).1 hne
      · have hafter := hordered.2.1.1 _ (hrule ho)
        exact absurd (Std.Antisymm.antisymm _ _ hprecedes hafter) hne

/-- The offer at a position of a rule that applies. -/
theorem isOffer_at {rs : RuleSet} {q idx position rule a b} (hrule : rs.rules[idx]? = some rule)
    (hcaptures : rs.capturesAt q idx = some captures) (ha : rule.actions[position]? = some a)
    (havailable : actionForBodyAvailability a q.includeRequestBody = some b) :
    rs.IsOffer q ⟨idx, position, ⟨b, rule.brief, captures, q.res⟩⟩ :=
  ⟨rule, captures, a, hrule, hcaptures, ha, havailable, rfl⟩

/-- A kept offer of a rule in terms of the action at its position. -/
theorem action_of_mem_kept {rs : RuleSet} {q o rule} (ho : o ∈ rs.kept q)
    (hrule : rs.rules[o.rule]? = some rule) :
    ∃ a, rule.actions[o.position]? = some a ∧
      actionForBodyAvailability a q.includeRequestBody = some o.action := by
  obtain ⟨rule', captures, a, hrule', -, ha, havailable, -⟩ := isOffer_of_mem_kept ho
  cases hrule.symm.trans hrule'
  exact ⟨a, ha, havailable⟩

/-! ### When a reported action is kept -/

/-- The skip in front of the action has no effect, and nothing else is in the way of the action. -/
structure SkipUndone (rs : RuleSet) (q : Query) (idx : Nat) (rule : Rule) (position : Nat)
    (a : Action) : Prop where
  applies : (rs.capturesAt q idx).isSome
  available : (actionForBodyAvailability a q.includeRequestBody).isSome
  /-- A rule visited before skips the family `skip`, … -/
  undone : ∃ k ∈ rs.keptBefore q idx, k.action.skips .skip
  /-- … none of those rules skips the family of the action, … -/
  notSkipped : ∀ k ∈ rs.keptBefore q idx, k.action.skips a.family = false
  /-- … and the family is not taken if the first action wins it. -/
  notWon : a.isSingle →
    (∀ k ∈ rs.keptBefore q idx, k.action.family ≠ a.family) ∧
    ∀ i < position, ∀ b, rule.actions[i]? = some b →
      (actionForBodyAvailability b q.includeRequestBody).isSome → b.family ≠ a.family

section Kept

variable {rs : RuleSet} {q : Query} {idx position : Nat} {rule : Rule} {a : Action}

section

variable (hrule : rs.rules[idx]? = some rule)

include hrule

/-- Without a skip of the family `skip` in front of the rule, the skips of the rule count. -/
theorem exists_skip_kept (hcaptures : rs.capturesAt q idx = some captures)
    (hundone : ∀ k ∈ rs.keptBefore q idx, k.action.skips .skip = false)
    (hsuppressed : (skipBefore rule.actions position).suppresses f) :
    ∃ k ∈ rs.kept q, k.rule = idx ∧ k.position < position ∧ k.action.skips f := by
  obtain ⟨i, hi, b, hb, hskips, heffective⟩ := suppresses_skipBefore_iff.mp hsuppressed
  have havailable := available_of_skips hskips q.includeRequestBody
  have hoffer := isOffer_at hrule hcaptures hb havailable
  rcases mem_kept_or_ruled_out hoffer with hkept | ⟨k, hk, hbefore, hruled⟩
  · exact ⟨_, hkept, rfl, hi, hskips⟩
  · have hfamily : b.family = .skip := family_of_skips hskips
    -- Only a skip of the family `skip` is in the way of a skip.
    have hskip : k.action.skips .skip := by
      rcases hruled with h | ⟨hsingle, -⟩
      · rwa [← hfamily]
      · unfold isSingle isStackable Offer.action at hsingle
        rw [hfamily] at hsingle
        cases hsingle
    rcases hbefore with ⟨hne, hprecedes⟩ | ⟨heq, hlt⟩
    · have hmem := (mem_keptBefore (mem_enabledRules_of_isOffer hoffer)).mpr ⟨hk, hne, hprecedes⟩
      rw [hundone k hmem] at hskip
      cases hskip
    · have heq : k.rule = idx := heq
      obtain ⟨c, hc, havailable'⟩ := action_of_mem_kept hk (heq ▸ hrule)
      rw [(family_of_available havailable').2] at hskip
      rw [suppresses_skip_of_skips hc hskip hlt] at heffective
      cases heffective

theorem kept_of_skipUndone
    (ha : rule.actions[position]? = some a) (h : rs.SkipUndone q idx rule position a) :
    ∃ o ∈ rs.kept q, o.rule = idx ∧ o.position = position := by
  obtain ⟨captures, hcaptures⟩ := isSome_iff_exists.mp h.applies
  obtain ⟨b, havailable⟩ := isSome_iff_exists.mp h.available
  have hfamily := (family_of_available havailable).1
  have hoffer := isOffer_at hrule hcaptures ha havailable
  have hidx := mem_enabledRules_of_isOffer hoffer
  refine ⟨_, (mem_kept_or_ruled_out hoffer).resolve_right ?_, rfl, rfl⟩
  rintro ⟨k, hk, hbefore, hruled⟩
  change k.action.skips b.family ∨ b.isSingle ∧ k.action.family = b.family at hruled
  have hsame : b.isSingle = a.isSingle := by
    unfold isSingle isStackable
    rw [hfamily]
  rw [hfamily, hsame] at hruled
  rcases hbefore with ⟨hne, hprecedes⟩ | ⟨heq, hlt⟩
  · have hmem := (mem_keptBefore hidx).mpr ⟨hk, hne, hprecedes⟩
    rcases hruled with hskips | ⟨hsingle, hwins⟩
    · rw [h.notSkipped k hmem] at hskips
      cases hskips
    · exact (h.notWon hsingle).1 k hmem hwins
  · have heq : k.rule = idx := heq
    obtain ⟨c, hc, havailable'⟩ := action_of_mem_kept hk (heq ▸ hrule)
    rcases hruled with hskips | ⟨hsingle, hwins⟩
    · -- The skips of the rule itself have been suppressed.
      obtain ⟨k', hk', hskip⟩ := h.undone
      obtain ⟨hkept, hne, hprecedes⟩ := (mem_keptBefore hidx).mp hk'
      have hbefore' : rs.Before k' k := .inl ⟨heq ▸ hne, heq ▸ hprecedes⟩
      have hnot := rel_of_before (rs.kept_not_skipped q) hkept hk hbefore'
      rw [family_of_skips hskips, hskip] at hnot
      cases hnot
    · refine (h.notWon hsingle).2 _ hlt c hc (by rw [havailable']; rfl) ?_
      rw [← (family_of_available havailable').1, hwins]

theorem skipUndone_of_kept
    (hfollows : rule.FollowsSkip position a) {o} (ho : o ∈ rs.kept q) (hidx : o.rule = idx)
    (hposition : o.position = position) : rs.SkipUndone q idx rule position a := by
  subst hidx hposition
  obtain ⟨ha, hsuppressed⟩ := hfollows
  have hoffer := isOffer_of_mem_kept ho
  have henabled := mem_enabledRules_of_isOffer hoffer
  obtain ⟨b, hb, havailable⟩ := action_of_mem_kept ho hrule
  cases ha.symm.trans hb
  have hfamily := (family_of_available havailable).1
  have hsingle : o.action.isSingle = a.isSingle := by
    unfold isSingle isStackable
    rw [hfamily]
  obtain ⟨-, captures, -, -, hcaptures, -⟩ := hoffer
  have hbefore : ∀ k ∈ rs.keptBefore q o.rule, k ∈ rs.kept q ∧ rs.Before k o := by
    intro k hk
    obtain ⟨hkept, hne, hprecedes⟩ := (mem_keptBefore henabled).mp hk
    exact ⟨hkept, .inl ⟨hne, hprecedes⟩⟩
  refine ⟨by rw [hcaptures]; rfl, by rw [havailable]; rfl, ?_, ?_, fun hwins => ⟨?_, ?_⟩⟩
  · by_contra hnone
    push Not at hnone
    obtain ⟨k, hk, heq, hlt, hskips⟩ := exists_skip_kept hrule hcaptures
      (fun k hk => Bool.eq_false_iff.mpr (hnone k hk)) hsuppressed
    have hnot := rel_of_before (rs.kept_not_skipped q) hk ho (.inr ⟨heq, hlt⟩)
    rw [hfamily, hskips] at hnot
    cases hnot
  · intro k hk
    rw [← hfamily]
    exact rel_of_before (rs.kept_not_skipped q) (hbefore k hk).1 ho (hbefore k hk).2
  · intro k hk
    rw [← hfamily]
    exact rel_of_before (rs.kept_first_wins q) (hbefore k hk).1 ho (hbefore k hk).2
      (hsingle.trans hwins)
  · intro i hi c hc havailable' hsame
    obtain ⟨d, hd⟩ := isSome_iff_exists.mp havailable'
    have hd' := (family_of_available hd).1
    have hsingle' : d.isSingle := by
      rw [← hwins]
      unfold isSingle isStackable
      rw [hd', hsame]
    refine family_ne_of_offered_before (isOffer_at hrule hcaptures hc hd) hsingle' ho
      (.inr ⟨rfl, hi⟩) ?_
    rw [hfamily, ← hsame]
    exact hd'.symm

end

end Kept

/-- A finding about skips names the families of the actions of its rule behind a skip. Such an
action is in the result of a query exactly when a rule visited before skips the family `skip` and
nothing else is in the way of the action. So no such action is in any result, if whatever skips the
family `skip` skips all families. -/
theorem actionAfterSkip_sound_iff (hsearch : SearchIsExact) (hfollows : FollowsHir) (rs : RuleSet)
    {f : SemanticLintFinding} (hf : f ∈ rs.semanticLint) (hkind : f.kind = .actionAfterSkip) :
    ∃ idx rule, rs.rules[idx]? = some rule ∧ f = finding rule f.kind f.message f.families ∧
      (∀ name, name ∈ f.families ↔
        ∃ position a, rule.FollowsSkip position a ∧ a.family.asStr = name) ∧
      ∀ position a, rule.FollowsSkip position a →
        (∀ q, (rs.resolveInner q).actions = (rs.kept q).map (fun o => o.resolved) ∧
          ((∀ o ∈ rs.kept q, o.rule = idx → o.position ≠ position) ↔
            ¬ rs.SkipUndone q idx rule position a)) ∧
        ((∀ rule ∈ rs.rules, ∀ a ∈ rule.actions, a.skips .skip = true →
            ∀ family, a.skips family = true) →
          ∀ q, ∀ o ∈ rs.kept q, o.rule = idx → o.position ≠ position) := by
  rcases mem_semanticLintLoop hf with hf | ⟨rule, hrule, hf⟩
  · cases hf
  obtain ⟨idx, hidx⟩ := getElem?_of_mem (mem_filter.mp hrule).1
  obtain ⟨hfinding, -, hfamilies⟩ := about_of_mem_semanticFindings hf
  refine ⟨idx, rule, hidx, hfinding, fun name => ?_, fun position a ha => ⟨fun q => ⟨?_, ?_⟩, ?_⟩⟩
  · rw [hfamilies hkind]
    exact mem_actionsAfterSkip
  · rw [rs.resolveInner_eq_selected hsearch hfollows q]
    rfl
  · constructor
    · intro hnot hundone
      obtain ⟨o, ho, hrule, hposition⟩ := kept_of_skipUndone hidx ha.1 hundone
      exact hnot o ho hrule hposition
    · intro hundone o ho hrule hposition
      exact hundone (skipUndone_of_kept hidx ha ho hrule hposition)
  · intro hall q o ho hrule hposition
    have hundone := skipUndone_of_kept hidx ha ho hrule hposition
    obtain ⟨k, hk, hskip⟩ := hundone.undone
    have hoffer := (select_sublist _ _).subset hk
    obtain ⟨i, -, hoffer⟩ := mem_flatMap.mp hoffer
    obtain ⟨-, rule', -, b, hrule', -, hb, havailable, -⟩ := mem_offersOf.mp hoffer
    have hskips := (family_of_available havailable).2
    have hfamily := hall rule' (mem_of_getElem? hrule') b (mem_of_getElem? hb)
      ((hskips _).symm.trans hskip) a.family
    rw [← hskips, hundone.notSkipped k hk] at hfamily
    cases hfamily

omit [Crates] in
/-- A header behind a skip of headers. -/
theorem actionAfterSkip_of_header :
    let groups := [("g".toList, "a.test skip(res.header) res.header(x: y)".toList)]
    ∃ rs, @parseGroupsWithProfile reference groups false = some (.ok rs) ∧
      ∃ f ∈ @semanticLint reference rs, f.families = ["res.header".toList] ∧
        ∀ q, ∀ o ∈ @kept reference rs q, o.rule = 0 → o.position ≠ 1 := by
  intro groups
  obtain ⟨rs, hparse, ⟨f, hf, hreported⟩, hone, hactions, hnone⟩ :=
    @exists_of_parsesTo reference groups false
      (fun rs => (∃ f ∈ @semanticLint reference rs,
          f.kind = .actionAfterSkip ∧ f.families = ["res.header"]) ∧
        (@rules reference rs).length = 1 ∧
        (∀ rule ∈ @rules reference rs,
          rule.actions.map family = [.skip, .resHeader]) ∧
        ∀ rule ∈ @rules reference rs, ∀ a ∈ rule.actions, a.skips .skip = false) _
      (by decide +kernel)
  obtain ⟨idx, rule, hidx, -, hnames, hsound⟩ := @actionAfterSkip_sound_iff reference
    reference_searchIsExact reference_followsHir rs f hf hreported.1
  obtain ⟨position, a, ha, hname⟩ := (hnames "res.header").mp (by rw [hreported.2]; simp)
  -- the header is the second of the two actions
  obtain rfl : position = 1 := by
    have hfamily := congrArg (Option.map Action.family) ha.1
    rw [← getElem?_map, hactions rule (mem_of_getElem? hidx)] at hfamily
    match position with
    | 0 =>
      rw [← some.inj hfamily] at hname
      exact absurd hname (by decide)
    | 1 => rfl
    | _ + 2 => cases hfamily
  obtain rfl : idx = 0 := by
    have hlt := (List.getElem?_eq_some_iff.mp hidx).1
    omega
  refine ⟨rs, hparse, f, hf, hreported.2, (hsound 1 a ha).2 ?_⟩
  intro rule hrule a ha hskips
  have hnot := hnone rule hrule a ha
  rw [hskips] at hnot
  cases hnot

omit [Crates] in
/-- After `skip(skip)` a header behind a skip of headers is resolved. -/
theorem actionAfterSkip_undone :
    let groups := [("g".toList,
      "a.test skip(skip)\na.test skip(res.header) res.header(x: y)".toList)]
    let q : Query := ⟨RequestMeta.get "http://a.test/", none, true, fun _ => none⟩
    ∃ rs, @parseGroupsWithProfile reference groups false = some (.ok rs) ∧
      (@semanticLint reference rs).map (fun f => (f.kind, f.line, f.families)) =
        [(.actionAfterSkip, 2, ["res.header".toList])] ∧
      (@resolveInner reference rs q).actions.map (fun r => (r.rule.line, r.action.family)) =
        [(1, .skip), (2, .resHeader)] := by
  intro groups q
  exact @exists_of_parsesTo reference _ _ _ _ (by decide +kernel)

end RuleSet

end RsProxy.Rules
