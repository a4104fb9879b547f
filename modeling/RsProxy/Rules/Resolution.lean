import RsProxy.Data.Select
import RsProxy.Rules.Resolve

/-!
# Resolution as a selection

The rules that apply offer their actions one after the other, and resolution selects among the
offers: an action is kept unless one kept before it skips its family, or its family is a first-wins
family and is represented already. The state of the loop is determined by the offers it has kept.
-/

namespace RsProxy.Rules

open Text Data List ResolveState

/-! ### Offers -/

/-- An action of a rule that applies, with the numbers of the rule and of the action in it. -/
structure Offer where
  rule : Nat
  position : Nat
  resolved : ResolvedAction

namespace Offer

def action (o : Offer) : Action := o.resolved.action

/-- After the kept offers, is this one kept too? -/
def keeps (kept : List Offer) (o : Offer) : Bool :=
  !(kept.any fun k => k.action.skips o.action.family) &&
    !(o.action.isSingle && kept.any fun k => k.action.family == o.action.family)

end Offer

/-- No rule in the list has the same place as the given one. -/
def freshRule (rules : List MatchedRule) (rule : MatchedRule) : Bool :=
  !rules.any fun r => (r.group, r.line) == (rule.group, rule.line)

/-- The rules of the offers, each at its first occurrence. -/
def contributingRules (kept : List Offer) : List MatchedRule :=
  select freshRule [] (kept.map fun o => o.resolved.rule)

theorem contributingRules_concat {kept o} :
    contributingRules (kept ++ [o]) =
      if freshRule (contributingRules kept) o.resolved.rule then
        contributingRules kept ++ [o.resolved.rule]
      else contributingRules kept := by
  rw [contributingRules, map_append, select_append]
  rfl

/-! ### The state of the loop -/

/-- The state remembers exactly what the kept offers determine. -/
structure ResolveState.Tracks (st : ResolveState) (kept : List Offer) : Prop where
  actions : st.actions = kept.map fun o => o.resolved
  matchedRules : st.matchedRules = contributingRules kept
  seenRules : ∀ key, key ∈ st.seenRules ↔ ∃ r ∈ st.matchedRules, (r.group, r.line) = key
  singleFamilies : ∀ f, st.singleFamilies.contains f =
    kept.any fun k => k.action.isSingle && k.action.family == f
  skip : ∀ f, st.skip.suppresses f = kept.any fun k => k.action.skips f

theorem ResolveState.tracks_initial : initial.Tracks [] where
  actions := rfl
  matchedRules := rfl
  seenRules key := by simp [initial]
  singleFamilies f := by simp [initial]
  skip f := by simp [initial]

variable {st : ResolveState} {kept : List Offer}

theorem ResolveState.Tracks.keeps (h : st.Tracks kept) (o : Offer) :
    st.keeps o.action = Offer.keeps kept o := by
  unfold ResolveState.keeps Offer.keeps
  rw [h.skip, h.singleFamilies]
  -- Whether an action is single depends on its family only.
  have hsingle : ∀ k : Offer, k.action.family = o.action.family →
      k.action.isSingle = o.action.isSingle := by
    intro k hk
    unfold Action.isSingle Action.isStackable
    rw [hk]
  cases ho : o.action.isSingle with
  | false => simp
  | true =>
    have hany : (kept.any fun k => k.action.isSingle && k.action.family == o.action.family) =
        kept.any fun k => k.action.family == o.action.family := by
      refine any_congr rfl fun k => ?_
      by_cases hk : k.action.family = o.action.family
      · simp [hsingle k hk, ho]
      · simp [hk]
    rw [hany]

theorem ResolveState.Tracks.push (h : st.Tracks kept) (o : Offer) :
    (st.push o.resolved.rule o.resolved.captures o.resolved.response o.action).Tracks
      (kept ++ [o]) := by
  have hfresh : freshRule (contributingRules kept) o.resolved.rule =
      !st.seenRules.contains (o.resolved.rule.group, o.resolved.rule.line) := by
    rw [freshRule, ← h.matchedRules, Bool.eq_iff_iff]
    simp [h.seenRules]
  constructor
  · simp [ResolveState.push, h.actions, Offer.action]
  · rw [contributingRules_concat, hfresh, ← h.matchedRules]
    unfold ResolveState.push
    cases st.seenRules.contains (o.resolved.rule.group, o.resolved.rule.line) <;> rfl
  · intro key
    unfold ResolveState.push
    cases st.seenRules.contains (o.resolved.rule.group, o.resolved.rule.line) with
    | true => exact h.seenRules key
    | false =>
      simp only [Bool.false_eq_true, if_false, mem_cons, h.seenRules, mem_append,
        not_mem_nil, or_false]
      constructor
      · rintro (rfl | ⟨r, hr, hkey⟩)
        · exact ⟨_, .inr rfl, rfl⟩
        · exact ⟨r, .inl hr, hkey⟩
      · rintro ⟨r, hr | rfl, hkey⟩
        · exact .inr ⟨r, hr, hkey⟩
        · exact .inl hkey.symm
  · intro f
    cases hsingle : o.action.isSingle with
    | false => simp [ResolveState.push, hsingle, h.singleFamilies]
    | true =>
      by_cases hf : f = o.action.family
      · simp [ResolveState.push, hsingle, hf]
      · simp [ResolveState.push, hsingle, h.singleFamilies, hf, Ne.symm hf]
  · simp [ResolveState.push, h.skip]

/-- One action of a rule that applies, if it is available. -/
def offerAction (q : Query) (idx : Nat) (brief : MatchedRule) (captures : Captures)
    (a : Action × Nat) : Option Offer :=
  (actionForBodyAvailability a.1 q.includeRequestBody).map fun action =>
    ⟨idx, a.2, ⟨action, brief, captures, q.res⟩⟩

/-- The actions of one rule are selected one after the other. -/
theorem ResolveState.Tracks.actions_foldl (h : st.Tracks kept) (q : Query) (idx : Nat)
    (brief : MatchedRule) (captures : Captures) (actions : List Action) (n : Nat) :
    (actions.foldl (·.action q brief captures) st).Tracks
      (select Offer.keeps kept
        ((actions.zipIdx n).filterMap (offerAction q idx brief captures))) := by
  induction actions generalizing st kept n with
  | nil => exact h
  | cons a actions ih =>
    rw [foldl_cons, zipIdx_cons, filterMap_cons]
    unfold action
    cases ha : actionForBodyAvailability a q.includeRequestBody with
    | none =>
      have hoffer : offerAction q idx brief captures (a, n) = none := by simp [offerAction, ha]
      rw [hoffer]
      exact ih h (n + 1)
    | some b =>
      have hoffer : offerAction q idx brief captures (a, n) =
          some ⟨idx, n, b, brief, captures, q.res⟩ := by simp [offerAction, ha]
      rw [hoffer]
      dsimp only
      rw [select_cons, ← h.keeps]
      split
      next hkeep =>
        have hkeep' : st.keeps (Offer.action ⟨idx, n, b, brief, captures, q.res⟩) := hkeep
        rw [if_pos hkeep']
        exact ih (h.push ⟨idx, n, b, brief, captures, q.res⟩) (n + 1)
      next hkeep =>
        have hkeep' : ¬st.keeps (Offer.action ⟨idx, n, b, brief, captures, q.res⟩) := hkeep
        rw [if_neg hkeep']
        exact ih h (n + 1)

/-! ### The whole loop -/

variable [Crates]

/-- When a rule applies: it is enabled, its matcher has these captures, and its conditions hold
with what is available. -/
theorem Rule.applies_eq_some {rule : Rule} {resources index q captures} :
    rule.applies resources index q = some captures ↔
      rule.disabled = false ∧
      (q.parts.bind fun url => rule.matcher.matchesCompiled url q.req.url index.compiledGlobs
        resources.matcher) = some captures ∧
      (q.includeRequestBody ∨
        rule.conditions.any Condition.dependsOnRequestBody = false) ∧
      rule.conditionsMatch resources (q.context index rule.line) := by
  unfold Rule.applies
  cases rule.disabled with
  | true => simp
  | false =>
    cases q.parts.bind fun url => rule.matcher.matchesCompiled url q.req.url index.compiledGlobs
      resources.matcher with
    | none => simp
    | some captures' =>
      cases q.includeRequestBody <;>
        cases rule.conditions.any Condition.dependsOnRequestBody <;>
        cases rule.conditionsMatch resources (q.context index rule.line) <;> simp

variable (rs : RuleSet)

namespace RuleSet

section

variable (rs : RuleSet) (q : Query) (ordered : List Nat) (idx : Nat)

/-- The captures of a rule that applies to the query. -/
def capturesAt : Option Captures :=
  match rs.rules[idx]?, rs.index.compiledResources[idx]? with
  | some rule, some resources => rule.applies resources rs.index q
  | _, _ => none

/-- What one rule offers. -/
def offersOf : List Offer :=
  match rs.rules[idx]?, rs.capturesAt q idx with
  | some rule, some captures =>
    rule.actions.zipIdx.filterMap (offerAction q idx rule.brief captures)
  | _, _ => []

/-- What the rules offer in the order of the visit. -/
def offers : List Offer :=
  ordered.flatMap (rs.offersOf q)

theorem tracks_resolveRule {rs : RuleSet} {q} (h : st.Tracks kept) {idx} :
    (rs.resolveRule q st idx).Tracks (select Offer.keeps kept (rs.offersOf q idx)) := by
  unfold resolveRule offersOf capturesAt
  cases rs.rules[idx]? with
  | none => exact h
  | some rule =>
    cases rs.index.compiledResources[idx]? with
    | none => exact h
    | some resources =>
      dsimp only
      cases rule.applies resources rs.index q with
      | none => exact h
      | some captures => exact h.actions_foldl q idx rule.brief captures rule.actions 0

theorem tracks_foldl {rs : RuleSet} {q st kept} (h : st.Tracks kept) (ordered : List Nat) :
    (ordered.foldl (rs.resolveRule q) st).Tracks
      (select Offer.keeps kept (rs.offers q ordered)) := by
  induction ordered generalizing st kept with
  | nil => exact h
  | cons idx ordered ih =>
    rw [offers, flatMap_cons, select_append]
    exact ih (tracks_resolveRule h)

/-- The offers that resolution keeps. -/
def selected : List Offer :=
  select Offer.keeps [] (rs.offers q ordered)

end

/-- The result of the loop is the selection among the offers. -/
theorem resolveOrdered_eq {q ordered} :
    rs.resolveOrdered q ordered =
      ⟨(rs.selected q ordered).map fun o => o.resolved,
        contributingRules (rs.selected q ordered)⟩ := by
  have h := @tracks_foldl _ rs q _ _ tracks_initial ordered
  unfold resolveOrdered
  dsimp only
  rw [h.actions, h.matchedRules]
  rfl

/-! ### The order of the visit -/

instance (rs : RuleSet) : Std.Total rs.Precedes where
  total i j := by
    unfold Precedes
    cases rs.isImportant i <;> cases rs.isImportant j <;> simp <;> omega

instance (rs : RuleSet) : IsTrans Nat rs.Precedes where
  trans i j k := by
    unfold Precedes
    cases rs.isImportant i <;> cases rs.isImportant j <;> cases rs.isImportant k <;> simp <;> omega

instance (rs : RuleSet) : Std.Antisymm rs.Precedes where
  antisymm i j := by
    unfold Precedes
    cases rs.isImportant i <;> cases rs.isImportant j <;> simp <;> omega

/-- Rules that do not apply offer nothing. -/
theorem offers_filter (q : Query) (ordered : List Nat) :
    rs.offers q (ordered.filter fun i => (rs.capturesAt q i).isSome) = rs.offers q ordered := by
  induction ordered with
  | nil => rfl
  | cons i ordered ih =>
    have hcons : rs.offers q (i :: ordered) = rs.offersOf q i ++ rs.offers q ordered := flatMap_cons
    rw [hcons, ← ih]
    cases hi : rs.capturesAt q i with
    | none =>
      have hnone : rs.offersOf q i = [] := by
        unfold offersOf
        rw [hi]
        cases rs.rules[i]? <;> rfl
      rw [hnone, filter_cons_of_neg (by simp [hi])]
      rfl
    | some captures =>
      rw [filter_cons_of_pos (by simp [hi])]
      exact flatMap_cons

/-- The order of the visit is determined by which rules are visited. -/
theorem filter_sortRules_eq {p l₁ l₂} (h₁ : l₁.Nodup) (h₂ : l₂.Nodup)
    (hmem : ∀ i, p i → (i ∈ l₁ ↔ i ∈ l₂)) :
    (rs.sortRules l₁).filter p = (rs.sortRules l₂).filter p := by
  have hsorted : ∀ l, ((rs.sortRules l).filter p).Pairwise rs.Precedes :=
    fun l => (pairwise_insertionSort rs.Precedes l).filter p
  have hnodup : ∀ l, l.Nodup → ((rs.sortRules l).filter p).Nodup :=
    fun l hl => ((perm_insertionSort rs.Precedes l).nodup_iff.mpr hl).filter p
  refine Perm.eq_of_pairwise' (hsorted l₁) (hsorted l₂) ?_
  refine (perm_ext_iff_of_nodup (hnodup l₁ h₁) (hnodup l₂ h₂)).mpr fun i => ?_
  simp only [mem_filter, sortRules, mem_insertionSort]
  exact and_congr_left fun hp => hmem i hp

end RuleSet

end RsProxy.Rules
