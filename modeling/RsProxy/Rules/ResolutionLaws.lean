import RsProxy.Rules.IndexComplete

/-!
# The laws of resolution

What a resolved request looks like, for every snapshot and every query: which actions are in the
result, in which order, and which rules are reported for them.
-/

namespace RsProxy.Rules

open Text Data List Bool

variable [Crates] {rs : RuleSet} {q : Query} {o a b : Offer}

namespace RuleSet

/-! ### Offers and their order -/

/-- The offer is an available action of a rule that applies to the query. -/
def IsOffer (rs : RuleSet) (q : Query) (o : Offer) : Prop :=
  ∃ rule captures a, rs.rules[o.rule]? = some rule ∧ rs.capturesAt q o.rule = some captures ∧
    rule.actions[o.position]? = some a ∧
    actionForBodyAvailability a q.includeRequestBody = some o.action ∧
    o.resolved = ⟨o.action, rule.brief, captures, q.res⟩

/-- Important rules first, then the order of the rules, then the order of the actions in a rule. -/
def Before (rs : RuleSet) (a b : Offer) : Prop :=
  (a.rule ≠ b.rule ∧ rs.Precedes a.rule b.rule) ∨ (a.rule = b.rule ∧ a.position < b.position)

theorem mem_offersOf {idx} : o ∈ rs.offersOf q idx ↔ o.rule = idx ∧ rs.IsOffer q o := by
  unfold offersOf
  constructor
  · intro h
    split at h
    next rule captures hrule hcaptures =>
      obtain ⟨a, ha, hoffer⟩ := mem_filterMap.mp h
      obtain ⟨action, havailable, rfl⟩ := Option.map_eq_some_iff.mp hoffer
      rw [mk_mem_zipIdx_iff_getElem?] at ha
      exact ⟨rfl, rule, captures, a.1, hrule, hcaptures, ha, havailable, rfl⟩
    · cases h
  · rintro ⟨rfl, rule, captures, a, hrule, hcaptures, ha, havailable, hresolved⟩
    rw [hrule, hcaptures]
    refine mem_filterMap.mpr ⟨(a, o.position), mk_mem_zipIdx_iff_getElem?.mpr ha, ?_⟩
    unfold offerAction
    rw [havailable, Option.map_some, ← hresolved]

theorem mem_enabledRules_of_isOffer (h : rs.IsOffer q o) : o.rule ∈ rs.enabledRules := by
  obtain ⟨rule, captures, -, hrule, hcaptures, -⟩ := h
  unfold capturesAt at hcaptures
  rw [hrule] at hcaptures
  split at hcaptures
  next rule' resources heq _ =>
    cases heq
    obtain ⟨henabled, -⟩ := Rule.applies_eq_some.mp hcaptures
    simp [mem_enabledRules, isEnabled, hrule, henabled]
  · cases hcaptures

/-- The enabled rules offer everything there is. -/
theorem mem_offers_enabledRules : o ∈ rs.offers q rs.enabledRules ↔ rs.IsOffer q o := by
  unfold offers
  rw [mem_flatMap]
  constructor
  · rintro ⟨idx, -, h⟩
    exact (mem_offersOf.mp h).2
  · intro h
    exact ⟨o.rule, mem_enabledRules_of_isOffer h, mem_offersOf.mpr ⟨rfl, h⟩⟩

theorem pairwise_offersOf (rs : RuleSet) {idx} :
    (rs.offersOf q idx).Pairwise fun a b => a.position < b.position := by
  unfold offersOf
  split
  next rule captures _ _ =>
    have hpositions : rule.actions.zipIdx.Pairwise fun a b => a.2 < b.2 := by
      rw [← pairwise_map, zipIdx_map_snd]
      exact pairwise_lt_range'
    refine hpositions.filterMap _ fun a b hab o ho o' ho' => ?_
    obtain ⟨_, -, rfl⟩ := Option.map_eq_some_iff.mp ho
    obtain ⟨_, -, rfl⟩ := Option.map_eq_some_iff.mp ho'
    exact hab
  · exact .nil

theorem pairwise_offers (rs : RuleSet) (q : Query) :
    (rs.offers q rs.enabledRules).Pairwise rs.Before := by
  refine pairwise_flatMap.mpr ⟨fun idx _ => ?_, ?_⟩
  · refine rs.pairwise_offersOf.imp_of_mem fun ha hb hlt => .inr ⟨?_, hlt⟩
    rw [(mem_offersOf.mp ha).1, (mem_offersOf.mp hb).1]
  · refine (rs.pairwise_enabledRules.and rs.nodup_enabledRules).imp ?_
    rintro i j ⟨hprecedes, hne⟩ a ha b hb
    obtain ⟨rfl, -⟩ := mem_offersOf.mp ha
    obtain ⟨rfl, -⟩ := mem_offersOf.mp hb
    exact .inl ⟨hne, hprecedes⟩

/-- What resolution keeps of the offers of the enabled rules. -/
def kept (rs : RuleSet) (q : Query) : List Offer := rs.selected q rs.enabledRules

theorem isOffer_of_mem_kept (h : o ∈ rs.kept q) : rs.IsOffer q o :=
  mem_offers_enabledRules.mp ((select_sublist _ _).subset h)

theorem pairwise_kept (rs : RuleSet) (q : Query) : (rs.kept q).Pairwise rs.Before :=
  (rs.pairwise_offers q).sublist (select_sublist _ _)

/-- An offer is kept, unless one kept before it skips its family or wins it. -/
theorem mem_kept_or_ruled_out (h : rs.IsOffer q o) :
    o ∈ rs.kept q ∨ ∃ k ∈ rs.kept q, rs.Before k o ∧
      (k.action.skips o.action.family ∨ o.action.isSingle ∧ k.action.family = o.action.family) := by
  obtain ⟨xs, ys, hsplit⟩ := append_of_mem (mem_offers_enabledRules.mpr h)
  rcases mem_select_or_not_keeps Offer.keeps hsplit with hkept | hdropped
  · exact .inl hkept
  · right
    -- What was kept of the offers in front of this one is still kept at the end.
    have hkept : ∀ k ∈ select Offer.keeps [] xs, k ∈ rs.kept q ∧ rs.Before k o := by
      intro k hk
      constructor
      · unfold kept selected
        rw [hsplit, select_append]
        exact (prefix_select _ _ _).subset hk
      · have hordered := rs.pairwise_offers q
        rw [hsplit, pairwise_append] at hordered
        exact hordered.2.2 k ((select_sublist _ _).subset hk) o mem_cons_self
    unfold Offer.keeps at hdropped
    rw [and_eq_false_iff, not_eq_false', not_eq_false', and_eq_true,
      any_eq_true, any_eq_true] at hdropped
    rcases hdropped with ⟨k, hk, hskips⟩ | ⟨hsingle, k, hk, hfamily⟩
    · exact ⟨k, (hkept k hk).1, (hkept k hk).2, .inl hskips⟩
    · exact ⟨k, (hkept k hk).1, (hkept k hk).2, .inr ⟨hsingle, by simpa using hfamily⟩⟩

theorem kept_not_skipped (rs : RuleSet) (q : Query) :
    (rs.kept q).Pairwise fun a b => a.action.skips b.action.family = false := by
  refine pairwise_select _ (fun kept b hkeep a ha => ?_)
  unfold Offer.keeps at hkeep
  rw [and_eq_true, not_eq_true', any_eq_false] at hkeep
  simpa using hkeep.1 a ha

theorem kept_first_wins (rs : RuleSet) (q : Query) :
    (rs.kept q).Pairwise fun a b => b.action.isSingle → a.action.family ≠ b.action.family := by
  refine pairwise_select _ (fun kept b hkeep a ha hsingle heq => ?_)
  unfold Offer.keeps at hkeep
  simp only [hsingle, Bool.true_and, and_eq_true, not_eq_true', any_eq_false]
    at hkeep
  exact hkeep.2 a ha (by simpa using heq)

theorem Before.asymm (h : rs.Before a b) : ¬rs.Before b a := by
  rcases h with ⟨hne, hprecedes⟩ | ⟨heq, hlt⟩
  · rintro (⟨-, hprecedes'⟩ | ⟨heq, -⟩)
    · exact hne (Std.Antisymm.antisymm _ _ hprecedes hprecedes')
    · exact hne heq.symm
  · rintro (⟨hne, -⟩ | ⟨-, hlt'⟩)
    · exact hne heq.symm
    · omega

theorem Before.trans {c} (h : rs.Before a b) (h' : rs.Before b c) : rs.Before a c := by
  rcases h with ⟨hne, hprecedes⟩ | ⟨heq, hlt⟩
  · rcases h' with ⟨hne', hprecedes'⟩ | ⟨heq', -⟩
    · left
      refine ⟨?_, IsTrans.trans _ _ _ hprecedes hprecedes'⟩
      intro heq
      rw [heq] at hprecedes
      exact hne' (Std.Antisymm.antisymm _ _ hprecedes' hprecedes)
    · exact .inl ⟨heq' ▸ hne, heq' ▸ hprecedes⟩
  · rcases h' with ⟨hne', hprecedes'⟩ | ⟨heq', hlt'⟩
    · exact .inl ⟨heq ▸ hne', heq ▸ hprecedes'⟩
    · exact .inr ⟨heq.trans heq', hlt.trans hlt'⟩

/-- Kept offers stand in their order, so a law about the list applies to them in that order. -/
theorem rel_of_before {R} (hR : (rs.kept q).Pairwise R) (ha : a ∈ rs.kept q) (hb : b ∈ rs.kept q)
    (hbefore : rs.Before a b) : R a b := by
  obtain ⟨xs, ys, hsplit⟩ := append_of_mem ha
  have hordered := rs.pairwise_kept q
  rw [hsplit, pairwise_append, pairwise_cons] at hR hordered
  rw [hsplit, mem_append, mem_cons] at hb
  rcases hb with hb | rfl | hb
  · exact absurd (hordered.2.2 b hb a mem_cons_self) hbefore.asymm
  · exact absurd hbefore hbefore.asymm
  · exact hR.2.1.1 b hb

/-- Once an action of a first-wins family is offered, no later one of the family is kept. -/
theorem family_ne_of_offered_before {o'} (hoffer : rs.IsOffer q o) (hsingle : o.action.isSingle)
    (hkept : o' ∈ rs.kept q) (hbefore : rs.Before o o') :
    o'.action.family ≠ o.action.family := by
  intro hfamily
  have hsingle' : o'.action.isSingle := by
    unfold Action.isSingle Action.isStackable at hsingle ⊢
    rwa [hfamily]
  rcases mem_kept_or_ruled_out hoffer with hmem | ⟨k, hk, hbefore', hskips | ⟨-, hwins⟩⟩
  · exact rel_of_before (rs.kept_first_wins q) hmem hkept hbefore hsingle' hfamily.symm
  · -- The `skip` that stops the offer also stops the later action.
    have hskips' := rel_of_before (rs.kept_not_skipped q) hk hkept (hbefore'.trans hbefore)
    rw [hfamily, hskips] at hskips'
    cases hskips'
  · have hne := rel_of_before (rs.kept_first_wins q) hk hkept (hbefore'.trans hbefore) hsingle'
    exact hne (hwins.trans hfamily.symm)

/-! ### The rules reported -/

/-- What is reported for the rule with the number. -/
def briefAt (rs : RuleSet) (idx : Nat) : Option MatchedRule := rs.rules[idx]?.map Rule.brief

theorem briefAt_of_isOffer (h : rs.IsOffer q o) : rs.briefAt o.rule = some o.resolved.rule := by
  obtain ⟨rule, captures, a, hrule, -, -, -, hresolved⟩ := h
  rw [briefAt, hrule, hresolved]
  rfl

/-- Rules with different numbers are told apart by what is reported for them. -/
theorem briefAt_inj (hplaces : (rs.rules.map Rule.place).Nodup) {i j a b}
    (ha : rs.briefAt i = some a) (hb : rs.briefAt j = some b)
    (hplace : (a.group, a.line) = (b.group, b.line)) : i = j := by
  obtain ⟨r, hr, rfl⟩ := Option.map_eq_some_iff.mp ha
  obtain ⟨s, hs, rfl⟩ := Option.map_eq_some_iff.mp hb
  obtain ⟨hi, rfl⟩ := List.getElem?_eq_some_iff.mp hr
  obtain ⟨hj, rfl⟩ := List.getElem?_eq_some_iff.mp hs
  have hi' : i < (rs.rules.map Rule.place).length := by simpa using hi
  have hj' : j < (rs.rules.map Rule.place).length := by simpa using hj
  have hget : (rs.rules.map Rule.place)[i] = (rs.rules.map Rule.place)[j] := by
    simpa [Rule.place, Rule.brief] using hplace
  exact hplaces.getElem_inj_iff.mp hget

theorem forall₂_contributingRules (hplaces : (rs.rules.map Rule.place).Nodup) (q : Query) :
    List.Forall₂ (fun idx brief => rs.briefAt idx = some brief)
      (firstOccurrences ((rs.kept q).map Offer.rule)) (contributingRules (rs.kept q)) := by
  refine forall₂_select _ ?_ .nil ?_
  · intro seen seen' i brief hseen hi
    congr 1
    rw [Bool.eq_iff_iff, contains_iff_mem, any_eq_true]
    constructor
    · intro hmem
      obtain ⟨brief', hbrief', hi'⟩ := exists_of_mem_right hseen.flip hmem
      rw [hi] at hi'
      cases hi'
      exact ⟨brief, hbrief', beq_self_eq_true _⟩
    · rintro ⟨brief', hmem, hplace⟩
      obtain ⟨j, hj, hbrief'⟩ := exists_of_mem_right hseen hmem
      rwa [briefAt_inj hplaces hi hbrief' (beq_iff_eq.mp hplace).symm]
  · rw [forall₂_map_left_iff, forall₂_map_right_iff, forall₂_same]
    exact fun o ho => briefAt_of_isOffer (isOffer_of_mem_kept ho)

/-- The rules of the kept offers, in the order of their first offers, are the contributing ones
in the order of the visit. -/
theorem firstOccurrences_kept (rs : RuleSet) (q : Query) :
    firstOccurrences ((rs.kept q).map Offer.rule) =
      rs.enabledRules.filter fun idx => (rs.kept q).any fun o => o.rule == idx := by
  refine Perm.eq_of_pairwise' ?_ (rs.pairwise_enabledRules.filter _) ?_
  · have hordered : ((rs.kept q).map Offer.rule).Pairwise rs.Precedes := by
      rw [pairwise_map]
      refine (rs.pairwise_kept q).imp fun {a b} hbefore => ?_
      rcases hbefore with ⟨-, hprecedes⟩ | ⟨heq, -⟩
      · exact hprecedes
      · rw [heq]
        exact .inr ⟨rfl, Nat.le_refl _⟩
    exact hordered.sublist (select_sublist _ _)
  · refine (perm_ext_iff_of_nodup nodup_firstOccurrences
      (rs.nodup_enabledRules.filter _)).mpr fun idx => ?_
    rw [mem_firstOccurrences, mem_filter, any_eq_true, mem_map]
    constructor
    · rintro ⟨o, ho, rfl⟩
      exact ⟨mem_enabledRules_of_isOffer (isOffer_of_mem_kept ho), o, ho, beq_self_eq_true _⟩
    · rintro ⟨-, o, ho, heq⟩
      exact ⟨o, ho, beq_iff_eq.mp heq⟩

/-! ### The laws -/

/-- A result is lawful if its actions are those of offers that obey the policies of the families,
and its matched rules are the rules of these offers. -/
structure Lawful (rs : RuleSet) (q : Query) (result : ResolveResult) (kept : List Offer) :
    Prop where
  actions : result.actions = kept.map fun o => o.resolved
  offered : ∀ o ∈ kept, rs.IsOffer q o
  /-- A first-wins family occurs once. -/
  firstWins : result.actions.Pairwise fun a b => b.action.isSingle →
    a.action.family ≠ b.action.family
  /-- Nothing comes after a `skip` of its family. -/
  notSkipped : result.actions.Pairwise fun a b => a.action.skips b.action.family = false
  ordered : kept.Pairwise rs.Before
  /-- A stackable action is missing only behind a `skip` of its family. -/
  stackable : ∀ o, rs.IsOffer q o → o.action.isStackable →
    (∀ k ∈ kept, rs.Before k o → k.action.skips o.action.family = false) → o ∈ kept
  /-- The rules of the kept offers, in the order of the visit. -/
  matchedRules : result.matchedRules.map some =
    (rs.enabledRules.filter fun idx => kept.any fun o => o.rule == idx).map rs.briefAt
  matchedOnce : result.matchedRules.Nodup

theorem stackable_mem_kept (h : rs.IsOffer q o) (hstackable : o.action.isStackable)
    (hskips : ∀ k ∈ rs.kept q, rs.Before k o → k.action.skips o.action.family = false) :
    o ∈ rs.kept q := by
  rcases mem_kept_or_ruled_out h with hkept | ⟨k, hk, hbefore, hskip | ⟨hsingle, -⟩⟩
  · exact hkept
  · rw [hskips k hk hbefore] at hskip
    cases hskip
  · rw [Action.isSingle, hstackable] at hsingle
    cases hsingle

omit [Crates] in
theorem nodup_contributingRules {kept} : (contributingRules kept).Nodup := by
  refine pairwise_select _ (fun seen brief hfresh r hr => ?_)
  rintro rfl
  unfold freshRule at hfresh
  rw [not_eq_true', any_eq_false] at hfresh
  exact hfresh r hr (beq_self_eq_true _)

/-- Every resolution of a parsed source whose group names are distinct is lawful. -/
theorem resolveInner_lawful (hsearch : SearchIsExact) (hfollows : FollowsHir)
    {requireHeader : Bool} {groups : List (Str × Str)} {rs : RuleSet}
    (hparse : parseGroupsWithProfile groups requireHeader = some (.ok rs))
    (hnames : (groups.map Prod.fst).Nodup) (q : Query) :
    ∃ kept, rs.Lawful q (rs.resolveInner q) kept := by
  have hplaces := (accepted_of_parse hparse).places_nodup hnames
  have hresult : rs.resolveInner q =
      ⟨(rs.kept q).map fun o => o.resolved, contributingRules (rs.kept q)⟩ :=
    rs.resolveInner_eq_selected hsearch hfollows q
  refine ⟨rs.kept q, ?_⟩
  rw [hresult]
  refine ⟨rfl, fun o ho => isOffer_of_mem_kept ho, ?_, ?_, rs.pairwise_kept q,
    fun o ho => stackable_mem_kept ho, ?_, nodup_contributingRules⟩
  · exact pairwise_map.mpr (rs.kept_first_wins q)
  · exact pairwise_map.mpr (rs.kept_not_skipped q)
  · have hrules := forall₂_contributingRules hplaces q
    rw [firstOccurrences_kept] at hrules
    rw [← forall₂_eq_eq_eq, forall₂_map_left_iff, forall₂_map_right_iff]
    exact hrules.flip.imp fun _ _ h => h.symm

omit [Crates] in
/-- An important rule takes the status, and a `skip` stops the headers of the rules after it. -/
theorem resolveInner_lawful_of_skip :
    let groups :=
      [("one".toList, "a.test status(500) tag(x)\na.test skip(req.header) status(501)".toList),
      ("two", "a.test req.header(x: 1)\na.test status(502) tag(y) @important")]
    let q : Query := ⟨RequestMeta.get "http://a.test/", none, true, fun _ => none⟩
    ∃ rs, @parseGroupsWithProfile reference groups false = some (.ok rs) ∧
      (@resolveInner reference rs q).matchedRules.map (fun r => (r.group, r.line)) =
        [("two".toList, 2), ("one", 1), ("one", 2)] ∧
      ∃ kept, @RuleSet.Lawful reference rs q (@resolveInner reference rs q) kept := by
  intro groups q
  obtain ⟨rs, hparse, hmatched⟩ := @exists_of_parsesTo reference groups false
    (fun rs => (@resolveInner reference rs q).matchedRules.map
      (fun r => (r.group, r.line)) = [("two".toList, 2), ("one", 1), ("one", 2)]) _
    (by decide +kernel)
  exact ⟨rs, hparse, hmatched, @resolveInner_lawful reference
    reference_searchIsExact reference_followsHir _ _ rs hparse (by decide) q⟩

end RuleSet

end RsProxy.Rules
