import RsProxy.Rules.Lint.Semantic
import RsProxy.Rules.Parser.Parsed
import RsProxy.Rules.Phases
import RsProxy.Rules.Snapshot

/-!
# What the semantic lint says about conditions

Conditions reported as unsatisfiable never hold together, and a condition said to require a response
never holds without one. A constant condition has three values for the check; a condition called
true may still fail, but only because it depends on a response that is not there.
-/

namespace RsProxy.Rules

open Text Data List Condition Bool SortedMap

/-! ### Lists of conditions -/

variable {cs : List Condition}

theorem anyRequiresResponse_eq : anyRequiresResponse cs = cs.any conditionRequiresResponse := by
  induction cs with
  | nil => rfl
  | cons c cs ih => rw [anyRequiresResponse, any_cons, ih]

theorem allRequireResponse_eq : allRequireResponse cs = cs.all conditionRequiresResponse := by
  induction cs with
  | nil => rfl
  | cons c cs ih => rw [allRequireResponse, all_cons, ih]

theorem flattenAll_eq : flattenAll cs = cs.flatMap flattenConjunction := by
  induction cs with
  | nil => rfl
  | cons c cs ih => rw [flattenAll, flatMap_cons, ih]

variable {c : Condition}

/-- The members of a conjunction are nodes of its tree. -/
theorem mem_nodes_of_mem_flattenConjunction {d} (h : d ∈ flattenConjunction c) : d ∈ c.nodes := by
  induction c using tree_induction with
  | leaf c hleaf => cases c <;> first | exact h | cases hleaf
  | any | not =>
    rw [mem_singleton.mp h]
    exact mem_cons_self
  | all cs ih =>
    rw [flattenConjunction, flattenAll_eq, mem_flatMap] at h
    obtain ⟨c, hc, hd⟩ := h
    rw [nodes, nodesAll_eq]
    exact mem_cons_of_mem _ (mem_flatMap_of_mem hc (ih c hc hd))

/-! ### Constraints -/

section Constraints

variable {α : Type} [BEq α] [LawfulBEq α]

theorem mem_of_intersection {sets values} {x : α} (h : intersection sets = some values)
    (hx : ∀ s ∈ sets, x ∈ s) : x ∈ values := by
  unfold intersection at h
  have hcommon : ∀ current ∈ (none : Option (List α)), x ∈ current := by simp
  generalize none = common at h hcommon
  induction sets generalizing common with
  | nil => exact hcommon values h
  | cons s sets ih =>
    rw [forall_mem_cons] at hx
    refine ih hx.2 _ h ?_
    cases common with
    | none =>
      intro current hcurrent
      cases hcurrent
      exact hx.1
    | some current =>
      intro current' hcurrent'
      cases hcurrent'
      exact mem_filter.mpr ⟨hcommon current rfl, contains_iff_mem.mpr hx.1⟩

variable {positive negative : List (List α)}

/-- A value that all the required lists allow is in one of the excluded lists. -/
theorem exists_excluded_of_constraintsAreEmpty (h : constraintsAreEmpty positive negative) {x}
    (hx : ∀ s ∈ positive, x ∈ s) :
    ∃ s ∈ negative, x ∈ s := by
  unfold constraintsAreEmpty at h
  split at h
  next values hvalues =>
    have hmem := all_eq_true.mp h x (mem_of_intersection hvalues hx)
    exact mem_flatten.mp (contains_iff_mem.mp hmem)
  · cases h

omit [LawfulBEq α] in
theorem ne_nil_of_constraintsAreEmpty (h : constraintsAreEmpty positive negative) :
    positive ≠ [] := by
  rintro rfl
  cases h

end Constraints

/-! ### Constants -/

variable [Crates] {globs : CompiledGlobSet} {bodyLiterals : CompiledBodyContainsSet}
  {r : CompiledConditionResources}

/-- What the three values say about a condition in a context. -/
def ConstantTruth.Describes (truth : ConstantTruth) (context : ConditionMatchContext)
    (c : Condition) (r : CompiledConditionResources) : Prop :=
  match truth with
  | .isTrue => c.matchesWithCompiled context r ∨
      (context.res = none ∧ c.dependsOnResponse)
  | .isFalse => c.matchesWithCompiled context r = false
  | .unknown => True

theorem constantTruth_describes {context} (hbound : c.BoundTo globs bodyLiterals r) :
    (constantTruth c).Describes context c r := by
  induction c using tree_induction generalizing r with
  | leaf c hleaf =>
    cases c with
    | chancePermille permille =>
      rw [constantTruth]
      split
      next hzero =>
        rw [hzero]
        rfl
      split
      next hfull =>
        rw [hfull]
        exact .inl rfl
      · trivial
    | any | all | not => cases hleaf
    | _ => trivial
  | any cs ih =>
    obtain ⟨rs, hrs, rfl⟩ := boundTo_any.mp hbound
    rw [constantTruth]
    cases htruth : anyTruth false cs with
    | unknown => trivial
    | isTrue =>
      obtain ⟨c, hc, hctruth⟩ := of_anyTruth_isTrue htruth
      obtain ⟨r, hzip, hr⟩ := exists_mem_zip_of_mem_left hrs hc
      have hdescribes := ih c hc hr
      rw [hctruth] at hdescribes
      rcases hdescribes with hmatch | ⟨hnone, hdepends⟩
      · exact .inl (matchesWithCompiled_any.mpr ⟨rs, rfl, (c, r), hzip, hmatch⟩)
      · refine .inr ⟨hnone, ?_⟩
        rw [dependsOnResponse, dependsOnResponseAny_eq]
        exact any_eq_true.mpr ⟨c, hc, hdepends⟩
    | isFalse =>
      refine eq_false_iff.mpr fun hmatch => ?_
      obtain ⟨rs', hchildren, p, hp, hmatch⟩ := matchesWithCompiled_any.mp hmatch
      cases hchildren
      have hc := (of_mem_zip hp).1
      have hdescribes := ih p.1 hc (forall₂_zip hrs hp)
      rw [of_anyTruth_isFalse htruth p.1 hc] at hdescribes
      exact absurd (hmatch.symm.trans hdescribes) (by decide)
  | all cs ih =>
    obtain ⟨rs, hrs, rfl⟩ := boundTo_all.mp hbound
    rw [constantTruth]
    cases htruth : allTruth false cs with
    | unknown => trivial
    | isTrue =>
      by_cases hdepends : context.res = none ∧ (Condition.all cs).dependsOnResponse
      · exact .inr hdepends
      · refine .inl (matchesWithCompiled_all.mpr ⟨rs, rfl, fun p hp => ?_⟩)
        have hc := (of_mem_zip hp).1
        have hdescribes := ih p.1 hc (forall₂_zip hrs hp)
        rw [of_allTruth_isTrue htruth p.1 hc] at hdescribes
        refine hdescribes.resolve_right fun hmember => hdepends ⟨hmember.1, ?_⟩
        rw [Condition.dependsOnResponse, dependsOnResponseAny_eq]
        exact any_eq_true.mpr ⟨p.1, hc, hmember.2⟩
    | isFalse =>
      obtain ⟨c, hc, hctruth⟩ := of_allTruth_isFalse htruth
      obtain ⟨r, hzip, hr⟩ := exists_mem_zip_of_mem_left hrs hc
      have hdescribes := ih c hc hr
      rw [hctruth] at hdescribes
      refine eq_false_iff.mpr fun hmatch => ?_
      obtain ⟨rs', hchildren, hall⟩ := matchesWithCompiled_all.mp hmatch
      cases hchildren
      exact absurd ((hall _ hzip).symm.trans hdescribes) (by decide)
  | not c ih =>
    obtain ⟨r', hr', rfl⟩ := boundTo_not.mp hbound
    have hdescribes := ih hr'
    rw [constantTruth]
    cases htruth : constantTruth c with
    | unknown => trivial
    | isTrue =>
      rw [htruth] at hdescribes
      refine eq_false_iff.mpr fun hmatch => ?_
      obtain ⟨hresponse, r'', heq, hmatch⟩ := matchesWithCompiled_not.mp hmatch
      cases heq
      rcases hdescribes with htrue | ⟨hnone, hdepends⟩
      · exact absurd (htrue.symm.trans hmatch) (by decide)
      · exact absurd (hdepends.symm.trans (hresponse hnone)) (by decide)
    | isFalse =>
      rw [htruth] at hdescribes
      by_cases hdepends : context.res = none ∧ c.dependsOnResponse
      · exact .inr ⟨hdepends.1, hdepends.2⟩
      · refine .inl (matchesWithCompiled_not.mpr ⟨fun hnone => ?_, r', rfl, hdescribes⟩)
        exact eq_false_iff.mpr fun h => hdepends ⟨hnone, h⟩

/-! ### Conditions that require a response -/

variable {context : ConditionMatchContext}

theorem not_matches_of_requiresResponse (hnone : context.res = none)
    (h : conditionRequiresResponse c) (hbound : c.BoundTo globs bodyLiterals r) :
    c.matchesWithCompiled context r = false := by
  induction c using tree_induction generalizing r with
  | leaf c hleaf =>
    cases c with
    | resHeaderPresent | resHeaderContains | status => simp [matchesWithCompiled, hnone]
    | any | all | not => cases hleaf
    | _ => cases h
  | any cs ih =>
    obtain ⟨rs, hrs, rfl⟩ := boundTo_any.mp hbound
    rw [conditionRequiresResponse, allRequireResponse_eq, all_eq_true] at h
    refine eq_false_iff.mpr fun hmatch => ?_
    obtain ⟨rs', hchildren, p, hp, hmatch⟩ := matchesWithCompiled_any.mp hmatch
    cases hchildren
    have hc := (of_mem_zip hp).1
    rw [ih p.1 hc (h p.1 hc) (forall₂_zip hrs hp)] at hmatch
    cases hmatch
  | all cs ih =>
    obtain ⟨rs, hrs, rfl⟩ := boundTo_all.mp hbound
    rw [conditionRequiresResponse, anyRequiresResponse_eq, any_eq_true] at h
    obtain ⟨c, hc, hrequires⟩ := h
    obtain ⟨r, hzip, hr⟩ := exists_mem_zip_of_mem_left hrs hc
    refine eq_false_iff.mpr fun hmatch => ?_
    obtain ⟨rs', hchildren, hall⟩ := matchesWithCompiled_all.mp hmatch
    cases hchildren
    have hmatch := hall _ hzip
    rw [ih c hc hrequires hr] at hmatch
    cases hmatch
  | not c ih =>
    refine eq_false_iff.mpr fun hmatch => ?_
    obtain ⟨hresponse, -⟩ := matchesWithCompiled_not.mp hmatch
    have hdepends : c.dependsOnResponse := h
    rw [hresponse hnone] at hdepends
    cases hdepends

/-! ### Conjunctions -/

/-- The condition holds in the context, with some resources. -/
def Condition.Holds (context : ConditionMatchContext) (c : Condition) : Prop :=
  ∃ r, c.matchesWithCompiled context r

/-- Where a condition holds, all members of its conjunction hold. -/
theorem holds_of_mem_flattenConjunction (hbound : c.BoundTo globs bodyLiterals r)
    (hmatch : c.matchesWithCompiled context r) :
    ∀ d ∈ flattenConjunction c, d.Holds context := by
  induction c using tree_induction generalizing r with
  | leaf c hleaf =>
    intro d hd
    have hd' : d = c := by cases c <;> first | exact mem_singleton.mp hd | cases hleaf
    rw [hd']
    exact ⟨r, hmatch⟩
  | any | not =>
    intro d hd
    rw [mem_singleton.mp hd]
    exact ⟨r, hmatch⟩
  | all cs ih =>
    obtain ⟨rs, hrs, rfl⟩ := boundTo_all.mp hbound
    obtain ⟨rs', hchildren, hall⟩ := matchesWithCompiled_all.mp hmatch
    cases hchildren
    intro d hd
    rw [flattenConjunction, flattenAll_eq, mem_flatMap] at hd
    obtain ⟨c, hc, hd⟩ := hd
    obtain ⟨r, hzip, hr⟩ := exists_mem_zip_of_mem_left hrs hc
    exact ih c hc hr (hall _ hzip) d hd

/-! ### Methods and statuses -/

theorem holds_not (h : (not c).Holds context) :
    (context.res = none → c.dependsOnResponse = false) ∧
      ∃ r, c.matchesWithCompiled context r = false := by
  obtain ⟨r, hmatch⟩ := h
  obtain ⟨hresponse, r', -, hmatch⟩ := matchesWithCompiled_not.mp hmatch
  exact ⟨hresponse, r', hmatch⟩

variable {conjunction : List Condition}

theorem not_holds_of_methodConstraintsAreEmpty (hchecked : ∀ d ∈ conjunction, d.Checked)
    (h : methodConstraintsAreEmpty conjunction) :
    ¬∀ d ∈ conjunction, d.Holds context := by
  intro hholds
  -- The required lists are in upper case, so all of them contain the method in upper case.
  have hpositive : ∀ methods ∈ conjunction.filterMap requiredMethods,
      toAsciiUppercase context.req.method ∈ methods ∧
        eqIgnoreAsciiCase (toAsciiUppercase context.req.method) context.req.method := by
    intro methods hmethods
    obtain ⟨d, hd, hd'⟩ := mem_filterMap.mp hmethods
    cases d with
    | method ms =>
      cases hd'
      obtain ⟨r, hmatch⟩ := hholds _ hd
      obtain ⟨m, hm, heq⟩ := any_eq_true.mp hmatch
      rw [← eq_uppercase_of_eqIgnoreAsciiCase (hchecked _ hd m hm) heq]
      exact ⟨hm, heq⟩
    | _ => cases hd'
  obtain ⟨excluded, hexcluded, hmem⟩ :=
    exists_excluded_of_constraintsAreEmpty h fun methods hmethods => (hpositive methods hmethods).1
  obtain ⟨required, hrequired⟩ := exists_mem_of_ne_nil _ (ne_nil_of_constraintsAreEmpty h)
  obtain ⟨d, hd, hd'⟩ := mem_filterMap.mp hexcluded
  unfold excludedMethods at hd'
  split at hd'
  next ms =>
    cases hd'
    obtain ⟨-, r, hmatch⟩ := holds_not (hholds _ hd)
    have htrue : (method excluded).matchesWithCompiled context r :=
      any_eq_true.mpr ⟨_, hmem, (hpositive required hrequired).2⟩
    exact absurd (htrue.symm.trans hmatch) (by decide)
  · cases hd'

theorem holds_status {statuses} (h : (status statuses).Holds context) :
    ∃ res, context.res = some res ∧ res.status ∈ statuses := by
  obtain ⟨r, hmatch⟩ := h
  rw [matchesWithCompiled] at hmatch
  split at hmatch
  next res hres => exact ⟨res, hres, contains_iff_mem.mp hmatch⟩
  · cases hmatch

theorem not_holds_of_statusConstraintsAreEmpty (h : statusConstraintsAreEmpty conjunction) :
    ¬∀ d ∈ conjunction, d.Holds context := by
  intro hholds
  have hrequired : ∀ statuses ∈ conjunction.filterMap requiredStatuses,
      ∃ res, context.res = some res ∧ res.status ∈ statuses := by
    intro statuses hstatuses
    obtain ⟨d, hd, hd'⟩ := mem_filterMap.mp hstatuses
    cases d with
    | status ss =>
      cases hd'
      exact holds_status (hholds _ hd)
    | _ => cases hd'
  -- There is a requirement, so there is a response, and its status is in all the required lists.
  obtain ⟨first, hfirst⟩ := exists_mem_of_ne_nil _ (ne_nil_of_constraintsAreEmpty h)
  obtain ⟨res, hres, -⟩ := hrequired first hfirst
  have hpositive : ∀ statuses ∈ conjunction.filterMap requiredStatuses, res.status ∈ statuses := by
    intro statuses hstatuses
    obtain ⟨res', hres', hmem⟩ := hrequired statuses hstatuses
    rw [hres] at hres'
    cases hres'
    exact hmem
  obtain ⟨excluded, hexcluded, hmem⟩ := exists_excluded_of_constraintsAreEmpty h hpositive
  obtain ⟨d, hd, hd'⟩ := mem_filterMap.mp hexcluded
  unfold excludedStatuses at hd'
  split at hd'
  next ss =>
    cases hd'
    obtain ⟨-, r, hmatch⟩ := holds_not (hholds _ hd)
    rw [matchesWithCompiled, hres] at hmatch
    exact absurd ((contains_iff_mem.mpr hmem).symm.trans hmatch) (by decide)
  · cases hd'

/-! ### Environment variables -/

variable {name value : Str} {message : String}

namespace EnvironmentFacts

/-- The facts are true in an environment. -/
structure Satisfied (facts : EnvironmentFacts) (env : Env) : Prop where
  required : ∀ name value, facts.required.get? name = some value → env name = some value
  requiredPresent : ∀ name, (facts.requiredPresent.get? name).isSome →
    (env name).isSome
  forbiddenPresent : ∀ name, (facts.forbiddenPresent.get? name).isSome → env name = none
  forbiddenValues : ∀ name values value, facts.forbiddenValues.get? name = some values →
    (values.get? value).isSome → env name ≠ some value

variable {facts : EnvironmentFacts} {env : Env}

omit [Crates] in
theorem add_envEquals (h : facts.Satisfied env) (hvalue : env name = some value) :
    ∃ next, facts.add (.envEquals name value) = .ok next ∧ next.Satisfied env := by
  have hsatisfied : Satisfied { facts with
      requiredPresent := facts.requiredPresent.insertKey name
      required := facts.required.upsert name fun _ => value } env := by
    refine ⟨?_, forall_insertKey h.requiredPresent (by rw [hvalue]; rfl), h.forbiddenPresent,
      h.forbiddenValues⟩
    intro name' value' hget
    rw [get?_upsert] at hget
    split at hget
    next heq =>
      cases hget
      rwa [heq]
    · exact h.required name' value' hget
  rw [add]
  cases hprevious : facts.required.get? name with
  | none => exact ⟨_, rfl, hsatisfied⟩
  | some previous =>
    -- The variable has one value, so the two requirements agree.
    have heq : previous = value := by
      have := h.required name previous hprevious
      rw [hvalue] at this
      cases this
      rfl
    exact ⟨_, if_pos heq, hsatisfied⟩

omit [Crates] in
theorem add_not_envPresent (h : facts.Satisfied env) (hname : env name = none) :
    Satisfied { facts with forbiddenPresent := facts.forbiddenPresent.insertKey name } env :=
  ⟨h.required, h.requiredPresent, forall_insertKey h.forbiddenPresent hname, h.forbiddenValues⟩

omit [Crates] in
theorem add_not_envEquals (h : facts.Satisfied env) (hvalue : env name ≠ some value) :
    Satisfied { facts with forbiddenValues := facts.forbiddenValues.upsert name fun values =>
      (values.getD .empty).insertKey value } env := by
  refine ⟨h.required, h.requiredPresent, h.forbiddenPresent, ?_⟩
  intro name' values value' hvalues hvalue'
  rw [get?_upsert] at hvalues
  split at hvalues
  next heq =>
    cases hvalues
    rw [insertKey, get?_upsert] at hvalue'
    split at hvalue'
    next heq' => exact heq ▸ heq' ▸ hvalue
    · -- The value was forbidden before.
      cases hbefore : facts.forbiddenValues.get? name with
      | none =>
        rw [hbefore] at hvalue'
        cases hvalue'
      | some values =>
        rw [hbefore] at hvalue'
        rw [heq]
        exact h.forbiddenValues name values value' hbefore hvalue'
  · exact h.forbiddenValues name' values value' hvalues hvalue'

/-- A condition that holds adds facts that are true. -/
theorem add_of_holds (h : facts.Satisfied context.env) (hc : c.Holds context) :
    ∃ next, facts.add c = .ok next ∧ next.Satisfied context.env := by
  unfold add
  split
  next name =>
    obtain ⟨r, hmatch⟩ := hc
    exact ⟨_, rfl, h.required, forall_insertKey h.requiredPresent hmatch, h.forbiddenPresent,
      h.forbiddenValues⟩
  next name value =>
    obtain ⟨r, hmatch⟩ := hc
    exact add_envEquals h (beq_iff_eq.mp hmatch)
  next name =>
    obtain ⟨-, r, hmatch⟩ := holds_not hc
    exact ⟨_, rfl,
      add_not_envPresent h (Option.isSome_eq_false_iff.mp hmatch |> Option.isNone_iff_eq_none.mp)⟩
  next name value =>
    obtain ⟨-, r, hmatch⟩ := holds_not hc
    exact ⟨_, rfl, add_not_envEquals h (beq_eq_false_iff_ne.mp hmatch)⟩
  · exact ⟨_, rfl, h⟩

theorem foldlM_add_of_holds (h : facts.Satisfied context.env)
    (hholds : ∀ d ∈ conjunction, d.Holds context) :
    ∃ next, conjunction.foldlM add facts = .ok next ∧ next.Satisfied context.env := by
  induction conjunction generalizing facts with
  | nil => exact ⟨facts, rfl, h⟩
  | cons c cs ih =>
    obtain ⟨hc, hcs⟩ := forall_mem_cons.mp hholds
    obtain ⟨next, hnext, hsatisfied⟩ := add_of_holds h hc
    rw [foldlM_cons, hnext]
    exact ih hsatisfied hcs

omit [Crates] in
theorem contradiction_of_satisfied (h : facts.Satisfied env) : facts.contradiction = none := by
  have hpresent : facts.presentAndAbsent = none := by
    refine find?_eq_none.mpr fun name hname habsent => ?_
    obtain ⟨e, he, rfl⟩ := mem_map.mp hname
    have hsome := h.requiredPresent e.1 (by rw [get?_of_mem he]; rfl)
    rw [h.forbiddenPresent e.1 habsent] at hsome
    cases hsome
  have hequal : facts.equalAndUnequal = none := by
    refine find?_eq_none.mpr fun e he hforbidden => ?_
    rcases hvalues : facts.forbiddenValues.get? e.1 with _ | values <;> rw [hvalues] at hforbidden
    · cases hforbidden
    exact h.forbiddenValues e.1 values e.2 hvalues hforbidden
      (h.required e.1 e.2 (get?_of_mem he))
  rw [contradiction, hpresent, hequal]
  rfl

omit [Crates] in
theorem initial_satisfied : initial.Satisfied env := by
  constructor <;> simp [initial]

end EnvironmentFacts

theorem environmentContradiction_of_holds (hholds : ∀ d ∈ conjunction, d.Holds context) :
    environmentContradiction conjunction = none := by
  obtain ⟨facts, hfacts, hsatisfied⟩ :=
    EnvironmentFacts.foldlM_add_of_holds EnvironmentFacts.initial_satisfied hholds
  rw [environmentContradiction, hfacts]
  exact EnvironmentFacts.contradiction_of_satisfied hsatisfied

/-! ### Conditions of a rule -/

theorem not_matches_of_isFalse (hbound : c.BoundTo globs bodyLiterals r)
    (h : constantTruth c = .isFalse) : c.matchesWithCompiled context r = false := by
  have hdescribes : (constantTruth c).Describes context c r :=
    constantTruth_describes hbound
  rwa [h] at hdescribes

theorem unsatisfiableConditions_sound {conditions resources}
    (hbound : List.Forall₂ (Condition.BoundTo globs bodyLiterals) conditions resources)
    (hchecked : ∀ c ∈ conditions, c.AllChecked)
    (h : unsatisfiableConditions conditions = some message) :
    ∃ p ∈ conditions.zip resources, p.1.matchesWithCompiled context p.2 = false := by
  by_contra hall
  have hmatch : ∀ p ∈ conditions.zip resources, p.1.matchesWithCompiled context p.2 := by
    intro p hp
    exact eq_true_of_not_eq_false fun hfalse => hall ⟨p, hp, hfalse⟩
  have hholds : ∀ d ∈ flattenAll conditions, d.Holds context := by
    intro d hd
    rw [flattenAll_eq, mem_flatMap] at hd
    obtain ⟨c, hc, hd⟩ := hd
    obtain ⟨r, hzip, hr⟩ := exists_mem_zip_of_mem_left hbound hc
    exact holds_of_mem_flattenConjunction hr (hmatch _ hzip) d hd
  have hmembers : ∀ d ∈ flattenAll conditions, d.Checked := by
    intro d hd
    rw [flattenAll_eq, mem_flatMap] at hd
    obtain ⟨c, hc, hd⟩ := hd
    exact hchecked c hc d (mem_nodes_of_mem_flattenConjunction hd)
  unfold unsatisfiableConditions at h
  split at h
  next hconstant =>
    obtain ⟨c, hc, hfalse⟩ := any_eq_true.mp hconstant
    obtain ⟨r, hzip, hr⟩ := exists_mem_zip_of_mem_left hbound hc
    exact hall ⟨_, hzip, not_matches_of_isFalse hr (beq_iff_eq.mp hfalse)⟩
  · dsimp only at h
    split at h
    next hmethods => exact not_holds_of_methodConstraintsAreEmpty hmembers hmethods hholds
    · split at h
      next hstatuses => exact not_holds_of_statusConstraintsAreEmpty hstatuses hholds
      · rw [environmentContradiction_of_holds hholds] at h
        cases h

/-! ### The report -/

variable {f : SemanticLintFinding} {rule : Rule}

omit [Crates] in
theorem mem_familyFinding {kind families} (h : f ∈ familyFinding rule kind message families) :
    f = finding rule kind message families := by
  unfold familyFinding at h
  split at h
  · cases h
  · exact mem_singleton.mp h

/-- A finding is about its rule, and has its reason where it is about the conditions or about an
earlier skip. -/
structure SemanticLintFinding.About (f : SemanticLintFinding) (rule : Rule) : Prop where
  ofRule : f = finding rule f.kind f.message f.families
  conditions : f.kind = .unsatisfiableConditions →
    unsatisfiableConditions rule.conditions = some f.message
  skip : f.kind = .actionAfterSkip → f.families = actionsAfterSkip rule

omit [Crates] in
theorem about_of_mem_semanticFindings (h : f ∈ semanticFindings rule) : f.About rule := by
  have hother : ∀ {kind message families}, kind ≠ .unsatisfiableConditions →
      kind ≠ .actionAfterSkip → f = finding rule kind message families → f.About rule := by
    rintro kind message families hconditions hskip rfl
    exact ⟨rfl, fun h => absurd h hconditions, fun h => absurd h hskip⟩
  unfold semanticFindings at h
  simp only [mem_append] at h
  rcases h with ((((((h | h) | h) | h) | h) | h) | h) | h
  all_goals try exact hother (by decide) (by decide) (mem_familyFinding h)
  · obtain ⟨message, hmessage, rfl⟩ := mem_map.mp h
    refine ⟨rfl, fun _ => Option.mem_toList.mp hmessage, fun hkind => ?_⟩
    cases hkind
  · rw [mem_familyFinding h]
    refine ⟨rfl, fun hkind => ?_, fun _ => rfl⟩
    cases hkind
  all_goals
    split at h
    · exact hother (by decide) (by decide) (mem_singleton.mp h)
    · cases h

variable {findings : List SemanticLintFinding} {reportBytes : Nat}

omit [Crates] in
theorem mem_addFindings {new} (h : f ∈ (addFindings new findings reportBytes).2.1) :
    f ∈ new ∨ f ∈ findings := by
  induction new generalizing findings reportBytes with
  | nil => exact .inr h
  | cons g new ih =>
    rw [addFindings] at h
    split at h
    · exact .inr h
    · split at h
      · split at h
        · exact .inr h
        · rcases ih h with h | h
          · exact .inl (mem_cons_of_mem _ h)
          · rcases mem_append.mp h with h | h
            · exact .inr h
            · rw [mem_singleton.mp h]
              exact .inl mem_cons_self
      · exact .inr h

omit [Crates] in
theorem mem_semanticLintLoop {rules}
    (h : f ∈ (semanticLintLoop rules findings reportBytes).findings) :
    f ∈ findings ∨ ∃ rule ∈ rules, f ∈ semanticFindings rule := by
  induction rules generalizing findings reportBytes with
  | nil => exact .inl h
  | cons rule rules ih =>
    have hadd : ∀ f ∈ (addFindings (semanticFindings rule) findings reportBytes).2.1,
        f ∈ findings ∨ ∃ r ∈ rule :: rules, f ∈ semanticFindings r := by
      intro f hf
      rcases mem_addFindings hf with hf | hf
      · exact .inr ⟨rule, mem_cons_self, hf⟩
      · exact .inl hf
    rw [semanticLintLoop] at h
    split at h
    next heq =>
      rw [heq] at hadd
      rcases ih h with h | ⟨r, hr, h⟩
      · exact hadd f h
      · exact .inr ⟨r, mem_cons_of_mem _ hr, h⟩
    next heq =>
      rw [heq] at hadd
      exact hadd f h

namespace RuleSet

theorem conditionsMatch_of_finding {requireHeader groups rs}
    (hparse : parseGroupsWithProfile groups requireHeader = some (.ok rs)) {idx : Nat}
    {resources} (hrule : rs.rules[idx]? = some rule)
    (hresources : rs.index.compiledResources[idx]? = some resources)
    (hf : f ∈ semanticFindings rule) (hkind : f.kind = .unsatisfiableConditions)
    (context : ConditionMatchContext) : rule.conditionsMatch resources context = false := by
  have hchecked := (accepted_of_parse hparse).checked (mem_of_getElem? hrule)
  have hmessage := (about_of_mem_semanticFindings hf).conditions hkind
  obtain ⟨p, hp, hfalse⟩ := unsatisfiableConditions_sound (bound_conditions hrule hresources)
    hchecked.conditions hmessage
  exact all_eq_false.mpr ⟨p, hp, by rw [hfalse]; exact false_ne_true⟩

/-- A rule whose conditions are reported as unsatisfiable applies in no context, and a condition
that is said to require a response fails without one. -/
theorem semanticLint_conditions_sound {requireHeader : Bool} {groups : List (Str × Str)}
    {rs : RuleSet} (hparse : parseGroupsWithProfile groups requireHeader = some (.ok rs)) :
    (∀ f ∈ rs.semanticLint, f.kind = .unsatisfiableConditions →
      ∃ (idx : Nat) (rule : Rule) (resources : CompiledRuleResources),
        rs.rules[idx]? = some rule ∧ rs.index.compiledResources[idx]? = some resources ∧
        f = finding rule f.kind f.message f.families ∧
        ∀ context, rule.conditionsMatch resources context = false) ∧
    ∀ (idx : Nat) (rule : Rule) (resources : CompiledRuleResources),
      rs.rules[idx]? = some rule → rs.index.compiledResources[idx]? = some resources →
        (∀ f ∈ semanticFindings rule, f.kind = .unsatisfiableConditions →
          ∀ context, rule.conditionsMatch resources context = false) ∧
        ∀ p ∈ rule.conditions.zip resources.conditions, conditionRequiresResponse p.1 = true →
          ∀ context : ConditionMatchContext, context.res = none →
            p.1.matchesWithCompiled context p.2 = false := by
  constructor
  · intro f hf hkind
    rcases mem_semanticLintLoop hf with hf | ⟨rule, hrule, hf⟩
    · cases hf
    obtain ⟨idx, hidx⟩ := getElem?_of_mem (mem_filter.mp hrule).1
    obtain ⟨resources, hresources, -⟩ := rs.exists_resources hidx
    exact ⟨idx, rule, resources, hidx, hresources, (about_of_mem_semanticFindings hf).ofRule,
      conditionsMatch_of_finding hparse hidx hresources hf hkind⟩
  · intro idx rule resources hrule hresources
    refine ⟨fun f hf hkind => conditionsMatch_of_finding hparse hrule hresources hf hkind, ?_⟩
    intro p hp hrequires context hnone
    exact not_matches_of_requiresResponse hnone hrequires
      (forall₂_zip (bound_conditions hrule hresources) hp)

omit [Crates] in
/-- No request has two methods, and none has a status. -/
theorem semanticLint_conditions_sound_of_methods :
    let groups := [("g".toList,
      "a.test status(503) when method(GET) when method(POST) when status(200)".toList)]
    ∃ rs, @parseGroupsWithProfile reference groups false = some (.ok rs) ∧
      ((@semanticLint reference rs).map SemanticLintFinding.kind).contains
        .unsatisfiableConditions = true ∧
      ∃ (rule : Rule) (resources : CompiledRuleResources),
        (@rules reference rs)[0]? = some rule ∧
        (@index reference rs).compiledResources[0]? = some resources ∧
        (∀ context, @Rule.conditionsMatch reference rule resources context = false) ∧
        ∃ p ∈ rule.conditions.zip resources.conditions, conditionRequiresResponse p.1 = true ∧
          ∀ context : ConditionMatchContext, context.res = none →
            @matchesWithCompiled reference context p.1 p.2 = false := by
  intro groups
  obtain ⟨rs, hparse, hreported, rule, hidx, ⟨f, hf, hkind⟩, c, hc, hrequires⟩ :=
    @exists_of_parsesTo reference groups false
      (fun rs =>
        ((@semanticLint reference rs).map SemanticLintFinding.kind).contains
          .unsatisfiableConditions = true ∧
        ∃ rule ∈ (@rules reference rs)[0]?,
          (∃ f ∈ semanticFindings rule, f.kind = .unsatisfiableConditions) ∧
          ∃ c ∈ rule.conditions, conditionRequiresResponse c = true) _
      (by decide +kernel)
  obtain ⟨resources, hresources, -⟩ := @exists_resources reference rs 0 rule hidx
  obtain ⟨r, hzip, -⟩ :=
    exists_mem_zip_of_mem_left (@bound_conditions reference rs 0 rule resources hidx hresources) hc
  obtain ⟨hunsatisfiable, hresponse⟩ :=
    (@semanticLint_conditions_sound reference _ _ rs hparse).2 0 rule resources hidx hresources
  exact ⟨rs, hparse, hreported, rule, resources, hidx, hresources,
    hunsatisfiable f hf hkind, (c, r), hzip, hrequires,
    hresponse (c, r) hzip hrequires⟩

end RuleSet

end RsProxy.Rules
