import RsProxy.Rules.Parser.Parsed
import RsProxy.Rules.Phases
import RsProxy.Rules.Resolution

/-!
# Planning for the request's body

Whether a body has to be read is decided from the head of a request. When it need not be, resolution
gives the same result with every body, and the same as without one.
-/

namespace RsProxy.Rules

open Text Data List

/-! ### Actions -/

/-- An action that does no work on the body stays whole when there is none. -/
theorem actionForBodyAvailability_eq_some {a} (hchecked : a.Checked)
    (ha : actionRequiresRequestBody a = false) {available} :
    actionForBodyAvailability a available = some a := by
  unfold actionForBodyAvailability
  cases available with
  | true => rfl
  | false =>
    cases a with
    | delete ops =>
      have hops : (ops.filter fun op => !op.touchesReqBody) = ops := by
        rw [filter_eq_self]
        intro op hop
        have := any_eq_false.mp ha op hop
        simpa using this
      have hne : ops ≠ [] := hchecked
      simp [hops, hne]
    | reqBody op => cases ha
    | _ => rfl

variable [Crates] {resources : CompiledRuleResources} {rule : Rule} {rs : RuleSet}
  {req : RequestMeta} {env : Env} {idx : Nat}

/-! ### One rule -/

/-- What planning finds out about a rule whose matcher matches: it is impossible already, or it has
nothing to do with the body. -/
def Rule.PlannedWithoutBody (rule : Rule) (resources : CompiledRuleResources)
    (context : ConditionMatchContext) : Prop :=
  (∃ p ∈ rule.conditions.zip resources.conditions,
      p.1.mayMatchBeforeRequestBody context p.2 = false) ∨
    (rule.conditions.any Condition.dependsOnRequestBody = false ∧
      rule.actions.any actionRequiresRequestBody = false)

/-- An impossible rule never applies, whatever the body and the response are. -/
theorem Rule.conditionsMatch_of_impossible {context p}
    (hp : p ∈ rule.conditions.zip resources.conditions)
    (himpossible : p.1.mayMatchBeforeRequestBody context p.2 = false) (body : Bytes)
    (res : Option ResponseMeta) :
    rule.conditionsMatch resources ((context.withBody body).withResponse res) = false := by
  refine all_eq_false.mpr ⟨p, hp, fun hmatch => ?_⟩
  rw [Condition.mayMatchBeforeRequestBody_of_matches hmatch] at himpossible
  cases himpossible

/-- Conditions without a body condition have the same verdict with every body. -/
theorem Rule.conditionsMatch_withBody
    (h : rule.conditions.any Condition.dependsOnRequestBody = false)
    (context : ConditionMatchContext) (body : Bytes) :
    rule.conditionsMatch resources (context.withBody body) =
      rule.conditionsMatch resources context := by
  rw [Bool.eq_iff_iff, Rule.conditionsMatch, Rule.conditionsMatch, all_eq_true, all_eq_true]
  refine forall₂_congr fun p hp => ?_
  have hp' : p.1.dependsOnRequestBody = false := by
    simpa using any_eq_false.mp h p.1 (of_mem_zip hp).1
  rw [Condition.matchesWithCompiled_withBody hp']

/-! ### All rules -/

namespace RuleSet

section

variable (h : rs.requestBodyRequired env req = false)
  (hidx : idx ∈ rs.candidateRuleIndices (Query.mk req none true env).parts req.url)
  (hrule : rs.rules[idx]? = some rule)
  (hresources : rs.index.compiledResources[idx]? = some resources)

include h hidx hrule hresources

/-- If no body is required, every candidate that is not ruled out was planned without one. -/
theorem planned_of_not_required (hdisabled : rule.disabled = false)
    (hmatcher : ((Query.mk req none true env).parts.bind fun url =>
      rule.matcher.matchesCompiled url req.url rs.index.compiledGlobs resources.matcher).isSome) :
    rule.PlannedWithoutBody resources
      ((Query.mk req none true env).context rs.index rule.line) := by
  have hplan := any_eq_false.mp h idx hidx
  rw [hrule, hresources] at hplan
  simp only [hdisabled, hmatcher, Bool.not_false, Bool.true_and, Bool.and_eq_true, not_and,
    Bool.not_eq_true, Bool.or_eq_false_iff] at hplan
  by_cases hmay : ((rule.conditions.zip resources.conditions).all fun p =>
      p.1.mayMatchBeforeRequestBody ((Query.mk req none true env).context rs.index rule.line) p.2)
  · exact .inr (hplan hmay)
  · obtain ⟨p, hp, hfalse⟩ := all_eq_false.mp (Bool.eq_false_iff.mpr hmay)
    exact .inl ⟨p, hp, Bool.eq_false_iff.mpr hfalse⟩

/-- Then a candidate applies with a body exactly when it applies without, with the same captures,
and it does no work on the body. -/
theorem applies_body_irrelevant (body : Bytes) (res : Option ResponseMeta) (captures : Captures) :
    (rule.applies resources rs.index ⟨{ req with body }, res, true, env⟩ = some captures ↔
      rule.applies resources rs.index ⟨req, res, false, env⟩ = some captures) ∧
    (rule.applies resources rs.index ⟨req, res, false, env⟩ = some captures →
      rule.actions.any actionRequiresRequestBody = false) := by
  set context := (Query.mk req none true env).context rs.index rule.line with hcontext
  have hwith : (Query.mk { req with body } res true env).context rs.index rule.line =
      (context.withResponse res).withBody body := rfl
  have hplanned : ∀ body, rule.disabled = false →
      ((Query.mk req res false env).parts.bind fun url => rule.matcher.matchesCompiled url req.url
        rs.index.compiledGlobs resources.matcher) = some captures →
      rule.conditionsMatch resources ((context.withBody body).withResponse res) →
      rule.conditions.any Condition.dependsOnRequestBody = false ∧
        rule.actions.any actionRequiresRequestBody = false := by
    intro body hdisabled hmatcher hconditions
    have hplan := planned_of_not_required h hidx hrule hresources hdisabled
      (Option.isSome_iff_exists.mpr ⟨captures, hmatcher⟩)
    refine hplan.resolve_left fun ⟨p, hp, himpossible⟩ => ?_
    have hfalse := Rule.conditionsMatch_of_impossible hp himpossible body res
    exact absurd (hfalse.symm.trans hconditions) Bool.false_ne_true
  rw [Rule.applies_eq_some, Rule.applies_eq_some, hwith]
  refine ⟨⟨?_, ?_⟩, ?_⟩
  · rintro ⟨hdisabled, hmatcher, -, hconditions⟩
    have hbody := (hplanned body hdisabled hmatcher hconditions).1
    rw [Rule.conditionsMatch_withBody hbody] at hconditions
    exact ⟨hdisabled, hmatcher, .inr hbody, hconditions⟩
  · rintro ⟨hdisabled, hmatcher, hbody, hconditions⟩
    have hbody := hbody.resolve_left Bool.false_ne_true
    rw [Rule.conditionsMatch_withBody hbody]
    exact ⟨hdisabled, hmatcher, .inl rfl, hconditions⟩
  · rintro ⟨hdisabled, hmatcher, -, hconditions⟩
    exact (hplanned req.body hdisabled hmatcher hconditions).2

end

section

variable (hchecked : ∀ rule ∈ rs.rules, rule.Checked) (h : rs.requestBodyRequired env req = false)

include hchecked h

theorem offersOf_body_irrelevant
    (hidx : idx ∈ rs.candidateRuleIndices (Query.mk req none true env).parts req.url) {body : Bytes}
    {res} :
    rs.offersOf ⟨{ req with body }, res, true, env⟩ idx =
      rs.offersOf ⟨req, res, false, env⟩ idx := by
  unfold offersOf capturesAt
  cases hrule : rs.rules[idx]? with
  | none => rfl
  | some rule =>
    cases hresources : rs.index.compiledResources[idx]? with
    | none => rfl
    | some resources =>
      dsimp only
      have hiff := applies_body_irrelevant h hidx hrule hresources body res
      have hsame : rule.applies resources rs.index ⟨{ req with body }, res, true, env⟩ =
          rule.applies resources rs.index ⟨req, res, false, env⟩ :=
        Option.ext fun captures => (hiff captures).1
      rw [hsame]
      cases happlies : rule.applies resources rs.index ⟨req, res, false, env⟩ with
      | none => rfl
      | some captures =>
        have hactions := (hiff captures).2 happlies
        refine filterMap_congr fun a ha => ?_
        have ha' : a.1 ∈ rule.actions := (mem_zipIdx' ha).2 ▸ getElem_mem _
        have hrequires : actionRequiresRequestBody a.1 = false := by
          simpa using any_eq_false.mp hactions a.1 ha'
        have hchecked' := (hchecked rule (mem_of_getElem? hrule)).actions a.1 ha'
        unfold offerAction
        rw [actionForBodyAvailability_eq_some hchecked' hrequires,
          actionForBodyAvailability_eq_some hchecked' hrequires]

theorem resolveInner_body_irrelevant (body : Bytes) (res : Option ResponseMeta) :
    rs.resolveInner ⟨{ req with body }, res, true, env⟩ =
      rs.resolveInner ⟨req, res, false, env⟩ := by
  -- The visit is planned from the URL alone, so both runs visit the same rules.
  set ordered := rs.sortRules (rs.candidateRuleIndices (Query.mk req none true env).parts req.url)
  have hoffers : rs.offers ⟨{ req with body }, res, true, env⟩ ordered =
      rs.offers ⟨req, res, false, env⟩ ordered := by
    refine flatMap_congr fun idx hidx => ?_
    exact offersOf_body_irrelevant hchecked h ((mem_insertionSort _).mp hidx)
  have hresult : rs.resolveOrdered ⟨{ req with body }, res, true, env⟩ ordered =
      rs.resolveOrdered ⟨req, res, false, env⟩ ordered := by
    rw [resolveOrdered_eq, resolveOrdered_eq, selected, selected, hoffers]
  unfold resolveInner
  split
  · rfl
  · exact hresult

end

/-- If the head of a request does not require its body, then the body is irrelevant: with every
body, before the response or with any response, resolution gives what it gives with an empty body
and what it gives when the body is left out. -/
theorem resolve_of_body_not_required {requireHeader : Bool} {groups : List (Str × Str)}
    {rs : RuleSet} (hparse : parseGroupsWithProfile groups requireHeader = some (.ok rs))
    {env : Env} {req : RequestMeta} (h : rs.requestBodyRequired env req = false) (body : Bytes) :
    (rs.resolve env { req with body } = rs.resolve env { req with body := [] } ∧
      rs.resolve env { req with body } = rs.resolveWithoutRequestBody env req) ∧
    ∀ res, rs.resolveResponse env { req with body } res =
        rs.resolveResponse env { req with body := [] } res ∧
      rs.resolveResponse env { req with body } res =
        rs.resolveResponseWithoutRequestBody env req res := by
  have hchecked : ∀ rule ∈ rs.rules, rule.Checked :=
    fun rule hrule => (accepted_of_parse hparse).checked hrule
  have hwith := resolveInner_body_irrelevant hchecked h
  refine ⟨⟨?_, hwith body none⟩, fun res => ⟨?_, hwith body (some res)⟩⟩
  · exact (hwith body none).trans (hwith [] none).symm
  · exact (hwith body (some res)).trans (hwith [] (some res)).symm

omit [Crates] in
/-- A rule on the body of `POST` requests does not make a `GET` request wait for its body. -/
theorem resolve_get_before_post_body :
    let groups := [("g".toList, "a.test status(503) when method(POST) when body(~x)".toList)]
    let req := RequestMeta.get "http://a.test/"
    ∃ rs, @parseGroupsWithProfile reference groups false = some (.ok rs) ∧
      @requestBodyRequired reference rs (fun _ => none) req = false ∧
      @resolve reference rs (fun _ => none) { req with body := [120] } =
        @resolveWithoutRequestBody reference rs (fun _ => none) req := by
  intro groups req
  obtain ⟨rs, hparse, hrequired⟩ := @exists_of_parsesTo reference groups false
    (fun rs => @requestBodyRequired reference rs (fun _ => none) req = false) _
    (by decide +kernel)
  exact ⟨rs, hparse, hrequired,
    (@resolve_of_body_not_required reference _ _ rs hparse _ _ hrequired [120]).1.2⟩

end RuleSet

end RsProxy.Rules
