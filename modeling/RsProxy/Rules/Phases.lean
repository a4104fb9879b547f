import RsProxy.Rules.Evaluate
import RsProxy.Rules.Reference

/-!
# Conditions before the response and before the body

A condition can be evaluated before there is a response, and planned before the request's body has
been read. Neither a missing response nor a missing body may turn into a match that the full
information would take back: matching is monotone in the response, and what matches in the end was
possible in the beginning.
-/

namespace RsProxy.Rules

open Text List Bool

namespace ConditionMatchContext

/-- The same request, with what is known about its response. -/
def withResponse (context : ConditionMatchContext) (res : Option ResponseMeta) :
    ConditionMatchContext :=
  { context with res }

/-- The same request head with another body. -/
def withBody (context : ConditionMatchContext) (body : Bytes) : ConditionMatchContext :=
  { context with req := { context.req with body } }

end ConditionMatchContext

variable {context : ConditionMatchContext} {resources : CompiledConditionResources} {c : Condition}
  {cs : List Condition}

namespace Condition

/-! ### What the leaves of a condition read -/

/-- Conditions on the response itself. -/
def isResponseLeaf : Condition → Bool
  | .resHeaderPresent _ | .resHeaderContains _ _ | .status _ => true
  | _ => false

/-- Conditions on the request's body itself. -/
def isBodyLeaf : Condition → Bool
  | .bodyContains _ | .bodyRegex _ => true
  | _ => false

theorem dependsOnResponse_eq (c : Condition) :
    c.dependsOnResponse = c.nodes.any isResponseLeaf := by
  induction c using tree_induction with
  | leaf c hleaf => cases c <;> first | rfl | cases hleaf
  | any cs ih | all cs ih =>
    rw [Bool.eq_iff_iff, dependsOnResponse, dependsOnResponseAny_eq, nodes, nodesAll_eq, any_cons,
      any_flatMap]
    simp only [isResponseLeaf, Bool.false_or]
    rw [any_eq_true, any_eq_true]
    exact exists_congr fun c => and_congr_right fun hc => by rw [ih c hc]
  | not c ih => rw [dependsOnResponse, ih]; rfl

theorem dependsOnRequestBody_eq (c : Condition) :
    c.dependsOnRequestBody = c.nodes.any isBodyLeaf := by
  induction c using tree_induction with
  | leaf c hleaf => cases c <;> first | rfl | cases hleaf
  | any cs ih | all cs ih =>
    rw [Bool.eq_iff_iff, dependsOnRequestBody, dependsOnRequestBodyAny_eq, nodes, nodesAll_eq,
      any_cons, any_flatMap]
    simp only [isBodyLeaf, Bool.false_or]
    rw [any_eq_true, any_eq_true]
    exact exists_congr fun c => and_congr_right fun hc => by rw [ih c hc]
  | not c ih => rw [dependsOnRequestBody, ih]; rfl

/-- Negations do not hide that a condition depends on the response. -/
theorem dependsOnResponse_iterate_not (c : Condition) {n} :
    (not^[n] c).dependsOnResponse = c.dependsOnResponse := by
  induction n with
  | zero => rfl
  | succ n ih => rw [Function.iterate_succ_apply', dependsOnResponse, ih]

/-! ### Walking a combinator -/

variable [Crates]

/-- Two contexts in which every leaf of a tree has the same verdict agree on the tree, if both or
neither have a response. -/
theorem matchesWithCompiled_congr {context context' c}
    (hleaves : ∀ l ∈ c.nodes, l.isLeaf → ∀ r,
      matchesWithCompiled context l r = matchesWithCompiled context' l r)
    (hres : c.dependsOnResponse → (context.res = none ↔ context'.res = none))
    (resources : CompiledConditionResources) :
    matchesWithCompiled context c resources = matchesWithCompiled context' c resources := by
  induction c using tree_induction generalizing resources with
  | leaf c hleaf =>
    refine hleaves c ?_ hleaf resources
    cases c <;> first | exact mem_singleton_self _ | cases hleaf
  | any cs ih | all cs ih =>
    have hmembers : ∀ rs, ∀ p ∈ cs.zip rs, (matchesWithCompiled context p.1 p.2 = true ↔
        matchesWithCompiled context' p.1 p.2 = true) := by
      intro rs p hp
      obtain ⟨hc, -⟩ := of_mem_zip hp
      rw [ih p.1 hc (fun l hl => hleaves l ?_) (fun hdep => hres ?_)]
      · rw [nodes, nodesAll_eq]
        exact mem_cons_of_mem _ (mem_flatMap_of_mem hc hl)
      · rw [dependsOnResponse, dependsOnResponseAny_eq]
        exact any_eq_true.mpr ⟨p.1, hc, hdep⟩
    rw [Bool.eq_iff_iff]
    simp only [matchesWithCompiled_any, matchesWithCompiled_all]
    refine exists_congr fun rs => and_congr_right fun _ => ?_
    first
      | exact exists_congr fun p => and_congr_right (hmembers rs p)
      | exact forall₂_congr (hmembers rs)
  | not c ih =>
    have hinner := ih (fun l hl => hleaves l (mem_cons_of_mem _ hl)) hres
    rw [Bool.eq_iff_iff, matchesWithCompiled_not, matchesWithCompiled_not]
    refine and_congr ?_ (exists_congr fun r => and_congr_right fun _ => by rw [hinner])
    cases hdep : c.dependsOnResponse with
    | false => simp
    | true => rw [hres hdep]

/-! ### Without a response -/

/-- The response is read only by conditions that depend on it. -/
theorem matchesWithCompiled_withResponse (hc : c.dependsOnResponse = false) {res} :
    matchesWithCompiled (context.withResponse res) c resources =
      matchesWithCompiled context c resources := by
  refine matchesWithCompiled_congr (fun l hl hleaf r => ?_) (fun h => ?_) resources
  · have hl' : l.isResponseLeaf = false := by
      rw [dependsOnResponse_eq, any_eq_false] at hc
      exact eq_false_iff.mpr (hc l hl)
    cases l <;>
      first
        | rfl
        | exact absurd hleaf false_ne_true
        | exact absurd hl' nofun
  · rw [hc] at h
    cases h

/-- A negated condition on the response does not match before there is one. -/
theorem matchesWithCompiled_not_of_dependsOnResponse (hc : c.dependsOnResponse) :
    matchesWithCompiled (context.withResponse none) (.not c) resources = false := by
  rw [eq_false_iff, Ne, matchesWithCompiled_not]
  rintro ⟨h, -⟩
  rw [h rfl] at hc
  cases hc

/-- What matches before the response still matches with it. -/
theorem matchesWithCompiled_mono_response {res}
    (h : matchesWithCompiled (context.withResponse none) c resources) :
    matchesWithCompiled (context.withResponse (some res)) c resources := by
  induction c using tree_induction generalizing resources with
  | leaf c hleaf => cases c <;> first | exact h | cases h | cases hleaf
  | any cs ih =>
    obtain ⟨rs, hrs, p, hp, hmatch⟩ := matchesWithCompiled_any.mp h
    refine matchesWithCompiled_any.mpr ⟨rs, hrs, p, hp, ?_⟩
    exact ih p.1 (of_mem_zip hp).1 hmatch
  | all cs ih =>
    obtain ⟨rs, hrs, hmatch⟩ := matchesWithCompiled_all.mp h
    refine matchesWithCompiled_all.mpr ⟨rs, hrs, fun p hp => ?_⟩
    exact ih p.1 (of_mem_zip hp).1 (hmatch p hp)
  | not c _ =>
    -- Negation reverses the order, so the case rests on the guard: a negation that matched before
    -- the response does not read it.
    have hc : c.dependsOnResponse = false := (matchesWithCompiled_not.mp h).1 rfl
    have hnot : (not c).dependsOnResponse = false := hc
    rw [matchesWithCompiled_withResponse hnot] at h ⊢
    exact h

/-- The absence of a response never makes a condition match: a match survives every response, a
condition on the response does not match without one, and neither does any number of negations of
a condition that depends on it. -/
theorem matches_without_response (c : Condition) (context : ConditionMatchContext)
    (resources : CompiledConditionResources) :
    (matchesWithCompiled (context.withResponse none) c resources = true →
      ∀ res, matchesWithCompiled (context.withResponse (some res)) c resources = true) ∧
    (c.isResponseLeaf = true →
      matchesWithCompiled (context.withResponse none) c resources = false) ∧
    (c.dependsOnResponse = true → ∀ n,
      matchesWithCompiled (context.withResponse none) (not^[n + 1] c) resources =
        false) := by
  refine ⟨fun h res => matchesWithCompiled_mono_response h, fun hc => ?_, fun hc n => ?_⟩
  · cases c <;> first | rfl | cases hc
  · rw [Function.iterate_succ_apply']
    apply matchesWithCompiled_not_of_dependsOnResponse
    rw [dependsOnResponse_iterate_not, hc]

omit [Crates] in
/-- `any(status(200), method(GET))` on a `GET` request: it matches before the response and after a
404, and twice negated it waits for the response. -/
theorem any_status_method_without_response :
    let context : ConditionMatchContext :=
      ⟨none, none, 1, .empty, ⟨[], .empty, none⟩, .get "http://a.test/", fun _ => none⟩
    let c : Condition := .any [.status [200], .method ["GET"]]
    let resources : CompiledConditionResources := .children [.none, .none]
    @matchesWithCompiled reference (context.withResponse (some ⟨404, []⟩)) c resources = true ∧
    @matchesWithCompiled reference (context.withResponse none) (.status [200]) .none = false ∧
    @matchesWithCompiled reference (context.withResponse none) (.not (.not c))
      (.not (.not resources)) = false := by
  intro context c resources
  refine ⟨?_, ?_, ?_⟩
  · exact (@matches_without_response reference c context resources).1 (by decide) _
  · exact (@matches_without_response reference (.status [200]) context .none).2.1 rfl
  · exact (@matches_without_response reference c context (.not (.not resources))).2.2 rfl 1

/-! ### Before the body -/

/-- The body is read only by conditions that depend on it. -/
theorem matchesWithCompiled_withBody (hc : c.dependsOnRequestBody = false) {body} :
    matchesWithCompiled (context.withBody body) c resources =
      matchesWithCompiled context c resources := by
  refine @matchesWithCompiled_congr _ (context.withBody body) context c
    (fun l hl hleaf r => ?_) (fun _ => Iff.rfl) resources
  have hl' : l.isBodyLeaf = false := by
    rw [dependsOnRequestBody_eq, any_eq_false] at hc
    exact eq_false_iff.mpr (hc l hl)
  cases l <;>
    first
      | rfl
      | exact absurd hleaf false_ne_true
      | exact absurd hl' nofun

/-- What matches with some body and perhaps a response was possible before both. -/
theorem mayMatchBeforeRequestBody_of_matches {body res}
    (h : matchesWithCompiled ((context.withBody body).withResponse res) c resources) :
    mayMatchBeforeRequestBody context c resources := by
  induction c using tree_induction generalizing resources with
  | leaf c hleaf => cases c <;> first | exact h | rfl | cases hleaf
  | any cs ih =>
    obtain ⟨rs, rfl, p, hp, hmatch⟩ := matchesWithCompiled_any.mp h
    rw [mayMatchBeforeRequestBody, anyMayMatch_eq, any_eq_true]
    exact ⟨p, hp, ih p.1 (of_mem_zip hp).1 hmatch⟩
  | all cs ih =>
    obtain ⟨rs, rfl, hmatch⟩ := matchesWithCompiled_all.mp h
    rw [mayMatchBeforeRequestBody, allMayMatch_eq, all_eq_true]
    exact fun p hp => ih p.1 (of_mem_zip hp).1 (hmatch p hp)
  | not c _ =>
    rw [mayMatchBeforeRequestBody]
    cases hbody : c.dependsOnRequestBody with
    | true => simp
    | false =>
      cases hres : c.dependsOnResponse with
      | true => simp
      | false =>
        have hbody' : (not c).dependsOnRequestBody = false := hbody
        have hres' : (not c).dependsOnResponse = false := hres
        rw [matchesWithCompiled_withResponse hres', matchesWithCompiled_withBody hbody'] at h
        simpa using h

end Condition

end RsProxy.Rules
