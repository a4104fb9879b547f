import RsProxy.Data.Results
import RsProxy.Rules.Index

/-!
# What a snapshot holds

The index of a snapshot is the one built from its rules. This file says so field by field, and
gives every rule the resources that were bound for it.
-/

namespace RsProxy.Rules

open Text Data Option List

/-! ### Bound conditions -/

variable {cs : List Condition} {r : CompiledConditionResources}

section Bound

variable {globs : CompiledGlobSet} {bodyLiterals : CompiledBodyContainsSet}

/-- The resources are those bound for the condition. -/
def Condition.BoundTo (globs : CompiledGlobSet) (bodyLiterals : CompiledBodyContainsSet)
    (c : Condition) (r : CompiledConditionResources) : Prop :=
  bindConditionResources globs bodyLiterals c = some r

theorem bindAll_eq_some {rs} :
    bindAll globs bodyLiterals cs = some rs ↔
      List.Forall₂ (Condition.BoundTo globs bodyLiterals) cs rs := by
  have hmap : ∀ cs, bindAll globs bodyLiterals cs =
      cs.mapM (bindConditionResources globs bodyLiterals) := by
    intro cs
    induction cs with
    | nil => rfl
    | cons c cs ih =>
      rw [bindAll, ih, mapM_cons]
  rw [hmap, mapM_eq_some]
  rfl

theorem Condition.boundTo_any :
    (Condition.any cs).BoundTo globs bodyLiterals r ↔
      ∃ rs, List.Forall₂ (Condition.BoundTo globs bodyLiterals) cs rs ∧ .children rs = r := by
  unfold Condition.BoundTo
  rw [bindConditionResources, map_eq_some_iff]
  exact exists_congr fun rs => and_congr_left fun _ => bindAll_eq_some

theorem Condition.boundTo_all :
    (Condition.all cs).BoundTo globs bodyLiterals r ↔
      ∃ rs, List.Forall₂ (Condition.BoundTo globs bodyLiterals) cs rs ∧ .children rs = r :=
  boundTo_any

theorem Condition.boundTo_not {c} :
    (Condition.not c).BoundTo globs bodyLiterals r ↔
      ∃ r', c.BoundTo globs bodyLiterals r' ∧ .not r' = r := by
  unfold Condition.BoundTo
  rw [bindConditionResources, map_eq_some_iff]

end Bound

variable [Crates] (rs : RuleSet)

/-! ### The index -/

/-- The parts of an index, as they come from the rules. -/
structure RuleIndex.BuiltFrom (index : RuleIndex) (rules : List Rule) : Prop where
  globs : CompiledGlobSet.build rules = some index.compiledGlobs
  bodyLiterals : CompiledBodyContainsSet.build rules = some index.compiledBodyLiterals
  resources : rules.mapM (bindRule index.compiledGlobs index.compiledBodyLiterals) =
    some index.compiledResources
  domainExact : index.domainExact = (Buckets.empty.insertAll 0 rules).domainExact
  domainSuffix : index.domainSuffix = (Buckets.empty.insertAll 0 rules).domainSuffix
  global : ∀ i ∈ (Buckets.empty.insertAll 0 rules).global, i ∈ index.global
  /-- Without an automaton for the literals, their rules are global. -/
  unfiltered : index.prefilter = none →
    ∀ ids ∈ (Buckets.empty.insertAll 0 rules).prefilterLiteralRules.values, ∀ i ∈ ids,
      i ∈ index.global
  filtered : ∀ search, index.prefilter = some search →
    Crates.ahoCorasick false (Buckets.empty.insertAll 0 rules).prefilterLiteralRules.keys =
      some search ∧
    index.prefilterLiteralRules = (Buckets.empty.insertAll 0 rules).prefilterLiteralRules.values ∧
    index.prefilterRuleIds = (Buckets.empty.insertAll 0 rules).prefilterRuleIds

theorem RuleIndex.builtFrom {rules index} (h : RuleIndex.build rules = some index) :
    index.BuiltFrom rules := by
  obtain ⟨globs, hglobs, h⟩ := bind_eq_some_iff.mp h
  obtain ⟨bodyLiterals, hbody, h⟩ := bind_eq_some_iff.mp h
  obtain ⟨resources, hresources, h⟩ := bind_eq_some_iff.mp h
  cases h
  set buckets := Buckets.empty.insertAll 0 rules
  refine ⟨hglobs, hbody, hresources, rfl, rfl, ?_, ?_, ?_⟩
  · intro i hi
    generalize (if buckets.prefilterLiteralRules.keys.isEmpty then none
      else Crates.ahoCorasick false buckets.prefilterLiteralRules.keys) = prefilter
    cases prefilter with
    | none => exact mem_append_left _ hi
    | some search => exact hi
  · intro hnone ids hids i hi
    dsimp only at hnone ⊢
    rw [hnone]
    exact mem_append_right _ (mem_flatten.mpr ⟨ids, hids, hi⟩)
  · intro search hsearch
    dsimp only at hsearch ⊢
    rw [hsearch]
    split_ifs at hsearch
    exact ⟨hsearch, rfl, rfl⟩

namespace RuleSet

theorem builtFrom : rs.index.BuiltFrom rs.rules := RuleIndex.builtFrom rs.built

/-- Every rule has its resources. -/
theorem exists_resources (rs : RuleSet) {idx : Nat} {rule} (h : rs.rules[idx]? = some rule) :
    ∃ resources, rs.index.compiledResources[idx]? = some resources ∧
      bindRule rs.index.compiledGlobs rs.index.compiledBodyLiterals rule = some resources := by
  have hall := mapM_eq_some.mp rs.builtFrom.resources
  obtain ⟨hlt, hget⟩ := List.getElem?_eq_some_iff.mp h
  have hlt' : idx < rs.index.compiledResources.length := hall.length_eq ▸ hlt
  refine ⟨rs.index.compiledResources[idx], getElem?_eq_getElem hlt', ?_⟩
  rw [← hget]
  exact hall.get hlt hlt'

/-- The resources at a number are those bound for the rule. -/
theorem bindRule_of_resources {idx : Nat} {rule resources} (h : rs.rules[idx]? = some rule)
    (hresources : rs.index.compiledResources[idx]? = some resources) :
    bindRule rs.index.compiledGlobs rs.index.compiledBodyLiterals rule = some resources := by
  obtain ⟨resources', hresources', hbind⟩ := rs.exists_resources h
  rw [hresources] at hresources'
  cases hresources'
  exact hbind

/-- The conditions of a rule have their resources. -/
theorem bound_conditions {rs : RuleSet} {idx : Nat} {rule resources}
    (hrule : rs.rules[idx]? = some rule)
    (hresources : rs.index.compiledResources[idx]? = some resources) :
    List.Forall₂ (Condition.BoundTo rs.index.compiledGlobs rs.index.compiledBodyLiterals)
      rule.conditions resources.conditions := by
  obtain ⟨conditions, hbind, rfl⟩ := map_eq_some_iff.mp (rs.bindRule_of_resources hrule hresources)
  exact bindAll_eq_some.mp hbind

end RuleSet

end RsProxy.Rules
