import RsProxy.Rules.Index
import Mathlib.Data.List.Sort

/-!
# Resolution

A request is resolved by visiting the candidate rules, important ones first and then in rule order.
A rule whose matcher and conditions hold contributes its actions, unless an earlier `skip` names
their family or an earlier action of a first-wins family is in already.
-/

namespace RsProxy.Rules

open Text Data Regex

variable [Crates]

/-- What is resolved: a request, perhaps a response, with or without the request's body. -/
structure Query where
  req : RequestMeta
  res : Option ResponseMeta
  includeRequestBody : Bool
  env : Env

namespace Query

/-- The URL's components, if it parses. -/
def parts (q : Query) : Option UrlParts := (UrlParts.parse q.req.url).toOption

def context (q : Query) (index : RuleIndex) (line : Nat) : ConditionMatchContext :=
  { url := q.parts
    res := q.res
    line
    globs := index.compiledGlobs
    bodyLiterals := index.compiledBodyLiterals
    req := q.req
    env := q.env }

end Query

/-! ### One rule -/

def Rule.conditionsMatch (rule : Rule) (resources : CompiledRuleResources)
    (context : ConditionMatchContext) : Bool :=
  (rule.conditions.zip resources.conditions).all fun p => p.1.matchesWithCompiled context p.2

/-- The captures of a rule that applies to the query. -/
def Rule.applies (rule : Rule) (resources : CompiledRuleResources) (index : RuleIndex)
    (q : Query) : Option Captures :=
  if rule.disabled then none
  else
    match q.parts.bind fun url =>
        rule.matcher.matchesCompiled url q.req.url index.compiledGlobs resources.matcher with
    | none => none
    | some captures =>
      if !q.includeRequestBody && rule.conditions.any Condition.dependsOnRequestBody then none
      else if rule.conditionsMatch resources (q.context index rule.line) then some captures
      else none

def Rule.brief (rule : Rule) : MatchedRule := ⟨rule.group, rule.line, rule.raw⟩

/-! ### The loop -/

structure ResolveState where
  actions : List ResolvedAction
  matchedRules : List MatchedRule
  seenRules : List (Str × Nat)
  singleFamilies : ActionFamilySet
  skip : SkipState

def ResolveState.initial : ResolveState := ⟨[], [], [], .empty, .initial⟩

/-- Is an action kept, after what has been resolved so far? -/
def ResolveState.keeps (st : ResolveState) (a : Action) : Bool :=
  !st.skip.suppresses a.family && !(a.isSingle && st.singleFamilies.contains a.family)

def ResolveState.push (st : ResolveState) (brief : MatchedRule) (captures : Captures)
    (response : Option ResponseMeta) (a : Action) : ResolveState :=
  let seen := st.seenRules.contains (brief.group, brief.line)
  { actions := st.actions ++ [⟨a, brief, captures, response⟩]
    matchedRules := if seen then st.matchedRules else st.matchedRules ++ [brief]
    seenRules := if seen then st.seenRules else (brief.group, brief.line) :: st.seenRules
    singleFamilies :=
      if a.isSingle then st.singleFamilies.insert a.family else st.singleFamilies
    skip := st.skip.observe a }

/-- One action of a rule that applies. -/
def ResolveState.action (st : ResolveState) (q : Query) (brief : MatchedRule)
    (captures : Captures) (a : Action) : ResolveState :=
  match actionForBodyAvailability a q.includeRequestBody with
  | none => st
  | some a => if st.keeps a then st.push brief captures q.res a else st

namespace RuleSet

def resolveRule (rs : RuleSet) (q : Query) (st : ResolveState) (idx : Nat) : ResolveState :=
  match rs.rules[idx]?, rs.index.compiledResources[idx]? with
  | some rule, some resources =>
    match rule.applies resources rs.index q with
    | some captures => rule.actions.foldl (·.action q rule.brief captures) st
    | none => st
  | _, _ => st

/-- Visit the rules in the given order. -/
def resolveOrdered (rs : RuleSet) (q : Query) (ordered : List Nat) : ResolveResult :=
  let st := ordered.foldl (rs.resolveRule q) .initial
  ⟨st.actions, st.matchedRules⟩

def isImportant (rs : RuleSet) (idx : Nat) : Bool :=
  match rs.rules[idx]? with
  | some rule => rule.important
  | none => false

/-- Important rules first, then the order of the rules. -/
def Precedes (rs : RuleSet) (i j : Nat) : Prop :=
  (rs.isImportant i ∧ rs.isImportant j = false) ∨
    (rs.isImportant i = rs.isImportant j ∧ i ≤ j)

instance (rs : RuleSet) : DecidableRel rs.Precedes := fun i j =>
  inferInstanceAs (Decidable ((rs.isImportant i ∧ rs.isImportant j = false) ∨
    (rs.isImportant i = rs.isImportant j ∧ i ≤ j)))

def sortRules (rs : RuleSet) (indices : List Nat) : List Nat := indices.insertionSort rs.Precedes

def resolveInner (rs : RuleSet) (q : Query) : ResolveResult :=
  if rs.rules.isEmpty then ⟨[], []⟩
  else rs.resolveOrdered q (rs.sortRules (rs.candidateRuleIndices q.parts q.req.url))

/-! ### Entry points -/

section

variable (rs : RuleSet) (env : Env) (req : RequestMeta)

def resolve : ResolveResult :=
  rs.resolveInner ⟨req, none, true, env⟩

def resolveResponse (res : ResponseMeta) :
    ResolveResult :=
  rs.resolveInner ⟨req, some res, true, env⟩

def resolveWithoutRequestBody : ResolveResult :=
  rs.resolveInner ⟨req, none, false, env⟩

def resolveResponseWithoutRequestBody (res : ResponseMeta) : ResolveResult :=
  rs.resolveInner ⟨req, some res, false, env⟩

/-- Must the body be read before the request can be resolved? -/
def requestBodyRequired : Bool :=
  let q : Query := ⟨req, none, true, env⟩
  (rs.candidateRuleIndices q.parts req.url).any fun idx =>
    match rs.rules[idx]?, rs.index.compiledResources[idx]? with
    | some rule, some resources =>
      !rule.disabled &&
        (q.parts.bind fun url =>
          rule.matcher.matchesCompiled url req.url rs.index.compiledGlobs
            resources.matcher).isSome &&
        ((rule.conditions.zip resources.conditions).all fun p =>
          p.1.mayMatchBeforeRequestBody (q.context rs.index rule.line) p.2) &&
        (rule.conditions.any Condition.dependsOnRequestBody ||
          rule.actions.any actionRequiresRequestBody)
    | _, _ => false

end

end RuleSet

end RsProxy.Rules
