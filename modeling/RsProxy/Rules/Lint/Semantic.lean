import RsProxy.Rules.Resolve

/-!
# Semantic lint

Findings about single rules: actions that cannot take effect and conditions that cannot hold. The
check of the conditions knows constants, the methods and statuses that are required and excluded,
and what is required of environment variables.
-/

namespace RsProxy.Rules

open Text Data

inductive SemanticLintKind where
  | duplicateSingleFamily
  | unsatisfiableConditions
  | requestActionRequiresResponse
  | actionAfterSkip
  | conflictingTerminalActions
  | responseActionWithLocalResponse
  | upstreamOverriddenByDirect
  | bodyActionWithBodylessStatus
  deriving DecidableEq, Repr

structure SemanticLintFinding where
  kind : SemanticLintKind
  group : Str
  line : Nat
  raw : Str
  message : String
  families : List Str
  deriving DecidableEq, Repr

structure SemanticLintReport where
  findings : List SemanticLintFinding
  complete : Bool
  deriving DecidableEq, Repr

def finding (rule : Rule) (kind : SemanticLintKind) (message : String) (families : List Str) :
    SemanticLintFinding :=
  ⟨kind, rule.group, rule.line, rule.raw, message, families⟩

def semanticFindingBytes (finding : SemanticLintFinding) : Nat :=
  saturatingAdd (saturatingAdd (saturatingAdd (utf8Len finding.group) (utf8Len finding.raw))
    finding.message.utf8ByteSize) (finding.families.map utf8Len).sum

/-! ### Actions -/

/-- The names in order, each once. -/
def sortedFamilies (families : List ActionFamily) : List Str :=
  ((families.map ActionFamily.asStr).foldl SortedMap.insertKey SortedMap.empty).keys

def joinFamilies (families : List Str) : String := String.intercalate ", " (families.map str)

/-- The families of the first-wins actions that come after another one of their family. -/
def repeatedFamilies (seen : ActionFamilySet) : List Action → List ActionFamily
  | [] => []
  | a :: actions =>
    if a.isSingle then
      if seen.contains a.family then a.family :: repeatedFamilies seen actions
      else repeatedFamilies (seen.insert a.family) actions
    else repeatedFamilies seen actions

def duplicateSingleFamilies (effective : List Action) : List Str :=
  sortedFamilies (repeatedFamilies .empty effective)

/-- The families of the actions that apply in one phase and not in the other. -/
def familiesOnlyIn (phase other : Phase) (effective : List Action) : List Str :=
  sortedFamilies ((effective.filter fun a => a.appliesIn phase && !a.appliesIn other).map
    Action.family)

mutual

def conditionRequiresResponse : Condition → Bool
  | .resHeaderPresent _ | .resHeaderContains _ _ | .status _ => true
  | .all cs => anyRequiresResponse cs
  | .any cs => allRequireResponse cs
  | .not c => c.dependsOnResponse
  | _ => false

def anyRequiresResponse : List Condition → Bool
  | [] => false
  | c :: cs => conditionRequiresResponse c || anyRequiresResponse cs

def allRequireResponse : List Condition → Bool
  | [] => true
  | c :: cs => conditionRequiresResponse c && allRequireResponse cs

end

section

variable (rule : Rule) (effective : List Action)

def requestActionsRequiringResponse : List Str :=
  if rule.conditions.any conditionRequiresResponse then familiesOnlyIn .req .res effective else []

/-- The families of the actions that an earlier `skip` of the rule suppresses. -/
def skippedFamilies (skip : SkipState) : List Action → List ActionFamily
  | [] => []
  | a :: actions =>
    if skip.suppresses a.family then a.family :: skippedFamilies skip actions
    else skippedFamilies (skip.observe a) actions

def actionsAfterSkip : List Str :=
  sortedFamilies (skippedFamilies .initial rule.actions)

def hasEffectiveFamily (family : ActionFamily) : Bool :=
  effective.any fun a => a.family == family

def terminalFamilies : List Str :=
  ([ActionFamily.status, .redirect, .mock].filter (hasEffectiveFamily effective)).map
    ActionFamily.asStr

def responseActionsWithLocalResponse (terminal : List Str) : List Str :=
  if terminal.isEmpty then [] else familiesOnlyIn .res .req effective

def setsBodylessStatus : Action → Bool
  | .resStatus status => statusForbidsBody status
  | _ => false

def isContentFamily : ActionFamily → Bool
  | .resBodySet | .resBodyPrepend | .resBodyAppend | .resBodyReplace | .inject | .resMerge => true
  | _ => false

def bodyActionsWithBodylessStatus : List Str :=
  if !effective.any setsBodylessStatus then []
  else
    let families := sortedFamilies ((effective.map Action.family).filter isContentFamily)
    if families.isEmpty then [] else "res.status" :: families

end

/-! ### Constant conditions -/

inductive ConstantTruth where
  | isTrue
  | isFalse
  | unknown
  deriving DecidableEq, Repr

mutual

def constantTruth : Condition → ConstantTruth
  | .chancePermille permille =>
    if permille = 0 then .isFalse else if permille = 1000 then .isTrue else .unknown
  | .any cs => anyTruth false cs
  | .all cs => allTruth false cs
  | .not c =>
    match constantTruth c with
    | .isTrue => .isFalse
    | .isFalse => .isTrue
    | .unknown => .unknown
  | _ => .unknown

/-- `unknown` remembers whether a member before was neither. -/
def anyTruth (unknown : Bool) : List Condition → ConstantTruth
  | [] => if unknown then .unknown else .isFalse
  | c :: cs =>
    match constantTruth c with
    | .isTrue => .isTrue
    | .unknown => anyTruth true cs
    | .isFalse => anyTruth unknown cs

def allTruth (unknown : Bool) : List Condition → ConstantTruth
  | [] => if unknown then .unknown else .isTrue
  | c :: cs =>
    match constantTruth c with
    | .isFalse => .isFalse
    | .unknown => allTruth true cs
    | .isTrue => allTruth unknown cs

end

/-! ### Constants in lists -/

theorem of_anyTruth_isTrue {unknown cs} (h : anyTruth unknown cs = .isTrue) :
    ∃ c ∈ cs, constantTruth c = .isTrue := by
  induction cs generalizing unknown with
  | nil => cases unknown <;> cases h
  | cons c cs ih =>
    rw [anyTruth] at h
    split at h
    next hc => exact ⟨c, List.mem_cons_self, hc⟩
    all_goals
      obtain ⟨d, hd, htruth⟩ := ih h
      exact ⟨d, List.mem_cons_of_mem _ hd, htruth⟩

theorem anyTruth_ne_isFalse {cs} : anyTruth true cs ≠ .isFalse := by
  induction cs with
  | nil => nofun
  | cons c cs ih =>
    rw [anyTruth]
    split
    · nofun
    all_goals exact ih

theorem of_anyTruth_isFalse {cs} (h : anyTruth false cs = .isFalse) :
    ∀ c ∈ cs, constantTruth c = .isFalse := by
  induction cs with
  | nil => nofun
  | cons c cs ih =>
    rw [anyTruth] at h
    split at h
    · cases h
    · exact absurd h anyTruth_ne_isFalse
    next hc => exact List.forall_mem_cons.mpr ⟨hc, ih h⟩

theorem of_allTruth_isFalse {unknown cs} (h : allTruth unknown cs = .isFalse) :
    ∃ c ∈ cs, constantTruth c = .isFalse := by
  induction cs generalizing unknown with
  | nil => cases unknown <;> cases h
  | cons c cs ih =>
    rw [allTruth] at h
    split at h
    next hc => exact ⟨c, List.mem_cons_self, hc⟩
    all_goals
      obtain ⟨d, hd, htruth⟩ := ih h
      exact ⟨d, List.mem_cons_of_mem _ hd, htruth⟩

theorem allTruth_ne_isTrue {cs} : allTruth true cs ≠ .isTrue := by
  induction cs with
  | nil => nofun
  | cons c cs ih =>
    rw [allTruth]
    split
    · nofun
    all_goals exact ih

theorem of_allTruth_isTrue {cs} (h : allTruth false cs = .isTrue) :
    ∀ c ∈ cs, constantTruth c = .isTrue := by
  induction cs with
  | nil => nofun
  | cons c cs ih =>
    rw [allTruth] at h
    split at h
    · cases h
    · exact absurd h allTruth_ne_isTrue
    next hc => exact List.forall_mem_cons.mpr ⟨hc, ih h⟩

/-! ### Contradictions -/

mutual

/-- The members of a conjunction, those of its conjunctions included. -/
def flattenConjunction : Condition → List Condition
  | .all cs => flattenAll cs
  | c => [c]

def flattenAll : List Condition → List Condition
  | [] => []
  | c :: cs => flattenConjunction c ++ flattenAll cs

end

/-- What is in all of the lists, if there is one. -/
def intersection {α : Type} [BEq α] (sets : List (List α)) : Option (List α) :=
  sets.foldl
    (fun common values =>
      match common with
      | some current => some (current.filter values.contains)
      | none => some values)
    none

/-- Is everything that all of the lists allow excluded? -/
def constraintsAreEmpty {α : Type} [BEq α] (positive negative : List (List α)) : Bool :=
  match intersection positive with
  | some values => values.all negative.flatten.contains
  | none => false

def requiredMethods : Condition → Option (List Str)
  | .method methods => some methods
  | _ => none

def excludedMethods : Condition → Option (List Str)
  | .not (.method methods) => some methods
  | _ => none

def methodConstraintsAreEmpty (conjunction : List Condition) : Bool :=
  constraintsAreEmpty (conjunction.filterMap requiredMethods)
    (conjunction.filterMap excludedMethods)

def requiredStatuses : Condition → Option (List Nat)
  | .status statuses => some statuses
  | _ => none

def excludedStatuses : Condition → Option (List Nat)
  | .not (.status statuses) => some statuses
  | _ => none

def statusConstraintsAreEmpty (conjunction : List Condition) : Bool :=
  constraintsAreEmpty (conjunction.filterMap requiredStatuses)
    (conjunction.filterMap excludedStatuses)

/-- What a conjunction says about environment variables. -/
structure EnvironmentFacts where
  required : SortedMap Str Str
  requiredPresent : SortedMap Str Unit
  forbiddenPresent : SortedMap Str Unit
  forbiddenValues : SortedMap Str (SortedMap Str Unit)

namespace EnvironmentFacts

def initial : EnvironmentFacts := ⟨.empty, .empty, .empty, .empty⟩

section

variable (facts : EnvironmentFacts)

/-- Add what a condition says; a message if it contradicts an earlier value. -/
def add : Condition → Except String EnvironmentFacts
  | .envPresent name => .ok { facts with requiredPresent := facts.requiredPresent.insertKey name }
  | .envEquals name value =>
    let next := { facts with
      requiredPresent := facts.requiredPresent.insertKey name
      required := facts.required.upsert name fun _ => value }
    match facts.required.get? name with
    | some previous =>
      if previous = value then .ok next
      else .error
        (s!"environment variable `{str name}` is required to equal both `{str previous}` and " ++
          s!"`{str value}`")
    | none => .ok next
  | .not (.envPresent name) =>
    .ok { facts with forbiddenPresent := facts.forbiddenPresent.insertKey name }
  | .not (.envEquals name value) =>
    .ok { facts with forbiddenValues :=
      facts.forbiddenValues.upsert name fun values => (values.getD .empty).insertKey value }
  | _ => .ok facts

def presentAndAbsent : Option Str :=
  facts.requiredPresent.keys.find? fun name => (facts.forbiddenPresent.get? name).isSome

def equalAndUnequal : Option (Str × Str) :=
  facts.required.entries.find? fun e =>
    (facts.forbiddenValues.get? e.1).any fun values => (values.get? e.2).isSome

def contradiction : Option String :=
  match facts.presentAndAbsent with
  | some name =>
    some s!"environment variable `{str name}` is required to be both present and absent"
  | none =>
    facts.equalAndUnequal.map fun e =>
      s!"environment variable `{str e.1}` is required to equal and not equal `{str e.2}`"

end

end EnvironmentFacts

def environmentContradiction (conjunction : List Condition) : Option String :=
  match conjunction.foldlM EnvironmentFacts.add EnvironmentFacts.initial with
  | .error message => some message
  | .ok facts => facts.contradiction

def unsatisfiableConditions (conditions : List Condition) : Option String :=
  if conditions.any fun c => constantTruth c == .isFalse then
    some "a constant chance/boolean condition can never match"
  else
    let conjunction := flattenAll conditions
    if methodConstraintsAreEmpty conjunction then
      some "method constraints have no value in common"
    else if statusConstraintsAreEmpty conjunction then
      some "response-status constraints have no value in common"
    else environmentContradiction conjunction

/-! ### The report -/

/-- One finding, unless there are no families for it. -/
def familyFinding (rule : Rule) (kind : SemanticLintKind) (message : String)
    (families : List Str) : List SemanticLintFinding :=
  if families.isEmpty then [] else [finding rule kind message families]

def semanticFindings (rule : Rule) : List SemanticLintFinding :=
  let effective := effectiveActions rule
  let duplicate := duplicateSingleFamilies effective
  let phase := requestActionsRequiringResponse rule effective
  let skipped := actionsAfterSkip rule
  let terminal := terminalFamilies effective
  let response := responseActionsWithLocalResponse effective terminal
  let bodyless := bodyActionsWithBodylessStatus effective
  familyFinding rule .duplicateSingleFamily
      s!"later actions can never win single-action families: {joinFamilies duplicate}" duplicate ++
    ((unsatisfiableConditions rule.conditions).toList.map fun message =>
      finding rule .unsatisfiableConditions message []) ++
    familyFinding rule .requestActionRequiresResponse
      ("request-only actions cannot run after the required response metadata exists: " ++
        joinFamilies phase) phase ++
    familyFinding rule .actionAfterSkip
      s!"earlier skip actions suppress later families in this rule: {joinFamilies skipped}"
      skipped ++
    (if 1 < terminal.length then
      [finding rule .conflictingTerminalActions
        ("only one local response can be sent; precedence is status, then redirect, then mock: " ++
          joinFamilies terminal) terminal]
     else []) ++
    familyFinding rule .responseActionWithLocalResponse
      (s!"local response action {joinFamilies terminal} bypasses response-phase actions: " ++
        joinFamilies response) response ++
    (if hasEffectiveFamily effective .direct && hasEffectiveFamily effective .upstream then
      [finding rule .upstreamOverriddenByDirect
        "direct routing always overrides the upstream action in this rule"
        ["upstream", "direct"]]
     else []) ++
    familyFinding rule .bodyActionWithBodylessStatus
      s!"res.status(204/205/304) suppresses response content actions: {joinFamilies bodyless.tail}"
      bodyless

/-- Add findings while there is room for them. The flag says whether all of them were added. -/
def addFindings : List SemanticLintFinding → List SemanticLintFinding → Nat →
    Bool × List SemanticLintFinding × Nat
  | [], findings, reportBytes => (true, findings, reportBytes)
  | f :: rest, findings, reportBytes =>
    if findings.length = maxRuleLintFindings then (false, findings, reportBytes)
    else
      match checkedAdd reportBytes (semanticFindingBytes f) with
      | some bytes =>
        if maxRuleLintReportBytes < bytes then (false, findings, reportBytes)
        else addFindings rest (findings ++ [f]) bytes
      | none => (false, findings, reportBytes)

def semanticLintLoop : List Rule → List SemanticLintFinding → Nat → SemanticLintReport
  | [], findings, _ => ⟨findings, true⟩
  | rule :: rules, findings, reportBytes =>
    match addFindings (semanticFindings rule) findings reportBytes with
    | (true, findings, reportBytes) => semanticLintLoop rules findings reportBytes
    | (false, findings, _) => ⟨findings, false⟩

variable [Crates]

def RuleSet.semanticLintReport (rs : RuleSet) : SemanticLintReport :=
  semanticLintLoop (rs.rules.filter fun rule => !rule.disabled) [] 0

def RuleSet.semanticLint (rs : RuleSet) : List SemanticLintFinding := rs.semanticLintReport.findings

end RsProxy.Rules
