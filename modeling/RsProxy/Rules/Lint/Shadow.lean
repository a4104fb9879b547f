import RsProxy.Rules.Resolve

/-!
# Shadow lint

A rule is shadowed for a first-wins family when an earlier rule without conditions has an action of
the family and matches every URL the rule matches. The check for the latter is syntactic. The
number of comparisons, the bytes compared and the size of the report are bounded.
-/

namespace RsProxy.Rules

open Text Data

variable [Crates]

structure LintFinding where
  group : Str
  line : Nat
  raw : Str
  shadowedByGroup : Str
  shadowedByLine : Nat
  shadowedByRaw : Str
  families : List Str
  deriving DecidableEq, Repr

structure LintReport where
  findings : List LintFinding
  complete : Bool
  comparisons : Nat
  comparisonBytes : Nat
  deriving DecidableEq, Repr

/-! ### Coverage of matchers -/

/-- Does host pattern `a` cover every host that pattern `b` covers? -/
def hostPatternSubsumes (a b : Str) (globs : CompiledGlobSet) : Bool :=
  if a = b ∨ a = "*" ∨ a = "**" then true
  -- A literal host reduces coverage to a match.
  else if !globSyntaxIsActive b then globs.hostMatches a b
  else
    match stripPrefix "**." a,
        (stripPrefix "**." b).orElse fun _ => stripPrefix "*." b with
    | some base, some laterBase =>
      !globSyntaxIsActive laterBase &&
        (laterBase == base || (dottedSuffixPrefix laterBase base).isSome)
    | _, _ => false

/-- A component without a pattern covers all patterns, any other one only itself. -/
def componentSubsumes (a b : Option Str) : Bool := a.isNone || a == b

def globSubsumes (a b : GlobMatcher) (globs : CompiledGlobSet) : Bool :=
  componentSubsumes a.scheme b.scheme && hostPatternSubsumes a.host b.host globs &&
    componentSubsumes a.port b.port && componentSubsumes a.path b.path &&
    componentSubsumes a.query b.query

def matcherSubsumes (a b : Matcher) (globs : CompiledGlobSet) : Bool :=
  match a, b with
  | .glob a, .glob b => globSubsumes a b globs
  | .glob a, .exactUrl url =>
    match UrlParts.parse url with
    | .ok parts =>
      ((Matcher.glob a).matchesCompiled parts url globs
        (bindMatcherResources globs (.glob a))).isSome
    | .error _ => false
  | .exactUrl a, .exactUrl b => a == b
  | _, _ => false

/-! ### Sizes and families -/

def optionBytes (component : Option Str) : Nat :=
  match component with
  | some text => utf8Len text
  | none => 0

def matcherSourceBytes : Matcher → Nat
  | .exactUrl url => utf8Len url
  | .glob g =>
    saturatingAdd (saturatingAdd (saturatingAdd (saturatingAdd (optionBytes g.scheme)
      (utf8Len g.host)) (optionBytes g.port)) (optionBytes g.path)) (optionBytes g.query)
  | .port _ => 2
  | .regex r => utf8Len r.pattern
  | .not inner => matcherSourceBytes inner

def lintFindingBytes (finding : LintFinding) : Nat :=
  saturatingAdd (saturatingAdd (saturatingAdd (saturatingAdd (utf8Len finding.group)
    (utf8Len finding.raw)) (utf8Len finding.shadowedByGroup)) (utf8Len finding.shadowedByRaw))
    (finding.families.map utf8Len).sum

/-- The names of the first-wins families among the effective actions, each once. -/
def singleFamilies (rule : Rule) : List Str :=
  (effectiveActions rule).foldl
    (fun families action =>
      if action.isSingle && !families.contains action.family.asStr then
        families ++ [action.family.asStr]
      else families)
    []

/-! ### The report -/

/-- A rule in the order of the visit, with what is computed for it once. -/
structure LintEntry where
  index : Nat
  rule : Rule
  families : List Str
  bytes : Nat

def lintEntry (rs : RuleSet) (idx : Nat) : Option LintEntry :=
  rs.rules[idx]?.map fun rule => ⟨idx, rule, singleFamilies rule, matcherSourceBytes rule.matcher⟩

structure LintState where
  findings : List LintFinding
  reportBytes : Nat
  comparisons : Nat
  comparisonBytes : Nat
  complete : Bool

namespace LintState

def initial : LintState := ⟨[], 0, 0, 0, true⟩

/-- Count a comparison; `none` when the budget is used up. -/
def compare (st : LintState) (size : Nat) : Option LintState :=
  if st.comparisons = maxRuleLintComparisons then none
  else
    match checkedAdd st.comparisonBytes size with
    | some bytes =>
      if maxRuleLintComparisonBytes < bytes then none
      else some { st with comparisons := st.comparisons + 1, comparisonBytes := bytes }
    | none => none

/-- Add a finding; `none` when there is no room for it. -/
def push (st : LintState) (finding : LintFinding) : Option LintState :=
  if st.findings.length = maxRuleLintFindings then none
  else
    match checkedAdd st.reportBytes (lintFindingBytes finding) with
    | some bytes =>
      if maxRuleLintReportBytes < bytes then none
      else some { st with findings := st.findings ++ [finding], reportBytes := bytes }
    | none => none

end LintState

def lintFinding (later earlier : Rule) (families : List Str) : LintFinding :=
  ⟨later.group, later.line, later.raw, earlier.group, earlier.line, earlier.raw, families⟩

/-- Compare a rule with those in front of it. The flag says whether the later rules are still to be
looked at. -/
def lintEarlier (globs : CompiledGlobSet) (later : LintEntry) :
    List LintEntry → List Str → LintState → Bool × LintState
  | [], _, st => (true, st)
  | earlier :: rest, remaining, st =>
    match st.compare (saturatingAdd later.bytes earlier.bytes) with
    | none => (false, { st with complete := false })
    | some st =>
      if !earlier.rule.conditions.isEmpty then lintEarlier globs later rest remaining st
      else
        let shared := earlier.families.filter fun family => remaining.contains family
        if shared.isEmpty then lintEarlier globs later rest remaining st
        else if !matcherSubsumes earlier.rule.matcher later.rule.matcher globs then
          lintEarlier globs later rest remaining st
        else
          let remaining := remaining.filter fun family => !shared.contains family
          match st.push (lintFinding later.rule earlier.rule shared) with
          | none => (false, { st with complete := false })
          | some st =>
            if remaining.isEmpty then (true, st) else lintEarlier globs later rest remaining st

def lintLater (globs : CompiledGlobSet) :
    (before : List LintEntry) → List LintEntry → LintState → LintState
  | _, [], st => st
  | before, later :: rest, st =>
    if later.families.isEmpty then lintLater globs (before ++ [later]) rest st
    else
      match lintEarlier globs later before later.families st with
      | (true, st) => lintLater globs (before ++ [later]) rest st
      | (false, st) => st

namespace RuleSet

/-- The enabled rules in the order in which they are visited. -/
def lintOrder (rs : RuleSet) : List Nat :=
  rs.sortRules ((List.range rs.rules.length).filter fun idx =>
    rs.rules[idx]?.any fun rule => !rule.disabled)

def lintReport (rs : RuleSet) : LintReport :=
  let st := lintLater rs.index.compiledGlobs [] (rs.lintOrder.filterMap (lintEntry rs)) .initial
  ⟨st.findings, st.complete, st.comparisons, st.comparisonBytes⟩

def lint (rs : RuleSet) : List LintFinding := rs.lintReport.findings

end RuleSet

end RsProxy.Rules
