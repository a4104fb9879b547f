import RsProxy.Rules.Index
import RsProxy.Rules.Parser.Rule

/-!
# Parsing a snapshot

Groups are read in order and lines in order within a group. Diagnostics are collected up to a
limit, and several budgets run across all groups. A snapshot is built only when there was no
diagnostic at all.
-/

namespace RsProxy.Rules

open Text

variable [Crates]

/-! ### Diagnostics -/

def diagnostic (code : RuleErrorCode) (group : Str) (line : Nat) (message : String) : RuleError :=
  ⟨code, group, line, none, message⟩

/-- The entry that replaces the last diagnostic there is room for. -/
def limitNotice (e : RuleError) : RuleError :=
  { e with
    code := .badSyntax
    message :=
      s!"diagnostic limit of {maxRuleDiagnostics} reached; remaining source was not parsed" }

/-- Add a diagnostic; the flag tells that the limit is reached. -/
def pushParseDiagnostic (errors : List RuleError) (e : RuleError) : List RuleError × Bool :=
  if errors.length < maxRuleDiagnostics - 1 then (errors ++ [e], false)
  else if errors.length < maxRuleDiagnostics then (errors ++ [limitNotice e], true)
  else (errors, true)

/-! ### State -/

/-- What the loops do after a line or a group. -/
inductive Flow where
  /-- Go on with the next line. -/
  | next
  /-- Leave the lines of this group. -/
  | leaveGroup
  /-- Leave all groups. -/
  | stop
  deriving DecidableEq, Repr

structure ParseState where
  rules : List Rule
  errors : List RuleError
  sourceBytes : Nat
  sourceRuleLines : Nat
  snapshotActions : Nat
  snapshotConditionNodes : Nat
  snapshotBodyConditions : Nat

def ParseState.initial : ParseState := ⟨[], [], 0, 0, 0, 0, 0⟩

/-- What a group knows about its own lines. -/
structure GroupState where
  firstEffectiveLineSeen : Bool
  profile : SyntaxProfile
  deriving DecidableEq, Repr

namespace ParseState

/-- Report, and stop when the limit is reached. -/
def report (st : ParseState) (e : RuleError) : Flow × ParseState :=
  let (errors, full) := pushParseDiagnostic st.errors e
  (if full then .stop else .next, { st with errors })

/-- Report and do what the caller does next in any case. -/
def reportThen (st : ParseState) (flow : Flow) (e : RuleError) : Flow × ParseState :=
  (flow, (st.report e).2)

/-- The budgets, charged one after the other until one is exceeded. -/
def charge (st : ParseState) (rule : Rule) :
    Option (RuleErrorCode × Nat × String) × ParseState :=
  let nodes := (rule.conditions.map conditionNodeCount).sum
  let bodies := (rule.conditions.map bodyConditionCount).sum
  let st := { st with snapshotActions := saturatingAdd st.snapshotActions rule.actions.length }
  if maxRuleActionsPerSnapshot < st.snapshotActions then
    (some (.action, maxRuleActionsPerSnapshot, "action"), st)
  else
    let st := { st with
      snapshotConditionNodes := saturatingAdd st.snapshotConditionNodes nodes }
    if maxRuleConditionNodesPerSnapshot < st.snapshotConditionNodes then
      (some (.condition, maxRuleConditionNodesPerSnapshot, "condition-node"), st)
    else
      let st := { st with
        snapshotBodyConditions := saturatingAdd st.snapshotBodyConditions bodies }
      if maxRuleBodyConditionsPerSnapshot < st.snapshotBodyConditions then
        (some (.condition, maxRuleBodyConditionsPerSnapshot, "body-condition"), st)
      else (none, st)

/-- A line that is no directive. -/
def ruleLine (st : ParseState) (group : Str) (lineNo : Nat) (line : Str)
    (profile : SyntaxProfile) : Flow × ParseState :=
  if st.sourceRuleLines = maxRulesPerSnapshot then
    st.reportThen .stop (diagnostic .badSyntax group lineNo
      s!"snapshot exceeds the {maxRulesPerSnapshot}-rule limit")
  else
    let st := { st with sourceRuleLines := st.sourceRuleLines + 1 }
    match parseRule group lineNo line profile with
    | .error e => st.report ⟨e.code, group, lineNo, e.span, e.source.message⟩
    | .ok rule =>
      match st.charge rule with
      | (some (code, limit, label), st) =>
        st.reportThen .stop (diagnostic code group lineNo
          s!"snapshot exceeds the {limit}-{label} limit")
      | (none, st) => (.next, { st with rules := st.rules ++ [rule] })

end ParseState

/-! ### Lines -/

def isLanguageDirective (line : Str) : Bool :=
  line == "@language" ||
    (stripPrefix "@language" line).any fun suffix => suffix.head?.any isWhitespace

/-- The text of a line that counts: comment stripped, white space trimmed, not empty. -/
def effectiveLine (raw : Str) : Option Str :=
  (stripComment raw).bind fun line => if (trim line).isEmpty then none else some (trim line)

def lineTooLong (raw : Str) : Bool := maxRuleSourceLineBytes < utf8Len raw

def parseLine (requireLanguageHeader : Bool) (group : Str) (lineNo : Nat) (raw : Str)
    (g : GroupState) (st : ParseState) : Flow × GroupState × ParseState :=
  if lineTooLong raw then
    let (flow, st) := st.report (diagnostic .badSyntax group lineNo
      s!"rule line exceeds the {maxRuleSourceLineBytes}-byte limit")
    (flow, g, st)
  else
    match effectiveLine raw with
    | none => (.next, g, st)
    | some line =>
      let text := str line
      let headerText := str ruleLanguageHeader
      if !g.firstEffectiveLineSeen then
        let g := { g with firstEffectiveLineSeen := true }
        if isLanguageDirective line then
          if line ≠ ruleLanguageHeader then
            let (flow, st) := st.reportThen .leaveGroup (diagnostic .property group lineNo
              s!"unsupported rule language directive `{text}`; expected `{headerText}`")
            (flow, g, st)
          else (.next, { g with profile := .canonicalV3 }, st)
        else if requireLanguageHeader then
          let (flow, st) := st.reportThen .leaveGroup (diagnostic .property group lineNo
            s!"missing `{headerText}`; it must be the first effective source line")
          (flow, g, st)
        else
          let (flow, st) := st.ruleLine group lineNo line g.profile
          (flow, g, st)
      else if isLanguageDirective line then
        let (flow, st) := st.report (diagnostic .property group lineNo
          s!"`{headerText}` may appear only on the first effective source line")
        (flow, g, st)
      else
        let (flow, st) := st.ruleLine group lineNo line g.profile
        (flow, g, st)

def parseLines (requireLanguageHeader : Bool) (group : Str) :
    (lineNo : Nat) → List Str → GroupState → ParseState → Flow × ParseState
  | _, [], _, st => (.next, st)
  | lineNo, raw :: rest, g, st =>
    match parseLine requireLanguageHeader group lineNo raw g st with
    | (.next, g, st) => parseLines requireLanguageHeader group (lineNo + 1) rest g st
    | (flow, _, st) => (flow, st)

/-! ### Groups -/

def groupNameValid (group : Str) : Bool :=
  !group.isEmpty && utf8Len group ≤ maxRuleGroupNameBytes

def parseGroup (requireLanguageHeader : Bool) (groupIndex : Nat) (group text : Str)
    (st : ParseState) : Flow × ParseState :=
  let diagnosticGroup := if groupNameValid group then group else "<invalid-group>"
  if maxRuleGroupsPerSnapshot ≤ groupIndex then
    st.reportThen .stop (diagnostic .badSyntax diagnosticGroup 1
      s!"snapshot exceeds the {maxRuleGroupsPerSnapshot}-group limit")
  else
    match (checkedAdd st.sourceBytes (utf8Len text)).filter (· ≤ maxRuleSnapshotSourceBytes) with
    | none =>
      st.reportThen .stop (diagnostic .badSyntax diagnosticGroup 1
        s!"snapshot source exceeds the {maxRuleSnapshotSourceBytes}-byte limit")
    | some bytes =>
      let st := { st with sourceBytes := bytes }
      if !groupNameValid group then
        st.report (diagnostic .badSyntax diagnosticGroup 1
          s!"rule group name must contain 1..={maxRuleGroupNameBytes} bytes")
      else parseLines requireLanguageHeader group 1 (lines text) ⟨false, .compatible⟩ st

def parseGroupsLoop (requireLanguageHeader : Bool) :
    (groupIndex : Nat) → List (Str × Str) → ParseState → ParseState
  | _, [], st => st
  | groupIndex, (group, text) :: rest, st =>
    match parseGroup requireLanguageHeader groupIndex group text st with
    | (.stop, st) => st
    | (_, st) => parseGroupsLoop requireLanguageHeader (groupIndex + 1) rest st

namespace RuleSet

/-- Build the snapshot. `none` is the panic of an index that does not build. -/
def publish (rules : List Rule) : Option RuleSet :=
  match h : RuleIndex.build rules with
  | some index => some ⟨rules, index, h⟩
  | none => none

def parseGroupsWithProfile (groups : List (Str × Str)) (requireLanguageHeader : Bool) :
    Option (Except (List RuleError) RuleSet) :=
  let st := parseGroupsLoop requireLanguageHeader 0 groups .initial
  if st.errors.isEmpty then (publish st.rules).map .ok else some (.error st.errors)

def parseGroups (groups : List (Str × Str)) : Option (Except (List RuleError) RuleSet) :=
  parseGroupsWithProfile groups false

end RuleSet

end RsProxy.Rules
