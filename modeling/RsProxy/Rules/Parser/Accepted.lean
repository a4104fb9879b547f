import RsProxy.Data.Results
import RsProxy.Rules.Parser.Groups

/-!
# Which sources are accepted

The loops over groups and lines carry seven counters and a list of diagnostics. What they compute
can be said without them: the rules are those of the effective lines, one after the other, and a
source is accepted when every line parses and no limit is exceeded.
-/

namespace RsProxy.Rules

open Text Data List Option Nat ParseState

variable [Crates] {errors errors' : List RuleError}

/-! ### What a source says -/

/-- The effective lines among the given ones, with their numbers. -/
def numberedLines : Nat → List Str → List (Nat × Str)
  | _, [] => []
  | n, raw :: rest =>
    match effectiveLine raw with
    | some line => (n, line) :: numberedLines (n + 1) rest
    | none => numberedLines (n + 1) rest

/-- The rule on an effective line behind the first one. -/
def lineRule (group : Str) (profile : SyntaxProfile) (l : Nat × Str) : Option Rule :=
  if isLanguageDirective l.2 then none else (parseRule group l.1 l.2 profile).toOption

/-- The rules on the effective lines of a group, unless a line does not parse or the language
directive is missing, wrong or out of place. -/
def groupRules (requireLanguageHeader : Bool) (group : Str) : List (Nat × Str) → Option (List Rule)
  | [] => some []
  | l :: rest =>
    if isLanguageDirective l.2 then
      if l.2 = ruleLanguageHeader then rest.mapM (lineRule group .canonicalV3) else none
    else if requireLanguageHeader then none
    else (l :: rest).mapM (lineRule group .compatible)

def actionCount (rules : List Rule) : Nat := (rules.map fun rule => rule.actions.length).sum

def ruleConditionNodes (rule : Rule) : Nat := (rule.conditions.map conditionNodeCount).sum

def ruleBodyConditions (rule : Rule) : Nat := (rule.conditions.map bodyConditionCount).sum

/-- The limits on a whole snapshot. -/
structure WithinBudget (rules : List Rule) : Prop where
  ruleCount : rules.length ≤ maxRulesPerSnapshot
  actions : actionCount rules ≤ maxRuleActionsPerSnapshot
  conditionNodes : (rules.map ruleConditionNodes).sum ≤ maxRuleConditionNodesPerSnapshot
  bodyConditions : (rules.map ruleBodyConditions).sum ≤ maxRuleBodyConditionsPerSnapshot

/-- The groups are within every limit, and these are the rules on their lines. -/
structure Accepted (requireLanguageHeader : Bool) (groups : List (Str × Str)) (rules : List Rule) :
    Prop where
  groupCount : groups.length ≤ maxRuleGroupsPerSnapshot
  names : ∀ g ∈ groups, groupNameValid g.1
  bytes : (groups.map fun g => utf8Len g.2).sum ≤ maxRuleSnapshotSourceBytes
  lineBytes : ∀ g ∈ groups, ∀ raw ∈ lines g.2, utf8Len raw ≤ maxRuleSourceLineBytes
  parsed : ∃ parts, groups.mapM (fun g =>
      groupRules requireLanguageHeader g.1 (numberedLines 1 (lines g.2))) = some parts ∧
    rules = parts.flatten
  budget : WithinBudget rules

/-! ### Diagnostics only grow -/

/-- The second list is the first with diagnostics pushed on it. -/
def Pushed : List RuleError → List RuleError → Prop :=
  Relation.ReflTransGen fun errors errors' => ∃ e, errors' = (pushParseDiagnostic errors e).1

omit [Crates] in
theorem pushed_report (st : ParseState) (e : RuleError) : Pushed st.errors (st.report e).2.errors :=
  .single ⟨e, rfl⟩

omit [Crates] in
@[simp] theorem errors_charge (st : ParseState) (rule : Rule) :
    (st.charge rule).2.errors = st.errors := by
  unfold charge
  grind

omit [Crates] in
theorem Pushed.ne_nil (h : Pushed errors errors') (hne : errors ≠ []) : errors' ≠ [] := by
  induction h with
  | refl => exact hne
  | tail _ hstep ih =>
    obtain ⟨e, rfl⟩ := hstep
    unfold pushParseDiagnostic
    split
    · simp
    · split
      · simp
      · exact ih

/-- There is room for the limit, and a full list ends with the notice. -/
def WithinLimit (errors : List RuleError) : Prop :=
  errors.length ≤ maxRuleDiagnostics ∧
    (errors.length = maxRuleDiagnostics → ∃ e, errors.getLast? = some (limitNotice e))

omit [Crates] in
theorem Pushed.withinLimit (h : Pushed errors errors') (hlim : WithinLimit errors) :
    WithinLimit errors' := by
  induction h with
  | refl => exact hlim
  | tail _ hstep ih =>
    obtain ⟨e, rfl⟩ := hstep
    unfold pushParseDiagnostic
    split
    next hlen =>
      refine ⟨?_, fun hfull => ?_⟩
      · rw [length_append, length_singleton]
        omega
      · rw [length_append, length_singleton] at hfull
        omega
    · split
      next hlen =>
        refine ⟨?_, fun _ => ⟨e, getLast?_concat⟩⟩
        rwa [length_append]
      · exact ih

omit [Crates] in
theorem report_ne_nil (st : ParseState) (e : RuleError) : (st.report e).2.errors ≠ [] := by
  unfold report pushParseDiagnostic
  dsimp only
  split
  · simp
  next hlen =>
    split
    · simp
    · have hpos : 0 < maxRuleDiagnostics - 1 := by decide
      have hlong : 0 < st.errors.length := by omega
      exact ne_nil_of_length_pos hlong

theorem pushed_ruleLine {st : ParseState} {group n line profile} :
    Pushed st.errors (st.ruleLine group n line profile).2.errors := by
  unfold ruleLine
  split
  · exact pushed_report _ _
  · dsimp only
    split
    · exact pushed_report { st with sourceRuleLines := st.sourceRuleLines + 1 } _
    next rule _ =>
      have hcharge := errors_charge { st with sourceRuleLines := st.sourceRuleLines + 1 } rule
      split
      next st' heq =>
        rw [heq] at hcharge
        exact hcharge ▸ pushed_report st' _
      next st' heq =>
        rw [heq] at hcharge
        exact hcharge ▸ .refl

section

variable (requireHeader : Bool) (index : Nat) (group : Str) (n : Nat)

theorem pushed_parseLine (raw : Str) (g : GroupState) (st : ParseState) :
    Pushed st.errors (parseLine requireHeader group n raw g st).2.2.errors := by
  unfold parseLine
  split
  · exact pushed_report _ _
  split
  · exact .refl
  split
  · split
    · split
      · exact pushed_report _ _
      · exact .refl
    · split
      · exact pushed_report _ _
      · exact pushed_ruleLine
  · split
    · exact pushed_report _ _
    · exact pushed_ruleLine

theorem pushed_parseLines (raws : List Str) (g : GroupState) (st : ParseState) :
    Pushed st.errors (parseLines requireHeader group n raws g st).2.errors := by
  induction raws generalizing n g st with
  | nil => exact .refl
  | cons raw raws ih =>
    have hline := pushed_parseLine requireHeader group n raw g st
    rw [parseLines]
    split
    next heq =>
      rw [heq] at hline
      exact hline.trans (ih _ _ _)
    next heq =>
      rwa [heq] at hline

theorem pushed_parseGroup (group text : Str) (st : ParseState) :
    Pushed st.errors (parseGroup requireHeader index group text st).2.errors := by
  unfold parseGroup
  dsimp only
  split
  · exact pushed_report _ _
  split
  · exact pushed_report _ _
  next bytes _ =>
    split
    · exact pushed_report { st with sourceBytes := bytes } _
    · exact pushed_parseLines _ _ _ _ _ { st with sourceBytes := bytes }

theorem pushed_parseGroupsLoop (groups : List (Str × Str)) (st : ParseState) :
    Pushed st.errors (parseGroupsLoop requireHeader index groups st).errors := by
  induction groups generalizing index st with
  | nil => exact .refl
  | cons g groups ih =>
    have hgroup := pushed_parseGroup requireHeader index g.1 g.2 st
    rw [parseGroupsLoop]
    split
    next heq =>
      rwa [heq] at hgroup
    next heq =>
      rw [heq] at hgroup
      exact hgroup.trans (ih _ _)

end

/-! ### Runs without a diagnostic -/

/-- The state after these rules and this many bytes, when nothing has gone wrong. -/
def ParseState.clean (rules : List Rule) (bytes : Nat) : ParseState where
  rules := rules
  errors := []
  sourceBytes := bytes
  sourceRuleLines := rules.length
  snapshotActions := actionCount rules
  snapshotConditionNodes := (rules.map ruleConditionNodes).sum
  snapshotBodyConditions := (rules.map ruleBodyConditions).sum

variable {rules new : List Rule}

omit [Crates] in
theorem WithinBudget.left (h : WithinBudget (rules ++ new)) : WithinBudget rules := by
  obtain ⟨h₁, h₂, h₃, h₄⟩ := h
  simp only [actionCount, map_append, sum_append_nat, length_append] at h₁ h₂ h₃ h₄
  exact ⟨by omega, by rw [actionCount]; omega, by omega, by omega⟩

/-- From a clean state either the expected rules are added, or there are none, or they do not fit,
and a diagnostic is left behind. -/
def Adds (expected : Option (List Rule)) (rules : List Rule) (bytes : Nat)
    (result : Flow × ParseState) : Prop :=
  (∃ new, expected = some new ∧ WithinBudget (rules ++ new) ∧
      result = (.next, .clean (rules ++ new) bytes)) ∨
    ((∀ new, expected = some new → ¬WithinBudget (rules ++ new)) ∧ result.2.errors ≠ [])

variable {bytes : Nat} {result : Flow × ParseState}

omit [Crates] in
theorem adds_of_error (h : result.2.errors ≠ []) : Adds none rules bytes result := .inr ⟨nofun, h⟩

omit [Crates] in
theorem adds_nothing (hrules : WithinBudget rules) (bytes : Nat) :
    Adds (some []) rules bytes (.next, .clean rules bytes) :=
  .inl ⟨[], rfl, by simpa using hrules, by simp⟩

omit [Crates] in
/-- One step and then the rest: the expected rules are put together, and a diagnostic of the first
step stays. -/
theorem Adds.append {first rest bytes' result'} (hfirst : Adds first rules bytes result)
    (hrest : ∀ new, WithinBudget (rules ++ new) →
      result = (.next, .clean (rules ++ new) bytes) → Adds rest (rules ++ new) bytes' result')
    (herrors : result.2.errors ≠ [] → result'.2.errors ≠ []) :
    Adds (first.bind fun new => rest.map (new ++ ·)) rules bytes' result' := by
  rcases hfirst with ⟨new, rfl, hfits, hresult⟩ | ⟨hover, hne⟩
  · rcases hrest new hfits hresult with ⟨new', rfl, hfits', rfl⟩ | ⟨hover, hne⟩
    · rw [append_assoc] at hfits' ⊢
      exact .inl ⟨new ++ new', rfl, hfits', rfl⟩
    · refine .inr ⟨fun all hall hfits' => ?_, hne⟩
      obtain ⟨new', hnew', rfl⟩ := map_eq_some_iff.mp hall
      rw [← append_assoc] at hfits'
      exact hover new' hnew' hfits'
  · refine .inr ⟨fun all hall hfits => ?_, herrors hne⟩
    obtain ⟨new, hnew, hall⟩ := bind_eq_some_iff.mp hall
    obtain ⟨new', -, rfl⟩ := map_eq_some_iff.mp hall
    rw [← append_assoc] at hfits
    exact hover new hnew hfits.left

omit [Crates] in
/-- The budgets are charged one after the other; none may be exceeded. -/
theorem charge_cases (st : ParseState) (rule : Rule) :
    let actions := saturatingAdd st.snapshotActions rule.actions.length
    let nodes := saturatingAdd st.snapshotConditionNodes (ruleConditionNodes rule)
    let bodies := saturatingAdd st.snapshotBodyConditions (ruleBodyConditions rule)
    let fits := actions ≤ maxRuleActionsPerSnapshot ∧ nodes ≤ maxRuleConditionNodesPerSnapshot ∧
      bodies ≤ maxRuleBodyConditionsPerSnapshot
    (fits ∧ st.charge rule = (none, { st with
      snapshotActions := actions
      snapshotConditionNodes := nodes
      snapshotBodyConditions := bodies })) ∨
    (¬fits ∧ ∃ exceeded st', st.charge rule = (some exceeded, st')) := by
  intro actions nodes bodies fits
  by_cases hA : maxRuleActionsPerSnapshot < actions
  · exact .inr ⟨fun h => by omega, _, _, if_pos hA⟩
  by_cases hC : maxRuleConditionNodesPerSnapshot < nodes
  · exact .inr ⟨fun h => by omega, _, _, (if_neg hA).trans (if_pos hC)⟩
  by_cases hB : maxRuleBodyConditionsPerSnapshot < bodies
  · exact .inr ⟨fun h => by omega, _, _, (if_neg hA).trans ((if_neg hC).trans (if_pos hB))⟩
  · exact .inl ⟨⟨by omega, by omega, by omega⟩, (if_neg hA).trans ((if_neg hC).trans (if_neg hB))⟩

variable {limit : Nat}

omit [Crates] in
theorem saturatingAdd_le {a b} (hlimit : limit < usizeMax) :
    saturatingAdd a b ≤ limit ↔ a + b ≤ limit := by
  unfold saturatingAdd
  omega

omit [Crates] in
theorem saturatingAdd_eq {a b} (hlimit : limit < usizeMax) (h : a + b ≤ limit) :
    saturatingAdd a b = a + b := by
  unfold saturatingAdd
  omega

omit [Crates] in
theorem withinBudget_concat {rule} :
    WithinBudget (rules ++ [rule]) ↔
      rules.length < maxRulesPerSnapshot ∧
      actionCount rules + rule.actions.length ≤ maxRuleActionsPerSnapshot ∧
      (rules.map ruleConditionNodes).sum + ruleConditionNodes rule ≤
        maxRuleConditionNodesPerSnapshot ∧
      (rules.map ruleBodyConditions).sum + ruleBodyConditions rule ≤
        maxRuleBodyConditionsPerSnapshot := by
  constructor
  · rintro ⟨h₁, h₂, h₃, h₄⟩
    simp only [actionCount, map_append, sum_append_nat, length_append, map_cons,
      map_nil, sum_cons, sum_nil, length_singleton] at h₁ h₂ h₃ h₄
    exact ⟨by omega, by rw [actionCount]; omega, by omega, by omega⟩
  · rintro ⟨h₁, h₂, h₃, h₄⟩
    rw [actionCount] at h₂
    constructor <;>
      simp only [actionCount, map_append, sum_append_nat, length_append, map_cons,
        map_nil, sum_cons, sum_nil, length_singleton] <;> omega

/-- A line with a rule on it adds the rule. -/
theorem adds_ruleLine (hrules : WithinBudget rules) (bytes : Nat) (group : Str) (n : Nat)
    (line : Str) (profile : SyntaxProfile) :
    Adds ((parseRule group n line profile).toOption.map ([·])) rules bytes
      ((clean rules bytes).ruleLine group n line profile) := by
  unfold ruleLine
  by_cases hcount : (clean rules bytes).sourceRuleLines = maxRulesPerSnapshot
  · rw [if_pos hcount]
    refine .inr ⟨fun new hnew hfits => ?_, report_ne_nil _ _⟩
    obtain ⟨rule, -, rfl⟩ := map_eq_some_iff.mp hnew
    exact (withinBudget_concat.mp hfits).1.ne hcount
  rw [if_neg hcount]
  cases hparse : parseRule group n line profile with
  | error e => exact adds_of_error (report_ne_nil _ _)
  | ok rule =>
    have hlt : rules.length < maxRulesPerSnapshot := lt_of_le_of_ne hrules.ruleCount hcount
    have hlimA : maxRuleActionsPerSnapshot < usizeMax := by decide
    have hlimC : maxRuleConditionNodesPerSnapshot < usizeMax := by decide
    have hlimB : maxRuleBodyConditionsPerSnapshot < usizeMax := by decide
    dsimp only
    rcases charge_cases { clean rules bytes with
        sourceRuleLines := (clean rules bytes).sourceRuleLines + 1 } rule with
      ⟨⟨hA, hC, hB⟩, hcharge⟩ | ⟨hover, exceeded, st', hcharge⟩
    · rw [saturatingAdd_le hlimA] at hA
      rw [saturatingAdd_le hlimC] at hC
      rw [saturatingAdd_le hlimB] at hB
      refine .inl ⟨[rule], rfl, withinBudget_concat.mpr ⟨hlt, hA, hC, hB⟩, ?_⟩
      rw [hcharge, saturatingAdd_eq hlimA hA, saturatingAdd_eq hlimC hC, saturatingAdd_eq hlimB hB]
      simp [clean, actionCount]
    · refine .inr ⟨fun new hnew hfits => ?_, ?_⟩
      · cases hnew
        obtain ⟨-, hA, hC, hB⟩ := withinBudget_concat.mp hfits
        exact hover ⟨(saturatingAdd_le hlimA).mpr hA, (saturatingAdd_le hlimC).mpr hC,
          (saturatingAdd_le hlimB).mpr hB⟩
      · rw [hcharge]
        exact report_ne_nil _ _

/-! ### Lines -/

/-- Nothing, when a line is too long. -/
def ifShort (raws : List Str) (expected : Option (List Rule)) : Option (List Rule) :=
  if raws.any lineTooLong then none else expected

/-- What a line adds that is not the first effective one. -/
def laterLine (group : Str) (profile : SyntaxProfile) (n : Nat) (raw : Str) : Option (List Rule) :=
  ifShort [raw] <|
    match effectiveLine raw with
    | none => some []
    | some line => (lineRule group profile (n, line)).map ([·])

theorem ifShort_mapM_cons (group : Str) (profile : SyntaxProfile) (n : Nat) (raw : Str)
    (raws : List Str) :
    ifShort (raw :: raws) ((numberedLines n (raw :: raws)).mapM (lineRule group profile)) =
      (laterLine group profile n raw).bind fun new =>
        (ifShort raws ((numberedLines (n + 1) raws).mapM (lineRule group profile))).map
          (new ++ ·) := by
  unfold laterLine ifShort
  rw [numberedLines, any_cons, any_cons]
  cases lineTooLong raw with
  | true => rfl
  | false =>
    cases effectiveLine raw with
    | none => simp
    | some line =>
      rw [mapM_cons]
      dsimp only
      cases lineRule group profile (n, line) with
      | none => simp
      | some rule =>
        cases raws.any lineTooLong with
        | true => rfl
        | false => cases (numberedLines (n + 1) raws).mapM (lineRule group profile) <;> rfl

variable {raws : List Str}

/-- A diagnostic at a line stays until the end of the lines. -/
theorem parseLines_cons_ne_nil {requireHeader group n raw g st}
    (h : (parseLine requireHeader group n raw g st).2.2.errors ≠ []) :
    (parseLines requireHeader group n (raw :: raws) g st).2.errors ≠ [] := by
  rw [parseLines]
  split
  next heq =>
    rw [heq] at h
    exact (pushed_parseLines _ _ _ _ _ _).ne_nil h
  next heq =>
    rwa [heq] at h

variable {profile : SyntaxProfile} {index : Nat}

section OneLine

variable {requireHeader : Bool} {group : Str} {n : Nat} {raw line : Str} {g : GroupState}
  {st : ParseState}

theorem parseLine_long (h : lineTooLong raw) :
    (parseLine requireHeader group n raw g st).2.2.errors ≠ [] := by
  unfold parseLine
  rw [if_pos h]
  exact report_ne_nil _ _

variable (h : ¬lineTooLong raw = true) (hline : effectiveLine raw = some line)

include h

theorem parseLine_blank (hline : effectiveLine raw = none) :
    parseLine requireHeader group n raw g st = (.next, g, st) := by
  unfold parseLine
  rw [if_neg h, hline]

include hline

theorem parseLine_directive (hdir : isLanguageDirective line) :
    (parseLine requireHeader group n raw ⟨true, profile⟩ st).2.2.errors ≠ [] := by
  unfold parseLine
  rw [if_neg h, hline]
  simp only [if_pos hdir]
  exact report_ne_nil _ _

theorem parseLine_rule (hdir : ¬isLanguageDirective line) :
    parseLine requireHeader group n raw ⟨true, profile⟩ st =
      ((st.ruleLine group n line profile).1, ⟨true, profile⟩,
        (st.ruleLine group n line profile).2) := by
  unfold parseLine
  rw [if_neg h, hline]
  exact if_neg hdir

theorem parseLine_header (hdir : isLanguageDirective line) (hheader : line = ruleLanguageHeader) :
    parseLine requireHeader group n raw ⟨false, profile⟩ st =
      (.next, ⟨true, .canonicalV3⟩, st) := by
  unfold parseLine
  rw [if_neg h, hline]
  simp only [if_pos hdir]
  exact if_neg (not_not.mpr hheader)

theorem parseLine_wrong_directive (hdir : isLanguageDirective line)
    (hheader : line ≠ ruleLanguageHeader) :
    (parseLine requireHeader group n raw ⟨false, profile⟩ st).2.2.errors ≠ [] := by
  unfold parseLine
  rw [if_neg h, hline]
  simp only [if_pos hdir, if_pos hheader]
  exact report_ne_nil _ _

theorem parseLine_missing_header (hdir : ¬isLanguageDirective line) :
    (parseLine true group n raw ⟨false, profile⟩ st).2.2.errors ≠ [] := by
  unfold parseLine
  rw [if_neg h, hline]
  simp only [if_neg hdir]
  exact report_ne_nil _ _

/-- Without a directive the first effective line is read like the others. -/
theorem parseLine_first (hdir : ¬isLanguageDirective line) :
    parseLine false group n raw ⟨false, profile⟩ st =
      parseLine false group n raw ⟨true, profile⟩ st := by
  rw [parseLine_rule h hline hdir]
  unfold parseLine
  rw [if_neg h, hline]
  simp [if_neg hdir]

end OneLine

section

variable (hrules : WithinBudget rules) (bytes : Nat) (requireHeader : Bool) (group : Str) (n : Nat)
  (raws : List Str)

include hrules

/-- Behind the first effective line every line adds its rule. -/
theorem adds_parseLines_seen (profile : SyntaxProfile) :
    Adds (ifShort raws ((numberedLines n raws).mapM (lineRule group profile))) rules bytes
      (parseLines requireHeader group n raws ⟨true, profile⟩ (.clean rules bytes)) := by
  induction raws generalizing n rules with
  | nil => exact adds_nothing hrules bytes
  | cons raw raws ih =>
    rw [ifShort_mapM_cons]
    by_cases hlong : lineTooLong raw
    · have hfirst : laterLine group profile n raw = none := by simp [laterLine, ifShort, hlong]
      rw [hfirst]
      exact adds_of_error (parseLines_cons_ne_nil (parseLine_long hlong))
    cases hline : effectiveLine raw with
    | none =>
      have hfirst : laterLine group profile n raw = some [] := by
        simp [laterLine, ifShort, hlong, hline]
      rw [hfirst, parseLines, parseLine_blank hlong hline]
      simpa using ih hrules (n + 1)
    | some line =>
      have hfirst : laterLine group profile n raw =
          (lineRule group profile (n, line)).map ([·]) := by
        simp [laterLine, ifShort, hlong, hline]
      rw [hfirst, lineRule]
      by_cases hdir : isLanguageDirective line
      · rw [if_pos hdir]
        exact adds_of_error (parseLines_cons_ne_nil (parseLine_directive hlong hline hdir))
      · rw [if_neg hdir]
        refine (adds_ruleLine hrules bytes group n line profile).append
          (fun new hfits hnext => ?_) (fun hne => ?_)
        · rw [parseLines, parseLine_rule hlong hline hdir, hnext]
          exact ih hfits (n + 1)
        · apply parseLines_cons_ne_nil
          rwa [parseLine_rule hlong hline hdir]

/-- The first effective line may be the language directive; everything before it is blank. -/
theorem adds_parseLines :
    Adds (ifShort raws (groupRules requireHeader group (numberedLines n raws))) rules bytes
      (parseLines requireHeader group n raws ⟨false, .compatible⟩ (.clean rules bytes)) := by
  induction raws generalizing n with
  | nil => exact adds_nothing hrules bytes
  | cons raw raws ih =>
    by_cases hlong : lineTooLong raw
    · rw [show ∀ e, ifShort (raw :: raws) e = none by simp [ifShort, hlong]]
      exact adds_of_error (parseLines_cons_ne_nil (parseLine_long hlong))
    have hshort : ∀ e, ifShort (raw :: raws) e = ifShort raws e := by simp [ifShort, hlong]
    cases hline : effectiveLine raw with
    | none =>
      rw [hshort, numberedLines, hline, parseLines, parseLine_blank hlong hline]
      exact ih (n + 1)
    | some line =>
      have hlines : numberedLines n (raw :: raws) = (n, line) :: numberedLines (n + 1) raws := by
        rw [numberedLines, hline]
      rw [hlines, groupRules]
      by_cases hdir : isLanguageDirective line
      · rw [if_pos hdir]
        by_cases hheader : line = ruleLanguageHeader
        · rw [if_pos hheader, hshort, parseLines, parseLine_header hlong hline hdir hheader]
          exact adds_parseLines_seen hrules bytes requireHeader group (n + 1) raws .canonicalV3
        · rw [if_neg hheader, ifShort, ite_self]
          exact adds_of_error
            (parseLines_cons_ne_nil (parseLine_wrong_directive hlong hline hdir hheader))
      · rw [if_neg hdir]
        cases requireHeader with
        | true =>
          rw [if_pos rfl, ifShort, ite_self]
          exact adds_of_error (parseLines_cons_ne_nil (parseLine_missing_header hlong hline hdir))
        | false =>
          have hseen := adds_parseLines_seen hrules bytes false group n (raw :: raws) .compatible
          rw [hlines] at hseen
          rwa [parseLines, parseLine_first hlong hline hdir]

end

/-! ### Groups -/

/-- What a group adds, when it is the one at the index and this many bytes came before it. -/
def groupAdds (requireHeader : Bool) (index bytes : Nat) (g : Str × Str) : Option (List Rule) :=
  if index < maxRuleGroupsPerSnapshot ∧ bytes + utf8Len g.2 ≤ maxRuleSnapshotSourceBytes ∧
      groupNameValid g.1 then
    ifShort (lines g.2) (groupRules requireHeader g.1 (numberedLines 1 (lines g.2)))
  else none

def groupsAdd (requireHeader : Bool) : Nat → Nat → List (Str × Str) → Option (List Rule)
  | _, _, [] => some []
  | index, bytes, g :: groups =>
    (groupAdds requireHeader index bytes g).bind fun new =>
      (groupsAdd requireHeader (index + 1) (bytes + utf8Len g.2) groups).map (new ++ ·)

omit [Crates] in
theorem checkedAdd_filter {a b} :
    (checkedAdd a b).filter (· ≤ maxRuleSnapshotSourceBytes) =
      if a + b ≤ maxRuleSnapshotSourceBytes then some (a + b) else none := by
  have hlim : maxRuleSnapshotSourceBytes < usizeMax := by decide
  unfold checkedAdd
  by_cases hfits : a + b ≤ maxRuleSnapshotSourceBytes
  · rw [if_pos (by omega)]
    simp [hfits]
  · split
    · simpa using hfits
    · rfl

theorem adds_parseGroup (hrules : WithinBudget rules) (requireHeader : Bool) (index bytes : Nat)
    (g : Str × Str) :
    Adds (groupAdds requireHeader index bytes g) rules (bytes + utf8Len g.2)
      (parseGroup requireHeader index g.1 g.2 (.clean rules bytes)) := by
  unfold parseGroup groupAdds
  by_cases hindex : maxRuleGroupsPerSnapshot ≤ index
  · rw [if_pos hindex, if_neg (fun h => absurd h.1 (not_lt.mpr hindex))]
    exact adds_of_error (report_ne_nil _ _)
  rw [if_neg hindex, checkedAdd_filter]
  by_cases hbytes : bytes + utf8Len g.2 ≤ maxRuleSnapshotSourceBytes
  · have hbytes' : (clean rules bytes).sourceBytes + utf8Len g.2 ≤
        maxRuleSnapshotSourceBytes := hbytes
    rw [if_pos hbytes']
    by_cases hname : groupNameValid g.1
    · rw [if_pos ⟨not_le.mp hindex, hbytes, hname⟩]
      simp only [hname]
      exact adds_parseLines hrules (bytes + utf8Len g.2) requireHeader g.1 1 (lines g.2)
    · rw [if_neg (fun h => hname h.2.2)]
      simp only [hname]
      exact adds_of_error (report_ne_nil _ _)
  · have hbytes' : ¬(clean rules bytes).sourceBytes + utf8Len g.2 ≤
        maxRuleSnapshotSourceBytes := hbytes
    rw [if_neg hbytes', if_neg (fun h => hbytes h.2.1)]
    exact adds_of_error (report_ne_nil _ _)

theorem adds_parseGroupsLoop (hrules : WithinBudget rules) (requireHeader : Bool)
    (index bytes : Nat) (groups : List (Str × Str)) :
    Adds (groupsAdd requireHeader index bytes groups) rules
      (bytes + (groups.map fun g => utf8Len g.2).sum)
      (.next, parseGroupsLoop requireHeader index groups (.clean rules bytes)) := by
  induction groups generalizing index bytes rules with
  | nil => exact adds_nothing hrules bytes
  | cons g groups ih =>
    rw [map_cons, sum_cons, ← add_assoc]
    refine (adds_parseGroup hrules requireHeader index bytes g).append
      (fun new hfits hnext => ?_) (fun hne => ?_)
    · rw [parseGroupsLoop, hnext]
      exact ih hfits (index + 1) (bytes + utf8Len g.2)
    · rw [parseGroupsLoop]
      split
      next heq =>
        rwa [heq] at hne
      next heq =>
        rw [heq] at hne
        exact (pushed_parseGroupsLoop _ _ _ _).ne_nil hne

omit [Crates] in
theorem ifShort_eq_some {expected} :
    ifShort raws expected = some new ↔
      (∀ raw ∈ raws, utf8Len raw ≤ maxRuleSourceLineBytes) ∧ expected = some new := by
  have hany : raws.any lineTooLong ↔ ¬∀ raw ∈ raws, utf8Len raw ≤ maxRuleSourceLineBytes := by
    simp [lineTooLong]
  unfold ifShort
  by_cases hshort : ∀ raw ∈ raws, utf8Len raw ≤ maxRuleSourceLineBytes
  · rw [if_neg (fun h => hany.mp h hshort)]
    exact ⟨fun h => ⟨hshort, h⟩, fun h => h.2⟩
  · rw [if_pos (hany.mpr hshort)]
    exact ⟨nofun, fun h => absurd h.1 hshort⟩

theorem groupAdds_eq_some {requireHeader g} :
    groupAdds requireHeader index bytes g = some new ↔
      index < maxRuleGroupsPerSnapshot ∧ bytes + utf8Len g.2 ≤ maxRuleSnapshotSourceBytes ∧
      groupNameValid g.1 ∧ (∀ raw ∈ lines g.2, utf8Len raw ≤ maxRuleSourceLineBytes) ∧
      groupRules requireHeader g.1 (numberedLines 1 (lines g.2)) = some new := by
  unfold groupAdds
  split
  next h => rw [ifShort_eq_some]; tauto
  next h => exact ⟨nofun, fun hall => absurd ⟨hall.1, hall.2.1, hall.2.2.1⟩ h⟩

variable {groups : List (Str × Str)}

theorem groupsAdd_eq_some {requireHeader} (hindex : index ≤ maxRuleGroupsPerSnapshot)
    (hbytes : bytes ≤ maxRuleSnapshotSourceBytes) :
    groupsAdd requireHeader index bytes groups = some rules ↔
      index + groups.length ≤ maxRuleGroupsPerSnapshot ∧
      bytes + (groups.map fun g => utf8Len g.2).sum ≤ maxRuleSnapshotSourceBytes ∧
      (∀ g ∈ groups, groupNameValid g.1 ∧
        ∀ raw ∈ lines g.2, utf8Len raw ≤ maxRuleSourceLineBytes) ∧
      ∃ parts, groups.mapM (fun g =>
          groupRules requireHeader g.1 (numberedLines 1 (lines g.2))) = some parts ∧
        rules = parts.flatten := by
  induction groups generalizing index bytes rules with
  | nil =>
    constructor
    · intro h
      cases h
      exact ⟨hindex, hbytes, nofun, [], rfl, rfl⟩
    · rintro ⟨-, -, -, parts, hparts, rfl⟩
      cases hparts
      rfl
  | cons g groups ih =>
    rw [groupsAdd, bind_eq_some_iff]
    constructor
    · rintro ⟨new, hnew, hmap⟩
      obtain ⟨rest, hrest, rfl⟩ := map_eq_some_iff.mp hmap
      obtain ⟨hlt, hfits, hname, hshort, hrules⟩ := groupAdds_eq_some.mp hnew
      obtain ⟨hcount, hsum, hall, parts, hparts, rfl⟩ := (ih hlt hfits).mp hrest
      rw [length_cons, map_cons, sum_cons]
      refine ⟨by omega, by omega, ?_, new :: parts, ?_, rfl⟩
      · exact forall_mem_cons.mpr ⟨⟨hname, hshort⟩, hall⟩
      · rw [mapM_cons, hrules, hparts]
        rfl
    · rintro ⟨hcount, hsum, hall, parts, hparts, rfl⟩
      obtain ⟨⟨hname, hshort⟩, hall⟩ := forall_mem_cons.mp hall
      rw [mapM_cons] at hparts
      obtain ⟨new, hnew, hparts⟩ := bind_eq_some_iff.mp hparts
      obtain ⟨rest, hrest, hparts⟩ := bind_eq_some_iff.mp hparts
      cases hparts
      rw [length_cons] at hcount
      rw [map_cons, sum_cons] at hsum
      have hlt : index + 1 ≤ maxRuleGroupsPerSnapshot := by omega
      have hfits : bytes + utf8Len g.2 ≤ maxRuleSnapshotSourceBytes := by omega
      refine ⟨new, groupAdds_eq_some.mpr ⟨hlt, hfits, hname, hshort, hnew⟩, ?_⟩
      rw [(ih hlt hfits).mpr ⟨by omega, by omega, hall, rest, hrest, rfl⟩]
      rfl

theorem groupsAdd_zero {requireHeader} :
    groupsAdd requireHeader 0 0 groups = some rules ∧ WithinBudget rules ↔
      Accepted requireHeader groups rules := by
  rw [groupsAdd_eq_some (zero_le _) (zero_le _), zero_add, zero_add]
  constructor
  · rintro ⟨⟨hcount, hbytes, hall, hparts⟩, hbudget⟩
    exact ⟨hcount, fun g hg => (hall g hg).1, hbytes, fun g hg => (hall g hg).2, hparts, hbudget⟩
  · rintro ⟨hcount, hnames, hbytes, hlines, hparts, hbudget⟩
    exact ⟨⟨hcount, hbytes, fun g hg => ⟨hnames g hg, hlines g hg⟩, hparts⟩, hbudget⟩

omit [Crates] in
theorem withinBudget_nil : WithinBudget [] := by
  constructor <;> exact zero_le _

/-- The loop leaves no diagnostic exactly when the groups are accepted, and then it has their
rules. -/
theorem parseGroupsLoop_spec {requireHeader} :
    let st := parseGroupsLoop requireHeader 0 groups .initial
    (st.errors = [] ∧ Accepted requireHeader groups st.rules) ∨
      (st.errors ≠ [] ∧ ∀ rules, ¬Accepted requireHeader groups rules) := by
  rcases adds_parseGroupsLoop withinBudget_nil requireHeader 0 0 groups with
    ⟨rules, hrules, hfits, hst⟩ | ⟨hover, hne⟩
  · left
    have hst : parseGroupsLoop requireHeader 0 groups .initial = .clean rules _ :=
      congrArg Prod.snd hst
    rw [hst]
    exact ⟨rfl, groupsAdd_zero.mp ⟨hrules, hfits⟩⟩
  · right
    refine ⟨hne, fun rules hacc => ?_⟩
    obtain ⟨hrules, hfits⟩ := groupsAdd_zero.mpr hacc
    exact hover rules hrules hfits

end RsProxy.Rules
