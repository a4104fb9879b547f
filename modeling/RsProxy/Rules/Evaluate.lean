import RsProxy.Rules.Matching

/-!
# Evaluating matchers and conditions

A snapshot binds every pattern of a rule to the number of its program once, when it is built.
Evaluation walks the rule and its bound resources side by side; where the two do not have the same
shape, nothing matches.
-/

namespace RsProxy.Rules

open Text Data Regex Option

variable [Crates] {glob : GlobMatcher} {url : UrlParts} {globs : CompiledGlobSet}
  {hostId portId pathId queryId : Option Nat}

/-! ### Bound resources -/

inductive CompiledMatcherResources where
  | none
  | glob (host port path query : Option Nat)
  | not (inner : CompiledMatcherResources)
  deriving DecidableEq, Repr

inductive CompiledConditionResources where
  | none
  | host (id : Option Nat)
  | urlGlob (id : Option Nat)
  | clientIp (ids : List (Option Nat))
  | serverIp (ids : List (Option Nat))
  | bodyContains (id : Nat)
  | children (resources : List CompiledConditionResources)
  | not (inner : CompiledConditionResources)
  deriving Repr

structure CompiledRuleResources where
  matcher : CompiledMatcherResources
  conditions : List CompiledConditionResources

/-- The body literals of a snapshot, deduplicated up to ASCII case, and one automaton for them. -/
structure CompiledBodyContainsSet where
  literals : List Str
  literalIds : SortedMap Str Nat
  matcher : Option (Str → List Nat)

/-! ### Regular expressions -/

def defaultFancyBacktrackLimit : Nat := 100000

def fancyPattern (pattern : Str) (caseInsensitive : Bool) : Str :=
  if caseInsensitive then "(?i:" ++ pattern ++ ")" else pattern

/-- The whole match, the first nine groups and the named groups that took part. -/
def collectCaptures (m : Match) : Captures :=
  let whole : Captures := { Captures.default with whole := (m.groups.head?).join }
  let indexed := ((m.groups.drop 1).take 9).foldl (fun c g => c.insertIndex (g.getD [])) whole
  m.named.foldl
    (fun c entry =>
      match entry.2 with
      | some value => { c with named := c.named.upsert entry.1 fun _ => value }
      | none => c)
    indexed

def RegexMatcher.matches (r : RegexMatcher) (text : Str) : Option Captures :=
  match r.engine with
  | .linear =>
    match Crates.linearRegex r.pattern r.caseInsensitive none with
    | .ok regex => (regex text).map collectCaptures
    | .error _ => none
  | .fancy =>
    match Crates.fancyRegex (fancyPattern r.pattern r.caseInsensitive)
        defaultFancyBacktrackLimit with
    | .ok regex =>
      match regex text with
      | .ok m => m.map collectCaptures
      -- Giving up, at the backtrack limit or otherwise, counts as no match.
      | .error _ => none
    | .error _ => none

/-! ### Matchers -/

def resourcesMatch (id : Option Nat) (text : Str) (globs : CompiledGlobSet) : Bool :=
  match id with
  | some id => globs.globMatchId id text
  | none => false

def resourcesMatchWithCaptures (id : Option Nat) (text : Str) (globs : CompiledGlobSet)
    (captures : Captures) : Option Captures :=
  id.bind fun id => globs.globMatchWithCapturesId id text captures

section

variable (glob : GlobMatcher) (url : UrlParts)

def GlobMatcher.schemeMatches : Bool :=
  match glob.scheme with
  | some scheme => eqIgnoreAsciiCase scheme url.scheme
  | none => true

section

variable (globs : CompiledGlobSet)

def GlobMatcher.portMatches (portId : Option Nat) : Bool :=
  match glob.port with
  | some _ =>
    match url.effectivePort with
    | some port => resourcesMatch portId (decimal port) globs
    | none => false
  | none => true

/-- The captures after the path component. -/
def GlobMatcher.pathCaptures (pathId : Option Nat) : Option Captures :=
  match glob.path with
  | some path =>
    if globSyntaxIsActive path then
      resourcesMatchWithCaptures pathId url.path globs Captures.default
    else if pathPrefixMatches path url.path then some Captures.default
    else none
  | none => some Captures.default

/-- The captures after the query component, on top of those of the path. -/
def GlobMatcher.queryCaptures (queryId : Option Nat) (captures : Captures) : Option Captures :=
  match glob.query with
  | some _ => resourcesMatchWithCaptures queryId (url.query.getD []) globs captures
  | none => some captures

def GlobMatcher.matchesCompiled (resources : CompiledMatcherResources) : Option Captures :=
  match resources with
  | .glob hostId portId pathId queryId =>
    if !glob.schemeMatches url then none
    else if !globs.hostMatchesId glob.host url.host hostId then none
    else if !glob.portMatches url globs portId then none
    else (glob.pathCaptures url globs pathId).bind (glob.queryCaptures url globs queryId)
  | _ => none

end

end

omit [Crates] in
/-- The components of a match, in the order they are tried. -/
theorem GlobMatcher.matchesCompiled_eq_some {captures} :
    glob.matchesCompiled url globs (.glob hostId portId pathId queryId) = some captures ↔
      glob.schemeMatches url ∧ globs.hostMatchesId glob.host url.host hostId ∧
      glob.portMatches url globs portId ∧
      (glob.pathCaptures url globs pathId).bind (glob.queryCaptures url globs queryId) =
        some captures := by
  simp only [GlobMatcher.matchesCompiled]
  by_cases hscheme : glob.schemeMatches url = false
  · simp
  by_cases hhost : globs.hostMatchesId glob.host url.host hostId = false
  · simp
  by_cases hport : glob.portMatches url globs portId = false
  · simp
  simp

def GlobMatcher.queryMatches (glob : GlobMatcher) (url : UrlParts) (globs : CompiledGlobSet)
    (queryId : Option Nat) : Bool :=
  match glob.query with
  | some _ => resourcesMatch queryId (url.query.getD []) globs
  | none => true

omit [Crates] in
theorem resourcesMatchWithCaptures_isSome {id text captures} :
    (resourcesMatchWithCaptures id text globs captures).isSome = resourcesMatch id text globs := by
  unfold resourcesMatchWithCaptures resourcesMatch
  cases id with
  | none => rfl
  | some id =>
    rw [bind_some, CompiledGlobSet.globMatchWithCapturesId, isSome_map]
    unfold CompiledGlobSet.globMatchId
    dsimp only
    cases globs.programs[id]? <;> rfl

omit [Crates] in
/-- Every component decides on its own whether it matches. -/
theorem GlobMatcher.matchesCompiled_isSome :
    (glob.matchesCompiled url globs (.glob hostId portId pathId queryId)).isSome ↔
      glob.schemeMatches url ∧ globs.hostMatchesId glob.host url.host hostId ∧
      glob.portMatches url globs portId ∧
      (glob.pathCaptures url globs pathId).isSome ∧
      glob.queryMatches url globs queryId := by
  have hquery : ∀ captures, (glob.queryCaptures url globs queryId captures).isSome =
      glob.queryMatches url globs queryId := by
    intro captures
    unfold queryCaptures queryMatches
    cases glob.query with
    | none => rfl
    | some pattern => exact resourcesMatchWithCaptures_isSome
  simp only [isSome_iff_exists, matchesCompiled_eq_some, exists_and_left]
  rw [← isSome_iff_exists, ← isSome_iff_exists]
  cases glob.pathCaptures url globs pathId with
  | none => simp
  | some captures => simp [hquery]

def Matcher.matchesCompiled (matcher : Matcher) (url : UrlParts) (rawUrl : Str)
    (globs : CompiledGlobSet) (resources : CompiledMatcherResources) : Option Captures :=
  match matcher with
  | .exactUrl expected => if exactUrlMatches expected url then some Captures.default else none
  | .glob g => g.matchesCompiled url globs resources
  | .port p => if url.effectivePort = some p then some Captures.default else none
  | .regex r => r.matches rawUrl
  | .not inner =>
    match resources with
    | .not innerResources =>
      if (inner.matchesCompiled url rawUrl globs innerResources).isNone then some Captures.default
      else none
    | _ => none

/-! ### Body literals -/

namespace CompiledBodyContainsSet

def id (set : CompiledBodyContainsSet) (literal : Str) : Option Nat := set.literalIds.get? literal

/-- Mark the reported literals until none is left to be found. -/
def scanLoop : List Nat → List Bool → Nat → List Bool
  | [], matched, _ => matched
  | i :: found, matched, remaining =>
    if matched[i]? = some false then
      if remaining - 1 = 0 then matched.set i true
      else scanLoop found (matched.set i true) (remaining - 1)
    else scanLoop found matched remaining

def scan (set : CompiledBodyContainsSet) (text : Str) : List Bool :=
  let matched := List.replicate set.literals.length false
  match set.matcher with
  | some search => scanLoop (search text) matched matched.length
  | none => matched

def matchesId (id : Nat) (matched : List Bool) : Bool := matched[id]?.getD false

end CompiledBodyContainsSet

/-! ### Conditions -/

structure ConditionMatchContext where
  url : Option UrlParts
  res : Option ResponseMeta
  line : Nat
  globs : CompiledGlobSet
  bodyLiterals : CompiledBodyContainsSet
  req : RequestMeta
  env : Env

namespace ConditionMatchContext

section

variable (context : ConditionMatchContext)

def bodyText : Str := fromUtf8Lossy context.req.body

def clientIp : Option Str :=
  context.req.clientIp.map normalizeIpValue

def serverIp : Option Str :=
  context.req.serverIp.map normalizeIpValue

def bodyContains (id : Nat) : Bool :=
  CompiledBodyContainsSet.matchesId id (context.bodyLiterals.scan context.bodyText)

end

end ConditionMatchContext

def UrlCondition.matches (condition : UrlCondition) (rawUrl : Str) (globs : CompiledGlobSet)
    (resources : CompiledConditionResources) : Bool :=
  match condition with
  | .glob pattern =>
    if globSyntaxIsActive pattern then
      match resources with
      | .urlGlob (some id) => globs.globMatchId id rawUrl
      | _ => false
    else pattern == rawUrl
  | .regex r => (r.matches rawUrl).isSome

def anyIpMatches (globs : CompiledGlobSet) (patterns : List Str) (ids : List (Option Nat))
    (actual : Str) : Bool :=
  (patterns.zip ids).any fun p => globs.ipMatchesId p.1 actual p.2

namespace Condition

mutual

def matchesWithCompiled (context : ConditionMatchContext) :
    Condition → CompiledConditionResources → Bool
  | .method methods, _ => methods.any fun m => eqIgnoreAsciiCase m context.req.method
  | .host pattern, resources =>
    match resources, context.url with
    | .host id, some parts => context.globs.hostMatchesId pattern parts.host id
    | _, _ => false
  | .url condition, resources => condition.matches context.req.url context.globs resources
  | .clientIp patterns, resources =>
    match context.clientIp, resources with
    | some actual, .clientIp ids => anyIpMatches context.globs patterns ids actual
    | _, _ => false
  | .serverIp patterns, resources =>
    match context.serverIp, resources with
    | some actual, .serverIp ids => anyIpMatches context.globs patterns ids actual
    | _, _ => false
  | .headerPresent name, _ => (header context.req.headers name).isSome
  | .headerContains name value, _ =>
    (header context.req.headers name).any (containsAsciiCaseInsensitive · value)
  | .resHeaderPresent name, _ =>
    match context.res with
    | some res => (header res.headers name).isSome
    | none => false
  | .resHeaderContains name value, _ =>
    match context.res with
    | some res => (header res.headers name).any (containsAsciiCaseInsensitive · value)
    | none => false
  | .bodyContains _, resources =>
    match resources with
    | .bodyContains id => context.bodyContains id
    | _ => false
  | .bodyRegex r, _ => (r.matches context.bodyText).isSome
  | .status statuses, _ =>
    match context.res with
    | some res => statuses.contains res.status
    | none => false
  | .chancePermille permille, _ => chance context.req context.line permille
  | .envPresent name, _ => (context.env name).isSome
  | .envEquals name value, _ => context.env name == some value
  | .any cs, resources =>
    match resources with
    | .children rs => anyMatch context cs rs
    | _ => false
  | .all cs, resources =>
    match resources with
    | .children rs => allMatch context cs rs
    | _ => false
  | .not c, resources =>
    -- Without a response a negation of a response condition is unknown, not true.
    if context.res.isNone && c.dependsOnResponse then false
    else
      match resources with
      | .not r => !matchesWithCompiled context c r
      | _ => false

def anyMatch (context : ConditionMatchContext) :
    List Condition → List CompiledConditionResources → Bool
  | c :: cs, r :: rs => matchesWithCompiled context c r || anyMatch context cs rs
  | _, _ => false

def allMatch (context : ConditionMatchContext) :
    List Condition → List CompiledConditionResources → Bool
  | c :: cs, r :: rs => matchesWithCompiled context c r && allMatch context cs rs
  | _, _ => true

end

mutual

/-- Could the condition still match once the request body, or a response, is there? -/
def mayMatchBeforeRequestBody (context : ConditionMatchContext) :
    Condition → CompiledConditionResources → Bool
  | .bodyContains _, _ | .bodyRegex _, _ | .resHeaderPresent _, _ | .resHeaderContains _ _, _
  | .status _, _ => true
  | .any cs, resources =>
    match resources with
    | .children rs => anyMayMatch context cs rs
    | _ => false
  | .all cs, resources =>
    match resources with
    | .children rs => allMayMatch context cs rs
    | _ => false
  | .not c, resources =>
    if c.dependsOnRequestBody || c.dependsOnResponse then true
    else matchesWithCompiled context (.not c) resources
  | c, resources => matchesWithCompiled context c resources

def anyMayMatch (context : ConditionMatchContext) :
    List Condition → List CompiledConditionResources → Bool
  | c :: cs, r :: rs => mayMatchBeforeRequestBody context c r || anyMayMatch context cs rs
  | _, _ => false

def allMayMatch (context : ConditionMatchContext) :
    List Condition → List CompiledConditionResources → Bool
  | c :: cs, r :: rs => mayMatchBeforeRequestBody context c r && allMayMatch context cs rs
  | _, _ => true

end

variable (context : ConditionMatchContext) (cs : List Condition)
  (rs : List CompiledConditionResources)

theorem anyMatch_eq :
    anyMatch context cs rs = (cs.zip rs).any fun p => matchesWithCompiled context p.1 p.2 := by
  induction cs generalizing rs with
  | nil => simp [anyMatch]
  | cons c cs ih => cases rs <;> simp [anyMatch, ih]

theorem allMatch_eq :
    allMatch context cs rs = (cs.zip rs).all fun p => matchesWithCompiled context p.1 p.2 := by
  induction cs generalizing rs with
  | nil => simp [allMatch]
  | cons c cs ih => cases rs <;> simp [allMatch, ih]

theorem anyMayMatch_eq :
    anyMayMatch context cs rs =
      (cs.zip rs).any fun p => mayMatchBeforeRequestBody context p.1 p.2 := by
  induction cs generalizing rs with
  | nil => simp [anyMayMatch]
  | cons c cs ih => cases rs <;> simp [anyMayMatch, ih]

theorem allMayMatch_eq :
    allMayMatch context cs rs =
      (cs.zip rs).all fun p => mayMatchBeforeRequestBody context p.1 p.2 := by
  induction cs generalizing rs with
  | nil => simp [allMayMatch]
  | cons c cs ih => cases rs <;> simp [allMayMatch, ih]

variable {context cs} {c : Condition} {resources : CompiledConditionResources}

theorem matchesWithCompiled_any :
    matchesWithCompiled context (.any cs) resources ↔
      ∃ rs, resources = .children rs ∧ ∃ p ∈ cs.zip rs, matchesWithCompiled context p.1 p.2 := by
  cases resources <;> simp [matchesWithCompiled, anyMatch_eq]

theorem matchesWithCompiled_all :
    matchesWithCompiled context (.all cs) resources ↔
      ∃ rs, resources = .children rs ∧ ∀ p ∈ cs.zip rs, matchesWithCompiled context p.1 p.2 := by
  cases resources <;> simp [matchesWithCompiled, allMatch_eq]

theorem matchesWithCompiled_not :
    matchesWithCompiled context (.not c) resources ↔
      (context.res = none → c.dependsOnResponse = false) ∧
        ∃ r, resources = .not r ∧ matchesWithCompiled context c r = false := by
  cases hres : context.res <;> cases hdep : c.dependsOnResponse <;> cases resources <;>
    simp [matchesWithCompiled, hres, hdep]

end Condition

end RsProxy.Rules
