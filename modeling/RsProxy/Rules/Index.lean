import RsProxy.Rules.Evaluate

/-!
# The candidate index

A snapshot sorts its rules into buckets: by exact host, by host suffix, by a literal that a regular
expression cannot match without, and a global bucket for the rest. Only the rules in the buckets of
a request are evaluated for it.

Building the index also registers and binds every pattern. The code panics when a pattern the
parser accepted does not compile; then `RuleIndex.build` is `none`.
-/

namespace RsProxy.Rules

open Text Data Regex

variable [Crates]

/-! ### Literals a regular expression requires -/

/-- Of the longest byte strings the last one. -/
def maxByLen : List Bytes → Option Bytes
  | [] => none
  | b :: bs =>
    match maxByLen bs with
    | some best => if best.length < b.length then some b else some best
    | none => some b

mutual

def longestRequired : Hir → Option Bytes
  | .literal bytes => some bytes
  | .capture sub => longestRequired sub
  | .concat parts => maxByLen (requiredParts parts)
  | .repetition min _ sub => if 0 < min then longestRequired sub else none
  | .empty | .cls _ | .look _ | .alternation _ => none

/-- What the parts require, those without a required literal left out. -/
def requiredParts : List Hir → List Bytes
  | [] => []
  | h :: hs =>
    match longestRequired h with
    | some b => b :: requiredParts hs
    | none => requiredParts hs

end

/-- `String::from_utf8`. -/
def fromUtf8 (bytes : Bytes) : Option Str :=
  let s := fromUtf8Lossy bytes
  if utf8 s = bytes then some s else none

def requiredRegexLiteral (regex : RegexMatcher) : Option Str :=
  if regex.caseInsensitive then none
  else do
    let hir ← Crates.regexSyntax regex.pattern
    let bytes ← longestRequired hir
    let literal ← fromUtf8 bytes
    if 3 ≤ utf8Len literal then some literal else none

/-! ### Host buckets -/

inductive MatcherIndexKey where
  | exact (host : Str)
  | suffix (host : Str)
  | global
  deriving DecidableEq, Repr

def isPlainDomain (host : Str) : Bool :=
  !host.isEmpty &&
    host.all fun c => c.isAlphanum || c == '-' || c == '.' || c == ':' || c == '_'

def globIndexKey (glob : GlobMatcher) : MatcherIndexKey :=
  let host := toAsciiLowercase (trimBrackets glob.host)
  if host.isEmpty || host == "*" || host.contains '?' then .global
  else
    let base := ((stripPrefix "**." host).orElse fun _ =>
      stripPrefix "*." host).orElse fun _ => stripPrefix "." host
    match base with
    | some base => if isPlainDomain base then .suffix base else .global
    | none =>
      if host.contains '*' then .global
      else if isPlainDomain host then .exact host
      else .global

def matcherIndexKey : Matcher → MatcherIndexKey
  | .exactUrl expected =>
    match UrlParts.parse expected with
    | .ok url => .exact (toAsciiLowercase (trimBrackets url.host))
    | .error _ => .global
  | .glob g => globIndexKey g
  | .port _ | .regex _ | .not _ => .global

/-- The rest of the host behind every dot, as long as there is a rest. -/
def afterDots : Str → List Str
  | [] => []
  | c :: cs => if c = '.' ∧ cs ≠ [] then cs :: afterDots cs else afterDots cs

def hostSuffixes (host : Str) : List Str := host :: afterDots host

/-! ### Binding -/

def bindMatcherResources (globs : CompiledGlobSet) : Matcher → CompiledMatcherResources
  | .glob g =>
    .glob (if hostPatternUsesRegex g.host then globs.id g.host '.' else none)
      (g.port.bind fun pattern => globs.id pattern '.')
      (g.path.bind fun pattern => if globSyntaxIsActive pattern then globs.id pattern '/' else none)
      (g.query.bind fun pattern => globs.id pattern '&')
  | .not inner => .not (bindMatcherResources globs inner)
  | .exactUrl _ | .port _ | .regex _ => .none

def bindIps (globs : CompiledGlobSet) (patterns : List Str) : List (Option Nat) :=
  patterns.map fun pattern => globs.id (normalizeIpValue pattern) '\x00'

mutual

/-- `none` when a body literal was not collected. -/
def bindConditionResources (globs : CompiledGlobSet) (bodyLiterals : CompiledBodyContainsSet) :
    Condition → Option CompiledConditionResources
  | .host pattern =>
    some (.host
      (if hostPatternUsesRegex pattern then globs.id (toAsciiLowercase pattern) '.' else none))
  | .url (.glob pattern) =>
    some (.urlGlob (if globSyntaxIsActive pattern then globs.id pattern '\x00' else none))
  | .clientIp patterns => some (.clientIp (bindIps globs patterns))
  | .serverIp patterns => some (.serverIp (bindIps globs patterns))
  | .bodyContains literal => (bodyLiterals.id literal).map .bodyContains
  | .any cs => (bindAll globs bodyLiterals cs).map .children
  | .all cs => (bindAll globs bodyLiterals cs).map .children
  | .not c => (bindConditionResources globs bodyLiterals c).map .not
  | _ => some .none

def bindAll (globs : CompiledGlobSet) (bodyLiterals : CompiledBodyContainsSet) :
    List Condition → Option (List CompiledConditionResources)
  | [] => some []
  | c :: cs => do
    let r ← bindConditionResources globs bodyLiterals c
    let rs ← bindAll globs bodyLiterals cs
    return r :: rs

end

/-! ### Body literals -/

namespace CompiledBodyContainsSet

def bodyLiteralOf : Condition → Option Str
  | .bodyContains literal => some literal
  | _ => none

def collectBodyLiterals (literals : SortedMap Str Unit) (condition : Condition) :
    SortedMap Str Unit :=
  (condition.nodes.filterMap bodyLiteralOf).foldl SortedMap.insertKey literals

/-- `none` when the automaton does not build. -/
def fromLiterals (sourceLiterals : SortedMap Str Unit) : Option CompiledBodyContainsSet :=
  let lowered := (sourceLiterals.keys.map toAsciiLowercase).foldl SortedMap.insertKey .empty
  let literals := lowered.keys
  let literalIds := sourceLiterals.keys.foldl
    (fun ids literal => ids.upsert literal fun _ => literals.idxOf (toAsciiLowercase literal))
    .empty
  if literals.isEmpty then some ⟨literals, literalIds, none⟩
  else (Crates.ahoCorasick true literals).map fun search => ⟨literals, literalIds, some search⟩

def build (rules : List Rule) : Option CompiledBodyContainsSet :=
  fromLiterals (rules.foldl (fun literals rule =>
    rule.conditions.foldl collectBodyLiterals literals) .empty)

end CompiledBodyContainsSet

/-! ### The index -/

structure RuleIndex where
  domainExact : SortedMap Str (List Nat)
  domainSuffix : SortedMap Str (List Nat)
  global : List Nat
  prefilterLiterals : List Str
  prefilterLiteralRules : List (List Nat)
  prefilterRuleIds : List Nat
  prefilter : Option (Str → List Nat)
  compiledGlobs : CompiledGlobSet
  compiledBodyLiterals : CompiledBodyContainsSet
  compiledResources : List CompiledRuleResources

/-- The buckets while the rules are sorted in. -/
structure Buckets where
  domainExact : SortedMap Str (List Nat)
  domainSuffix : SortedMap Str (List Nat)
  global : List Nat
  prefilterLiteralRules : SortedMap Str (List Nat)
  prefilterRuleIds : List Nat

namespace Buckets

def empty : Buckets := ⟨.empty, .empty, [], .empty, []⟩

def pushId (idx : Nat) (ids : Option (List Nat)) : List Nat := ids.getD [] ++ [idx]

def insertByKey (b : Buckets) (idx : Nat) (matcher : Matcher) : Buckets :=
  match matcherIndexKey matcher with
  | .exact host => { b with domainExact := b.domainExact.upsert host (pushId idx) }
  | .suffix host => { b with domainSuffix := b.domainSuffix.upsert host (pushId idx) }
  | .global => { b with global := b.global ++ [idx] }

def prefilterLiteral : Matcher → Option Str
  | .regex r => requiredRegexLiteral r
  | _ => none

def insert (b : Buckets) (idx : Nat) (matcher : Matcher) : Buckets :=
  match prefilterLiteral matcher with
  | some literal =>
    { b with
      prefilterLiteralRules := b.prefilterLiteralRules.upsert literal (pushId idx)
      prefilterRuleIds := b.prefilterRuleIds ++ [idx] }
  | none => b.insertByKey idx matcher

def insertAll (b : Buckets) : Nat → List Rule → Buckets
  | _, [] => b
  | idx, rule :: rules => (b.insert idx rule.matcher).insertAll (idx + 1) rules

end Buckets

def bindRule (globs : CompiledGlobSet) (bodyLiterals : CompiledBodyContainsSet) (rule : Rule) :
    Option CompiledRuleResources :=
  (bindAll globs bodyLiterals rule.conditions).map fun conditions =>
    ⟨bindMatcherResources globs rule.matcher, conditions⟩

namespace RuleIndex

def build (rules : List Rule) : Option RuleIndex := do
  let buckets := Buckets.empty.insertAll 0 rules
  let literals := buckets.prefilterLiteralRules.keys
  let literalRules := buckets.prefilterLiteralRules.values
  let prefilter := if literals.isEmpty then none else Crates.ahoCorasick false literals
  let globs ← CompiledGlobSet.build rules
  let bodyLiterals ← CompiledBodyContainsSet.build rules
  let resources ← rules.mapM (bindRule globs bodyLiterals)
  return {
    domainExact := buckets.domainExact
    domainSuffix := buckets.domainSuffix
    -- Without an automaton the rules behind the literals go to the global bucket.
    global := if prefilter.isNone then buckets.global ++ literalRules.flatten else buckets.global
    prefilterLiterals := if prefilter.isNone then [] else literals
    prefilterLiteralRules := if prefilter.isNone then [] else literalRules
    prefilterRuleIds := if prefilter.isNone then [] else buckets.prefilterRuleIds
    prefilter
    compiledGlobs := globs
    compiledBodyLiterals := bodyLiterals
    compiledResources := resources }

/-- Append the values that are not there yet. The set of seen values is the list itself. -/
def extendUnique (out values : List Nat) : List Nat :=
  values.foldl (fun out v => if v ∈ out then out else out ++ [v]) out

/-- Collect the rules behind the literals found, until every rule behind a literal is in. -/
def prefilterLoop (literalRules : List (List Nat)) (total : Nat) :
    List Nat → List Nat → List Nat
  | [], out => out
  | p :: found, out =>
    match literalRules[p]? with
    | some rules =>
      let out := extendUnique out rules
      if out.length = total then out else prefilterLoop literalRules total found out
    | none => prefilterLoop literalRules total found out

def prefilterMatches (index : RuleIndex) (rawUrl : Str) : List Nat :=
  match index.prefilter with
  | some search =>
    prefilterLoop index.prefilterLiteralRules index.prefilterRuleIds.length (search rawUrl) []
  | none => []

end RuleIndex

/-! ### Snapshots -/

/-- An immutable snapshot: rules in group and line order, and the index built from them. -/
structure RuleSet where
  rules : List Rule
  index : RuleIndex
  built : RuleIndex.build rules = some index

namespace RuleSet

def bucket (buckets : SortedMap Str (List Nat)) (key : Str) : List Nat :=
  (buckets.get? key).getD []

/-- The rules that can match: those in the buckets of the host, the global ones, and those whose
literal is in the URL. All of them when the URL does not parse. -/
def candidateRuleIndices (rs : RuleSet) (url : Option UrlParts) (rawUrl : Str) : List Nat :=
  match url with
  | none => List.range rs.rules.length
  | some url =>
    let host := toAsciiLowercase (trimBrackets url.host)
    let indices := RuleIndex.extendUnique [] (bucket rs.index.domainExact host)
    let indices := (hostSuffixes host).foldl
      (fun indices suffix => RuleIndex.extendUnique indices (bucket rs.index.domainSuffix suffix))
      indices
    let indices := RuleIndex.extendUnique indices rs.index.global
    RuleIndex.extendUnique indices (rs.index.prefilterMatches rawUrl)

end RuleSet

end RsProxy.Rules
