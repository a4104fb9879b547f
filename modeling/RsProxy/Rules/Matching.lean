import RsProxy.Regex.Glob
import RsProxy.Rules.Crates
import RsProxy.Rules.Language
import RsProxy.Rules.Model
import RsProxy.Rules.Url

/-!
# Glob programs and component matching

Globs are translated to anchored regular expressions when a snapshot is built, each pattern once,
and are referred to by number afterwards. `CompiledGlobSet` holds the programs and the numbers;
the remaining definitions match hosts, addresses, paths and exact URLs.

Compiling a glob that does not compile is a panic in the code; here the builder returns `none`.
-/

namespace RsProxy.Rules

open Text Data Regex

variable [Crates]

def maxGlobPatternBytes : Nat := maxRuleSourceLineBytes

def globRegexSizeLimit : Nat := 4 * 1024 * 1024

/-! ### Translation -/

def pushLiteral (source : Str) (c : Char) : Str :=
  if isMeta c then source ++ ['\\', c] else source ++ [c]

/-- The group of one wildcard, appended to the source. -/
def pushWildcard (sep : Char) (captures : Nat) (double : Bool) (source : Str) : Str :=
  let source := source ++ if captures < maxRuleGlobCaptures then "(".toList else "(?:".toList
  let source :=
    if double then source ++ ".*?".toList
    else pushLiteral (source ++ "[^".toList) sep ++ "]*?".toList
  source ++ ")".toList

def countCapture (captures : Nat) : Nat :=
  if captures < maxRuleGlobCaptures then captures + 1 else captures

/-- The loop over the pattern's characters; `none` for an escape with nothing behind it. -/
def globSourceLoop (sep : Char) : Str → Nat → Str → Option Str
  | [], _, source => some (source ++ "\\z")
  | c :: cs, captures, source =>
    if c = '\\' then
      match cs with
      | [] => none
      | d :: ds => globSourceLoop sep ds captures (pushLiteral source d)
    else if c = '*' then
      match cs with
      | [] => globSourceLoop sep [] (countCapture captures) (pushWildcard sep captures false source)
      | d :: ds =>
        if d = '*' then
          globSourceLoop sep ds (countCapture captures) (pushWildcard sep captures true source)
        else
          globSourceLoop sep (d :: ds) (countCapture captures)
            (pushWildcard sep captures false source)
    else globSourceLoop sep cs captures (pushLiteral source c)

def compileGlobRegex (pattern : Str) (sep : Char) : Option LinearRegex :=
  (globSourceLoop sep pattern 0 "(?s)\\A").bind fun source =>
    (Crates.linearRegex source false (some globRegexSizeLimit)).toOption

def validateGlobPattern (pattern : Str) (separator : Char) (context : String) :
    Except RuleModelError Unit :=
  if maxGlobPatternBytes < utf8Len pattern then
    .error (.limit context s!"glob pattern exceeds {maxGlobPatternBytes} bytes")
  else
    match compileGlobRegex pattern separator with
    | some _ => .ok ()
    | none => .error (.invalid context "invalid or incomplete glob pattern")

/-! ### Syntactic tests -/

/-- A wildcard or an escape: the pattern is more than the text it spells. -/
def globSyntaxIsActive (pattern : Str) : Bool := pattern.any fun c => c == '*' || c == '\\'

def hostPatternUsesRegex (pattern : Str) : Bool :=
  let pattern := trimBrackets pattern
  globSyntaxIsActive pattern && pattern != "*".toList && pattern != "**".toList &&
    !("*.".toList).isPrefixOf pattern && !("**.".toList).isPrefixOf pattern

/-! ### Normalising and comparing components -/

/-- The labels in front of `.base`. -/
def dottedSuffixPrefix (host base : Str) : Option Str :=
  (stripSuffix base host).bind (stripSuffix ['.'])

/-- The IP of a socket address, and any other value without its brackets. -/
def normalizeIpValue (value : Str) : Str :=
  match parseSocketAddrIp value with
  | some ip => ip.display
  | none => trimBrackets (trim value)

def exactUrlMatches (expected : Str) (url : UrlParts) : Bool :=
  match UrlParts.parse expected with
  | .error _ => false
  | .ok expected =>
    expected.scheme == url.scheme && expected.host == url.host &&
      expected.effectivePort == url.effectivePort && expected.path == url.path &&
      (expected.query.isNone || expected.query == url.query)

omit [Crates] in
theorem exactUrlMatches_iff {expected url} :
    exactUrlMatches expected url ↔ ∃ parts, UrlParts.parse expected = .ok parts ∧
      parts.scheme = url.scheme ∧ parts.host = url.host ∧
      parts.effectivePort = url.effectivePort ∧ parts.path = url.path ∧
      (parts.query = none ∨ parts.query = url.query) := by
  unfold exactUrlMatches
  cases UrlParts.parse expected with
  | error e => simp
  | ok parts => simp [and_assoc]

def pathPrefixMatches (pattern path : Str) : Bool :=
  if pattern = ['/'] then true
  else
    path == pattern ||
      (match stripPrefix pattern path with
        | some rest => pattern.getLast? == some '/' || rest.head? == some '/'
        | none => false)

/-- The first field with the name. -/
def header (headers : List (Str × Str)) (name : Str) : Option Str :=
  (headers.find? fun h => eqIgnoreAsciiCase h.1 name).map Prod.snd

/-- The sampling decision of a request at a rule line. -/
def chance (req : RequestMeta) (line permille : Nat) : Bool :=
  if 1000 ≤ permille then true
  else if permille = 0 then false
  else
    let hash := (utf8 req.url ++ utf8 req.method).foldl
      (fun hash byte => (hash ^^^ byte.toUInt64) * 1099511628211) 1469598103934665603
    let hash := hash ^^^ UInt64.ofNat line
    hash.toNat % 1000 < permille

def windows {α : Type} (n : Nat) (l : List α) : List (List α) :=
  (l.tails.filter fun t => n ≤ t.length).map (·.take n)

def containsAsciiCaseInsensitive (haystack needle : Str) : Bool :=
  if needle.isEmpty then true
  else
    (windows (utf8 needle).length (utf8 haystack)).any fun w =>
      lowerBytes w == lowerBytes (utf8 needle)

/-! ### The compiled set -/

structure CompiledGlobSet where
  ids : SortedMap Char (SortedMap Str Nat)
  programs : List LinearRegex

namespace CompiledGlobSet

def empty : CompiledGlobSet := ⟨.empty, []⟩

def id (globs : CompiledGlobSet) (pattern : Str) (separator : Char) : Option Nat :=
  (globs.ids.get? separator).bind (·.get? pattern)

/-- Compile the pattern unless it is known. -/
def register (globs : CompiledGlobSet) (pattern : Str) (separator : Char) :
    Option CompiledGlobSet :=
  match globs.id pattern separator with
  | some _ => some globs
  | none =>
    (compileGlobRegex pattern separator).map fun regex =>
      let id := globs.programs.length
      { ids := globs.ids.upsert separator fun patterns =>
          (patterns.getD .empty).upsert pattern fun _ => id
        programs := globs.programs ++ [regex] }

def registerIf (globs : CompiledGlobSet) (wanted : Bool) (pattern : Str) (separator : Char) :
    Option CompiledGlobSet :=
  if wanted then globs.register pattern separator else some globs

def registerMatcher (globs : CompiledGlobSet) : Matcher → Option CompiledGlobSet
  | .glob glob => do
    let globs ← globs.registerIf (hostPatternUsesRegex glob.host) glob.host '.'
    let globs ← match glob.port with
      | some port => globs.register port '.'
      | none => some globs
    let globs ← match glob.path with
      | some path => globs.registerIf (globSyntaxIsActive path) path '/'
      | none => some globs
    match glob.query with
    | some query => globs.register query '&'
    | none => some globs
  | .not inner => globs.registerMatcher inner
  | .exactUrl _ | .port _ | .regex _ => some globs

def isIpGlob (pattern : Str) : Bool :=
  globSyntaxIsActive pattern && pattern != "*" && pattern != "**"

section

variable (globs : CompiledGlobSet)

def registerIps (patterns : List Str) : Option CompiledGlobSet :=
  (patterns.filter isIpGlob).foldlM
    (fun globs pattern => globs.register (normalizeIpValue pattern) '\x00') globs

/-- What one node of a condition tree registers. -/
def registerNode : Condition → Option CompiledGlobSet
  | .host pattern =>
    globs.registerIf (hostPatternUsesRegex pattern) (toAsciiLowercase pattern) '.'
  | .url (.glob pattern) => globs.registerIf (globSyntaxIsActive pattern) pattern '\x00'
  | .clientIp patterns | .serverIp patterns => globs.registerIps patterns
  | _ => some globs

def registerCondition (condition : Condition) :
    Option CompiledGlobSet :=
  condition.nodes.foldlM registerNode globs

def registerRule (rule : Rule) : Option CompiledGlobSet := do
  let globs ← globs.registerMatcher rule.matcher
  rule.conditions.foldlM registerCondition globs

end

def build (rules : List Rule) : Option CompiledGlobSet := rules.foldlM registerRule empty

/-! ### Matching by number -/

def globMatchId (globs : CompiledGlobSet) (id : Nat) (text : Str) : Bool :=
  match globs.programs[id]? with
  | some regex => (regex text).isSome
  | none => false

/-- Append the groups of a match, as far as there is room for nine. -/
def appendGlobCaptures (m : Match) (captures : Captures) : Captures :=
  let remaining := maxRuleGlobCaptures - captures.indexed.length
  ((m.groups.drop 1).take remaining).foldl (fun c group => c.insertIndex (group.getD [])) captures

section

variable (globs : CompiledGlobSet)

def globMatchWithCapturesId (id : Nat) (text : Str) (captures : Captures) : Option Captures :=
  (globs.programs[id]?.bind fun regex => regex text).map (appendGlobCaptures · captures)

def hostMatchesId (pattern host : Str) (id : Option Nat) : Bool :=
  let pattern := toAsciiLowercase (trimBrackets pattern)
  let host := toAsciiLowercase (trimBrackets host)
  if pattern = "**" ∨ pattern = "*" then true
  else
    match stripPrefix "**." pattern with
    | some base => host == base || (dottedSuffixPrefix host base).isSome
    | none =>
      match stripPrefix "*." pattern with
      | some base =>
        match dottedSuffixPrefix host base with
        | some labels => !labels.isEmpty && !labels.contains '.'
        | none => false
      | none =>
        if globSyntaxIsActive pattern then
          match id with
          | some id => globs.globMatchId id host
          | none => false
        else pattern == host

def hostMatches (pattern host : Str) : Bool :=
  globs.hostMatchesId pattern host (globs.id (toAsciiLowercase (trimBrackets pattern)) '.')

def ipMatchesId (pattern actual : Str) (id : Option Nat) : Bool :=
  let pattern := normalizeIpValue pattern
  if pattern = "*" ∨ pattern = "**" then true
  else if globSyntaxIsActive pattern then
    match id with
    | some id => globs.globMatchId id actual
    | none => false
  else eqIgnoreAsciiCase pattern actual

end

end CompiledGlobSet

end RsProxy.Rules
