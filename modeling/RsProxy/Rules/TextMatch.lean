import RsProxy.Rules.GlobPrograms
import RsProxy.Rules.HostPattern

/-!
# Matching by the text of a pattern

What matchers and conditions mean according to the rule language, read off the text of their
patterns: a host pattern is a glob over labels, `**.base` includes the base itself and `*.base` asks
for one label, ports, paths, queries, addresses and URLs are globs with their own separators, and
the pieces that the wildcards of path and query stand for are the captures, nine of them at most.

There are no programs and no numbers here.
-/

namespace RsProxy.Rules

open Text Data Regex

/-! ### Components -/

def HostShape.admitsText (host : Str) : HostShape → Bool
  | .anything => true
  | .subtree base =>
    (globMatch base '.' host).isSome ||
      host.tails.any fun t => t.head? == some '.' && (globMatch base '.' t.tail).isSome
  | .child base =>
    match splitOnce ['.'] host with
    | some (label, rest) => !label.isEmpty && (globMatch base '.' rest).isSome
    | none => false
  | .text pattern => (globMatch pattern '.' host).isSome

def hostMatchesText (pattern host : Str) : Bool :=
  (hostShape (normalizeHost pattern)).admitsText (normalizeHost host)

def ipMatchesText (pattern actual : Str) : Bool :=
  let pattern := normalizeIpValue pattern
  if pattern = "*" ∨ pattern = "**" then true
  else if globSyntaxIsActive pattern then (globMatch pattern '\x00' actual).isSome
  else eqIgnoreAsciiCase pattern actual

namespace GlobMatcher

section

variable (glob : GlobMatcher) (url : UrlParts)

def portMatchesText : Bool :=
  match glob.port with
  | some pattern => url.effectivePort.any fun port => (globMatch pattern '.' (decimal port)).isSome
  | none => true

/-- The pieces of a path glob. A path without wildcards is a prefix and has none. -/
def pathPieces : Option (List Str) :=
  match glob.path with
  | some pattern =>
    if globSyntaxIsActive pattern then globMatch pattern '/' url.path
    else if pathPrefixMatches pattern url.path then some []
    else none
  | none => some []

def queryPieces : Option (List Str) :=
  match glob.query with
  | some pattern => globMatch pattern '&' (url.query.getD [])
  | none => some []

def matchesText : Option Captures :=
  if glob.schemeMatches url && hostMatchesText glob.host url.host &&
      glob.portMatchesText url then do
    let path ← glob.pathPieces url
    let query ← glob.queryPieces url
    return Captures.default.append (path ++ query)
  else none

end

end GlobMatcher

/-! ### Matchers and conditions -/

variable [Crates] (context : ConditionMatchContext)

def Matcher.matchesText (url : UrlParts) (rawUrl : Str) : Matcher → Option Captures
  | .exactUrl expected => if exactUrlMatches expected url then some Captures.default else none
  | .glob g => g.matchesText url
  | .port p => if url.effectivePort = some p then some Captures.default else none
  | .regex r => r.matches rawUrl
  | .not inner =>
    if (inner.matchesText url rawUrl).isNone then some Captures.default else none

def UrlCondition.matchesText (rawUrl : Str) : UrlCondition → Bool
  | .glob pattern => (globMatch pattern '\x00' rawUrl).isSome
  | .regex r => (r.matches rawUrl).isSome

namespace Condition

mutual

def matchesText (context : ConditionMatchContext) : Condition → Bool
  | .method methods => methods.any fun m => eqIgnoreAsciiCase m context.req.method
  | .host pattern => context.url.any fun parts => hostMatchesText pattern parts.host
  | .url condition => condition.matchesText context.req.url
  | .clientIp patterns => context.clientIp.any fun actual => patterns.any (ipMatchesText · actual)
  | .serverIp patterns => context.serverIp.any fun actual => patterns.any (ipMatchesText · actual)
  | .headerPresent name => (header context.req.headers name).isSome
  | .headerContains name value =>
    (header context.req.headers name).any (containsAsciiCaseInsensitive · value)
  | .resHeaderPresent name => context.res.any fun res => (header res.headers name).isSome
  | .resHeaderContains name value =>
    context.res.any fun res => (header res.headers name).any (containsAsciiCaseInsensitive · value)
  | .bodyContains literal => containsAsciiCaseInsensitive context.bodyText literal
  | .bodyRegex r => (r.matches context.bodyText).isSome
  | .status statuses => context.res.any fun res => statuses.contains res.status
  | .chancePermille permille => chance context.req context.line permille
  | .envPresent name => (context.env name).isSome
  | .envEquals name value => context.env name == some value
  | .any cs => anyMatchesText context cs
  | .all cs => allMatchText context cs
  -- A negated condition on the response waits for the response.
  | .not c => !(context.res.isNone && c.dependsOnResponse) && !matchesText context c

def anyMatchesText (context : ConditionMatchContext) : List Condition → Bool
  | [] => false
  | c :: cs => matchesText context c || anyMatchesText context cs

def allMatchText (context : ConditionMatchContext) : List Condition → Bool
  | [] => true
  | c :: cs => matchesText context c && allMatchText context cs

end

theorem anyMatchesText_eq {cs} : anyMatchesText context cs = cs.any (matchesText context) := by
  induction cs with
  | nil => rfl
  | cons c cs ih => rw [anyMatchesText, List.any_cons, ih]

theorem allMatchText_eq {cs} : allMatchText context cs = cs.all (matchesText context) := by
  induction cs with
  | nil => rfl
  | cons c cs ih => rw [allMatchText, List.all_cons, ih]

end Condition

/-! ### Where the compiled form differs -/

/-- A wildcard or an escape below `**.` or `*.`. -/
def HostShape.hasGlobBase : HostShape → Bool
  | .subtree base | .child base => globSyntaxIsActive base
  | .anything | .text _ => false

def hostBaseGap (pattern : Str) : Bool := (hostShape (normalizeHost pattern)).hasGlobBase

def startsWithEscapedBracket : Str → Bool
  | '\\' :: c :: _ => isBracket c
  | _ => false

/-- A glob in brackets, unless it matches no host anyway: what is left without the brackets must be
a glob, and it must not begin with an escaped bracket. -/
def hostBracketGap (pattern : Str) : Bool :=
  hostPatternUsesRegex pattern && trimBrackets pattern != pattern &&
    (Glob.tokens (normalizeHost pattern)).isSome &&
    !startsWithEscapedBracket (normalizeHost pattern)

/-- The glob of a matcher, inside its negations. -/
def Matcher.glob? : Matcher → Option GlobMatcher
  | .glob g => some g
  | .not inner => inner.glob?
  | .exactUrl _ | .port _ | .regex _ => none

def Matcher.hostGap (matcher : Matcher) : Bool := matcher.glob?.any fun g => hostBaseGap g.host

def Condition.hostGap : Condition → Bool
  | .host pattern => hostBaseGap pattern || hostBracketGap pattern
  | _ => false

def Rule.hostGap (rule : Rule) : Bool :=
  rule.matcher.hostGap || (rule.conditions.flatMap Condition.nodes).any Condition.hostGap

end RsProxy.Rules
