import RsProxy.Text.Lemmas

/-!
# The surface of the rule language

Limits, and the names of actions and conditions: each has a canonical spelling, and some have
older spellings that are still accepted outside a version 3 source.
-/

namespace RsProxy.Rules

open Text

/-! ### Limits -/

/-- The directive of a version 3 source. -/
def ruleLanguageHeader : Str := "@language 3"

def maxRuleSourceLineBytes : Nat := 64 * 1024

def maxRuleSnapshotSourceBytes : Nat := 16 * 1024 * 1024

def maxRuleGroupNameBytes : Nat := 128

def maxRuleGroupsPerSnapshot : Nat := 1024

def maxRulesPerSnapshot : Nat := 10000

def maxRuleDiagnostics : Nat := 256

def maxRuleActionsPerRule : Nat := 256

def maxRuleActionsPerSnapshot : Nat := 100000

def maxRuleConditionNodesPerRule : Nat := 256

def maxRuleConditionNodesPerSnapshot : Nat := 100000

def maxRuleBodyConditionsPerSnapshot : Nat := 256

def maxRulePropertiesPerRule : Nat := 64

def maxRuleCallArguments : Nat := 256

def maxRuleLintComparisons : Nat := 1000000

def maxRuleLintComparisonBytes : Nat := 256 * 1024 * 1024

def maxRuleLintFindings : Nat := 10000

def maxRuleLintReportBytes : Nat := 4 * 1024 * 1024

def maxRuleParseNesting : Nat := 32

def maxRuleGlobCaptures : Nat := 9

def usizeMax : Nat := 2 ^ 64 - 1

/-- Addition that stops at the greatest machine word. -/
def saturatingAdd (a b : Nat) : Nat := min (a + b) usizeMax

/-- Addition that fails when the result is no machine word. -/
def checkedAdd (a b : Nat) : Option Nat := if a + b ≤ usizeMax then some (a + b) else none

/-- Characters of an HTTP token. -/
def isHttpTokenChar (c : Char) : Bool :=
  c.isAlphanum || "!#$%&'*+-.^_`|~".toList.contains c

def minHttpStatus : Nat := 100

def maxHttpStatus : Nat := 599

def minFinalHttpStatus : Nat := 200

def redirectStatuses : List Nat := [301, 302, 303, 307, 308]

/-- Informational, no-content, reset-content and not-modified responses carry no content. -/
def statusForbidsBody (status : Nat) : Bool :=
  (100 ≤ status && status < 200) || status == 204 || status == 205 || status == 304

/-! ### Names -/

inductive ActionName where
  | host | upstream | direct | mock | mockRaw | mapRemote | status | redirect | reqHeader
  | resHeader | resStatus | reqMethod | reqCookie | resCookie | reqUa | reqReferer | reqAuth
  | reqForwarded | reqType | reqCharset | resCors | resType | resCharset | resMerge | resTrailer
  | attachment | cache | tls | urlRewrite | urlQuery | delete | reqBodySet | reqBodyPrepend
  | reqBodyAppend | reqBodyReplace | resBodySet | resBodyPrepend | resBodyAppend | resBodyReplace
  | inject | delay | throttle | bypass | hide | tag | skip
  deriving DecidableEq, Repr

/-- All action names in the order of the language reference. -/
def actionNames : List ActionName :=
  [.host, .upstream, .direct, .mock, .mockRaw, .mapRemote, .status, .redirect, .reqHeader,
   .resHeader, .resStatus, .reqMethod, .reqCookie, .resCookie, .reqUa, .reqReferer, .reqAuth,
   .reqForwarded, .reqType, .reqCharset, .resCors, .resType, .resCharset, .resMerge, .resTrailer,
   .attachment, .cache, .tls, .urlRewrite, .urlQuery, .delete, .reqBodySet, .reqBodyPrepend,
   .reqBodyAppend, .reqBodyReplace, .resBodySet, .resBodyPrepend, .resBodyAppend,
   .resBodyReplace, .inject, .delay, .throttle, .bypass, .hide, .tag, .skip]

namespace ActionName

def canonical : ActionName → Str
  | .host => "host"
  | .upstream => "upstream"
  | .direct => "direct"
  | .mock => "mock"
  | .mockRaw => "mock.raw"
  | .mapRemote => "map.remote"
  | .status => "status"
  | .redirect => "redirect"
  | .reqHeader => "req.header"
  | .resHeader => "res.header"
  | .resStatus => "res.status"
  | .reqMethod => "req.method"
  | .reqCookie => "req.cookie"
  | .resCookie => "res.cookie"
  | .reqUa => "req.ua"
  | .reqReferer => "req.referer"
  | .reqAuth => "req.auth"
  | .reqForwarded => "req.forwarded"
  | .reqType => "req.type"
  | .reqCharset => "req.charset"
  | .resCors => "res.cors"
  | .resType => "res.type"
  | .resCharset => "res.charset"
  | .resMerge => "res.merge"
  | .resTrailer => "res.trailer"
  | .attachment => "attachment"
  | .cache => "cache"
  | .tls => "tls"
  | .urlRewrite => "url.rewrite"
  | .urlQuery => "url.query"
  | .delete => "delete"
  | .reqBodySet => "req.body.set"
  | .reqBodyPrepend => "req.body.prepend"
  | .reqBodyAppend => "req.body.append"
  | .reqBodyReplace => "req.body.replace"
  | .resBodySet => "res.body.set"
  | .resBodyPrepend => "res.body.prepend"
  | .resBodyAppend => "res.body.append"
  | .resBodyReplace => "res.body.replace"
  | .inject => "inject"
  | .delay => "delay"
  | .throttle => "throttle"
  | .bypass => "bypass"
  | .hide => "hide"
  | .tag => "tag"
  | .skip => "skip"

def aliases : ActionName → List Str
  | .mockRaw => ["mockRaw", "mock_raw", "mock-raw"]
  | .mapRemote => ["mapRemote", "map_remote", "map-remote"]
  | _ => []

def accepts (name : ActionName) (input : Str) : Bool :=
  name.canonical == input || name.aliases.contains input

end ActionName

inductive ConditionName where
  | method | host | url | clientIp | serverIp | header | resHeader | body | status | chance | env
  | any | all | not
  deriving DecidableEq, Repr

def conditionNames : List ConditionName :=
  [.method, .host, .url, .clientIp, .serverIp, .header, .resHeader, .body, .status, .chance,
   .env, .any, .all, .not]

namespace ConditionName

def canonical : ConditionName → Str
  | .method => "method"
  | .host => "host"
  | .url => "url"
  | .clientIp => "client.ip"
  | .serverIp => "server.ip"
  | .header => "header"
  | .resHeader => "res.header"
  | .body => "body"
  | .status => "status"
  | .chance => "chance"
  | .env => "env"
  | .any => "any"
  | .all => "all"
  | .not => "not"

def aliases : ConditionName → List Str
  | .clientIp => ["clientIp", "ip", "client_ip", "client-ip"]
  | .serverIp => ["serverIp", "server_ip", "server-ip"]
  | .resHeader => ["resHeader", "res_header", "res-header"]
  | _ => []

def accepts (name : ConditionName) (input : Str) : Bool :=
  name.canonical == input || name.aliases.contains input

end ConditionName

/-- Which spellings a source may use: all of them, or the canonical ones of version 3. -/
inductive SyntaxProfile where
  | compatible
  | canonicalV3
  deriving DecidableEq, Repr

def canonicalActionName (profile : SyntaxProfile) (input : Str) : Option ActionName :=
  match profile with
  | .compatible => actionNames.find? (·.accepts input)
  | .canonicalV3 => actionNames.find? (·.canonical == input)

def canonicalConditionName (profile : SyntaxProfile) (input : Str) : Option ConditionName :=
  match profile with
  | .compatible => conditionNames.find? (·.accepts input)
  | .canonicalV3 => conditionNames.find? (·.canonical == input)

inductive PropertyName where
  | important
  | disabled
  | tag
  deriving DecidableEq, Repr

/-- The property a token names, and what follows `@tag:`. -/
def canonicalProperty (input : Str) : Option (PropertyName × Str) :=
  if input = "@important" then some (.important, [])
  else if input = "@disabled" then some (.disabled, [])
  else (stripPrefix "@tag:" input).map fun suffix => (.tag, suffix)

end RsProxy.Rules
