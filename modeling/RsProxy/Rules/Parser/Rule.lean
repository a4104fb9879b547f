import RsProxy.Rules.Parser.Properties

/-!
# Parsing a rule line

A line is a matcher followed by actions, properties and conditions in any order. Errors carry the
part of the rule they are about and, where it is known, the byte range of the token.
-/

namespace RsProxy.Rules

open Text

variable [Crates]

/-! ### Hints for another proxy's notation -/

def looksLikeHostPort (input : Str) : Bool :=
  match rsplitOnce ':' input with
  | none => false
  | some (host, port) =>
    !host.isEmpty && port.all Char.isDigit && !port.isEmpty &&
      host.all fun c => c.isAlphanum || c == '.' || c == '-' || c == '_'

/-- The message for a raw operator token of the notation rules are often migrated from. -/
def whistleSyntaxHint (input : Str) : Option String :=
  let text := str input
  let socks := (stripPrefix "socks://".toList input).orElse fun _ =>
    stripPrefix "socks5://".toList input
  let proxy := (stripPrefix "proxy://".toList input).orElse fun _ =>
    stripPrefix "http-proxy://".toList input
  if input = "$0".toList then
    some ("`$0` is Whistle syntax for \"leave this request alone\"; " ++
      "use `direct skip()` in rsproxy")
  else
    match socks, proxy with
    | some rest, _ =>
      some s!"`{text}` looks like a Whistle proxy target; use `upstream(socks5://{str rest})`"
    | none, some rest =>
      some s!"`{text}` looks like a Whistle proxy target; use `upstream(proxy://{str rest})`"
    | none, none =>
      if ("https-proxy://".toList).isPrefixOf input then
        some s!"`{text}` looks like a Whistle proxy target; use `upstream({text})`"
      else if ("http://".toList).isPrefixOf input || ("https://".toList).isPrefixOf input then
        some (s!"`{text}` looks like a Whistle map target; use `map.remote({text})` for a " ++
          s!"transparent URL-preserving forward or `redirect({text})` for a client-visible 30x")
      else if !input.contains '(' && looksLikeHostPort input then
        some (s!"`{text}` looks like a Whistle host mapping; use `host({text})` to keep the " ++
          s!"original Host header or `map.remote(http://{text})` for a transparent forward")
      else none

/-! ### Actions -/

def unknownAction (profile : SyntaxProfile) (name : Str) : RuleModelError :=
  match profile, canonicalActionName .compatible name with
  | .canonicalV3, some canonical =>
    let replacement := str canonical.canonical
    .unsupported "action"
      s!"v3 accepts canonical action names only; replace `{str name}` with `{replacement}`"
  | _, _ => .unsupported "action" s!"unknown action `{str name}`"

/-- An action with one value as its argument. -/
def parseSingle (make : Value → Action) (action : String) (args : List Str) :
    Except RuleModelError Action :=
  (requireOne args action).bind fun arg => (parseValue arg).map make

def parseUpstream (args : List Str) : Except RuleModelError Action :=
  match args with
  | [] => .error (.missing "upstream action" "upstream requires at least one argument")
  | [arg] => (parseValue arg).map .upstream
  | args => .ok (.upstream (.inline (", ".toList.intercalate args)))

/-- A final status as the only argument. -/
def parseFinalStatus (make : Nat → Action) (action context message : String) (args : List Str) :
    Except RuleModelError Action := do
  let raw ← requireOne args action
  match parseU16 raw with
  | none => .error (.integer context message)
  | some code =>
    validateStatusRange code minFinalHttpStatus maxHttpStatus context "200..599"
    return make code

def parseRedirectCode (args : List Str) : Except RuleModelError Nat :=
  match args with
  | [] => .ok 302
  | arg :: _ =>
    match parseU16 arg with
    | some code => .ok code
    | none => .error (.integer "redirect code" "redirect code must be numeric")

def parseRedirect (args : List Str) : Except RuleModelError Action :=
  match args with
  | [] => .error (.missing "redirect action" "redirect requires URL")
  | arg :: rest => do
    let code ← parseRedirectCode rest
    if 1 < rest.length then
      .error (.constraint "redirect action" "redirect accepts URL and at most one status code")
    else if !redirectStatuses.contains code then
      .error (.constraint "redirect code"
        "redirect code must be one of 301, 302, 303, 307, or 308")
    else
      let url ← parseValue arg
      match url with
      | .inline location =>
        if location.contains '$' then return .redirect url code
        else
          validateRedirectLocation location
          return .redirect url code
      | _ => return .redirect url code

def parseAttachment (args : List Str) : Except RuleModelError Action :=
  match args with
  | [] => .ok (.attachment none)
  | [arg] =>
    if (trim arg).isEmpty then .ok (.attachment none)
    else (parseValue arg).map fun v => .attachment (some v)
  | _ => .error (.constraint "attachment action" "attachment accepts at most one filename")

def parsePhase (input : Str) (action : String) : Except RuleModelError Phase :=
  if trim input = "req" then .ok .req
  else if trim input = "res" then .ok .res
  else .error (.invalid s!"{action} phase" s!"{action} phase must be req or res")

/-- An action with a phase and an amount. -/
def parsePhased (make : Phase → Nat → Action) (parseAmount : Str → Except RuleModelError Nat)
    (action amount : String) (args : List Str) : Except RuleModelError Action :=
  match args with
  | [phase, value] => do
    let phase ← parsePhase phase action
    let n ← parseAmount (trim value)
    return make phase n
  | _ => .error (.missing s!"{action} action" s!"{action} requires phase and {amount}")

def normalizeSkipFamily (family : Str) : Str :=
  (toAsciiLowercase (trimMatches (fun c => c == '"' || c == '\'') (trim family))).map fun c =>
    if c = '_' ∨ c = '-' then '.' else c

def addSkipFamily (families : ActionFamilySet) (arg : Str) :
    Except RuleModelError ActionFamilySet :=
  let family := normalizeSkipFamily (unquote arg)
  match ActionFamilySet.fromPrefix family with
  | some selected => .ok (families.union selected)
  | none =>
    .error (.unsupported "skip action family" (s!"unknown skip family `{str family}`; " ++
      "use an action family, a parent such as `res.body`, `all`, or `*`"))

/-- An action by its name, before its templates are checked. -/
def parseNamedAction (input : Str) (name : ActionName) (args : List Str) :
    Except RuleModelError Action :=
  match name with
  | .host => do
    let addresses ← args.mapM parseValue
    (HostPool.new addresses).map .host
  | .upstream => parseUpstream args
  | .mock => parseMock args
  | .mapRemote => do
    let arg ← requireOne args "map.remote"
    let value ← parseValue arg
    validateMapRemoteTarget value
    return .mapRemote value
  | .mockRaw => parseSingle .mockRaw "mock.raw" args
  | .status =>
    parseFinalStatus .status "status" "status code" "status code must be numeric" args
  | .redirect => parseRedirect args
  | .reqHeader =>
    (requireCallBody input "req.header").bind fun body => (parseHeaderOp body).map .reqHeader
  | .resHeader =>
    (requireCallBody input "res.header").bind fun body => (parseHeaderOp body).map .resHeader
  | .resStatus =>
    parseFinalStatus .resStatus "res.status" "response status code"
      "res.status code must be numeric" args
  | .reqMethod => parseSingle .reqMethod "req.method" args
  | .reqCookie =>
    (requireOne args "req.cookie").bind fun arg => (parseCookieOp arg).map .reqCookie
  | .resCookie =>
    (requireOne args "res.cookie").bind fun arg => (parseCookieOp arg).map .resCookie
  | .reqUa => parseSingle .reqUa "req.ua" args
  | .reqReferer => parseSingle .reqReferer "req.referer" args
  | .reqAuth => parseSingle .reqAuth "req.auth" args
  | .reqForwarded => parseSingle .reqForwarded "req.forwarded" args
  | .reqType => parseSingle .reqType "req.type" args
  | .reqCharset => parseSingle .reqCharset "req.charset" args
  | .resCors => (parseCorsOp args).map .resCors
  | .resType => parseSingle .resType "res.type" args
  | .resCharset => parseSingle .resCharset "res.charset" args
  | .resMerge => parseSingle .resMerge "res.merge" args
  | .resTrailer => do
    let body ← requireCallBody input "res.trailer"
    let operation ← parseHeaderOp body
    validateTrailerOp operation
    return .resTrailer operation
  | .attachment => parseAttachment args
  | .cache => (parseCacheOp args).map .cache
  | .tls => (parseTlsOp args).map .tls
  | .urlRewrite =>
    match args with
    | [source, target] => do
      let source ← parseUrlRewritePattern source
      let target ← parseValue target
      return .urlRewrite source target
    | _ => .error (.missing "url.rewrite action" "url.rewrite requires from and to")
  | .urlQuery => (parseQueryOps args).map .urlQuery
  | .delete => (parseDeleteOps args).map .delete
  | .reqBodySet => parseSingle (fun v => .reqBody (.set v)) "req.body.set" args
  | .reqBodyPrepend => parseSingle (fun v => .reqBody (.prepend v)) "req.body.prepend" args
  | .reqBodyAppend => parseSingle (fun v => .reqBody (.append v)) "req.body.append" args
  | .reqBodyReplace => (parseBodyReplace args "req.body.replace").map .reqBody
  | .resBodySet => parseSingle (fun v => .resBody (.set v)) "res.body.set" args
  | .resBodyPrepend => parseSingle (fun v => .resBody (.prepend v)) "res.body.prepend" args
  | .resBodyAppend => parseSingle (fun v => .resBody (.append v)) "res.body.append" args
  | .resBodyReplace => (parseBodyReplace args "res.body.replace").map .resBody
  | .inject => (parseInjectOp args).map .inject
  | .delay => parsePhased .delay parseDurationMs "delay" "duration" args
  | .throttle => parsePhased .throttle parseSpeedBps "throttle" "speed" args
  | .tag => parseSingle .tag "tag" args
  | .skip => (args.foldlM addSkipFamily .empty).map .skip
  | .direct | .bypass | .hide =>
    .error (.unsupported "action" s!"unknown action `{str name.canonical}`")

/-- The actions that are written without parentheses. -/
def bareAction (profile : SyntaxProfile) (input : Str) : Option Action :=
  match canonicalActionName profile input with
  | some .direct => some .direct
  | some .bypass => some .bypass
  | some .hide => some .hide
  | _ => none

def parseAction (profile : SyntaxProfile) (input : Str) : Except RuleModelError Action :=
  match bareAction profile input with
  | some a => .ok a
  | none =>
    match whistleSyntaxHint input with
    | some hint => .error (.unsupported "action" hint)
    | none => do
      let (inputName, args) ← parseCall input
      match canonicalActionName profile inputName with
      | none => .error (unknownAction profile inputName)
      | some name =>
        let action ← parseNamedAction input name args
        action.validateTemplates
        return action

/-! ### Rules -/

structure ParseRuleError where
  code : RuleErrorCode
  source : RuleModelError
  span : Option RuleSourceSpan
  deriving DecidableEq, Repr

def parseError (code : RuleErrorCode) (source : RuleModelError) : ParseRuleError :=
  ⟨code, source, none⟩

def ParseRuleError.atToken (e : ParseRuleError) (token : RuleToken) : ParseRuleError :=
  { e with span := some ⟨token.start, token.stop⟩ }

/-- What the tokens behind the matcher have added so far. -/
structure RuleParts where
  actions : List Action
  conditions : List Condition
  conditionNodes : Nat
  important : Bool
  disabled : Bool
  tags : List Str
  properties : Nat

def RuleParts.initial : RuleParts := ⟨[], [], 0, false, false, [], 0⟩

namespace RuleParts

def addCondition (parts : RuleParts) (profile : SyntaxProfile) (token : RuleToken) :
    Except ParseRuleError RuleParts :=
  match parseCondition profile token.text with
  | .error source => .error ((parseError .condition source).atToken token)
  | .ok condition =>
    let nodes := saturatingAdd parts.conditionNodes (conditionNodeCount condition)
    if maxRuleConditionNodesPerRule < nodes then
      .error (parseError .condition (.limit "condition count"
        s!"rule exceeds the {maxRuleConditionNodesPerRule}-condition-node limit"))
    else
      .ok { parts with conditions := parts.conditions ++ [condition], conditionNodes := nodes }

def addProperty (parts : RuleParts) (token : RuleToken) : Except ParseRuleError RuleParts :=
  let parts := { parts with properties := parts.properties + 1 }
  if maxRulePropertiesPerRule < parts.properties then
    .error (parseError .property (.limit "property count"
      s!"rule exceeds the {maxRulePropertiesPerRule}-property limit"))
  else
    match canonicalProperty token.text with
    | some (.important, _) => .ok { parts with important := true }
    | some (.disabled, _) => .ok { parts with disabled := true }
    | some (.tag, []) =>
      .error (parseError .property (.missing "rule tag" "@tag: requires a non-empty name"))
    | some (.tag, name) => .ok { parts with tags := parts.tags ++ [name] }
    | none =>
      .error (parseError .property
        (.unsupported "rule property" s!"unknown property {str token.text}"))

def addAction (parts : RuleParts) (profile : SyntaxProfile) (token : RuleToken) :
    Except ParseRuleError RuleParts :=
  if parts.actions.length = maxRuleActionsPerRule then
    .error (parseError .action
      (.limit "action count" s!"rule exceeds the {maxRuleActionsPerRule}-action limit"))
  else
    match parseAction profile token.text with
    | .error source => .error ((parseError .action source).atToken token)
    | .ok action => .ok { parts with actions := parts.actions ++ [action] }

def read (profile : SyntaxProfile) : RuleParts → List RuleToken → Except ParseRuleError RuleParts
  | parts, [] => .ok parts
  | parts, token :: tokens =>
    if token.text = "when" then
      match tokens with
      | [] =>
        .error (parseError .condition
          (.missing "when property" "`when` must be followed by a condition"))
      | condition :: tokens =>
        (parts.addCondition profile condition).bind fun parts => read profile parts tokens
    else if token.text.head? = some '@' then
      (parts.addProperty token).bind fun parts => read profile parts tokens
    else (parts.addAction profile token).bind fun parts => read profile parts tokens

end RuleParts

def parseRule (group : Str) (line : Nat) (input : Str) (profile : SyntaxProfile) :
    Except ParseRuleError Rule :=
  match tokenize input with
  | .error source => .error { parseError .badSyntax source with span := some ⟨0, utf8Len input⟩ }
  | .ok [] => .error (parseError .badSyntax (.empty "rule" "empty rule"))
  | .ok (first :: tokens) =>
    match parseMatcher first.text with
    | .error source => .error ((parseError .matcher source).atToken first)
    | .ok matcher =>
      (RuleParts.initial.read profile tokens).bind fun parts =>
        if parts.actions.isEmpty then
          .error (parseError .action
            (.missing "rule action" "rule must include at least one action"))
        else
          .ok {
            group, line, raw := input, matcher
            actions := parts.actions
            conditions := parts.conditions
            important := parts.important
            disabled := parts.disabled
            tags := parts.tags }

end RsProxy.Rules
