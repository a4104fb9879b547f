import RsProxy.Rules.Parser.Condition
import RsProxy.Rules.Parser.Template

/-!
# Parsing the arguments of actions

Header, cookie, query, body and TLS operations, deletions, mocks, durations and speeds. Each parser
takes the arguments of one call and returns the operation or the reason it is rejected.
-/

namespace RsProxy.Rules

open Text

variable [Crates]

/-! ### Headers -/

def normalizeHeaderName (input : Str) : Except RuleModelError Str :=
  let name := trim input
  if name.isEmpty || !name.all isHttpTokenChar then
    .error (.invalid "header name"
      s!"invalid header name `{str name}`; use an unquoted HTTP header name such as `x-debug`")
  else .ok (toAsciiLowercase name)

/-- Name and expression around a `~` with no `:` in front of it. -/
def headerReplaceParts (input : Str) : Option (Str × Str) :=
  match splitOnce ['~'] input with
  | some (name, expression) => if name.contains ':' then none else some (name, expression)
  | none => none

/-- Cut around the first `/` that is not escaped. -/
def splitFirstSlash : (escaped : Bool) → Str → Option (Str × Str)
  | _, [] => none
  | true, c :: cs => (splitFirstSlash false cs).map fun r => (c :: r.1, r.2)
  | false, c :: cs =>
    if c = '\\' then (splitFirstSlash true cs).map fun r => (c :: r.1, r.2)
    else if c = '/' then some ([], cs)
    else (splitFirstSlash false cs).map fun r => (c :: r.1, r.2)

def RegexReplacePattern.new (pattern : Str) (caseInsensitive : Bool) (context : String) :
    Except RuleModelError RegexReplacePattern :=
  match Crates.linearRegex pattern caseInsensitive none with
  | .ok _ => .ok ⟨pattern, caseInsensitive⟩
  | .error source => .error (.regex context source)

def parseHeaderReplacement (expression : Str) :
    Except RuleModelError (RegexReplacePattern × Str) :=
  let malformed : RuleModelError :=
    .badSyntax "header replacement" "header replacement must use `/regex/replacement`"
  match stripPrefix ['/'] (trim expression) with
  | none => .error malformed
  | some body =>
    match splitFirstSlash false body with
    | none => .error malformed
    | some (pattern, replacement) =>
      (RegexReplacePattern.new (unescapeSlashes pattern) false
        "invalid header replacement regex").map fun pattern =>
          (pattern, unescapeSlashes replacement)

def parseHeaderOp (input : Str) : Except RuleModelError HeaderOp :=
  let input := trim input
  match stripPrefix ['-'] input with
  | some name => (normalizeHeaderName name).map .remove
  | none =>
    match headerReplaceParts input with
    | some (name, expression) => do
      let name ← normalizeHeaderName name
      let (pattern, replacement) ← parseHeaderReplacement expression
      return .replace name pattern replacement
    | none =>
      match splitOnce [':'] input with
      | none => .error (.badSyntax "header operation"
          "header op must be `name: value`, `-name`, or `name ~ /regex/replacement`")
      | some (name, value) => do
        let name ← normalizeHeaderName name
        let value ← parseValue (trim value)
        return .set name value

def forbiddenTrailerNames : List Str :=
  ["age", "authorization", "cache-control", "connection", "content-encoding", "content-length",
    "content-range", "content-type", "date", "expect", "expires", "host", "keep-alive",
    "location", "max-forwards", "pragma", "proxy-authenticate", "proxy-authorization",
    "proxy-connection", "range", "retry-after", "te", "trailer", "transfer-encoding", "upgrade",
    "vary", "warning", "www-authenticate"].map String.toList

def isForbiddenTrailerName (name : Str) : Bool :=
  forbiddenTrailerNames.any (eqIgnoreAsciiCase name)

def validateTrailerName (name : Str) : Except RuleModelError Unit :=
  if isForbiddenTrailerName name then
    .error (.constraint "response trailer"
      s!"HTTP field `{str name}` is forbidden in a trailer section")
  else .ok ()

def validateTrailerOp : HeaderOp → Except RuleModelError Unit
  | .remove _ => .ok ()
  | .set name _ => validateTrailerName name
  | .replace name _ _ => validateTrailerName name

/-! ### Cookies -/

def capitalize : Str → Str
  | [] => []
  | c :: cs => c.toUpper :: cs

/-- The usual spelling of an attribute, other names with each part capitalised. -/
def canonicalCookieAttrName (name : Str) : Str :=
  let lower := toAsciiLowercase (trim name)
  match String.ofList lower with
  | "path" => "Path"
  | "domain" => "Domain"
  | "expires" => "Expires"
  | "max-age" | "max_age" => "Max-Age"
  | "http-only" | "httponly" => "HttpOnly"
  | "secure" => "Secure"
  | "samesite" | "same-site" | "same_site" => "SameSite"
  | "partitioned" => "Partitioned"
  | "priority" => "Priority"
  | _ => ['-'].intercalate ((splitOn (· == '-') lower).map capitalize)

def parseCookieAttr (part : Str) : Except RuleModelError CookieAttr := do
  let (name, value) ← match splitOnce ['='] part with
    | some (name, value) => (parseValue (trim value)).map fun v => (trim name, some v)
    | none => .ok (part, none)
  let name := canonicalCookieAttrName (trim name)
  if name.isEmpty then
    .error (.empty "cookie attribute name" "cookie attribute name is empty")
  else return ⟨name, value⟩

def malformedCookieOp : RuleModelError :=
  .badSyntax "cookie operation" "cookie op must be `name=value` or `-name`"

def parseCookieOp (input : Str) : Except RuleModelError CookieOp :=
  let input := trim input
  match stripPrefix ['-'] input with
  | some name =>
    if (trim name).isEmpty then
      .error (.missing "cookie remove operation" "cookie remove op needs a name")
    else .ok (.remove (trim name))
  | none =>
    match splitOn (· == ';') input with
    | [] => .error malformedCookieOp
    | first :: parts =>
      match splitOnce ['='] (trim first) with
      | none => .error malformedCookieOp
      | some (name, value) => do
        if (trim name).isEmpty then .error (.empty "cookie name" "cookie name is empty")
        else
          let attrs ← ((parts.map trim).filter (!·.isEmpty)).mapM parseCookieAttr
          let value ← parseValue (trim value)
          return .set (trim name) value attrs

/-! ### Cross-origin and cache headers -/

def parseBool (input : Str) (field : String) : Except RuleModelError Bool :=
  match String.ofList (toAsciiLowercase (trim input)) with
  | "true" | "yes" | "1" | "on" => .ok true
  | "false" | "no" | "0" | "off" => .ok false
  | _ => .error (.invalid "boolean option" s!"{field} must be true or false")

structure CorsState where
  origin : Option Value
  methods : Option Value
  headers : Option Value
  credentials : Option Bool
  expose : Option Value
  maxAge : Option Value

def CorsState.initial : CorsState := ⟨none, none, none, none, none, none⟩

def CorsState.set (st : CorsState) (key value : Str) : Except RuleModelError CorsState :=
  match String.ofList key with
  | "origin" | "allow-origin" => (parseValue value).map fun v => { st with origin := some v }
  | "methods" | "allow-methods" => (parseValue value).map fun v => { st with methods := some v }
  | "headers" | "allow-headers" => (parseValue value).map fun v => { st with headers := some v }
  | "credentials" | "allow-credentials" =>
    (parseBool (unquote value) "res.cors credentials").map fun b =>
      { st with credentials := some b }
  | "expose" | "expose-headers" => (parseValue value).map fun v => { st with expose := some v }
  | "max-age" | "max_age" => (parseValue value).map fun v => { st with maxAge := some v }
  | _ => .error (.unsupported "res.cors argument" s!"unknown res.cors argument `{str key}`")

/-- The first argument may be a bare origin. -/
def CorsState.read (st : CorsState) (first : Bool) (arg : Str) : Except RuleModelError CorsState :=
  let arg := trim arg
  if arg.isEmpty then .ok st
  else if first && !arg.contains '=' then
    (parseValue arg).map fun v => { st with origin := some v }
  else
    match splitOnce ['='] arg with
    | none =>
      .error (.badSyntax "res.cors argument" "res.cors detailed arguments must be key=value")
    | some (key, value) => st.set (toAsciiLowercase (trim key)) (trim value)

def parseCorsOp (args : List Str) : Except RuleModelError CorsOp :=
  match args with
  | [] => .error (.missing "res.cors action" "res.cors requires at least an origin")
  | arg :: args => do
    let st ← CorsState.initial.read true arg
    let st ← args.foldlM (fun st arg => st.read false arg) st
    match st.origin with
    | none => .error (.missing "res.cors origin" "res.cors requires an origin")
    | some origin =>
      return { origin, methods := st.methods, headers := st.headers
               credentials := st.credentials, expose := st.expose, maxAge := st.maxAge }

def canonicalCacheDirectiveName (name : Str) : Str :=
  let lower := toAsciiLowercase (trim name)
  match String.ofList lower with
  | "max_age" => "max-age"
  | "s_maxage" | "s-max-age" => "s-maxage"
  | "stale_while_revalidate" | "stale-while-revalidate" => "stale-while-revalidate"
  | "stale_if_error" | "stale-if-error" => "stale-if-error"
  | "must_revalidate" | "must-revalidate" => "must-revalidate"
  | "proxy_revalidate" | "proxy-revalidate" => "proxy-revalidate"
  | "no_cache" | "no-cache" => "no-cache"
  | "no_store" | "no-store" => "no-store"
  | "no_transform" | "no-transform" => "no-transform"
  | _ => lower

def parseCacheDirective (arg : Str) : Except RuleModelError CacheDirective :=
  if arg.all Char.isDigit then .ok ⟨"max-age", some (.inline arg)⟩
  else do
    let (name, value) ← match splitOnce ['='] arg with
      | some (name, value) => (parseValue (trim value)).map fun v => (trim name, some v)
      | none => .ok (arg, none)
    let name := canonicalCacheDirectiveName name
    if name.isEmpty then .error (.empty "cache directive name" "cache directive name is empty")
    else return ⟨name, value⟩

def parseCacheOp (args : List Str) : Except RuleModelError CacheOp :=
  let missing : RuleModelError := .missing "cache action" "cache requires at least one directive"
  if args.isEmpty then .error missing
  else if args.length == 1 && (args.head?.any fun arg => eqIgnoreAsciiCase (trim arg) "off")
  then .ok .off
  else do
    let directives ← ((args.map trim).filter (!·.isEmpty)).mapM parseCacheDirective
    if directives.isEmpty then .error missing else return .directives directives

/-! ### Queries, bodies, injections, rewrites -/

def parseQueryOp (arg : Str) : Except RuleModelError QueryOp :=
  let arg := trim arg
  match stripPrefix ['-'] arg with
  | some name =>
    if (trim name).isEmpty then
      .error (.missing "url.query remove operation" "url.query remove op needs a name")
    else .ok (.remove (trim name))
  | none =>
    match splitOnce ['='] arg with
    | none => .error (.badSyntax "url.query operation" "url.query op must be `k=v` or `-k`")
    | some (name, value) =>
      if (trim name).isEmpty then .error (.empty "url.query name" "url.query name is empty")
      else (parseValue (trim value)).map (.set (trim name))

def parseQueryOps (args : List Str) : Except RuleModelError (List QueryOp) :=
  if args.isEmpty then
    .error (.missing "url.query action" "url.query requires at least one operation")
  else args.mapM parseQueryOp

def parseRegexReplacePattern (input : Str) : Except RuleModelError RegexReplacePattern :=
  let input := trim input
  if input.head? ≠ some '/' then
    RegexReplacePattern.new (unquote input) false "invalid replacement regex"
  else
    match regexLiteral input with
    | none =>
      .error (.badSyntax "body.replace regex" "body.replace regex pattern must end with `/`")
    | some (pattern, flags) =>
      if flags.any (· != 'i') then
        .error (.unsupported "body.replace regex flags"
          s!"unsupported body.replace regex flags `{str flags}`")
      else RegexReplacePattern.new pattern (flags.contains 'i') "invalid replacement regex"

def parseBodyReplace (args : List Str) (action : String) : Except RuleModelError BodyOp :=
  match args with
  | [pattern, replacement] =>
    (parseRegexReplacePattern pattern).map fun pattern => .replace pattern (unquote replacement)
  | _ => .error (.missing "body replacement" s!"{action} requires pattern and replacement")

def parseInjectTarget (input : Str) : Except RuleModelError InjectTarget :=
  let lower := toAsciiLowercase (trim input)
  match String.ofList lower with
  | "html" => .ok .html
  | "js" | "javascript" => .ok .js
  | "css" => .ok .css
  | _ => .error (.unsupported "inject target" s!"unsupported inject target `{str lower}`")

def parseInjectMode (input : Option Str) : Except RuleModelError InjectMode :=
  match input with
  | none => .ok .append
  | some mode =>
    let lower := toAsciiLowercase (trim mode)
    match String.ofList lower with
    | "append" => .ok .append
    | "prepend" => .ok .prepend
    | "replace" => .ok .replace
    | _ => .error (.unsupported "inject mode" s!"unsupported inject mode `{str lower}`")

def parseInjectWith (target value : Str) (mode : Option Str) : Except RuleModelError InjectOp := do
  let target ← parseInjectTarget target
  let mode ← parseInjectMode mode
  let value ← parseValue value
  return { target, value, mode }

def parseInjectOp (args : List Str) : Except RuleModelError InjectOp :=
  match args with
  | [target, value] => parseInjectWith target value none
  | [target, value, mode] => parseInjectWith target value (some mode)
  | _ => .error (.missing "inject action" "inject requires target, value, and optional mode")

def parseUrlRewritePattern (input : Str) : Except RuleModelError UrlRewritePattern :=
  let input := trim input
  if isRegexLiteral input then (parseRegexReplacePattern input).map .regex
  else (parseValue input).map .plain

/-! ### Durations and speeds -/

def checkedScaledNumber (value multiplier : Float) (context : String) (input : Str)
    (allowZero : Bool) : Except RuleModelError Nat :=
  let scaled := value * multiplier
  if !value.isFinite || isSignNegative value || !scaled.isFinite ||
      scaled ≥ 18446744073709551616.0 || (!allowZero && scaled < 0.5) then
    .error (.constraint context s!"{context} `{str input}` is outside the supported finite range")
  else .ok scaled.round.toUInt64.toNat

def invalidDuration (input : Str) : RuleModelError :=
  .integer "duration" s!"invalid duration `{str input}`"

def parseDurationMs (input : Str) : Except RuleModelError Nat :=
  match stripSuffix "ms" input with
  | some ms =>
    match parseU64 ms with
    | some n => .ok n
    | none => .error (invalidDuration input)
  | none =>
    match stripSuffix "s" input with
    | some sec =>
      match parseF64 sec with
      | some value => checkedScaledNumber value 1000.0 "duration" input true
      | none => .error (.float "duration" s!"invalid duration `{str input}`")
    | none =>
      match parseU64 input with
      | some n => .ok n
      | none => .error (invalidDuration input)

/-- The number of a speed and the factor of its unit. -/
def speedUnit (raw : Str) : Str × Float :=
  match stripSuffix "kb" raw, stripSuffix "k" raw, stripSuffix "mb" raw,
      stripSuffix "m" raw, stripSuffix "b" raw with
  | some value, _, _, _, _ => (value, 1024.0)
  | none, some value, _, _, _ => (value, 1024.0)
  | none, none, some value, _, _ => (value, 1024.0 * 1024.0)
  | none, none, none, some value, _ => (value, 1024.0 * 1024.0)
  | none, none, none, none, some value => (value, 1.0)
  | none, none, none, none, none => (raw, 1.0)

def parseSpeedBps (input : Str) : Except RuleModelError Nat :=
  let lower := toAsciiLowercase input
  let raw := (stripSuffix "/s" lower).getD lower
  let (number, multiplier) := speedUnit raw
  match parseF64 number with
  | none => .error (.float "speed" s!"invalid speed `{str input}`")
  | some value => do
    let bytes ← checkedScaledNumber value multiplier "speed" input false
    if bytes = 0 then .error (.constraint "speed" "speed must be greater than zero")
    else return bytes

/-! ### Mocks and remote mappings -/

def isMockOption (arg : Str) : Bool :=
  ["status=", "body=", "type=", "header="].any fun key => key.toList.isPrefixOf arg

def parseMockStatus (value : Str) : Except RuleModelError Nat :=
  match parseU16 (trim value) with
  | none => .error (.integer "mock status" "mock status must be numeric")
  | some code =>
    (validateStatusRange code minFinalHttpStatus maxHttpStatus "mock status" "200..599").map
      fun _ => code

def parseMockOption (op : MockInlineOp) (arg : Str) : Except RuleModelError MockInlineOp :=
  let arg := trim arg
  match splitOnce ['='] arg with
  | none =>
    .error (.invalid "mock argument"
      s!"inline mock arguments use key=value form (status, type, header, body); got `{str arg}`")
  | some (key, value) =>
    match String.ofList (trim key) with
    | "status" => (parseMockStatus value).map fun code => { op with status := some code }
    | "type" =>
      (parseValue value).map fun v =>
        { op with headers := op.headers ++ [("Content-Type".toList, v)] }
    | "header" =>
      match splitOnce [':'] value with
      | none =>
        .error (.invalid "mock header"
          s!"mock header must use `header=Name: value`; got `{str value}`")
      | some (name, value) => do
        let name ← normalizeHeaderName name
        let value ← parseValue (trimStart value)
        return { op with headers := op.headers ++ [(name, value)] }
    | "body" => (parseValue value).map fun v => { op with body := some v }
    | _ =>
      let other := trim key
      .error (.unsupported "mock argument"
        s!"unknown inline mock argument `{str other}`; use status, type, header, or body")

def parseMock (args : List Str) : Except RuleModelError Action :=
  if 1 < args.length || args.head?.any (fun arg => isMockOption (trim arg)) then do
    let op ← args.foldlM parseMockOption ⟨none, [], none⟩
    if op.status.any statusForbidsBody && op.body.isSome then
      .error (.constraint "inline mock body" "mock status 204, 205, or 304 must not define a body")
    else return .mockInline op
  else (requireOne args "mock").bind fun arg => (parseValue arg).map .mock

def validateMapRemoteScheme (scheme target : Str) : Except RuleModelError Unit :=
  match String.ofList (toAsciiLowercase scheme) with
  | "http" | "https" | "ws" | "wss" => .ok ()
  | _ =>
    .error (.invalid "map.remote target"
      s!"map.remote target must use http, https, ws, or wss; got `{str target}`")

/-- A template exposes at most its scheme before the request is known. -/
def validateMapRemoteTarget : Value → Except RuleModelError Unit
  | .inline text =>
    let target := trim text
    match splitOnce ['$'] target with
    | some (fixed, _) =>
      match splitOnce "://" fixed with
      | some (scheme, _) => validateMapRemoteScheme scheme target
      | none => .ok ()
    | none => (UrlParts.parse target).bind fun parsed =>
      validateMapRemoteScheme parsed.scheme target
  | _ => .ok ()

end RsProxy.Rules
