import RsProxy.Engine.RequestActions
import RsProxy.Engine.UpstreamBody
import RsProxy.Rules.Parser.Operations

/-!
# Rule actions on a response

`applyResponseActionsInner` runs the actions of the matched rules over the head and the body of a
response, and `applyResponseTrailerActions` over its trailers. A response that is streamed has no
body to act on, and the actions on a body are passed over.
-/

namespace RsProxy.Engine

open Text Io Net
open Data (do_eq_ok mapM_eq_ok)
open Rules (Action BodyOp CacheDirective CacheOp CookieAttr CookieOp CorsOp DeleteBodyPath
  DeleteOp HeaderOp InjectOp InjectTarget ResolvedAction Value isForbiddenTrailerName)

/-- What the values of response actions come to, beside those of request actions. -/
class ResponseValues extends RuleValues where
  /-- `apply_res_merge`: a JSON body with a JSON patch merged into it. -/
  mergeJson : Bytes → (patch : Str) → (limit : Nat) → Except IoError Bytes
  /-- `delete_response_body_path`. -/
  deleteResponseBodyPath : Headers → Bytes → DeleteBodyPath → Bytes

/-! ### The pieces of a value -/

/-- The percent form of a byte outside the characters an extended parameter may hold. -/
def percentByte (byte : UInt8) : Str :=
  let c := Char.ofNat byte.toNat
  if byte.toNat < 128 && (c.isAlphanum || "!#$&+-.^_`|~".toList.contains c) then [c]
  else '%' :: [hexDigit (byte.toNat / 16), hexDigit (byte.toNat % 16)]
where
  hexDigit (n : Nat) : Char := "0123456789ABCDEF".toList.getD n '0'

def contentDispositionAttachment (filename : Str) : Except IoError Str :=
  if filename.isEmpty || filename.any isControl then
    .error (invalidInput
      "attachment filename must be non-empty and contain no control characters")
  else
    let fallback := filename.flatMap fun c =>
      if c = '"' || c = '\\' then ['\\', c] else if c.toNat < 128 then [c] else ['_']
    let value := "attachment; filename=\"" ++ fallback ++ "\""
    if filename.all (·.toNat < 128) then .ok value
    else .ok (value ++ "; filename*=UTF-8''" ++ (utf8 filename).flatMap percentByte)

def injectContentTypeMatches (headers : Headers) (target : InjectTarget) : Bool :=
  match header headers "content-type" with
  | none => false
  | some value =>
    let mime := toAsciiLowercase (trim ((splitOn (· == ';') value).headD []))
    match target with
    | .html => mime = "text/html" || mime = "application/xhtml+xml"
    | .js => mime = "application/javascript" || mime = "text/javascript" ||
        mime = "application/x-javascript"
    | .css => mime = "text/css"

def ensureVaryOrigin : Headers → Headers
  | [] => [("Vary", "Origin")]
  | field :: rest =>
    if named "vary" field then
      if (splitOn (· == ',') field.2).any fun part => eqIgnoreAsciiCase (trim part) "origin"
      then field :: rest
      else
        let value := if (trim field.2).isEmpty then field.2 else field.2 ++ ", "
        (field.1, value ++ "Origin") :: rest
    else field :: ensureVaryOrigin rest

/-- The cookie a `Set-Cookie` field sets is this one. -/
def setsCookie (name : Str) (field : Str × Str) : Bool :=
  named "set-cookie" field &&
    match splitOnce ['='] field.2 with
    | some (cookieName, _) => trim cookieName = name
    | none => false

def removeResponseCookie (headers : Headers) (name : Str) : Headers :=
  headers.filter fun field => !setsCookie name field

section Actions

variable [ResponseValues]

section

variable (config : ProxyConfig)

/-- A name, and behind an equals sign its value if there is one. -/
def pushNamedValue (label : Str) (item : ResolvedAction) (out name : Str)
    (value : Option Value) : Except IoError Str := do
  let limit := ruleHeaderLimit config
  let out ← pushTextBounded out name limit label
  match value with
  | none => .ok out
  | some value => do
    let out ← pushTextBounded out "=" limit label
    let remaining ← remainingCapacity (utf8Len out) limit label
    let value ← resolveValueTextBounded value item remaining
    pushTextBounded out value limit label

def renderSetCookie (name value : Str) (attrs : List CookieAttr)
    (item : ResolvedAction) : Except IoError Str := do
  let limit := ruleHeaderLimit config
  let label := "Set-Cookie value".toList
  let out ← pushTextBounded [] name limit label
  let out ← pushTextBounded out "=".toList limit label
  let out ← pushTextBounded out value limit label
  if attrs.isEmpty then pushTextBounded out "; Path=/".toList limit label
  else attrs.foldlM (fun out attr => do
    let out ← pushTextBounded out "; ".toList limit label
    pushNamedValue config label item out attr.name attr.value) out

def applyResCookie (headers : Headers) (op : CookieOp)
    (item : ResolvedAction) : Except IoError Headers :=
  match op with
  | .set name value attrs => do
    let value ← resolveValueTextBounded value item (ruleHeaderLimit config)
    let cookie ← renderSetCookie config name value attrs item
    .ok (headers ++ [("Set-Cookie".toList, cookie)])
  | .remove name => .ok (removeResponseCookie headers name)

def renderCacheDirectives (directives : List CacheDirective)
    (item : ResolvedAction) : Except IoError Str :=
  let label := "Cache-Control value".toList
  directives.zipIdx.foldlM (fun out (directive, index) => do
    let out ← if 0 < index then pushTextBounded out ", ".toList (ruleHeaderLimit config) label
      else .ok out
    pushNamedValue config label item out directive.name directive.value) []

/-- The text of an optional value. -/
def optionalText (item : ResolvedAction) (value : Option Value)
    (otherwise : Str) : Except IoError Str :=
  match value with
  | some value => resolveValueTextBounded value item (ruleHeaderLimit config)
  | none => .ok otherwise

/-- Set a field where there is a value for it. -/
def setOptional (item : ResolvedAction) (headers : Headers) (name : Str)
    (value : Option Value) : Except IoError Headers :=
  match value with
  | some value => do
    let text ← resolveValueTextBounded value item (ruleHeaderLimit config)
    .ok (setHeader headers name text)
  | none => .ok headers

def applyResCors (headers : Headers) (op : CorsOp) (item : ResolvedAction) :
    Except IoError Headers := do
  let origin ← resolveValueTextBounded op.origin item (ruleHeaderLimit config)
  let headers := setHeader headers "Access-Control-Allow-Origin" origin
  let methods ← optionalText config item op.methods "GET,POST,PUT,PATCH,DELETE,OPTIONS"
  let headers := setHeader headers "Access-Control-Allow-Methods" methods
  let allowed ← optionalText config item op.headers "Content-Type,Authorization,*"
  let headers := setHeader headers "Access-Control-Allow-Headers" allowed
  let headers := match op.credentials with
    | some true => setHeader headers "Access-Control-Allow-Credentials" "true"
    | some false => removeHeader headers "Access-Control-Allow-Credentials"
    | none => headers
  let headers ← setOptional config item headers "Access-Control-Expose-Headers" op.expose
  let headers ← setOptional config item headers "Access-Control-Max-Age" op.maxAge
  .ok (if origin = "*" then headers else ensureVaryOrigin headers)

def applyInjectOp (headers : Headers) (body : Bytes) (op : InjectOp)
    (item : ResolvedAction) : Except IoError Bytes :=
  let limit := ruleBodyLimit config
  if !injectContentTypeMatches headers op.target then .ok body
  else
    match op.mode with
    | .append => do
      let remaining ← remainingCapacity body.length limit "body injection"
      let next ← RuleValues.bytes op.value item remaining
      .ok (body ++ next)
    | .prepend => do
      let remaining ← remainingCapacity body.length limit "body injection"
      let next ← RuleValues.bytes op.value item remaining
      .ok (next ++ body)
    | .replace => RuleValues.bytes op.value item limit

end

/-- One operation of a `delete` action on the header list of a response. -/
def deleteFromHeaders (headers : Headers) : DeleteOp → Headers
  | .resHeader name => removeHeader headers name
  | .resCookie name => removeResponseCookie headers name
  | .resCookies => removeHeader headers "set-cookie"
  | .resType => removeContentTypePart headers true
  | .resCharset => removeContentTypePart headers false
  | _ => headers

def applyResponseDelete (headers : Headers) (body : Bytes) (ops : List DeleteOp)
    (bodyAvailable : Bool) : Headers × Bytes :=
  ops.foldl (fun (headers, body) op =>
    (deleteFromHeaders headers op,
      match op with
      | .resBody => if bodyAvailable then [] else body
      | .resBodyPath path =>
        if bodyAvailable then ResponseValues.deleteResponseBodyPath headers body path else body
      | _ => body)) (headers, body)

/-! ### The actions of a response -/

/-- A response on its way through the actions. -/
structure ResponseParts where
  head : RawResponseHead
  headers : Headers
  body : Bytes

/-- What one action does to the header list. -/
def applyResponseHeaders (config : ProxyConfig) (headers : Headers) (item : ResolvedAction) :
    Except IoError Headers :=
  let text := fun value => resolveValueTextBounded value item (ruleHeaderLimit config)
  match item.action with
  | .resHeader op => applyHeaderOp config headers op item
  | .resCookie op => applyResCookie config headers op item
  | .resCors op => applyResCors config headers op item
  | .resType value => do
    let text ← text value
    .ok (setHeader headers "Content-Type" text)
  | .resCharset value => do
    let text ← text value
    .ok (setCharset headers text)
  | .attachment none => .ok (setHeader headers "Content-Disposition" "attachment")
  | .attachment (some filename) => do
    let name ← text filename
    let value ← contentDispositionAttachment name
    .ok (setHeader headers "Content-Disposition" value)
  | .cache .off => .ok (setHeader (setHeader headers "Cache-Control" "no-store")
      "Pragma" "no-cache")
  | .cache (.directives directives) => do
    let value ← renderCacheDirectives config directives item
    .ok (setHeader (removeHeader headers "Pragma") "Cache-Control" value)
  | .delete ops => .ok (ops.foldl deleteFromHeaders headers)
  | _ => .ok headers

/-- What one action does to a body that was read whole. -/
def applyResponseBody (config : ProxyConfig) (headers : Headers) (body : Bytes)
    (item : ResolvedAction) : Except IoError Bytes :=
  match item.action with
  | .resMerge value => do
    let patch ← resolveValueTextBounded value item (ruleBodyLimit config)
    ResponseValues.mergeJson body patch (ruleBodyLimit config)
  | .inject op => applyInjectOp config headers body op item
  | .resBody op => applyBodyOp config body op item
  | .delete ops => .ok (applyResponseDelete headers body ops true).2
  | _ => .ok body

section

variable [ReasonPhrases] (config : ProxyConfig)

section

variable (includeBody : Bool) (parts : ResponseParts) (actions : List ResolvedAction)

def applyResponseAction (item : ResolvedAction) : Except IoError ResponseParts := do
  let headers ← applyResponseHeaders config parts.headers item
  let body ← if includeBody then applyResponseBody config parts.headers parts.body item
    else .ok parts.body
  let head := match item.action with
    | .resStatus code =>
      { parts.head with status := code, reason := ReasonPhrases.phrase code }
    | _ => parts.head
  .ok ⟨head, headers, body⟩

def applyResponseActionsInner : Except IoError ResponseParts := do
  let parts ← actions.foldlM (applyResponseAction config includeBody) parts
  validateHeaderBlock config parts.headers
  .ok parts

def applyResponseActions : Except IoError ResponseParts :=
  applyResponseActionsInner config true parts actions

end

def applyStreamingResponseActions (head : RawResponseHead)
    (headers : Headers) (actions : List ResolvedAction) : Except IoError ResponseParts :=
  applyResponseActionsInner config false ⟨head, headers, []⟩ actions

end

omit [ResponseValues] in
def responseActionsRequireBody (actions : List ResolvedAction) : Bool :=
  actions.any fun item =>
    match item.action with
    | .resMerge _ | .inject _ | .resBody _ => true
    | .delete ops => ops.any fun op =>
        match op with
        | .resBody | .resBodyPath _ => true
        | _ => false
    | _ => false

/-! ### Trailers -/

def applyTrailerDelete (trailers : Headers) (ops : List DeleteOp) : Headers :=
  ops.foldl (fun trailers op =>
    match op with
    | .trailer name => removeHeader trailers name
    | .trailers => []
    | _ => trailers) trailers

section

variable (config : ProxyConfig) (trailers : Headers)

def validateTrailerBlock : Except IoError Unit := do
  validateHeaderBlock config trailers
  match trailers.find? fun field => isForbiddenTrailerName field.1 with
  | some field => .error (invalidInput
      ("HTTP field `" ++ field.1 ++ "` is forbidden in a trailer section"))
  | none => .ok ()

/-- What the actions make of the trailers, before anything is checked. -/
def editTrailers (actions : List ResolvedAction) :
    Except IoError Headers :=
  actions.foldlM (fun trailers item =>
    match item.action with
    | .resTrailer op => applyHeaderOp config trailers op item
    | .delete ops => .ok (applyTrailerDelete trailers ops)
    | _ => .ok trailers) trailers

def applyResponseTrailerActions (actions : List ResolvedAction) : Except IoError Headers := do
  let trailers ← editTrailers config trailers actions
  validateTrailerBlock config trailers
  .ok trailers

end

end Actions

/-- Names the connection fields of a response nominate. -/
def connectionNames (headers : Headers) : List Str :=
  ((headers.filter (named "connection")).flatMap fun field =>
    (splitOn (· == ',') field.2).map trim).filter fun name => !name.isEmpty

/-- The trailers a response may pass on. -/
def sanitizeUpstreamTrailers (trailers headers : Headers) : Headers :=
  trailers.filter fun field => !isForbiddenTrailerName field.1 &&
    !(connectionNames headers).any fun name => eqIgnoreAsciiCase field.1 (toAsciiLowercase name)

def stripHopByHopHeaders (headers : Headers) : Headers :=
  ["connection", "keep-alive", "proxy-connection", "te", "trailer", "transfer-encoding",
    "upgrade"].foldl (fun headers name => removeHeader headers name.toList)
    ((connectionNames headers).foldl removeHeader headers)

def prepareStreamingBodyHeaders (headers : Headers) : Headers :=
  removeHeader (removeHeader (removeHeader headers "content-length")
    "transfer-encoding") "trailer"

end RsProxy.Engine
