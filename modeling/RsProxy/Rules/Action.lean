import RsProxy.Rules.Error
import RsProxy.Rules.Family

/-!
# Actions

The operations a rule asks for, as the parser builds them: typed, with their value sources not yet
loaded. Loading and applying them is the business of the proxy; resolution looks at the family of
an action, at the families a `skip` names and at the operations of a `delete`.
-/

namespace RsProxy.Rules

open Text

/-- Where the text of an action's argument comes from. -/
inductive Value where
  | inline (text : Str)
  | file (path : Str)
  | reference (key : Str)
  deriving DecidableEq, Repr

def Value.source : Value → Str
  | .inline s | .file s | .reference s => s

/-- The key of a stored value: 1 to 128 ASCII letters, digits, dots, underscores and hyphens. -/
def validValueKey (key : Str) : Bool :=
  !key.isEmpty && utf8Len key ≤ 128 &&
    key.all fun c => c.isAlphanum || c == '.' || c == '_' || c == '-'

/-- A non-empty pool of origin addresses, none of them blank. The position of the round robin is
shared state of the running proxy and no part of the rule. -/
structure HostPool where
  addresses : List Value
  nonempty : addresses ≠ []
  named : ∀ a ∈ addresses, trim a.source ≠ []
  deriving DecidableEq, Repr

def HostPool.new (addresses : List Value) : Except RuleModelError HostPool :=
  if h : addresses = [] then
    .error (.empty "host addresses" "host requires at least one address")
  else if hn : ∀ a ∈ addresses, trim a.source ≠ [] then .ok ⟨addresses, h, hn⟩
  else .error (.empty "host address" "host addresses cannot be empty")

/-- A regular expression for replacing; it compiles once and is identified by its text. -/
structure RegexReplacePattern where
  pattern : Str
  caseInsensitive : Bool
  deriving DecidableEq, Repr

inductive HeaderOp where
  | set (name : Str) (value : Value)
  | remove (name : Str)
  | replace (name : Str) (pattern : RegexReplacePattern) (replacement : Str)
  deriving DecidableEq, Repr

inductive QueryOp where
  | set (name : Str) (value : Value)
  | remove (name : Str)
  deriving DecidableEq, Repr

inductive DeleteBodyPathSegment where
  | key (name : Str)
  | index (n : Nat)
  deriving DecidableEq, Repr

structure DeleteBodyPath where
  segments : List DeleteBodyPathSegment
  nonempty : segments ≠ []
  deriving DecidableEq, Repr

def DeleteBodyPath.new (segments : List DeleteBodyPathSegment) :
    Except RuleModelError DeleteBodyPath :=
  if h : segments = [] then
    .error (.empty "delete body path" "delete body path must contain at least one segment")
  else .ok ⟨segments, h⟩

inductive DeletePathSegment where
  | index (i : Int)
  | last
  deriving DecidableEq, Repr

inductive DeleteOp where
  | pathname
  | pathSegment (segment : DeletePathSegment)
  | urlParams
  | urlParam (name : Str)
  | reqHeader (name : Str)
  | resHeader (name : Str)
  | reqBody
  | resBody
  | reqBodyPath (path : DeleteBodyPath)
  | resBodyPath (path : DeleteBodyPath)
  | reqType
  | resType
  | reqCharset
  | resCharset
  | reqCookie (name : Str)
  | resCookie (name : Str)
  | reqCookies
  | resCookies
  | trailer (name : Str)
  | trailers
  deriving DecidableEq, Repr

structure CookieAttr where
  name : Str
  value : Option Value
  deriving DecidableEq, Repr

inductive CookieOp where
  | set (name : Str) (value : Value) (attrs : List CookieAttr)
  | remove (name : Str)
  deriving DecidableEq, Repr

structure MockInlineOp where
  status : Option Nat
  headers : List (Str × Value)
  body : Option Value
  deriving DecidableEq, Repr

structure CorsOp where
  origin : Value
  methods : Option Value
  headers : Option Value
  credentials : Option Bool
  expose : Option Value
  maxAge : Option Value
  deriving DecidableEq, Repr

structure CacheDirective where
  name : Str
  value : Option Value
  deriving DecidableEq, Repr

inductive CacheOp where
  | off
  | directives (ds : List CacheDirective)
  deriving DecidableEq, Repr

inductive TlsMinVersion where
  | tls12
  | tls13
  deriving DecidableEq, Repr

inductive TlsCipherSuite where
  | tls13Aes128GcmSha256
  | tls13Aes256GcmSha384
  | tls13Chacha20Poly1305Sha256
  | tls12EcdheEcdsaAes128GcmSha256
  | tls12EcdheEcdsaAes256GcmSha384
  | tls12EcdheEcdsaChacha20Poly1305Sha256
  | tls12EcdheRsaAes128GcmSha256
  | tls12EcdheRsaAes256GcmSha384
  | tls12EcdheRsaChacha20Poly1305Sha256
  deriving DecidableEq, Repr

def TlsCipherSuite.isTls13 : TlsCipherSuite → Bool
  | .tls13Aes128GcmSha256 | .tls13Aes256GcmSha384 | .tls13Chacha20Poly1305Sha256 => true
  | _ => false

structure TlsOp where
  clientCert : Option Str
  clientKey : Option Str
  minVersion : Option TlsMinVersion
  ciphers : List TlsCipherSuite
  deriving DecidableEq, Repr

inductive BodyOp where
  | set (value : Value)
  | prepend (value : Value)
  | append (value : Value)
  | replace (pattern : RegexReplacePattern) (replacement : Str)
  deriving DecidableEq, Repr

inductive InjectTarget where
  | html
  | js
  | css
  deriving DecidableEq, Repr

inductive InjectMode where
  | append
  | prepend
  | replace
  deriving DecidableEq, Repr

structure InjectOp where
  target : InjectTarget
  value : Value
  mode : InjectMode
  deriving DecidableEq, Repr

inductive UrlRewritePattern where
  | plain (value : Value)
  | regex (pattern : RegexReplacePattern)
  deriving DecidableEq, Repr

inductive Action where
  | host (pool : HostPool)
  | upstream (value : Value)
  | direct
  | mock (value : Value)
  | mockRaw (value : Value)
  | mockInline (op : MockInlineOp)
  | status (code : Nat)
  | redirect (url : Value) (code : Nat)
  | reqHeader (op : HeaderOp)
  | resHeader (op : HeaderOp)
  | resStatus (code : Nat)
  | reqMethod (value : Value)
  | reqCookie (op : CookieOp)
  | resCookie (op : CookieOp)
  | reqUa (value : Value)
  | reqReferer (value : Value)
  | reqAuth (value : Value)
  | reqForwarded (value : Value)
  | reqType (value : Value)
  | reqCharset (value : Value)
  | resCors (op : CorsOp)
  | resType (value : Value)
  | resCharset (value : Value)
  | resMerge (value : Value)
  | resTrailer (op : HeaderOp)
  | attachment (filename : Option Value)
  | cache (op : CacheOp)
  | tls (op : TlsOp)
  | mapRemote (value : Value)
  | urlRewrite (source : UrlRewritePattern) (target : Value)
  | urlQuery (ops : List QueryOp)
  | delete (ops : List DeleteOp)
  | reqBody (op : BodyOp)
  | resBody (op : BodyOp)
  | inject (op : InjectOp)
  | delay (phase : Phase) (millis : Nat)
  | throttle (phase : Phase) (bytesPerSec : Nat)
  | bypass
  | hide
  | tag (value : Value)
  | skip (families : ActionFamilySet)
  deriving DecidableEq, Repr

namespace Action

def family : Action → ActionFamily
  | .host _ => .host
  | .upstream _ => .upstream
  | .direct => .direct
  | .mock _ | .mockRaw _ | .mockInline _ => .mock
  | .mapRemote _ => .mapRemote
  | .status _ => .status
  | .redirect _ _ => .redirect
  | .reqHeader _ => .reqHeader
  | .resHeader _ => .resHeader
  | .resStatus _ => .resStatus
  | .reqMethod _ => .reqMethod
  | .reqCookie _ => .reqCookie
  | .resCookie _ => .resCookie
  | .reqUa _ => .reqUa
  | .reqReferer _ => .reqReferer
  | .reqAuth _ => .reqAuth
  | .reqForwarded _ => .reqForwarded
  | .reqType _ => .reqType
  | .reqCharset _ => .reqCharset
  | .resCors _ => .resCors
  | .resType _ => .resType
  | .resCharset _ => .resCharset
  | .resMerge _ => .resMerge
  | .resTrailer _ => .resTrailer
  | .attachment _ => .attachment
  | .cache _ => .cache
  | .tls _ => .tls
  | .urlRewrite _ _ => .urlRewrite
  | .urlQuery _ => .urlQuery
  | .delete _ => .delete
  | .reqBody (.set _) => .reqBodySet
  | .reqBody (.prepend _) => .reqBodyPrepend
  | .reqBody (.append _) => .reqBodyAppend
  | .reqBody (.replace _ _) => .reqBodyReplace
  | .resBody (.set _) => .resBodySet
  | .resBody (.prepend _) => .resBodyPrepend
  | .resBody (.append _) => .resBodyAppend
  | .resBody (.replace _ _) => .resBodyReplace
  | .inject _ => .inject
  | .delay .req _ => .delayReq
  | .delay .res _ => .delayRes
  | .throttle .req _ => .throttleReq
  | .throttle .res _ => .throttleRes
  | .bypass => .bypass
  | .hide => .hide
  | .tag _ => .tag
  | .skip _ => .skip

def isStackable (a : Action) : Bool := a.family.resolution == .stackable

def isSingle (a : Action) : Bool := !a.isStackable

end Action

def deleteOperationAppliesIn (op : DeleteOp) (phase : Phase) : Bool :=
  match op with
  | .pathname | .pathSegment _ | .urlParams | .urlParam _ | .reqHeader _ | .reqBody
  | .reqBodyPath _ | .reqType | .reqCharset | .reqCookie _ | .reqCookies => phase == .req
  | .resHeader _ | .resBody | .resBodyPath _ | .resType | .resCharset | .resCookie _
  | .resCookies | .trailer _ | .trailers => phase == .res

/-- Does the action have an effect in the phase? A `delete` is judged by its operations, every
other action by its family. -/
def Action.appliesIn (a : Action) (phase : Phase) : Bool :=
  match a with
  | .delete ops => ops.any (deleteOperationAppliesIn · phase)
  | a => a.family.phases.contains phase

/-! ### Skipping -/

/-- The families that earlier `skip` actions suppress. -/
structure SkipState where
  families : ActionFamilySet
  deriving DecidableEq, Repr

namespace SkipState

def initial : SkipState := ⟨.empty⟩

def suppresses (s : SkipState) (family : ActionFamily) : Bool := s.families.contains family

/-- A `skip` without families suppresses all of them. -/
def observe (s : SkipState) (a : Action) : SkipState :=
  match a with
  | .skip families => if families.isEmpty then ⟨.full⟩ else ⟨s.families.union families⟩
  | _ => s

end SkipState

/-- The action is a `skip` that names the family, or all of them. -/
def Action.skips (a : Action) (family : ActionFamily) : Bool :=
  match a with
  | .skip families => families.isEmpty || families.contains family
  | _ => false

@[simp] theorem SkipState.suppresses_initial {f} : SkipState.initial.suppresses f = false := by
  simp [SkipState.initial, SkipState.suppresses]

/-- Observing an action adds exactly what the action skips. -/
@[simp] theorem SkipState.suppresses_observe (s : SkipState) {a f} :
    (s.observe a).suppresses f = (s.suppresses f || a.skips f) := by
  cases a with
  | skip families =>
    simp only [observe, Action.skips]
    cases families.isEmpty <;> simp [suppresses]
  | _ => simp [observe, Action.skips]

/-! ### Work that needs the request body -/

def DeleteOp.touchesReqBody : DeleteOp → Bool
  | .reqBody | .reqBodyPath _ => true
  | _ => false

def actionRequiresRequestBody : Action → Bool
  | .reqBody _ => true
  | .delete ops => ops.any DeleteOp.touchesReqBody
  | _ => false

/-- What is left of an action when no request body is available. -/
def actionForBodyAvailability (a : Action) (requestBodyAvailable : Bool) : Option Action :=
  if requestBodyAvailable then some a
  else
    match a with
    | .reqBody _ => none
    | .delete ops =>
      let ops := ops.filter fun op => !op.touchesReqBody
      if ops.isEmpty then none else some (.delete ops)
    | a => some a

end RsProxy.Rules
