import RsProxy.Net.Body
import RsProxy.Rules.Model
import RsProxy.Data.Results

/-!
# Rule actions on a request

`applyRequestActionsInner` runs the actions of the matched rules over a request, one after the
other, and then brings its body headers in line with its body. What the values, patterns and body
paths of a rule come to in the running proxy (files, stored values, templates, regular expressions)
is a parameter, `RuleValues`, of which nothing is assumed.
-/

namespace RsProxy.Engine

open Text Io Net
open Data (do_eq_ok mapM_eq_ok)
open Rules (Action CookieOp DeleteBodyPath DeleteOp HeaderOp BodyOp RegexReplacePattern
  ResolvedAction Value checkedAdd isHttpTokenChar)
open Bool (false_ne_true)

/-! ### The running proxy -/

/-- What rule values, patterns and body paths come to for the request at hand. -/
class RuleValues where
  /-- `resolve_value_bytes_bounded`. -/
  bytes : Value → ResolvedAction → (limit : Nat) → Except IoError Bytes
  /-- `RegexReplacePattern::replace_all_bounded`. -/
  replaceAll : RegexReplacePattern → (input replacement : Str) → (limit : Nat) → Except IoError Str
  /-- `delete_request_body_path`: the body afterwards, and whether it changed. -/
  deleteBodyPath : Headers → Bytes → DeleteBodyPath → Bytes × Bool

structure ProxyConfig where
  maxHeaderSize : Nat
  maxHeaderCount : Nat
  bodyBufferLimit : Nat

def maxRuleRenderedValueBytes : Nat := 8 * 1024 * 1024

def ruleHeaderLimit (config : ProxyConfig) : Nat :=
  min config.maxHeaderSize maxRuleRenderedValueBytes

def ruleBodyLimit (config : ProxyConfig) : Nat :=
  min config.bodyBufferLimit maxRuleRenderedValueBytes

def outputLimitError (label : Str) (limit : Nat) : IoError :=
  invalidData (label ++ " exceeds the " ++ decimal limit ++ "-byte output limit")

def remainingCapacity (current limit : Nat) (label : Str) : Except IoError Nat :=
  if current ≤ limit then .ok (limit - current) else .error (outputLimitError label limit)

def pushTextBounded (output value : Str) (limit : Nat) (label : Str) : Except IoError Str :=
  match checkedAdd (utf8Len output) (utf8Len value) with
  | some length =>
    if limit < length then .error (outputLimitError label limit) else .ok (output ++ value)
  | none => .error (outputLimitError label limit)

/-! ### Authorization -/

def base64Table : Str :=
  "ABCDEFGHIJKLMNOPQRSTUVWXYZabcdefghijklmnopqrstuvwxyz0123456789+/"

def base64Char (n : UInt8) : Char := base64Table.getD n.toNat 'A'

def base64 : Bytes → Str
  | [] => []
  | [b0] => [base64Char (b0 >>> 2), base64Char ((b0 &&& 3) <<< 4), '=', '=']
  | [b0, b1] => [base64Char (b0 >>> 2), base64Char (((b0 &&& 3) <<< 4) ||| (b1 >>> 4)),
      base64Char ((b1 &&& 15) <<< 2), '=']
  | b0 :: b1 :: b2 :: rest =>
    base64Char (b0 >>> 2) :: base64Char (((b0 &&& 3) <<< 4) ||| (b1 >>> 4)) ::
      base64Char (((b1 &&& 15) <<< 2) ||| (b2 >>> 6)) :: base64Char (b2 &&& 63) :: base64 rest

def forwardedForValue (value : Str) : Str :=
  match parseSocketAddrIp value with
  | some ip => ip.display
  | none => value

section Actions

variable [RuleValues]

/-! ### Values and header operations -/

def resolveValueTextBounded (value : Value) (item : ResolvedAction) (limit : Nat) :
    Except IoError Str := do
  let bytes ← RuleValues.bytes value item limit
  match fromUtf8 bytes with
  | some text => .ok text
  | none => .error (invalidData "text action value must be valid UTF-8")

def applyHeaderOp (config : ProxyConfig) (headers : Headers) (op : HeaderOp)
    (item : ResolvedAction) : Except IoError Headers :=
  let limit := ruleHeaderLimit config
  match op with
  | .set name value => do
    let text ← resolveValueTextBounded value item limit
    .ok (setHeader headers name text)
  | .remove name => .ok (removeHeader headers name)
  | .replace name pattern replacement =>
    headers.mapM fun field =>
      if named name field then do
        let value ← RuleValues.replaceAll pattern field.2 replacement limit
        .ok (field.1, value)
      else .ok field

/-! ### Cookies and the content type -/

def parseCookieHeader (input : Str) : List (Str × Str) :=
  (splitOn (· == ';') input).filterMap fun part =>
    (splitOnce ['='] (trim part)).map fun (key, value) => (trim key, trim value)

def renderRequestCookies (cookies : List (Str × Str)) (limit : Nat) : Except IoError Str :=
  cookies.zipIdx.foldlM (fun out (cookie, index) => do
    let out ← if 0 < index then pushTextBounded out "; " limit "Cookie header"
      else .ok out
    let out ← pushTextBounded out cookie.1 limit "Cookie header"
    let out ← pushTextBounded out "=" limit "Cookie header"
    pushTextBounded out cookie.2 limit "Cookie header") []

/-- Set the value of the first cookie of this name, or add one. -/
def setCookie (cookies : List (Str × Str)) (name value : Str) : List (Str × Str) :=
  match cookies with
  | [] => [(name, value)]
  | cookie :: rest =>
    if cookie.1 = name then (cookie.1, value) :: rest else cookie :: setCookie rest name value

def editCookies (cookies : List (Str × Str)) (op : CookieOp) (item : ResolvedAction) (limit : Nat) :
    Except IoError (List (Str × Str)) :=
  match op with
  | .set name value _ => do
    let value ← resolveValueTextBounded value item limit
    .ok (setCookie cookies name value)
  | .remove name => .ok (cookies.filter fun cookie => cookie.1 != name)

def applyReqCookie (config : ProxyConfig) (headers : Headers) (op : CookieOp)
    (item : ResolvedAction) : Except IoError Headers := do
  let limit := ruleHeaderLimit config
  let cookies := ((header headers "cookie").map parseCookieHeader).getD []
  let cookies ← editCookies cookies op item limit
  if cookies.isEmpty then .ok (removeHeader headers "cookie")
  else do
    let rendered ← renderRequestCookies cookies limit
    .ok (setHeader headers "Cookie" rendered)

def removeRequestCookie (headers : Headers) (name : Str) : Headers :=
  let cookies := (((header headers "cookie").map parseCookieHeader).getD []).filter
    fun cookie => cookie.1 != name
  if cookies.isEmpty then removeHeader headers "cookie"
  else setHeader headers "Cookie"
    ("; ".toList.intercalate (cookies.map fun cookie => cookie.1 ++ '=' :: cookie.2))

def setCharset (headers : Headers) (charset : Str) : Headers :=
  let contentType := match header headers "content-type" with
    | some value => trim ((splitOn (· == ';') value).headD "text/plain")
    | none => "text/plain"
  setHeader headers "Content-Type" (contentType ++ "; charset=" ++ charset)

def removeContentTypePart (headers : Headers) (removeType : Bool) : Headers :=
  match header headers "content-type" with
  | none => headers
  | some value =>
    let parts := (splitOn (· == ';') (trim value)).map trim
    let parts := if removeType then [] :: parts.tail else parts.take 1
    let value := "; ".toList.intercalate parts
    if value.isEmpty then removeHeader headers "content-type"
    else setHeader headers "Content-Type" value

/-! ### Bodies -/

def applyBodyOp (config : ProxyConfig) (body : Bytes) (op : BodyOp) (item : ResolvedAction) :
    Except IoError Bytes :=
  let limit := ruleBodyLimit config
  match op with
  | .set value => RuleValues.bytes value item limit
  | .prepend value => do
    let remaining ← remainingCapacity body.length limit "body transformation"
    let next ← RuleValues.bytes value item remaining
    .ok (next ++ body)
  | .append value => do
    let remaining ← remainingCapacity body.length limit "body transformation"
    let next ← RuleValues.bytes value item remaining
    .ok (body ++ next)
  | .replace pattern replacement =>
    match fromUtf8 body with
    | some text => do
      let text ← RuleValues.replaceAll pattern text replacement limit
      .ok (utf8 text)
    | none => .ok body

/-- One operation of a `delete` action: the request, and whether its body changed. -/
def applyRequestDeleteOp (bodyAvailable : Bool) (req : RawRequest) (op : DeleteOp) :
    RawRequest × Bool :=
  match op with
  | .reqHeader name => ({ req with headers := removeHeader req.headers name }, false)
  | .reqCookie name => ({ req with headers := removeRequestCookie req.headers name }, false)
  | .reqCookies => ({ req with headers := removeHeader req.headers "cookie" }, false)
  | .reqType => ({ req with headers := removeContentTypePart req.headers true }, false)
  | .reqCharset => ({ req with headers := removeContentTypePart req.headers false }, false)
  | .reqBody => if bodyAvailable then ({ req with body := [] }, true) else (req, false)
  | .reqBodyPath path =>
    if bodyAvailable then
      let (body, changed) := RuleValues.deleteBodyPath req.headers req.body path
      ({ req with body }, changed)
    else (req, false)
  | _ => (req, false)

def applyRequestDelete (bodyAvailable : Bool) (req : RawRequest) (ops : List DeleteOp) :
    RawRequest × Bool :=
  ops.foldl (fun (req, changed) op =>
    let (req, opChanged) := applyRequestDeleteOp bodyAvailable req op
    (req, changed || opChanged)) (req, false)

def updateBodyHeaders (headers : Headers) (len : Nat) : Headers :=
  setHeader (removeHeader (removeHeader headers "transfer-encoding") "trailer")
    "Content-Length" (decimal len)

/-! ### Checks -/

def validateHttpMethod (method : Str) : Except IoError Unit :=
  if method.isEmpty || !method.all isHttpTokenChar then
    .error (invalidData "rule actions produced an invalid HTTP method")
  else .ok ()

/-- Check a field of a header block and count it. -/
def addHeaderBytes (limit bytes : Nat) (field : Str × Str) : Except IoError Nat :=
  let tooLong := outputLimitError "rule-produced header block" limit
  if field.1.isEmpty || !field.1.all isHttpTokenChar then
    .error (invalidData ("rule actions produced invalid HTTP header name `" ++ field.1 ++
      "`"))
  else if !field.2.all isHttpFieldValueChar then
    .error (invalidData ("rule actions produced an invalid value for HTTP header `" ++
      field.1 ++ "`"))
  else
    match ((checkedAdd bytes (utf8Len field.1)).bind (checkedAdd · (utf8Len field.2))).bind
        (checkedAdd · 4) with
    | none => .error tooLong
    | some bytes => if limit < bytes then .error tooLong else .ok bytes

def validateHeaderBlock (config : ProxyConfig) (headers : Headers) : Except IoError Unit :=
  if config.maxHeaderCount < headers.length then
    .error (invalidData ("rule actions produced " ++ decimal headers.length ++
      " headers, exceeding the configured limit of " ++ decimal config.maxHeaderCount))
  else do
    let _ ← headers.foldlM (addHeaderBytes (ruleHeaderLimit config)) 0
    .ok ()

/-! ### The actions of a request -/

section

variable (config : ProxyConfig) (bodyAvailable : Bool) (req : RawRequest)
  (actions : List ResolvedAction)

/-- One action: the request, and whether its body changed. -/
def applyRequestAction (item : ResolvedAction) : Except IoError (RawRequest × Bool) :=
  let text := fun value => resolveValueTextBounded value item (ruleHeaderLimit config)
  let withHeaders := fun headers => .ok ({ req with headers }, false)
  match item.action with
  | .reqHeader op => do withHeaders (← applyHeaderOp config req.headers op item)
  | .reqMethod value => do
    let method ← text value
    .ok ({ req with method := toAsciiUppercase method }, false)
  | .reqCookie op => do withHeaders (← applyReqCookie config req.headers op item)
  | .reqUa value => do withHeaders (setHeader req.headers "User-Agent" (← text value))
  | .reqReferer value => do withHeaders (setHeader req.headers "Referer" (← text value))
  | .reqAuth value => do
    withHeaders (setHeader req.headers "Authorization"
      ("Basic " ++ base64 (utf8 (← text value))))
  | .reqForwarded value => do
    withHeaders (setHeader req.headers "X-Forwarded-For" (forwardedForValue (← text value)))
  | .reqType value => do withHeaders (setHeader req.headers "Content-Type" (← text value))
  | .reqCharset value => do withHeaders (setCharset req.headers (← text value))
  | .reqBody op =>
    if bodyAvailable then do
      let body ← applyBodyOp config req.body op item
      .ok ({ req with body }, true)
    else .ok (req, false)
  | .delete ops => .ok (applyRequestDelete bodyAvailable req ops)
  | _ => .ok (req, false)

def applyRequestActionsInner : Except IoError RawRequest := do
  let (req, bodyChanged) ← actions.foldlM (fun (req, changed) item => do
    let (req, itemChanged) ← applyRequestAction config bodyAvailable req item
    .ok (req, changed || itemChanged)) (req, false)
  let req := if bodyAvailable && (bodyChanged || !req.body.isEmpty ||
      (header req.headers "content-length").isSome) then
    { req with headers := updateBodyHeaders req.headers req.body.length }
  else req
  validateHttpMethod req.method
  validateHeaderBlock config req.headers
  .ok req

def applyRequestActions : Except IoError RawRequest :=
  applyRequestActionsInner config true req actions

def applyStreamingRequestActions : Except IoError RawRequest :=
  applyRequestActionsInner config false req actions

end

end Actions

/-! ### What actions do to the fields of a name -/

/-- Does the operation take every field of this name out of the request? -/
def deletesField (name : Str) : DeleteOp → Bool
  | .reqHeader other => eqIgnoreAsciiCase other name
  | _ => false

/-- Does the action take every field of this name out of the request? -/
def removesField (name : Str) : Action → Bool
  | .reqHeader (.remove other) => eqIgnoreAsciiCase other name
  | .delete ops => ops.any (deletesField name)
  | _ => false

variable {headers headers' : Headers} {name : Str}

/-- Changing values leaves the names alone. -/
theorem atMostOne_of_forall₂
    (h : List.Forall₂ (fun field field' => field'.1 = field.1) headers headers') :
    AtMostOne headers' name ↔ AtMostOne headers name := by
  suffices (headers'.filter (named name)).length = (headers.filter (named name)).length by
    rw [AtMostOne, AtMostOne, this]
  induction h with
  | nil => rfl
  | @cons field field' headers headers' hfield _ ih =>
    have hnamed : named name field' = named name field := by rw [named, named, hfield]
    simp only [List.filter_cons, hnamed]
    split <;> simp [ih]

/-- The way a field is rewritten when nothing may be left of it. -/
theorem atMostOne_remove_or_set {other value} {empty : Bool}
    (hname : eqIgnoreAsciiCase name "content-length" = false) :
    AtMostOne (if empty then removeHeader headers name else setHeader headers other value)
      "content-length" ↔ AtMostOne headers "content-length" := by
  cases empty with
  | true => exact atMostOne_removeHeader.trans (or_iff_left (Bool.eq_false_iff.mp hname))
  | false => exact atMostOne_setHeader

theorem atMostOne_removeContentTypePart {removeType} :
    AtMostOne (removeContentTypePart headers removeType) "content-length" ↔
      AtMostOne headers "content-length" := by
  unfold removeContentTypePart
  split
  · rfl
  · exact atMostOne_remove_or_set (by decide)

variable {config : ProxyConfig} {item : ResolvedAction} {bodyAvailable : Bool}
  {req req' : RawRequest}

variable {changed : Bool} {actions : List ResolvedAction}

section Lengths

variable [RuleValues]

theorem atMostOne_applyHeaderOp {op} (h : applyHeaderOp config headers op item = .ok headers') :
    AtMostOne headers' name ↔ AtMostOne headers name ∨ removesField name (.reqHeader op) := by
  cases op with
  | set other value =>
    obtain ⟨text, -, h⟩ := do_eq_ok.mp h
    cases h
    simp [atMostOne_setHeader, removesField]
  | remove other =>
    cases h
    exact atMostOne_removeHeader
  | replace other pattern replacement =>
    have hnames : List.Forall₂ (fun field field' => field'.1 = field.1) headers
        headers' := by
      refine (mapM_eq_ok.mp h).imp fun field field' hfield => ?_
      split at hfield
      · obtain ⟨value, -, hfield⟩ := do_eq_ok.mp hfield
        cases hfield
        rfl
      · cases hfield
        rfl
    simp [atMostOne_of_forall₂ hnames, removesField]

theorem atMostOne_applyReqCookie {op} (h : applyReqCookie config headers op item = .ok headers') :
    AtMostOne headers' "content-length" ↔ AtMostOne headers "content-length" := by
  obtain ⟨cookies, -, h⟩ := do_eq_ok.mp h
  split at h
  · cases h
    exact atMostOne_removeHeader.trans (or_iff_left (by decide))
  · obtain ⟨rendered, -, h⟩ := do_eq_ok.mp h
    cases h
    exact atMostOne_setHeader

/-- Two lengths stay two lengths unless they are removed; the trailers stay as they are. -/
structure Edits (removes : Prop) (req req' : RawRequest) : Prop where
  lengths : AtMostOne req'.headers "content-length" ↔
    AtMostOne req.headers "content-length" ∨ removes
  trailers : req'.trailers = req.trailers

omit [RuleValues] in
theorem Edits.kept {removes} (hnot : ¬ removes)
    (h : AtMostOne req'.headers "content-length" ↔ AtMostOne req.headers "content-length")
    (htrailers : req'.trailers = req.trailers) : Edits removes req req' :=
  ⟨h.trans (or_iff_left hnot).symm, htrailers⟩

omit [RuleValues] in
theorem Edits.trans {p q mid} (h : Edits p req mid) (h' : Edits q mid req') :
    Edits (p ∨ q) req req' :=
  ⟨by rw [h'.lengths, h.lengths, or_assoc], h'.trailers.trans h.trailers⟩

theorem edits_applyRequestDeleteOp {op} : Edits (deletesField "content-length" op)
    req (applyRequestDeleteOp bodyAvailable req op).1 := by
  cases op with
  | reqHeader name => exact ⟨atMostOne_removeHeader, rfl⟩
  | reqCookie name => exact .kept false_ne_true (atMostOne_remove_or_set (by decide)) rfl
  | reqCookies =>
    exact .kept false_ne_true (atMostOne_removeHeader.trans (or_iff_left (by decide))) rfl
  | reqType | reqCharset => exact .kept false_ne_true atMostOne_removeContentTypePart rfl
  | reqBody | reqBodyPath path =>
    rw [applyRequestDeleteOp]
    split <;> exact .kept false_ne_true Iff.rfl rfl
  | _ => exact .kept false_ne_true Iff.rfl rfl

/-- The operations run one after the other, whatever they report about the body. -/
theorem fst_applyRequestDelete {ops} :
    (applyRequestDelete bodyAvailable req ops).1 =
      ops.foldl (fun req op => (applyRequestDeleteOp bodyAvailable req op).1) req := by
  suffices ∀ changed, (ops.foldl (fun state op =>
      ((applyRequestDeleteOp bodyAvailable state.1 op).1,
        state.2 || (applyRequestDeleteOp bodyAvailable state.1 op).2)) (req, changed)).1 =
      ops.foldl (fun req op => (applyRequestDeleteOp bodyAvailable req op).1) req from this false
  induction ops generalizing req with
  | nil => exact fun _ => rfl
  | cons op ops ih => exact fun _ => ih _

theorem edits_applyRequestDelete {ops} :
    Edits (ops.any (deletesField "content-length")) req
      (applyRequestDelete bodyAvailable req ops).1 := by
  rw [fst_applyRequestDelete]
  induction ops generalizing req with
  | nil => exact .kept false_ne_true Iff.rfl rfl
  | cons op ops ih =>
    rw [List.any_cons, Bool.or_eq_true]
    exact edits_applyRequestDeleteOp.trans ih

theorem edits_applyRequestAction
    (h : applyRequestAction config bodyAvailable req item = .ok (req', changed)) :
    Edits (removesField "content-length" item.action) req req' := by
  unfold applyRequestAction at h
  generalize item.action = action at h ⊢
  cases action with
  | reqHeader op =>
    obtain ⟨headers, hheaders, h⟩ := do_eq_ok.mp h
    cases h
    exact ⟨atMostOne_applyHeaderOp hheaders, rfl⟩
  | reqMethod value =>
    obtain ⟨method, -, h⟩ := do_eq_ok.mp h
    cases h
    exact .kept false_ne_true Iff.rfl rfl
  | reqCookie op =>
    obtain ⟨headers, hheaders, h⟩ := do_eq_ok.mp h
    cases h
    exact .kept false_ne_true (atMostOne_applyReqCookie hheaders) rfl
  | reqUa value | reqReferer value | reqAuth value | reqForwarded value | reqType value
  | reqCharset value =>
    obtain ⟨text, -, h⟩ := do_eq_ok.mp h
    cases h
    exact .kept false_ne_true atMostOne_setHeader rfl
  | reqBody op =>
    dsimp only at h
    split at h
    · obtain ⟨body, -, h⟩ := do_eq_ok.mp h
      cases h
      exact .kept false_ne_true Iff.rfl rfl
    · cases h
      exact .kept false_ne_true Iff.rfl rfl
  | delete ops =>
    have hedits : Edits _ req (applyRequestDelete bodyAvailable req ops).1 :=
      edits_applyRequestDelete
    rwa [Except.ok.inj h] at hedits
  | _ =>
    cases h
    exact .kept false_ne_true Iff.rfl rfl

/-- The run of a list of actions, from the step of one. -/
theorem edits_foldlM {changed'}
    (h : actions.foldlM (fun (req, changed) item => do
      let (req, itemChanged) ← applyRequestAction config bodyAvailable req item
      .ok (req, changed || itemChanged)) (req, changed) =
        (.ok (req', changed') : Except IoError (RawRequest × Bool))) :
    Edits (∃ item ∈ actions, removesField "content-length" item.action) req req' := by
  induction actions generalizing req changed with
  | nil =>
    cases h
    exact .kept (by simp) Iff.rfl rfl
  | cons item actions ih =>
    obtain ⟨⟨mid, midChanged⟩, hstep, hactions⟩ := do_eq_ok.mp h
    obtain ⟨⟨_, itemChanged⟩, hitem, hmid⟩ := do_eq_ok.mp hstep
    cases hmid
    rw [List.exists_mem_cons_iff]
    exact (edits_applyRequestAction hitem).trans (ih hactions)

omit [RuleValues] in
/-- Rewriting the body's fields leaves as many lengths as there were, or one. -/
theorem atMostOne_updateBodyHeaders {len} :
    AtMostOne (updateBodyHeaders headers len) "content-length" ↔
      AtMostOne headers "content-length" := by
  rw [updateBodyHeaders, atMostOne_setHeader, atMostOne_removeHeader, atMostOne_removeHeader,
    or_assoc, or_iff_left (by decide)]

theorem applyRequestActionsInner_spec
    (h : applyRequestActionsInner config bodyAvailable req actions = .ok req') :
    Edits (∃ item ∈ actions, removesField "content-length" item.action) req req' := by
  obtain ⟨⟨mid, changed⟩, hactions, h⟩ := do_eq_ok.mp h
  obtain ⟨_, -, h⟩ := do_eq_ok.mp h
  obtain ⟨_, -, h⟩ := do_eq_ok.mp h
  obtain ⟨hlengths, htrailers⟩ := edits_foldlM hactions
  cases h
  split
  · exact ⟨atMostOne_updateBodyHeaders.trans hlengths, htrailers⟩
  · exact ⟨hlengths, htrailers⟩

end Lengths

end RsProxy.Engine
