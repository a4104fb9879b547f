import RsProxy.Net.Head
import RsProxy.Net.Body
import RsProxy.Data.Results

/-!
# HTTP/1 responses

The head of a response as it is read from an upstream, and the two ways in which one is written to a
client: whole, with a body whose length the writer declares itself, and as a head alone, with the
length its header list declares. A client sees a list of `Output`s.
-/

namespace RsProxy.Net

open Text Io List
open Rules (isHttpTokenChar usizeMax)
open Data (do_eq_ok forM_eq_ok)

/-! ### What a status allows -/

def isInformational (status : Nat) : Bool := 100 ≤ status && status ≤ 199

/-- Is an upstream response with this status framed as carrying a body? -/
def responseHasFramedBody (method : Str) (status : Nat) : Bool :=
  !eqIgnoreAsciiCase method "HEAD" &&
    !(eqIgnoreAsciiCase method "CONNECT" && (200 ≤ status && status < 300)) &&
    !(isInformational status || status = 204 || status = 304)

def statusCanSendContent (status : Nat) : Bool :=
  !(isInformational status || status = 204 || status = 205 || status = 304)

def responseCanSendContent (method : Str) (status : Nat) : Bool :=
  !eqIgnoreAsciiCase method "HEAD" &&
    !(eqIgnoreAsciiCase method "CONNECT" && (200 ≤ status && status < 300)) &&
    statusCanSendContent status

variable {status : Nat}

theorem framed_of_canSendContent {method} (h : responseCanSendContent method status) :
    responseHasFramedBody method status := by
  rw [responseCanSendContent, Bool.and_eq_true] at h
  rw [responseHasFramedBody, Bool.and_eq_true]
  refine ⟨h.1, ?_⟩
  have hstatus := h.2
  simp only [statusCanSendContent, Bool.not_eq_true', Bool.or_eq_false_iff] at hstatus ⊢
  exact ⟨hstatus.1.1, hstatus.2⟩

/-! ### Reading a head -/

structure RawResponseHead where
  version : Str
  status : Nat
  reason : Str
  headers : Headers
deriving DecidableEq

/-- At most three pieces of a status line. -/
def statusLineParts (line : Str) : Str × Option Str × Option Str :=
  match splitOnce [' '] line with
  | none => (line, none, none)
  | some (version, rest) =>
    match splitOnce [' '] rest with
    | none => (version, some rest, none)
    | some (status, reason) => (version, some status, some reason)

def parseResponseHead (head : Bytes) (maxHeaderCount : Nat) : Except IoError RawResponseHead := do
  let lines := splitStr "\r\n" (fromUtf8Lossy head)
  let (version, status, reason) := statusLineParts (lines.headD [])
  let headers ← parseHeadersLimited lines.tail maxHeaderCount
  .ok ⟨version, (parseU16 (status.getD "502")).getD 502, reason.getD [], headers⟩

def emptyResponse : IoError := ⟨.unexpectedEof, "empty response"⟩

/-- The bytes of a head, if there are any, as a head. -/
def responseHeadOf (maxHeaderCount : Nat) : Option Bytes → Except IoError RawResponseHead
  | none => .error emptyResponse
  | some head => parseResponseHead head maxHeaderCount

def readResponseHead {σ : Type} [Read σ] (max maxHeaderCount : Nat) : ReadM σ RawResponseHead := do
  let head ← readHead max
  liftExcept (responseHeadOf maxHeaderCount head)

def readResponseHeadBuffered {σ : Type} [BufRead σ] (max maxHeaderCount : Nat) :
    ReadM σ RawResponseHead := do
  let head ← readHeadBuffered max
  liftExcept (responseHeadOf maxHeaderCount head)

theorem bind_responseHeadOf {σ} {p : ReadM σ (Option Bytes)} {s text head maxHeaderCount}
    (hp : (p s).1 = .ok (some text)) (hparse : parseResponseHead text maxHeaderCount = .ok head) :
    (p >>= fun bytes => liftExcept (responseHeadOf maxHeaderCount bytes)) s =
      (.ok head, (p s).2) := by
  have hok : p s = (.ok (some text), (p s).2) := Prod.ext hp rfl
  rw [ReadM.bind_ok hok, liftExcept_apply, responseHeadOf, hparse]

section Found

variable {text rest : Bytes} {max maxHeaderCount : Nat} {head : RawResponseHead}
  (hfirst : ¬ terminator <:+: text ++ [13, 10, 13]) (hmax : (text ++ terminator).length ≤ max)
  (hparse : parseResponseHead text maxHeaderCount = .ok head)

include hfirst hmax hparse

/-- A head that the limits hold is taken off the front of a connection. -/
theorem readResponseHead_found {σ} [Read σ] {s : σ} (hs : Delivers s (text ++ terminator ++ rest)) :
    ∃ s', readResponseHead max maxHeaderCount s = (.ok head, s') ∧ Delivers s' rest := by
  rw [length_append] at hmax
  have hread := readHead_follows hs max
  rw [append_assoc, headOutcome_found hfirst hmax] at hread
  exact ⟨(readHead max s).2, bind_responseHeadOf hread.1 hparse, hread.2⟩

theorem readResponseHeadBuffered_found {τ} [BufRead τ] {t : τ}
    (ht : BufDelivers t (text ++ terminator ++ rest)) :
    ∃ t', readResponseHeadBuffered max maxHeaderCount t = (.ok head, t') ∧ BufDelivers t' rest := by
  rw [length_append] at hmax
  have hread := readHeadBuffered_follows ht max
  rw [append_assoc, headOutcome_found hfirst hmax] at hread
  exact ⟨(readHeadBuffered max t).2, bind_responseHeadOf hread.1 hparse, hread.2⟩

end Found

/-! ### Writing to a client -/

/-- One write to a client: a head, as it goes out, or bytes behind it. -/
inductive Output where
  | head (head : RawResponseHead)
  | data (bytes : Bytes)
deriving DecidableEq

/-- The bytes of a write. -/
def Output.wire : Output → Bytes
  | .head line =>
    utf8 (line.version ++ ' ' :: decimal line.status ++ ' ' :: line.reason ++ "\r\n") ++
      line.headers.flatMap (fun field => utf8 (field.1 ++ ": " ++ field.2 ++ "\r\n")) ++
      crlf
  | .data bytes => bytes

/-- The phrase that goes with a status. Every phrase can stand in a status line. -/
class ReasonPhrases where
  phrase : Nat → Str
  plain : ∀ status, (phrase status).all isHttpFieldValueChar

def validateResponseField (field : Str × Str) : Except IoError Unit :=
  if field.1.isEmpty || !field.1.all isHttpTokenChar then
    .error (invalidInput ("invalid HTTP response header name `" ++ field.1 ++ "`"))
  else if !field.2.all isHttpFieldValueChar then
    .error (invalidInput
      ("invalid value for HTTP response header `" ++ field.1 ++ "`"))
  else .ok ()

def validateResponseParts (version : Str) (status : Nat) (reason : Str) (headers : Headers) :
    Except IoError Unit :=
  if ¬ (version = "HTTP/1.0" ∨ version = "HTTP/1.1") then
    .error (invalidInput ("invalid HTTP response version `" ++ version ++ "`"))
  else if ¬ (100 ≤ status ∧ status ≤ 599) then
    .error (invalidInput ("invalid HTTP response status `" ++ decimal status ++ "`"))
  else if !reason.all isHttpFieldValueChar then
    .error (invalidInput "invalid HTTP response reason phrase")
  else headers.forM validateResponseField

def invalidContentLength : IoError :=
  invalidInput "invalid HTTP response Content-Length header"

/-- Take another length that is declared. -/
def declareLength (length : Option Nat) (value : Str) : Except IoError (Option Nat) :=
  if value.isEmpty || !value.all Char.isDigit then .error invalidContentLength
  else
    match parseU64 value with
    | none => .error invalidContentLength
    | some parsed =>
      if length.any (· != parsed) then
        .error (invalidInput "conflicting HTTP response Content-Length headers")
      else .ok (some parsed)

/-- The length a header list declares, if it declares one. -/
def validateStreamingFraming (headers : Headers) : Except IoError (Option Nat) := do
  let length ← (listElements headers "content-length").foldlM declareLength none
  if length.isSome && headers.any (named "transfer-encoding") then
    .error (invalidInput
      "HTTP response cannot contain both Content-Length and Transfer-Encoding")
  else .ok length

/-- Fields the writer of a whole response fills in itself or keeps to itself. -/
def isCompleteResponseManagedHeader (name : Str) : Bool :=
  ["connection", "content-length", "keep-alive", "proxy-connection", "te", "trailer",
    "transfer-encoding", "upgrade"].any fun managed => eqIgnoreAsciiCase name managed.toList

def matchesBodyFramingHeader (name : Str) : Bool :=
  ["content-length", "trailer", "transfer-encoding"].any fun framing =>
    eqIgnoreAsciiCase name framing.toList

def connectionField (keepAlive : Bool) : Str × Str :=
  ("Connection", if keepAlive then "keep-alive" else "close")

/-- The length field of a response: what is declared, or none where the status has no content. -/
def lengthField (status : Nat) (length : Option Nat) : Headers :=
  if statusCanSendContent status then
    length.toList.map fun length => ("Content-Length", decimal length)
  else if status = 205 then [("Content-Length", "0")]
  else []

def writeResponseWithVersionAndConnection (version : Str) (status : Nat) (reason : Str)
    (headers : Headers) (body : Bytes) (keepAlive : Bool) : Except IoError (List Output) := do
  validateResponseParts version status reason headers
  if !statusCanSendContent status && !body.isEmpty then
    .error (invalidInput ("HTTP status " ++ decimal status ++
      " does not allow response content"))
  else
    let fields := headers.filter fun field => !isCompleteResponseManagedHeader field.1
    .ok [.head ⟨version, status, reason,
      fields ++ lengthField status (some body.length) ++ [connectionField keepAlive]⟩, .data body]

/-- The reason phrase a head goes out with. -/
def reasonOf [ReasonPhrases] (head : RawResponseHead) : Str :=
  if head.reason.isEmpty then ReasonPhrases.phrase head.status else head.reason

/-- Does a head with this status go out with the field as it is in its list? -/
def isWritten (status : Nat) (field : Str × Str) : Bool :=
  !(named "connection" field || named "content-length" field ||
    (!statusCanSendContent status && matchesBodyFramingHeader field.1))

def writeResponseHeadWithConnection [ReasonPhrases] (head : RawResponseHead) (headers : Headers)
    (keepAlive : Bool) : Except IoError Output := do
  validateResponseParts head.version head.status (reasonOf head) headers
  let length ← validateStreamingFraming headers
  .ok (.head ⟨head.version, head.status, reasonOf head,
    headers.filter (isWritten head.status) ++ lengthField head.status length ++
      [connectionField keepAlive]⟩)

/-! ### Which heads can be written -/

/-- A field that can stand in a header section. -/
structure FieldOk (field : Str × Str) : Prop where
  nonempty : field.1 ≠ []
  token : field.1.all isHttpTokenChar
  value : field.2.all isHttpFieldValueChar

variable {field : Str × Str}

theorem validateResponseField_ok_iff : validateResponseField field = .ok () ↔ FieldOk field := by
  unfold validateResponseField
  split
  next h =>
    refine iff_of_false nofun fun hok => ?_
    rw [Bool.or_eq_true, List.isEmpty_iff, hok.token] at h
    exact h.elim hok.nonempty nofun
  next h =>
    rw [Bool.or_eq_true, not_or, List.isEmpty_iff, Bool.not_eq_true', Bool.not_eq_false] at h
    split
    next hvalue =>
      refine iff_of_false nofun fun hok => ?_
      rw [hok.value] at hvalue
      cases hvalue
    next hvalue =>
      rw [Bool.not_eq_true', Bool.not_eq_false] at hvalue
      exact iff_of_true rfl ⟨h.1, h.2, hvalue⟩

variable {headers : Headers} {version reason : Str}

theorem validateResponseParts_ok_iff :
    validateResponseParts version status reason headers = .ok () ↔
      (version = "HTTP/1.0" ∨ version = "HTTP/1.1") ∧ (100 ≤ status ∧ status ≤ 599) ∧
      reason.all isHttpFieldValueChar ∧ ∀ field ∈ headers, FieldOk field := by
  unfold validateResponseParts
  split
  next h => exact iff_of_false nofun fun hok => h hok.1
  next h =>
    split
    next h' => exact iff_of_false nofun fun hok => h' hok.2.1
    next h' =>
      split
      next hreason =>
        refine iff_of_false nofun fun hok => ?_
        rw [hok.2.2.1] at hreason
        cases hreason
      next hreason =>
        rw [not_not] at h h'
        rw [Bool.not_eq_true', Bool.not_eq_false] at hreason
        simp only [forM_eq_ok, validateResponseField_ok_iff]
        exact ⟨fun hall => ⟨h, h', hreason, hall⟩, fun hok => hok.2.2.2⟩

variable {length : Option Nat}

theorem writeResponseHeadWithConnection_ok [ReasonPhrases] {head}
    (hvalid : validateResponseParts head.version head.status (reasonOf head) headers = .ok ())
    (hlength : validateStreamingFraming headers = .ok length) {keepAlive} :
    writeResponseHeadWithConnection head headers keepAlive =
      .ok (.head ⟨head.version, head.status, reasonOf head,
        headers.filter (isWritten head.status) ++ lengthField head.status length ++
          [connectionField keepAlive]⟩) := by
  rw [writeResponseHeadWithConnection, hvalid, hlength]
  rfl

/-- A head that is written declares what its header list does. -/
theorem exists_written [ReasonPhrases] {head keepAlive output}
    (h : writeResponseHeadWithConnection head headers keepAlive = .ok output) :
    ∃ length, validateStreamingFraming headers = .ok length ∧
      output = .head ⟨head.version, head.status, reasonOf head,
        headers.filter (isWritten head.status) ++ lengthField head.status length ++
          [connectionField keepAlive]⟩ := by
  obtain ⟨⟨⟩, -, h⟩ := do_eq_ok.mp h
  obtain ⟨length, hlength, h⟩ := do_eq_ok.mp h
  exact ⟨length, hlength, (Except.ok.inj h).symm⟩

theorem writeResponse_ok (hvalid : validateResponseParts version status reason headers = .ok ())
    (hcontent : statusCanSendContent status) (body : Bytes) (keepAlive : Bool) :
    writeResponseWithVersionAndConnection version status reason headers body keepAlive =
      .ok [.head ⟨version, status, reason,
        headers.filter (fun field => !isCompleteResponseManagedHeader field.1) ++
          lengthField status (some body.length) ++ [connectionField keepAlive]⟩, .data body] := by
  rw [writeResponseWithVersionAndConnection, hvalid, hcontent]
  rfl

theorem lengthField_cases :
    lengthField status length = [] ∨
      ∃ n, lengthField status length = [("Content-Length".toList, decimal n)] := by
  unfold lengthField
  split
  · cases length with
    | none => exact .inl rfl
    | some n => exact .inr ⟨n, rfl⟩
  · split
    · exact .inr ⟨0, rfl⟩
    · exact .inl rfl

theorem mem_lengthField (h : field ∈ lengthField status length) :
    ∃ n, field = ("Content-Length".toList, decimal n) := by
  rcases lengthField_cases with hnone | ⟨n, hone⟩
  · rw [hnone] at h
    cases h
  · rw [hone, mem_singleton] at h
    exact ⟨n, h⟩

theorem length_lengthField_le : (lengthField status length).length ≤ 1 := by
  rcases lengthField_cases with hnone | ⟨n, hone⟩
  · rw [hnone]
    decide
  · rw [hone]
    rfl

theorem isCompleteResponseManagedHeader_congr {name other} (h : eqIgnoreAsciiCase name other) :
    isCompleteResponseManagedHeader name = isCompleteResponseManagedHeader other := by
  simp only [eqIgnoreAsciiCase, beq_iff_eq] at h
  simp only [isCompleteResponseManagedHeader, eqIgnoreAsciiCase, h]

/-- No field is kept that the writer of a whole response manages. -/
theorem blind_unmanaged {name} (h : isCompleteResponseManagedHeader name) :
    Blind (fun field => !isCompleteResponseManagedHeader field.1) name := by
  intro field hnamed
  show (!isCompleteResponseManagedHeader field.1) = false
  rw [isCompleteResponseManagedHeader_congr hnamed, h]
  rfl

theorem isHttpFieldValueChar_decimal {length} : (decimal length).all isHttpFieldValueChar := by
  refine all_eq_true.mpr fun c hc => ?_
  have hrange := range_of_digitOf (by decide) ((isNumeral_decimal length).2 c hc)
  have hspace : ' ' ≤ c := by
    change 32 ≤ c.toNat
    omega
  have hdelete : c ≠ '\x7F' := by
    rintro rfl
    revert hrange
    decide
  simp [isHttpFieldValueChar, hspace, hdelete]

theorem reasonOf_plain [ReasonPhrases] {head} (h : head.reason.all isHttpFieldValueChar) :
    (reasonOf head).all isHttpFieldValueChar := by
  unfold reasonOf
  split
  · exact ReasonPhrases.plain _
  · exact h

end RsProxy.Net
