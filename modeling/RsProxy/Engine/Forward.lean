import RsProxy.Engine.RequestActions
import RsProxy.Engine.ChunkedRequest

/-!
# The request an HTTP/1 upstream gets

`forwardHeaders` turns the header list of a request, after its rule actions, into the one that goes
to the upstream, and the body follows it either buffered or relayed from the client. `Framed` says
that one header announces the body, and that it tells the truth.
-/

namespace RsProxy.Engine

open Text Io Net List Bool
open Data (do_eq_ok)
open Rules (Action BodyOp ResolvedAction Value usizeMax)

/-! ### The header list -/

section

variable (host : Str) (headers : Headers) (request : RawRequest)

def connectionHasToken (token : Str) : Bool :=
  match header headers "connection" with
  | some value => (splitOn (· == ',') value).any fun part => eqIgnoreAsciiCase (trim part) token
  | none => false

def isWebsocketRequest : Bool :=
  (match header headers "upgrade" with
    | some value => eqIgnoreAsciiCase value "websocket"
    | none => false) && connectionHasToken headers "upgrade"

def prepareUpstreamRequestFraming : Headers :=
  let hadContentLength := (header headers "content-length".toList).isSome
  let headers := removeHeader headers "transfer-encoding"
  let headers := removeHeader headers "trailer"
  if request.trailers.isEmpty then
    if !request.body.isEmpty || hadContentLength then
      setHeader headers "Content-Length" (decimal request.body.length)
    else removeHeader headers "content-length"
  else
    let headers := removeHeader headers "content-length"
    let headers := setHeader headers "Transfer-Encoding" "chunked"
    setHeader headers "Trailer"
      (", ".toList.intercalate (request.trailers.map fun field => field.1))

def prepareStreamingUpstreamRequestFraming (framing : RequestBodyFraming) : Headers :=
  let headers := removeHeader headers "content-length"
  let headers := removeHeader headers "transfer-encoding"
  match framing with
  | .none => removeHeader headers "trailer"
  | .contentLength length =>
    setHeader (removeHeader headers "trailer") "Content-Length" (decimal length)
  | .chunked => setHeader headers "Transfer-Encoding" "chunked"

/-- The header list without the fields of the client's connection, for the authority of the URL. -/
def forwardBase : Headers :=
  let websocket := isWebsocketRequest request.headers
  let headers := removeHeader request.headers "expect"
  let headers := removeHeader headers "proxy-connection"
  let headers := removeHeader headers "proxy-authorization"
  let headers := if websocket then headers else removeHeader headers "connection"
  let headers := setHeader headers "Host" host
  if websocket then setHeader headers "Connection" "Upgrade" else headers

/-- The header list of the forwarded request; `streaming` is the framing of a body that is
relayed. -/
def forwardHeaders (streaming : Option RequestBodyFraming) : Headers :=
  match streaming with
  | some framing => prepareStreamingUpstreamRequestFraming (forwardBase host request) framing
  | none => prepareUpstreamRequestFraming (forwardBase host request) request

def acceptsSse : Bool :=
  match header headers "accept" with
  | some value => (splitOn (· == ',') value).any fun item =>
      match (splitOn (· == ';') item).head? with
      | some media => eqIgnoreAsciiCase (trim media) "text/event-stream"
      | none => false
  | none => false

/-- May the request go on a pooled connection? `direct` says that there are no rules, that the route
is direct and that the scheme is `http`. -/
def poolEligible (direct : Bool) (request : RawRequest) (actions : List ResolvedAction) : Bool :=
  direct && actions.isEmpty &&
    (request.method = "GET" || request.method = "HEAD") &&
    eqIgnoreAsciiCase request.version "HTTP/1.1" && request.body.isEmpty &&
    request.trailers.isEmpty && (header request.headers "expect").isNone &&
    !isWebsocketRequest request.headers && !acceptsSse request.headers

/-- The fields written on a connection of its own. -/
def unpooledHeaders (headers : Headers) : Headers :=
  if isWebsocketRequest request.headers then headers
  else setHeader headers "Connection" "close"

/-- The fields written on a connection from the pool. -/
def pooledHeaders : Headers :=
  (headers.filter fun field => !named "connection".toList field) ++
    [("Connection".toList, "keep-alive".toList)]

end

/-! ### The body -/

/-- What is written behind the head of a request that was read whole. -/
def bufferedBody (request : RawRequest) : Bytes :=
  if request.trailers.isEmpty then request.body
  else writeChunkedRequest request.body request.trailers

def requestStreamChunkSize : Nat := 16 * 1024

section Relay

variable {σ : Type} [Read σ]

/-- The relay of a body that was not read whole: what it writes to the upstream, which takes
everything, and how it ends; `none` when the rounds ran out first. -/
def relayLoop (limits : HeaderLimits) (chunked : Bool) :
    (rounds : Nat) → RequestBodyReader → σ → (Bytes × Option (Except IoError Headers)) × σ
  | 0, _, s => (([], none), s)
  | rounds + 1, reader, s =>
    match reader.read requestStreamChunkSize limits s with
    | (.error e, s) => (([], some (.error e)), s)
    | (.ok (.finish trailers, _), s) =>
      ((finishRequestBody chunked trailers, some (.ok trailers)), s)
    | (.ok (.data bytes, reader), s) =>
      let (rest, s) := relayLoop limits chunked rounds reader s
      ((writeRequestData bytes chunked ++ rest.1, rest.2), s)

def relayRequestBody (limits : HeaderLimits) (pre : Bytes) (reader : RequestBodyReader)
    (rounds : Nat) (s : σ) : (Bytes × Option (Except IoError Headers)) × σ :=
  let chunked := decide (reader.framing = .chunked)
  let (rest, s) := relayLoop limits chunked rounds reader s
  ((writeRequestData pre chunked ++ rest.1, rest.2), s)

/-! ### A request on its way -/

/-- A request as it goes out: its header list, and the bytes behind its head. -/
structure SentRequest where
  headers : Headers
  sent : Bytes
deriving DecidableEq

/-- The limits the body reader works under. -/
def ProxyConfig.headerLimits (config : ProxyConfig) : HeaderLimits :=
  ⟨config.maxHeaderSize, config.maxHeaderCount⟩

/-- Send a request that was read whole. -/
def sendBuffered [RuleValues] (config : ProxyConfig) (direct : Bool) (host : Str)
    (request : RawRequest) (actions : List ResolvedAction) : Except IoError SentRequest := do
  let request ← applyRequestActions config request actions
  validateRequestTrailers request.trailers config.maxHeaderSize config.maxHeaderCount
  let headers := forwardHeaders host request none
  if poolEligible direct request actions then .ok ⟨pooledHeaders headers, []⟩
  else .ok ⟨unpooledHeaders request headers, bufferedBody request⟩

/-- Send a request whose body did not fit the buffer. -/
def sendStreamed [RuleValues] (config : ProxyConfig) (host : Str) (request : RawRequest)
    (actions : List ResolvedAction) (pre : Bytes) (reader : RequestBodyReader) (rounds : Nat)
    (s : σ) : Option (Except IoError SentRequest) × σ :=
  match applyStreamingRequestActions config request actions with
  | .error e => (some (.error e), s)
  | .ok request =>
    match validateRequestTrailers request.trailers config.maxHeaderSize config.maxHeaderCount with
    | .error e => (some (.error e), s)
    | .ok () =>
      let headers := unpooledHeaders request (forwardHeaders host request (some reader.framing))
      let (relayed, s) := relayRequestBody config.headerLimits pre reader rounds s
      (relayed.2.map fun verdict => verdict.map fun _ => ⟨headers, relayed.1⟩, s)

/-- Read the body of a request and send the request on to an HTTP/1 upstream; `none` when the rounds
of the relay ran out. -/
def sendRequest [RuleValues] (config : ProxyConfig) (direct : Bool) (host : Str)
    (head : RequestHead) (actions : List ResolvedAction) (rounds : Nat) (s : σ) :
    Option (Except IoError SentRequest) × σ :=
  if !head.body.hasBody then (some (sendBuffered config direct host head.request actions), s)
  else
    match readRequestBodyBounded head.body config.bodyBufferLimit config.headerLimits s with
    | (.error e, s) => (some (.error e), s)
    | (.ok (.complete body trailers), s) =>
      (some (sendBuffered config direct host { head.request with body, trailers } actions), s)
    | (.ok (.overflow pre reader), s) =>
      sendStreamed config host head.request actions pre reader rounds s

end Relay

/-! ### One header that tells the truth -/

/-- One field frames the bytes sent behind the head, or there is neither a field nor a byte. -/
inductive Framed (headers : Headers) (sent : Bytes) : Prop
  | length {name}
      (length : headers.filter (named "content-length") = [(name, decimal sent.length)])
      (coding : headers.filter (named "transfer-encoding") = [])
  | chunked {name fragments trailers}
      (length : headers.filter (named "content-length") = [])
      (coding : headers.filter (named "transfer-encoding".toList) = [(name, "chunked".toList)])
      (wire : sent = chunkedBody fragments trailers)
  | none (length : headers.filter (named "content-length") = [])
      (coding : headers.filter (named "transfer-encoding") = []) (nothing : sent = [])

variable {headers : Headers} {sent : Bytes} {headers' : Headers}

section

variable
  (hlength : headers'.filter (named "content-length") = headers.filter (named "content-length"))
  (hcoding : headers'.filter (named "transfer-encoding") =
    headers.filter (named "transfer-encoding"))

include hlength hcoding

/-- Framing is read off the two kinds of fields alone. -/
theorem Framed.of_filter (h : Framed headers sent) :
    Framed headers' sent := by
  cases h with
  | length h1 h2 => exact .length (hlength.trans h1) (hcoding.trans h2)
  | chunked h1 h2 h3 => exact .chunked (hlength.trans h1) (hcoding.trans h2) h3
  | none h1 h2 h3 => exact .none (hlength.trans h1) (hcoding.trans h2) h3

theorem Framed.congr :
    Framed headers' sent ↔ Framed headers sent :=
  ⟨.of_filter hlength.symm hcoding.symm, .of_filter hlength hcoding⟩

end

theorem lengths_forwardBase {host request} :
    (forwardBase host request).filter (named "content-length") =
      request.headers.filter (named "content-length") := by
  unfold forwardBase
  cases isWebsocketRequest request.headers <;>
    simp (disch := decide) only [filter_setHeader_of_ne, filter_removeHeader_of_ne, if_true,
      false_eq_true, if_false]

variable {request : RawRequest}

theorem Framed.unpooledHeaders_iff :
    Framed (unpooledHeaders request headers) sent ↔ Framed headers sent := by
  unfold unpooledHeaders
  split
  · exact Iff.rfl
  · apply Framed.congr <;> exact filter_setHeader_of_ne (by decide) _ _

theorem filter_pooledHeaders_of_ne {name} (h : eqIgnoreAsciiCase "connection" name = false) :
    (pooledHeaders headers).filter (named name) = headers.filter (named name) := by
  have hlast : named name ("Connection", "keep-alive") = false := h
  rw [pooledHeaders, filter_append, ← removeHeader, filter_removeHeader_of_ne h,
    filter_cons_of_neg (by simpa using hlast), filter_nil, append_nil]

theorem Framed.pooledHeaders_iff : Framed (pooledHeaders headers) sent ↔ Framed headers sent := by
  apply Framed.congr <;> exact filter_pooledHeaders_of_ne (by decide)

/-! ### A body that was read whole -/

/-- A buffered request is framed unless two lengths were left in its header list. -/
theorem framed_buffered_iff {host} :
    Framed (forwardHeaders host request none) (bufferedBody request) ↔
      request.trailers ≠ [] ∨ AtMostOne request.headers "content-length" := by
  rw [forwardHeaders, prepareUpstreamRequestFraming, bufferedBody, AtMostOne]
  cases htrailers : request.trailers with
  | cons field fields =>
    refine iff_of_true ?_ (.inl (cons_ne_nil field fields))
    rw [if_neg (by simp), writeChunkedRequest_eq]
    refine Framed.chunked ?_ ((filter_setHeader_of_ne (by decide) _ _).trans
      (filter_setHeader_of_nil (by decide) ?_ _)) rfl
    · rw [filter_setHeader_of_ne (by decide), filter_setHeader_of_ne (by decide),
        filter_removeHeader_self]
    · rw [filter_removeHeader_of_ne (by decide), filter_removeHeader_of_ne (by decide),
        filter_removeHeader_self]
  | nil =>
    rw [isEmpty_nil, if_pos rfl]
    simp only [or_eq_true, header_isSome_iff, lengths_forwardBase]
    generalize hcleared : removeHeader (removeHeader (forwardBase host request)
      "transfer-encoding") "trailer" = cleared
    have hlengths : cleared.filter (named "content-length") =
        request.headers.filter (named "content-length") := by
      rw [← hcleared, filter_removeHeader_of_ne (by decide), filter_removeHeader_of_ne (by decide),
        lengths_forwardBase]
    have hno_coding : cleared.filter (named "transfer-encoding") = [] := by
      rw [← hcleared, filter_removeHeader_of_ne (by decide), filter_removeHeader_self]
    -- With no length among the fields, one is added or none is needed; with some, only the first
    -- of them is brought in line with the body.
    cases hfields : request.headers.filter (named "content-length") with
    | nil =>
      refine iff_of_true ?_ (.inr (Nat.zero_le 1))
      split
      · apply Framed.length
        · exact filter_setHeader_of_nil (by decide) (hlengths.trans hfields) _
        · rw [filter_setHeader_of_ne (by decide), hno_coding]
      next hnot =>
        apply Framed.none
        · exact filter_removeHeader_self _ _
        · rw [filter_removeHeader_of_ne (by decide), hno_coding]
        · simpa using hnot
    | cons field rest =>
      have hcase : eqIgnoreAsciiCase "Content-Length" "content-length" := by decide
      have hlast := filter_setHeader_of_cons hcase (hlengths.trans hfields)
        (decimal request.body.length)
      rw [if_pos (.inr (cons_ne_nil _ _))]
      constructor
      · intro h
        refine .inr ?_
        cases h with
        | length h =>
          rw [hlast] at h
          rw [(cons.inj h).2]
          exact le_rfl
        | chunked h | none h =>
          rw [hlast] at h
          cases h
      · intro h
        have hrest : rest = [] := by
          simpa using h
        subst hrest
        apply Framed.length hlast
        rw [filter_setHeader_of_ne (by decide), hno_coding]

variable {host : Str} {actions : List ResolvedAction}

theorem sendBuffered_framed_iff [RuleValues] {config direct sent}
    (h : sendBuffered config direct host request actions = .ok sent) :
    Framed sent.headers sent.sent ↔ request.trailers ≠ [] ∨
      AtMostOne request.headers "content-length" ∨
      ∃ item ∈ actions, removesField "content-length" item.action := by
  obtain ⟨request', hactions, h⟩ := do_eq_ok.mp h
  obtain ⟨_, -, h⟩ := do_eq_ok.mp h
  obtain ⟨hlengths, htrailers⟩ := applyRequestActionsInner_spec hactions
  rw [← hlengths, ← htrailers, ← framed_buffered_iff]
  split at h
  next hpooled =>
    -- A pooled request has neither a body nor trailers.
    cases h
    simp only [poolEligible, and_eq_true] at hpooled
    have hbody : request'.body = [] := by simpa using hpooled.1.1.1.1.2
    have hnone : request'.trailers = [] := by simpa using hpooled.1.1.1.2
    have hnothing : bufferedBody request' = [] := by
      rw [bufferedBody, hnone, hbody]
      rfl
    rw [hnothing]
    exact Framed.pooledHeaders_iff
  · cases h
    exact Framed.unpooledHeaders_iff

/-! ### A body that is relayed -/

variable {trailers : Headers}

/-- Without a coding the data is passed on as it is. -/
theorem relayedRequestBody_false (fragments : List Bytes) (trailers : Headers) :
    relayedRequestBody false fragments trailers = fragments.flatten := by
  have hdata : ∀ data, writeRequestData data false = data := by
    intro data
    cases data <;> simp [writeRequestData]
  simp [relayedRequestBody, finishRequestBody, hdata]

theorem length_decodeBody_contentLength {limits length bs rest}
    (h : (decodeBody limits (.contentLength length) bs).verdict = .ok (trailers, rest)) :
    (decodeBody limits (.contentLength length) bs).data.length = length := by
  cases length with
  | zero => rfl
  | succ n =>
    change (decodeFrom limits (.contentLength (n + 1)) bs).data.length = n + 1
    change (decodeFrom limits (.contentLength (n + 1)) bs).verdict = .ok (trailers, rest) at h
    rw [decodeFrom] at h ⊢
    split_ifs at h
    rw [if_neg ‹_›]
    exact length_take_of_le (by omega)

variable {framing : RequestBodyFraming}

theorem decodeBody_of_not_hasBody {limits} (h : framing.hasBody = false) {bs} :
    decodeBody limits framing bs = ⟨[], .ok ([], bs)⟩ := by
  cases framing with
  | none => rfl
  | chunked => cases h
  | contentLength length =>
    cases length with
    | zero => rfl
    | succ n => cases h

/-- A relayed request is framed as its client framed it, whatever the actions did to the fields. -/
theorem framed_streamed {fragments}
    (hlength : ∀ length, framing = .contentLength length → fragments.flatten.length = length)
    (hnone : framing = .none → fragments.flatten = []) :
    Framed (forwardHeaders host request (some framing))
      (relayedRequestBody (decide (framing = .chunked)) fragments trailers) := by
  rw [forwardHeaders]
  unfold prepareStreamingUpstreamRequestFraming
  have hno_length : (removeHeader (removeHeader (forwardBase host request) "content-length")
      "transfer-encoding").filter (named "content-length") = [] := by
    rw [filter_removeHeader_of_ne (by decide), filter_removeHeader_self]
  have hno_coding := filter_removeHeader_self
    (removeHeader (forwardBase host request) "content-length") "transfer-encoding"
  cases framing with
  | none =>
    apply Framed.none
    · rw [filter_removeHeader_of_ne (by decide), hno_length]
    · rw [filter_removeHeader_of_ne (by decide), hno_coding]
    · rw [decide_eq_false (by simp), relayedRequestBody_false, hnone rfl]
  | contentLength length =>
    rw [decide_eq_false (by simp), relayedRequestBody_false, ← hlength length rfl]
    apply Framed.length
    · apply filter_setHeader_of_nil (by decide)
      rw [filter_removeHeader_of_ne (by decide), hno_length]
    · rw [filter_setHeader_of_ne (by decide), filter_removeHeader_of_ne (by decide), hno_coding]
  | chunked =>
    rw [decide_eq_true rfl, relayedRequestBody_eq]
    refine Framed.chunked ?_ (filter_setHeader_of_nil (by decide) hno_coding _) rfl
    rw [filter_setHeader_of_ne (by decide), hno_length]

section Relayed

variable {σ : Type} [Read σ] {config : ProxyConfig} {rounds : Nat} {reader : RequestBodyReader}
  {s : σ} {bs rest : Bytes} (hrounds : bs.length < rounds) (hlive : reader.Live)
  (hs : Delivers s bs)
  (hok : (decodeFrom config.headerLimits reader.state bs).verdict = .ok (trailers, rest))

include hrounds hlive hs hok

/-- The relay passes on the data of a body that decodes, in whatever fragments it gets it. -/
theorem relayLoop_spec (chunked : Bool) :
    ∃ fragments s', fragments.flatten = (decodeFrom config.headerLimits reader.state bs).data ∧
      relayLoop config.headerLimits chunked rounds reader s =
        ((relayedRequestBody chunked fragments trailers, some (.ok trailers)), s') := by
  induction rounds generalizing reader s bs with
  | zero => omega
  | succ rounds ih =>
    have hstep := RequestBodyReader.read_step config.headerLimits hlive hs
      (show 0 < requestStreamChunkSize by decide)
    rw [relayLoop]
    generalize reader.read requestStreamChunkSize config.headerLimits s = result at hstep ⊢
    cases hstep with
    | error hdecoded =>
      rw [hdecoded] at hok
      cases hok
    | finish hdelivers hdecoded =>
      rw [hdecoded] at hok ⊢
      cases hok
      exact ⟨[], _, rfl, rfl⟩
    | @data bytes reader' s' bs' hdelivers hlive' _ _ _ hshorter hdecoded =>
      rw [hdecoded] at hok ⊢
      obtain ⟨fragments, s'', hflatten, heq⟩ := ih (by omega) hlive' hdelivers hok
      refine ⟨bytes :: fragments, s'', ?_, ?_⟩
      · rw [flatten_cons, hflatten]
      · simp only [heq]
        rw [relayedRequestBody, relayedRequestBody, flatMap_cons, append_assoc]

theorem relayRequestBody_spec (pre : Bytes) :
    ∃ fragments s',
      fragments.flatten = pre ++ (decodeFrom config.headerLimits reader.state bs).data ∧
      relayRequestBody config.headerLimits pre reader rounds s =
        ((relayedRequestBody (decide (reader.framing = .chunked)) fragments trailers,
          some (.ok trailers)), s') := by
  obtain ⟨fragments, s', hflatten, heq⟩ :=
    relayLoop_spec hrounds hlive hs hok (decide (reader.framing = .chunked))
  refine ⟨pre :: fragments, s', ?_, ?_⟩
  · rw [flatten_cons, hflatten]
  · rw [relayRequestBody]
    simp only [heq]
    rw [relayedRequestBody, relayedRequestBody, flatMap_cons, append_assoc]

/-- A body of which `pre` was read before is relayed as it was announced. -/
theorem sendStreamed_framed [RuleValues] {pre whole} (hbody : reader.framing.hasBody)
    (hwhole : decodeBody config.headerLimits reader.framing whole =
      ⟨pre ++ (decodeFrom config.headerLimits reader.state bs).data, .ok (trailers, rest)⟩) :
    ∃ outcome s', sendStreamed config host request actions pre reader rounds s =
      (some outcome, s') ∧ ∀ sent, outcome = .ok sent → Framed sent.headers sent.sent := by
  obtain ⟨fragments, s', hflatten, heq⟩ := relayRequestBody_spec hrounds hlive hs hok pre
  rw [sendStreamed]
  cases applyStreamingRequestActions config request actions with
  | error e => exact ⟨_, _, rfl, fun sent h => nomatch h⟩
  | ok request' =>
    dsimp only
    cases validateRequestTrailers request'.trailers config.maxHeaderSize config.maxHeaderCount with
    | error e => exact ⟨_, _, rfl, fun sent h => nomatch h⟩
    | ok _ =>
      simp only [heq]
      refine ⟨_, s', rfl, ?_⟩
      rintro sent ⟨⟩
      rw [Framed.unpooledHeaders_iff]
      apply framed_streamed
      · intro length h
        rw [h] at hwhole
        have hlength := length_decodeBody_contentLength (congrArg Decoded.verdict hwhole)
        rwa [hwhole, ← hflatten] at hlength
      · intro h
        rw [h] at hbody
        cases hbody

end Relayed

/-! ### Every request -/

/-- A request whose body decodes is sent with one header that frames its bytes, or none, exactly
when it has trailers, has one length at most, loses its lengths to an action, or is relayed. -/
theorem sendRequest_framed_iff [RuleValues] {σ : Type} [Read σ] (config : ProxyConfig)
    (direct : Bool) (host : Str) {head : RequestHead} (hempty : head.request.trailers = [])
    (actions : List ResolvedAction) {s : σ} {bs rest : Bytes} {trailers : Headers}
    (hs : Delivers s bs)
    (hok : (decodeBody config.headerLimits head.body bs).verdict = .ok (trailers, rest))
    (hfits : config.bodyBufferLimit < usizeMax ∨
      (decodeBody config.headerLimits head.body bs).data.length < usizeMax) :
    ∃ enough, ∀ rounds, enough ≤ rounds → ∃ outcome s',
      sendRequest config direct host head actions rounds s = (some outcome, s') ∧
      ∀ sent, outcome = .ok sent → (Framed sent.headers sent.sent ↔
        trailers ≠ [] ∨ AtMostOne head.request.headers "content-length" ∨
        (∃ item ∈ actions, removesField "content-length" item.action = true) ∨
        config.bodyBufferLimit < (decodeBody config.headerLimits head.body bs).data.length) := by
  have hcond : ∀ {p q r t : Prop}, ¬ t → (p ∨ q ∨ r ∨ t ↔ p ∨ q ∨ r) := by
    intro p q r t h
    simp [h]
  by_cases hbody : head.body.hasBody = true
  · have hcollected := readRequestBodyBounded_spec hs hfits
    cases hr : readRequestBodyBounded head.body config.bodyBufferLimit config.headerLimits s with
    | mk r s' =>
      rw [hr] at hcollected
      simp only [sendRequest, hr, hbody]
      cases hcollected with
      | error hverdict =>
        rw [hverdict] at hok
        cases hok
      | @complete trailers' rest' _ _ hverdict hshort =>
        rw [hverdict] at hok
        cases hok
        refine ⟨0, fun rounds _ => ⟨_, s', rfl, fun sent hsent => ?_⟩⟩
        rw [hcond hshort.not_gt]
        exact sendBuffered_framed_iff hsent
      | @overflow pre reader bs' _ hdelivers hlive hframing _ _ hdecoded hover =>
        have hlarge := hover trailers rest hok
        rw [← hframing] at hbody hdecoded hok
        have hverdict := hok
        rw [hdecoded] at hverdict
        refine ⟨bs'.length + 1, fun rounds hrounds => ?_⟩
        obtain ⟨outcome, s'', heq, hframed⟩ := sendStreamed_framed hrounds hlive hdelivers hverdict
          hbody (hdecoded.trans (by rw [hverdict]))
        exact ⟨outcome, s'', heq, fun sent hsent =>
          iff_of_true (hframed sent hsent) (.inr (.inr (.inr hlarge)))⟩
  · -- Without a body nothing is read.
    rw [not_eq_true] at hbody
    rw [decodeBody_of_not_hasBody hbody] at hok ⊢
    cases hok
    refine ⟨0, fun rounds _ => ⟨_, s, if_pos (by rw [hbody]; rfl), fun sent hsent => ?_⟩⟩
    rw [sendBuffered_framed_iff hsent, hempty]
    exact (hcond (Nat.not_lt_zero _)).symm

/-! ### A client that repeats the length -/

/-- Rule values that are all written out in their rule. -/
@[reducible] def inlineValues : RuleValues where
  bytes value _ limit :=
    if limit < (utf8 value.source).length then
      .error (outputLimitError "rule value" limit)
    else .ok (utf8 value.source)
  replaceAll _ input _ _ := .ok input
  deleteBodyPath _ body _ := (body, false)

/-- The action `req.body(hi)`. -/
def setBody : ResolvedAction :=
  ⟨.reqBody (.set (.inline "hi")), ⟨"default", 1, "* req.body(hi)"⟩,
    .default, none⟩

/-- A request for `/` with the body `hello` and this many fields that say so. -/
def helloHead (lengths : Nat) : RequestHead :=
  ⟨⟨"POST", "/", "HTTP/1.1", ("Host", "a") ::
    replicate lengths ("Content-Length", "5"), [], []⟩, .contentLength 5⟩

/-- With one length the request with the body `hi` goes out with one. -/
theorem hello_framed : ∃ enough, ∀ rounds, enough ≤ rounds → ∃ outcome s',
    @sendRequest _ _ inlineValues ⟨4096, 64, 1024⟩ true "a" (helloHead 1) [setBody] rounds
      (utf8 "hello") = (some outcome, s') ∧
    ∀ sent, outcome = .ok sent → Framed sent.headers sent.sent := by
  have hok : (decodeBody ⟨4096, 64⟩ (.contentLength 5) (utf8 "hello")).verdict =
      .ok ([], []) := by decide +kernel
  have hone : AtMostOne (helloHead 1).request.headers "content-length" := by decide
  obtain ⟨enough, h⟩ := @sendRequest_framed_iff inlineValues _ _ ⟨4096, 64, 1024⟩ true "a"
    (helloHead 1) rfl [setBody] _ _ _ _ delivers_bytes hok (.inl (by decide))
  refine ⟨enough, fun rounds hrounds => ?_⟩
  obtain ⟨outcome, s', heq, hiff⟩ := h rounds hrounds
  exact ⟨outcome, s', heq, fun sent hsent => (hiff sent hsent).mpr (.inr (.inl hone))⟩

/-- With two of them, which the parser accepts, only the first follows the body. -/
theorem hello_twice_not_framed :
    parse (utf8 "POST / HTTP/1.1\r\nHost: a\r\nContent-Length: 5\r\nContent-Length: 5\r\n\r\n")
      64 = .ok (helloHead 2) ∧
    @sendRequest _ _ inlineValues ⟨4096, 64, 1024⟩ true "a" (helloHead 2) [setBody] 9
      (utf8 "hello") =
      (some (.ok ⟨[("Host", "a"), ("Content-Length", "2"),
        ("Content-Length", "5"), ("Connection", "close")],
          utf8 "hi"⟩), []) ∧
    ¬ Framed [("Host", "a"), ("Content-Length", "2"),
        ("Content-Length", "5"), ("Connection", "close")]
      (utf8 "hi") := by
  refine ⟨by decide +kernel, by decide +kernel, ?_⟩
  intro h
  cases h with
  | length h =>
    cases (cons.inj h).2
  | chunked h | none h =>
    cases h

end RsProxy.Engine
