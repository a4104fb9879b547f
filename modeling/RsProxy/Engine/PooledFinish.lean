import RsProxy.Engine.Pooled
import RsProxy.Engine.ResponseHeaders
import RsProxy.Engine.UpstreamWire

/-!
# The finishers of a pooled connection

What an upstream may say to one request: any number of interim responses and a final one, framed in
any of the four ways a response can be. Behind a final head every finisher answers with the response
of the upstream and stops at its last byte.
-/

namespace RsProxy.Engine

open Text Io Net List
open Rules (usizeMax isHttpTokenChar)
open Data (do_eq_ok ok_bind)
open RelayM (bind_done ofRead_bind_ok)

/-! ### What an upstream sends -/

/-- The bytes of a head, with its blank line, that reads as `head` under the limits. -/
structure HeadWire (limits : HeaderLimits) (wire : Bytes) (head : RawResponseHead) : Prop where
  spelled : ∃ text, wire = text ++ terminator ∧ ¬ terminator <:+: text ++ [13, 10, 13] ∧
    parseResponseHead text limits.maxHeaderCount = .ok head
  fits : wire.length ≤ limits.maxHeaderSize

/-- A head of a final response. -/
structure FinalHead (config : ProxyConfig) (head : RawResponseHead) : Prop where
  version : head.version = "HTTP/1.0" ∨ head.version = "HTTP/1.1"
  status : 200 ≤ head.status ∧ head.status ≤ 599
  reason : head.reason.all isHttpFieldValueChar
  fields : validateHeaderBlock config head.headers = .ok ()
  length : ∃ length, DeclaresLength head.headers length

/-- Responses that end with their head. -/
def EndsWithHead (method : Str) (status : Nat) : Prop :=
  method = "HEAD" ∨ status = 204 ∨ status = 304

instance (method : Str) (status : Nat) : Decidable (EndsWithHead method status) :=
  inferInstanceAs (Decidable (_ ∨ _ ∨ _))

/-- The bytes behind a final head and their content. Only the last response on a connection may go
up to its end; one that resets a form has no content then. -/
inductive BodyWire (limits : HeaderLimits) (method : Str) (head : RawResponseHead) :
    (last : Bool) → Bytes → Bytes → Prop
  | none {last} (ends : EndsWithHead method head.status) :
      BodyWire limits method head last [] []
  | chunked {last wire content trailers}
      (goes : ¬ EndsWithHead method head.status)
      (coding : ∃ value ∈ (listElements head.headers "transfer-encoding").getLast?,
        eqIgnoreAsciiCase value "chunked")
      (unsized : head.headers.filter (named "content-length") = [])
      (chunks : ChunkedWire limits wire content trailers) :
      BodyWire limits method head last wire content
  | fixed {last content} (goes : ¬ EndsWithHead method head.status)
      (uncoded : head.headers.filter (named "transfer-encoding") = [])
      (sized : head.headers.filter (named "content-length") ≠ [])
      (length : DeclaresLength head.headers content.length) :
      BodyWire limits method head last content content
  | toTheEnd {content : Bytes} (goes : ¬ EndsWithHead method head.status)
      (uncoded : head.headers.filter (named "transfer-encoding") = [])
      (unsized : head.headers.filter (named "content-length") = [])
      (reset : head.status = 205 → content = []) :
      BodyWire limits method head true content content

/-- A request on the connection, and what the upstream says to it. -/
structure Exchange where
  request : PooledRequest
  interims : List Bytes
  headWire : Bytes
  bodyWire : Bytes
  head : RawResponseHead
  content : Bytes

namespace Exchange

def wire (e : Exchange) : Bytes := e.interims.flatten ++ (e.headWire ++ e.bodyWire)

/-- The codings of a body are listed in one field. -/
def CodedOnce (e : Exchange) : Prop :=
  ¬ EndsWithHead e.request.request.method e.head.status →
    AtMostOne e.head.headers "transfer-encoding"

structure Valid (config : ProxyConfig) (last : Bool) (e : Exchange) : Prop where
  interims : ∀ wire ∈ e.interims, ∃ head, HeadWire config.headerLimits wire head ∧
    isInformational head.status
  head : HeadWire config.headerLimits e.headWire e.head
  final : FinalHead config e.head
  body : BodyWire config.headerLimits e.request.request.method e.head last e.bodyWire e.content

end Exchange

/-! ### What a client gets -/

/-- The head a client gets for this head. -/
structure Stands [ReasonPhrases] (head sent : RawResponseHead) : Prop where
  status : sent.status = head.status
  reason : sent.reason = reasonOf head
  fields : sent.headers.filter (endToEnd head.headers) = head.headers.filter (endToEnd head.headers)

/-- The bytes behind a head with these fields carry the content. -/
def Carries (headers : Headers) (bytes content : Bytes) : Prop :=
  if hasChunkedTransferEncoding headers then
    ∃ fragments trailers, bytes = chunkedBody fragments trailers ∧ fragments.flatten = content
  else bytes = content

/-- The answer is the final response of the exchange. What content a response that resets a form has
is not passed on. -/
structure Exchange.Answered [ReasonPhrases] (e : Exchange)
    (answer : List Output × Outcome FastResponseOutcome) : Prop where
  complete : ∃ outcome, answer.2 = .done outcome
  response : ∃ (sent : RawResponseHead) (pieces : List Bytes),
    answer.1 = .head sent :: pieces.map .data ∧ Stands e.head sent ∧
    Carries sent.headers pieces.flatten (if e.head.status = 205 then [] else e.content)

/-! ### The header list of a chunked answer -/

variable {head : RawResponseHead} {headers : Headers}

theorem FinalHead.fieldOk {config} (hfinal : FinalHead config head)
    (hsub : headers.Sublist head.headers) :
    ∀ field ∈ headers, FieldOk field :=
  fun field hfield => fieldOk_of_validateHeaderBlock hfinal.fields field (hsub.subset hfield)

/-- The names that are announced are pieces of fields of the list. -/
theorem isHttpFieldValueChar_announced (hfields : ∀ field ∈ headers, FieldOk field) :
    (", ".toList.intercalate (announcedTrailers headers)).all isHttpFieldValueChar := by
  refine all_eq_true.mpr (forall_mem_intercalate (by decide) fun name hname => ?_)
  obtain ⟨announced, hannounced, rfl⟩ := mem_map.mp hname
  obtain ⟨name, hmem, rfl⟩ := mem_map.mp (mem_filter.mp hannounced).1
  obtain ⟨field, hfield, hpieces⟩ := mem_flatMap.mp (mem_filter.mp hmem).1
  obtain ⟨piece, hpiece, rfl⟩ := mem_map.mp hpieces
  have hvalue := (hfields field (mem_filter.mp hfield).1).value
  intro c hc
  have hc := trimMatches_sublist.subset hc
  exact all_eq_true.mp hvalue c ((notMem_and_subset_of_mem_splitOn hpiece).2 hc)

theorem fieldOk_chunkedResponseHeaders {config} (hfinal : FinalHead config head) :
    ∀ field ∈ chunkedResponseHeaders head.headers, FieldOk field := by
  have hcoded := fieldOk_setHeader (hfinal.fieldOk (strip_sublist head.headers))
    (by decide : canonicalHeaderName "Transfer-Encoding" ≠ []) (by decide)
    (by decide : "chunked".toList.all isHttpFieldValueChar)
  unfold chunkedResponseHeaders
  split
  · exact hcoded
  · exact fieldOk_setHeader hcoded (by decide) (by decide)
      (isHttpFieldValueChar_announced (hfinal.fieldOk (Sublist.refl _)))

/-- The list of a chunked answer, seen through a filter that is blind to announcements. -/
theorem filter_chunkedResponseHeaders {keep} (h : Blind keep "Trailer") :
    (chunkedResponseHeaders headers).filter keep =
      (setHeader (stripHopByHopHeaders headers) "Transfer-Encoding" "chunked").filter keep := by
  unfold chunkedResponseHeaders
  split
  · rfl
  · exact h.filter_setHeader

theorem coded_chunkedResponseHeaders :
    (chunkedResponseHeaders headers).filter (named "transfer-encoding") =
      [(canonicalHeaderName "Transfer-Encoding", "chunked".toList)] := by
  rw [filter_chunkedResponseHeaders (blind_named (by decide))]
  exact filter_setHeader_of_nil (by decide) (strip_uncoded _) _

/-! ### What the proxy sees in a head -/

variable (pooled : PooledRequest)

theorem PooledRequest.method_cases :
    pooled.request.method = "GET" ∨ pooled.request.method = "HEAD" := by
  have h := pooled.eligible
  simp only [poolEligible, Bool.and_eq_true] at h
  simpa only [Bool.or_eq_true, decide_eq_true_eq] using h.1.1.1.1.1.1.2

theorem PooledRequest.not_http10 : eqIgnoreAsciiCase pooled.request.version "HTTP/1.0" = false := by
  have h := pooled.eligible
  simp only [poolEligible, Bool.and_eq_true] at h
  have hversion := h.1.1.1.1.1.2
  simp only [eqIgnoreAsciiCase, beq_iff_eq] at hversion
  rw [eqIgnoreAsciiCase, hversion]
  decide

variable {status : Nat}

/-- The proxy expects a body behind the heads that have one. -/
theorem PooledRequest.responseHasFramedBody_iff (hstatus : 200 ≤ status) :
    responseHasFramedBody pooled.request.method status ↔
      ¬ EndsWithHead pooled.request.method status := by
  have hfinal : isInformational status = false := by
    simp [isInformational]
    omega
  rcases pooled.method_cases with h | h <;> rw [h]
  · have hget : eqIgnoreAsciiCase "GET" "HEAD" = false := by decide
    have hconnect : eqIgnoreAsciiCase "GET" "CONNECT" = false := by decide
    have hne : "GET" ≠ "HEAD".toList := by decide
    simp only [responseHasFramedBody, EndsWithHead, hfinal, hget, hconnect, hne, Bool.not_false,
      Bool.true_and, Bool.false_and, Bool.false_or, Bool.not_eq_true', Bool.or_eq_false_iff,
      decide_eq_false_iff_not, false_or, not_or]
  · have hhead : eqIgnoreAsciiCase "HEAD" "HEAD" := by decide
    simp only [responseHasFramedBody, EndsWithHead, hhead, Bool.not_true, Bool.false_and, true_or,
      not_true_eq_false, Bool.false_eq_true]

variable {length : Nat}

theorem declaredLength_eq (h : DeclaresLength headers length)
    (hsized : headers.filter (named "content-length") ≠ []) :
    declaredLength headers = some length := by
  rw [declaredLength, header_eq_head?]
  cases hfields : headers.filter (named "content-length") with
  | nil => exact absurd hfields hsized
  | cons field rest =>
    have hmem : field ∈ headers.filter (named "content-length") := by
      rw [hfields]
      exact mem_cons_self
    obtain ⟨hmem, hnamed⟩ := mem_filter.mp hmem
    exact (h field hmem hnamed).2

theorem declaredLength_eq_none (hunsized : headers.filter (named "content-length") = []) :
    declaredLength headers = none := by
  rw [declaredLength, header_eq_head?, hunsized]
  rfl

/-- One field holds the last coding. -/
theorem hasChunked_of_last (hone : AtMostOne headers "transfer-encoding")
    (h : ∃ value ∈ (listElements headers "transfer-encoding").getLast?,
      eqIgnoreAsciiCase value "chunked") :
    hasChunkedTransferEncoding headers := by
  obtain ⟨value, hvalue, hchunked⟩ := h
  have hmem := mem_of_mem_getLast? hvalue
  obtain ⟨field, hfield, hpieces⟩ := mem_flatMap.mp hmem
  obtain ⟨piece, hpiece, rfl⟩ := mem_map.mp hpieces
  have hfields : headers.filter (named "transfer-encoding") = [field] := by
    cases hlist : headers.filter (named "transfer-encoding") with
    | nil =>
      rw [hlist] at hfield
      cases hfield
    | cons first rest =>
      unfold AtMostOne at hone
      rw [hlist, length_cons] at hone
      rw [hlist] at hfield
      obtain rfl : rest = [] := length_eq_zero_iff.mp (by omega)
      rw [mem_singleton.mp hfield]
  rw [hasChunkedTransferEncoding, header_eq_head?, hfields]
  exact any_eq_true.mpr ⟨piece, hpiece, hchunked⟩

variable {bs rest content behind wire : Bytes} {context : ResponseContext} {trailers : Headers}

variable {reusable : Bool}

section Answering

variable [ReasonPhrases]

/-- A head can be written with any list of proper fields that frames one way at most, and stands for
the head of the upstream when the list keeps its end-to-end fields. -/
theorem exists_stands {config} (hfinal : FinalHead config head)
    (hfields : ∀ field ∈ headers, FieldOk field)
    (hframing : ∃ length, validateStreamingFraming headers = .ok length)
    (hkept : headers.filter (endToEnd head.headers) = head.headers.filter (endToEnd head.headers))
    {version keepAlive} :
    ∃ sent, writeResponseHeadWithConnection { head with version := clientResponseVersion version }
        headers keepAlive = .ok (.head sent) ∧ Stands head sent ∧
      (statusCanSendContent head.status ∨
          headers.filter (named "transfer-encoding") = [] →
        sent.headers.filter (named "transfer-encoding") =
          headers.filter (named "transfer-encoding")) := by
  obtain ⟨length, hlength⟩ := hframing
  have hvalid : validateResponseParts (clientResponseVersion version) head.status (reasonOf head)
      headers = .ok () :=
    validateResponseParts_ok_iff.mpr ⟨clientResponseVersion_cases,
      ⟨by have := hfinal.status.1; omega, hfinal.status.2⟩, reasonOf_plain hfinal.reason, hfields⟩
  refine ⟨_, writeResponseHeadWithConnection_ok hvalid hlength, ⟨rfl, rfl, ?_⟩, ?_⟩
  · rw [← hkept]
    exact filter_written (fun field _ h => isWritten_of_endToEnd h) (blind_managed (by decide))
      (blind_managed (by decide))
  · intro hcoding
    refine filter_written (fun field hfield h => ?_) (blind_named (by decide))
      (blind_named (by decide))
    rcases hcoding with hstatus | hnone
    · exact isWritten_of_coding hstatus h
    · exact absurd (mem_filter.mpr ⟨hfield, h⟩) (by rw [hnone]; exact not_mem_nil)

/-! ### The finishers -/

theorem answerBehind_done {υ α} [Read υ] {sent keepAlive relay a}
    (hwrite : writeResponseHeadWithConnection head headers keepAlive = .ok (.head sent))
    (hrelay : Relays relay bs content a rest) {encode} {ending : α → List Output} {outcome c}
    (hc : Delivers c bs) :
    ∃ (pieces : List Bytes) (c' : υ),
      answerBehind head headers keepAlive relay encode ending outcome c =
        ((.head sent :: (pieces.map (.data ∘ encode) ++ ending a), .done outcome), c') ∧
      pieces.flatten = content ∧ Delivers c' rest := by
  obtain ⟨pieces, c', hrun, hflat, -, hc'⟩ := hrelay c hc
  refine ⟨pieces, c', ?_, hflat, hc'⟩
  rw [answerBehind, hwrite]
  simp [hrun]

theorem applyResponseActions_nil [ResponseValues] {config parts}
    (h : validateHeaderBlock config parts.headers = .ok ()) :
    applyResponseActions config parts [] = .ok parts := by
  change (do
    validateHeaderBlock config parts.headers
    .ok parts) = _
  rw [h]
  rfl

theorem finishBufferedResponse_plain [ResponseValues] {config} (hfinal : FinalHead config head)
    (hdeadline : context.deadline = .ok ()) (hstatus : head.status ≠ 205)
    (hcan : responseCanSendContent context.method head.status)
    (hversion : eqIgnoreAsciiCase context.version "HTTP/1.0" = false) {body} :
    finishBufferedResponse config context head body [] [] =
      .ok ([.head ⟨head.version, head.status, reasonOf head,
        (updateBodyHeaders (stripHopByHopHeaders head.headers) body.length).filter
            (fun field => !isCompleteResponseManagedHeader field.1) ++
          lengthField head.status (some body.length) ++
          [connectionField context.clientConnection.keepsAlive]⟩, .data body],
        context.clientConnection) := by
  have hcontent : statusCanSendContent head.status := by
    rw [responseCanSendContent, Bool.and_eq_true] at hcan
    exact hcan.2
  have hmethod : eqIgnoreAsciiCase context.method "HEAD" = false := by
    rw [responseCanSendContent, Bool.and_eq_true, Bool.and_eq_true] at hcan
    simpa using hcan.1.1
  have hprepared : prepareBufferedResponse config context head body [] [] =
      .ok (⟨head, updateBodyHeaders (stripHopByHopHeaders head.headers) body.length, body⟩,
        []) := by
    rw [prepareBufferedResponse]
    simp only [if_neg hstatus]
    rw [applyResponseActions_nil hfinal.fields, hdeadline]
    simp only [ok_bind, hcontent, hmethod, hversion, hcan]
    rfl
  have hfields : validateResponseParts head.version head.status (reasonOf head)
      (updateBodyHeaders (stripHopByHopHeaders head.headers) body.length) = .ok () := by
    refine validateResponseParts_ok_iff.mpr ⟨hfinal.version,
      ⟨by have := hfinal.status.1; omega, hfinal.status.2⟩, reasonOf_plain hfinal.reason, ?_⟩
    exact fieldOk_setContentLength (hfinal.fieldOk
      ((filter_sublist.trans filter_sublist).trans (strip_sublist _))) _
  rw [finishBufferedResponse, hprepared]
  simp only [ok_bind, hcan, writeResponse_ok hfields hcontent]
  rfl

/-- The run answers the exchange, and a connection it leaves for the pool delivers `rest`. -/
def Completes (e : Exchange) (run : RelayM Fragments Output FastResponseOutcome)
    (bs rest : Bytes) : Prop :=
  ∀ c, Delivers c bs → ∃ outputs outcome c', run c = ((outputs, .done outcome), c') ∧
    e.Answered (outputs, .done outcome) ∧ (outcome.reusable → Delivers c' rest)

section Finishers

variable {config : ProxyConfig} {e : Exchange} (hfinal : FinalHead config e.head) {rounds : Nat}

include hfinal

/-- An answer without a coding, its content as the relay hands it out. -/
theorem completes_plain (hfields : ∀ field ∈ headers, FieldOk field)
    (hlength : DeclaresLength headers length)
    (huncoded : headers.filter (named "transfer-encoding") = [])
    (hkept : headers.filter (endToEnd e.head.headers) =
      e.head.headers.filter (endToEnd e.head.headers)) {relay}
    (hrelay : Relays relay bs (if e.head.status = 205 then [] else e.content) () behind)
    (outcome : FastResponseOutcome) (hreuse : outcome.reusable → behind = rest) (version : Str)
    (keepAlive : Bool) :
    Completes e (answerBehind { e.head with version := clientResponseVersion version } headers
      keepAlive relay id (fun _ => []) outcome) bs rest := by
  intro c hc
  obtain ⟨sent, hwrite, hstands, hcoding⟩ := exists_stands hfinal hfields
    (validateStreamingFraming_ok hlength (.inr huncoded)) hkept
  obtain ⟨pieces, c', hrun, hflat, hc'⟩ := answerBehind_done hwrite hrelay hc
  refine ⟨_, outcome, c', hrun, ⟨⟨outcome, rfl⟩, sent, pieces, by simp, hstands, ?_⟩, fun h => ?_⟩
  · rw [Carries, not_hasChunked_of_uncoded ((hcoding (.inr huncoded)).trans huncoded)]
    exact hflat
  · rw [← hreuse h]
    exact hc'

theorem completes_finishWithoutBody (hcontent : e.content = []) (context : ResponseContext)
    (reusable : Bool) (rest : Bytes) :
    Completes e (finishWithoutBody context e.head reusable) rest rest := by
  obtain ⟨length, hlength⟩ := hfinal.length
  have hsub := strip_sublist e.head.headers
  refine completes_plain hfinal (hfinal.fieldOk hsub) (hlength.mono hsub) (strip_uncoded _)
    (filter_strip _) ?_ _ (fun _ => rfl) _ _
  rw [hcontent, ite_self]
  exact relays_pure () rest

/-- The answer to a reset, once the body is out of the way. -/
theorem completes_finishResetContent (hstatus : e.head.status = 205)
    (hdiscard : ∀ c : Fragments, Delivers c bs → ∃ c',
      discardBody config.headerLimits rounds e.head.headers c = (([], .done ()), c') ∧
        Delivers c' rest) (context : ResponseContext) (reusable : Bool) :
    Completes e (finishResetContent config rounds context e.head reusable) bs rest := by
  intro c hc
  obtain ⟨c', hrun, hc'⟩ := hdiscard c hc
  obtain ⟨length, hlength⟩ := hfinal.length
  have hsub := (strip_sublist _).trans (prepareStreamingBody_sublist e.head.headers)
  have hanswer : Completes e _ rest rest := completes_plain hfinal (hfinal.fieldOk hsub)
    (hlength.mono hsub) (strip_uncoded _) (filter_strip_prepareStreamingBody _)
    (by rw [if_pos hstatus]; exact relays_pure () rest) ⟨context.clientConnection, reusable⟩
    (fun _ => rfl) context.version context.clientConnection.keepsAlive
  rw [finishResetContent, bind_done hrun]
  obtain ⟨outputs, outcome, c'', hrun', hanswered, hreuse⟩ := hanswer c' hc'
  exact ⟨outputs, outcome, c'', by rw [hrun', nil_append], hanswered, hreuse⟩

section

variable (hstatus : e.head.status ≠ 205)

include hstatus

theorem completes_finishSse
    (hrelay : Relays (streamSseResponse e.head.headers rounds : RelayM Fragments Bytes Unit) bs
      e.content () behind) :
    Completes e (finishSse rounds context e.head) bs rest := by
  obtain ⟨length, hlength⟩ := hfinal.length
  have hsub := (prepareStreamingBody_sublist _).trans (strip_sublist e.head.headers)
  have hcontent : e.content = if e.head.status = 205 then [] else e.content := (if_neg hstatus).symm
  rw [hcontent] at hrelay
  exact completes_plain hfinal (hfinal.fieldOk hsub) (hlength.mono hsub)
    (uncoded_prepareStreamingBody _) (by rw [filter_prepareStreamingBody, filter_strip]) hrelay
    ⟨.close, false⟩ nofun _ _

theorem completes_finishCloseDelimited
    (hrounds : e.content.length < rounds) (context : ResponseContext) (rest : Bytes) :
    Completes e (finishCloseDelimited rounds context e.head) e.content rest := by
  obtain ⟨length, hlength⟩ := hfinal.length
  have hsub := strip_sublist e.head.headers
  have hrelay : Relays (relayToEof rounds : RelayM Fragments Bytes Unit) e.content
      (if e.head.status = 205 then [] else e.content) () [] := by
    rw [if_neg hstatus]
    exact relays_relayToEndLoop (by decide) _ hrounds
  exact completes_plain hfinal (hfinal.fieldOk hsub) (hlength.mono hsub) (strip_uncoded _)
    (filter_strip _) hrelay ⟨.close, false⟩ nofun _ _

theorem completes_finishFixed (hlength : DeclaresLength e.head.headers e.content.length)
    (hmax : e.content.length ≤ usizeMax) :
    Completes e (finishFixed context e.head e.content.length reusable) (e.content ++ rest)
      rest := by
  have hsub := strip_sublist e.head.headers
  refine completes_plain hfinal (fieldOk_setContentLength (hfinal.fieldOk hsub) _)
    ((hlength.mono hsub).setHeader hmax) ?_ ?_ ?_ _ (fun _ => rfl) _ _
  · rw [filter_setHeader_of_ne (by decide), strip_uncoded]
  · rw [(blind_managed (by decide)).filter_setHeader, filter_strip]
  · rw [if_neg hstatus]
    exact relays_relayExact

theorem completes_finishChunked (hcontent : statusCanSendContent e.head.status)
    (hunsized : e.head.headers.filter (named "content-length") = [])
    (hwire : ChunkedWire config.headerLimits wire e.content trailers)
    (hrounds : wire.length < rounds) :
    Completes e (finishChunked config rounds context e.head reusable) (wire ++ rest) rest := by
  intro c hc
  have hkept : (chunkedResponseHeaders e.head.headers).filter (endToEnd e.head.headers) =
      e.head.headers.filter (endToEnd e.head.headers) := by
    rw [filter_chunkedResponseHeaders (blind_managed (by decide)),
      (blind_managed (by decide)).filter_setHeader, filter_strip]
  have hnone : (chunkedResponseHeaders e.head.headers).filter (named "content-length") = [] := by
    rw [filter_chunkedResponseHeaders (blind_named (by decide)), filter_setHeader_of_ne (by decide)]
    exact eq_nil_of_sublist_nil (hunsized ▸ (strip_sublist _).filter _)
  have hlength : DeclaresLength (chunkedResponseHeaders e.head.headers) 0 := by
    intro field hfield hnamed
    have hmem := mem_filter.mpr ⟨hfield, hnamed⟩
    rw [hnone] at hmem
    cases hmem
  obtain ⟨sent, hwrite, hstands, hcoding⟩ := exists_stands hfinal
    (fieldOk_chunkedResponseHeaders hfinal) (validateStreamingFraming_ok hlength (.inl hnone)) hkept
  obtain ⟨pieces, c', hrun, hflat, hc'⟩ := answerBehind_done hwrite (hwire.relays hrounds rest) hc
  refine ⟨_, _, c', hrun, ⟨⟨_, rfl⟩, sent, pieces.map (writeRequestData · true) ++
    [finishRequestBody true (sanitizeUpstreamTrailers trailers e.head.headers)], ?_, hstands, ?_⟩,
    fun _ => hc'⟩
  · simp
  · rw [Carries, hasChunked_of_coded ((hcoding (.inl hcontent)).trans
      coded_chunkedResponseHeaders), if_neg hstatus]
    refine ⟨pieces, sanitizeUpstreamTrailers trailers e.head.headers, ?_, hflat⟩
    rw [← relayedRequestBody_eq, relayedRequestBody, flatMap_def]
    simp

end

theorem completes_finishSmall [ResponseValues] (hstatus : e.head.status ≠ 205)
    (hdeadline : context.deadline = .ok ())
    (hcan : responseCanSendContent context.method e.head.status)
    (hversion : eqIgnoreAsciiCase context.version "HTTP/1.0" = false) :
    Completes e (finishSmall config context e.head e.content.length reusable) (e.content ++ rest)
      rest := by
  intro c hc
  obtain ⟨c', hread, hc'⟩ := reads_readExact c hc
  rw [finishSmall, ofRead_bind_ok hread,
    finishBufferedResponse_plain hfinal hdeadline hstatus hcan hversion]
  refine ⟨_, _, c', rfl, ⟨⟨_, rfl⟩, _, [e.content], rfl, ⟨rfl, rfl, ?_⟩, ?_⟩, fun _ => hc'⟩
  · have hkept : ∀ field, endToEnd e.head.headers field →
        (!isCompleteResponseManagedHeader field.1) := by
      intro field h
      rw [endToEnd, Bool.and_eq_true] at h
      exact h.1
    rw [filter_written (fun field _ h => hkept field h) (blind_managed (by decide))
      (blind_managed (by decide)), updateBodyHeaders,
      (blind_managed (by decide)).filter_setHeader,
      (blind_managed (by decide)).filter_removeHeader,
      (blind_managed (by decide)).filter_removeHeader, filter_strip]
  · rw [Carries, not_hasChunked_of_uncoded uncoded_whole, if_neg hstatus]
    simp

end Finishers

/-! ### Every framing -/

omit [ReasonPhrases] in
theorem discard_done {α relay} {a : α} (h : Relays relay bs content a rest) {c : Fragments}
    (hc : Delivers c bs) :
    ∃ c', discard relay c = (([], .done a), c') ∧ Delivers c' rest := by
  obtain ⟨pieces, c', hrun, -, -, hc'⟩ := h c hc
  exact ⟨c', by rw [discard, hrun], hc'⟩

/-- Behind a head that has a body, the finisher is chosen by the status, the type and the
framing. -/
theorem finish_of_framed [ResponseValues] {config rounds} (hdeadline : context.deadline = .ok ())
    (hframed : responseHasFramedBody context.method head.status) :
    (finish config rounds context head : RelayM Fragments Output FastResponseOutcome) =
      if head.status = 205 then
        finishResetContent config rounds context head (responseIsPersistent head)
      else if isSseResponse head.headers then finishSse rounds context head
      else if hasChunkedTransferEncoding head.headers then
        finishChunked config rounds context head (responseIsPersistent head)
      else
        match declaredLength head.headers with
        | some length =>
          if length ≤ smallBodyLimit ∧ length ≤ config.bodyBufferLimit then
            finishSmall config context head length (responseIsPersistent head)
          else finishFixed context head length (responseIsPersistent head)
        | none => finishCloseDelimited rounds context head := by
  rw [finish, hdeadline, hframed]
  rfl

omit [ReasonPhrases] in
theorem canSendContent_of_framed {method} (hframed : responseHasFramedBody method status)
    (hstatus : status ≠ 205) :
    responseCanSendContent method status := by
  rw [responseHasFramedBody, Bool.and_eq_true] at hframed
  rw [responseCanSendContent, Bool.and_eq_true]
  refine ⟨hframed.1, ?_⟩
  have hrest := hframed.2
  simp only [statusCanSendContent, Bool.not_eq_true', Bool.or_eq_false_iff,
    decide_eq_false_iff_not] at hrest ⊢
  exact ⟨⟨hrest.1, hstatus⟩, hrest.2⟩

section Framings

variable [ResponseValues] {config : ProxyConfig} {e : Exchange} {rounds : Nat}

section Framed

variable (hfinal : FinalHead config e.head)
  (hframed : responseHasFramedBody e.request.context.method e.head.status = true)

include hfinal hframed

theorem completes_finish_chunked (hchunked : hasChunkedTransferEncoding e.head.headers)
    (hunsized : e.head.headers.filter (named "content-length") = [])
    (hwire : ChunkedWire config.headerLimits wire e.content trailers)
    (hrounds : wire.length < rounds) :
    Completes e (finish config rounds e.request.context e.head) (wire ++ rest) rest := by
  rw [finish_of_framed rfl hframed]
  by_cases hreset : e.head.status = 205
  · rw [if_pos hreset]
    refine completes_finishResetContent hfinal hreset (fun c hc => ?_) _ _
    obtain ⟨c', hrun, hc'⟩ := discard_done (hwire.relays hrounds rest) hc
    refine ⟨c', ?_, hc'⟩
    rw [discardBody, if_pos hchunked, bind_done hrun]
    rfl
  · rw [if_neg hreset]
    have hcan := canSendContent_of_framed hframed hreset
    rw [responseCanSendContent, Bool.and_eq_true] at hcan
    split
    · have hrelay : Relays (streamSseResponse e.head.headers rounds : RelayM Fragments Bytes Unit)
          (wire ++ rest) e.content () rest := by
        rw [streamSseResponse, if_pos hchunked]
        exact hwire.relays_sse hrounds
      exact completes_finishSse hfinal hreset hrelay
    · exact completes_finishChunked hfinal hreset hcan.2 hunsized hwire hrounds

theorem completes_finish_fixed (huncoded : e.head.headers.filter (named "transfer-encoding") = [])
    (hsized : e.head.headers.filter (named "content-length") ≠ [])
    (hlength : DeclaresLength e.head.headers e.content.length) :
    Completes e (finish config rounds e.request.context e.head) (e.content ++ rest) rest := by
  have hchunked := not_hasChunked_of_uncoded huncoded
  have hdeclared := declaredLength_eq hlength hsized
  rw [finish_of_framed rfl hframed, hchunked, hdeclared]
  by_cases hreset : e.head.status = 205
  · rw [if_pos hreset]
    refine completes_finishResetContent hfinal hreset (fun c hc => ?_) _ _
    rw [discardBody, hchunked, hdeclared]
    exact discard_done relays_relayExact hc
  · rw [if_neg hreset]
    split
    · have hrelay : Relays (streamSseResponse e.head.headers rounds : RelayM Fragments Bytes Unit)
          (e.content ++ rest) e.content () rest := by
        rw [streamSseResponse, hchunked, hdeclared]
        exact relays_relayExactLoop (by decide) (le_refl _)
      exact completes_finishSse hfinal hreset hrelay
    · rw [if_neg Bool.false_ne_true]
      dsimp only
      split
      · exact completes_finishSmall hfinal hreset rfl (canSendContent_of_framed hframed hreset)
          e.request.not_http10
      · refine completes_finishFixed hfinal hreset hlength ?_
        obtain ⟨value, -, hparse⟩ := Option.bind_eq_some_iff.mp hdeclared
        exact le_of_parseUnsigned hparse

theorem completes_finish_toTheEnd
    (huncoded : e.head.headers.filter (named "transfer-encoding") = [])
    (hunsized : e.head.headers.filter (named "content-length") = [])
    (hcontent : e.head.status = 205 → e.content = []) (hrounds : e.content.length < rounds) :
    Completes e (finish config rounds e.request.context e.head) e.content [] := by
  have hchunked := not_hasChunked_of_uncoded huncoded
  have hdeclared := declaredLength_eq_none hunsized
  rw [finish_of_framed rfl hframed, hchunked, hdeclared]
  by_cases hreset : e.head.status = 205
  · rw [if_pos hreset, hcontent hreset]
    refine completes_finishResetContent hfinal hreset (fun c hc => ⟨c, ?_, hc⟩) _ _
    rw [discardBody, hchunked, hdeclared]
    rfl
  · rw [if_neg hreset]
    split
    · have hrelay : Relays (streamSseResponse e.head.headers rounds : RelayM Fragments Bytes Unit)
          e.content e.content () [] := by
        rw [streamSseResponse, hchunked, hdeclared]
        exact relays_relayToEndLoop (by decide) _ hrounds
      exact completes_finishSse hfinal hreset hrelay
    · exact completes_finishCloseDelimited hfinal hreset hrounds _ []

end Framed

/-- Whatever the framing, the finishers answer with the response and stop at its end. -/
theorem completes_finish {last} (hvalid : e.Valid config last) (hone : e.CodedOnce)
    (hlast : last → rest = []) (hrounds : e.bodyWire.length < rounds) :
    Completes e (finish config rounds e.request.context e.head) (e.bodyWire ++ rest) rest := by
  obtain ⟨-, -, hfinal, hbody⟩ := hvalid
  have hframed := e.request.responseHasFramedBody_iff hfinal.status.1
  generalize hcontent : e.content = content at hbody
  generalize e.bodyWire = wire at hbody hrounds ⊢
  cases hbody with
  | none ends =>
    have hunframed : responseHasFramedBody e.request.context.method e.head.status = false :=
      Bool.eq_false_iff.mpr fun h => hframed.mp h ends
    rw [finish, hunframed]
    exact completes_finishWithoutBody hfinal hcontent _ _ rest
  | chunked goes coding unsized chunks =>
    subst hcontent
    exact completes_finish_chunked hfinal (hframed.mpr goes) (hasChunked_of_last (hone goes) coding)
      unsized chunks hrounds
  | fixed goes uncoded sized length =>
    subst hcontent
    exact completes_finish_fixed hfinal (hframed.mpr goes) uncoded sized length
  | toTheEnd goes uncoded unsized reset =>
    subst hcontent
    rw [hlast rfl, append_nil]
    exact completes_finish_toTheEnd hfinal (hframed.mpr goes) uncoded unsized reset hrounds

end Framings

end Answering

end RsProxy.Engine
