import RsProxy.Engine.Unpooled
import RsProxy.Engine.ClientView

/-!
# What a streamed answer consists of

`finishStreamingResponse` writes a head, the data of the frames, and for a chunked answer the last
chunk. The head announces a coding exactly where the frames are written as chunks.
-/

namespace RsProxy.Engine

open Text Io Net List
open Data (do_eq_ok ok_bind)
open Rules (ResolvedAction checkedAdd isForbiddenTrailerName usizeMax)

/-- The data of the frames of a body. -/
def frameData (frames : List UpstreamBodyFrame) : List Bytes :=
  frames.filterMap fun frame =>
    match frame with
    | .data bytes => some bytes
    | .trailers _ => none

/-! ### The head -/

section Head

variable [ResponseValues] [ReasonPhrases] {config : ProxyConfig} {context : ResponseContext}
  {head : RawResponseHead} {actions : List ResolvedAction} {streaming : StreamingHead}

/-- The header list in front of the choice of a framing. -/
def streamingFields (upstreamStatus : Nat) (parts : ResponseParts) : Headers :=
  if upstreamStatus = 205 && statusCanSendContent parts.head.status then
    setHeader (removeHeader (removeHeader (stripHopByHopHeaders parts.headers)
      "transfer-encoding") "trailer") "Content-Length" "0"
  else stripHopByHopHeaders parts.headers

omit [ResponseValues] [ReasonPhrases] in
theorem streamingFields_uncoded {upstreamStatus parts} :
    (streamingFields upstreamStatus parts).filter (named "transfer-encoding") = [] := by
  unfold streamingFields
  split
  · rw [filter_setHeader_of_ne (by decide), filter_removeHeader_of_ne (by decide),
      filter_removeHeader_self]
  · exact strip_uncoded _

/-- How a streamed answer comes to its head: the actions leave `parts`, and their fields go out as
they are, with a length or up to the end of the connection, or with a coding in place of a
length. -/
structure Prepared (config : ProxyConfig) (context : ResponseContext) (head : RawResponseHead)
    (actions : List ResolvedAction) (streaming : StreamingHead) (parts : ResponseParts) : Prop where
  applied : applyStreamingResponseActions config head head.headers actions = .ok parts
  sent : streaming.head = { parts.head with version := clientResponseVersion context.version }
  allowed : streaming.bodyAllowed =
    (responseCanSendContent context.method parts.head.status && decide (head.status ≠ 205))
  chunked : streaming.chunked = (streaming.bodyAllowed &&
    !eqIgnoreAsciiCase context.version "HTTP/1.0" &&
    ((header (streamingFields head.status parts) "content-length").isNone ||
      !(declaredTrailerNames head.headers actions).isEmpty))
  plain : streaming.chunked = false → streaming.headers = streamingFields head.status parts
  coded : streaming.chunked → streaming.headers.filter (named "transfer-encoding") =
    [(canonicalHeaderName "Transfer-Encoding".toList, "chunked".toList)]
  connection : streaming.connection = if !streaming.chunked && streaming.bodyAllowed &&
    (header streaming.headers "content-length").isNone then .close else context.clientConnection

theorem exists_prepared (h : prepareStreamingResponse config context head actions = .ok streaming) :
    ∃ parts, Prepared config context head actions streaming parts := by
  obtain ⟨parts, hparts, h⟩ := do_eq_ok.mp h
  obtain ⟨⟨⟩, -, h⟩ := do_eq_ok.mp h
  cases h
  refine ⟨parts, hparts, rfl, rfl, rfl, ?_, ?_, rfl⟩
  · intro hchunked
    dsimp only at hchunked ⊢
    rw [hchunked]
    rfl
  · intro hchunked
    dsimp only at hchunked ⊢
    rw [hchunked]
    have hcoded : (setHeader (removeHeader (streamingFields head.status parts)
        "content-length") "Transfer-Encoding" "chunked").filter
          (named "transfer-encoding") =
        [(canonicalHeaderName "Transfer-Encoding", "chunked".toList)] := by
      refine filter_setHeader_of_nil (by decide) ?_ _
      rw [filter_removeHeader_of_ne (by decide), streamingFields_uncoded]
    change (if (declaredTrailerNames head.headers actions).isEmpty then _ else _ : Headers).filter
      (named "transfer-encoding") = _
    split
    · exact hcoded
    · rwa [filter_setHeader_of_ne (by decide)]

/-- The head that goes out, with the length its writer found in the fields. -/
def StreamingHead.sent (streaming : StreamingHead) (length : Option Nat) : RawResponseHead :=
  ⟨streaming.head.version, streaming.head.status, reasonOf streaming.head,
    streaming.headers.filter (isWritten streaming.head.status) ++
      lengthField streaming.head.status length ++ [connectionField streaming.connection.keepsAlive]⟩

variable {parts : ResponseParts}

section

variable (hprepared : Prepared config context head actions streaming parts)

include hprepared

theorem Prepared.status :
    streaming.head.status = parts.head.status := by
  rw [hprepared.sent]

theorem Prepared.canSend (hallowed : streaming.bodyAllowed) :
    responseCanSendContent context.method streaming.head.status ∧ head.status ≠ 205 := by
  have hcan := hprepared.allowed.symm.trans hallowed
  rwa [Bool.and_eq_true, decide_eq_true_iff, ← hprepared.status] at hcan

theorem Prepared.chunks (hchunked : streaming.chunked) :
    streaming.bodyAllowed ∧ eqIgnoreAsciiCase context.version "HTTP/1.0" = false := by
  have h := hprepared.chunked.symm.trans hchunked
  rw [Bool.and_eq_true, Bool.and_eq_true, Bool.not_eq_true'] at h
  exact h.1

/-- The head announces a coding where the frames are written as chunks. -/
theorem Prepared.sent_chunked
    {length} : hasChunkedTransferEncoding (streaming.sent length).headers = streaming.chunked := by
  cases hchunked : streaming.chunked with
  | false =>
    refine uncoded_written ?_
    rw [hprepared.plain hchunked, streamingFields_uncoded]
  | true =>
    have hcan := (hprepared.canSend (hprepared.chunks hchunked).1).1
    rw [responseCanSendContent, Bool.and_eq_true] at hcan
    exact coded_written hcan.2 (hprepared.coded hchunked)

end

section

variable (config : ProxyConfig) (context : ResponseContext) (head : RawResponseHead)
  (actions : List ResolvedAction)

/-- The head of a streamed answer, if it gets written. -/
def writtenHead : Option StreamingHead :=
  match prepareStreamingResponse config context head actions with
  | .error _ => none
  | .ok streaming =>
    (writeResponseHeadWithConnection streaming.head streaming.headers
      streaming.connection.keepsAlive).toOption.map fun _ => streaming

/-- An answer is an error with nothing written, or a head and what `streamBody` puts behind it. -/
theorem finishStreamingResponse_cases (pre : Bytes)
    (frames : List UpstreamBodyFrame) (ending : Outcome Unit) :
    (writtenHead config context head actions = none ∧ ∃ e,
      finishStreamingResponse config context head pre frames ending actions = ([], .failed e)) ∨
    ∃ streaming parts length, writtenHead config context head actions = some streaming ∧
      Prepared config context head actions streaming parts ∧
      validateStreamingFraming streaming.headers = .ok length ∧
      finishStreamingResponse config context head pre frames ending actions =
        (.head (streaming.sent length) ::
          (streamBody config context head streaming pre frames ending actions).1,
          (streamBody config context head streaming pre frames ending actions).2) := by
  unfold writtenHead finishStreamingResponse
  cases hprepare : prepareStreamingResponse config context head actions with
  | error e => exact .inl ⟨rfl, e, rfl⟩
  | ok streaming =>
    obtain ⟨parts, hprepared⟩ := exists_prepared hprepare
    dsimp only
    cases hwrite : writeResponseHeadWithConnection streaming.head streaming.headers
      streaming.connection.keepsAlive with
    | error e => exact .inl ⟨rfl, e, rfl⟩
    | ok written =>
      obtain ⟨length, hlength, rfl⟩ := exists_written hwrite
      exact .inr ⟨streaming, parts, length, rfl, hprepared, hlength, rfl⟩

end

end Head

/-! ### The check of the trailers -/

/-- Trailers that pass the check: within the limits of the rules, proper and allowed. -/
structure AdmittedTrailers (config : ProxyConfig) (trailers : Headers) : Prop where
  count : trailers.length ≤ config.maxHeaderCount
  proper : ∀ field ∈ trailers, FieldOk field
  size : (trailers.map fun field => utf8Len field.1 + utf8Len field.2 + 4).sum ≤
    ruleHeaderLimit config
  allowed : ∀ field ∈ trailers, isForbiddenTrailerName field.1 = false

theorem checkedAdd_bind {a b c : Nat} :
    (checkedAdd a b).bind (checkedAdd · c) = checkedAdd a (b + c) := by
  unfold checkedAdd
  generalize usizeMax = limit
  by_cases h : a + b ≤ limit
  · rw [if_pos h, Option.bind_some, Nat.add_assoc]
  · rw [if_neg h, if_neg (by omega)]
    rfl

/-- One more field of a block fits if it is proper and the limit is not passed. -/
theorem addHeaderBytes_ok_iff {limit bytes : Nat} (hlimit : limit ≤ usizeMax) {field : Str × Str}
    {total : Nat} : addHeaderBytes limit bytes field = .ok total ↔
      FieldOk field ∧ total = bytes + (utf8Len field.1 + utf8Len field.2 + 4) ∧ total ≤ limit := by
  unfold addHeaderBytes
  rw [checkedAdd_bind, checkedAdd_bind, checkedAdd]
  constructor
  · intro h
    split_ifs at h with hname hvalue hword
    dsimp only at h
    split_ifs at h with hsize
    cases h
    rw [Bool.or_eq_true, not_or, List.isEmpty_iff, Bool.not_eq_true', Bool.not_eq_false] at hname
    rw [Bool.not_eq_true', Bool.not_eq_false] at hvalue
    exact ⟨⟨hname.1, hname.2, hvalue⟩, rfl, Nat.not_lt.mp hsize⟩
  · rintro ⟨hok, rfl, hle⟩
    rw [if_neg (by simp [hok.nonempty, hok.token]), if_neg (by simp [hok.value]),
      if_pos (hle.trans hlimit)]
    exact if_neg hle.not_gt

theorem foldlM_addHeaderBytes_ok_iff {limit : Nat} (hlimit : limit ≤ usizeMax) (headers : Headers)
    {bytes : Nat} (hbytes : bytes ≤ limit) :
    (∃ total, headers.foldlM (addHeaderBytes limit) bytes = .ok total) ↔
      (∀ field ∈ headers, FieldOk field) ∧
        bytes + (headers.map fun field => utf8Len field.1 + utf8Len field.2 + 4).sum ≤ limit := by
  induction headers generalizing bytes with
  | nil => exact ⟨fun _ => ⟨forall_mem_nil _, hbytes⟩, fun _ => ⟨bytes, rfl⟩⟩
  | cons field headers ih =>
    rw [forall_mem_cons, map_cons, sum_cons, ← Nat.add_assoc]
    constructor
    · rintro ⟨total, h⟩
      obtain ⟨next, hnext, h⟩ := do_eq_ok.mp h
      obtain ⟨hok, rfl, hle⟩ := (addHeaderBytes_ok_iff hlimit).mp hnext
      obtain ⟨hrest, hsum⟩ := (ih hle).mp ⟨total, h⟩
      exact ⟨⟨hok, hrest⟩, hsum⟩
    · rintro ⟨⟨hok, hrest⟩, hsum⟩
      have hle : bytes + (utf8Len field.1 + utf8Len field.2 + 4) ≤ limit :=
        (Nat.le_add_right _ _).trans hsum
      obtain ⟨total, htotal⟩ := (ih hle).mpr ⟨hrest, hsum⟩
      refine ⟨total, ?_⟩
      rw [foldlM_cons, (addHeaderBytes_ok_iff hlimit).mpr ⟨hok, rfl, hle⟩]
      exact htotal

theorem validateTrailerBlock_ok_iff {config trailers} :
    validateTrailerBlock config trailers = .ok () ↔ AdmittedTrailers config trailers := by
  have hlimit : ruleHeaderLimit config ≤ usizeMax := (Nat.min_le_right _ _).trans (by decide)
  have hblock := foldlM_addHeaderBytes_ok_iff hlimit trailers (Nat.zero_le _)
  rw [Nat.zero_add] at hblock
  have hallowed : trailers.find? (fun field => isForbiddenTrailerName field.1) = none ↔
      ∀ field ∈ trailers, isForbiddenTrailerName field.1 = false := by
    rw [find?_eq_none]
    simp
  constructor
  · intro h
    obtain ⟨⟨⟩, hheaders, h⟩ := do_eq_ok.mp h
    unfold validateHeaderBlock at hheaders
    split_ifs at hheaders with hcount
    obtain ⟨total, htotal, -⟩ := do_eq_ok.mp hheaders
    obtain ⟨hproper, hsize⟩ := hblock.mp ⟨total, htotal⟩
    split at h
    · cases h
    next hnone => exact ⟨Nat.not_lt.mp hcount, hproper, hsize, hallowed.mp hnone⟩
  · intro h
    obtain ⟨total, htotal⟩ := hblock.mpr ⟨h.proper, h.size⟩
    have hheaders : validateHeaderBlock config trailers = .ok () := by
      unfold validateHeaderBlock
      rw [if_neg h.count.not_gt, htotal]
      rfl
    rw [validateTrailerBlock, hheaders, ok_bind, hallowed.mpr h.allowed]

/-- The trailer actions fail, or they leave trailers that are refused or pass. -/
theorem applyResponseTrailerActions_cases [ResponseValues] (config : ProxyConfig)
    (trailers : Headers) (actions : List ResolvedAction) :
    (∃ e, editTrailers config trailers actions = .error e ∧
      applyResponseTrailerActions config trailers actions = .error e) ∨
    ∃ left, editTrailers config trailers actions = .ok left ∧
      ((∃ e, validateTrailerBlock config left = .error e ∧
        applyResponseTrailerActions config trailers actions = .error e) ∨
      validateTrailerBlock config left = .ok () ∧
        applyResponseTrailerActions config trailers actions = .ok left) := by
  unfold applyResponseTrailerActions
  cases editTrailers config trailers actions with
  | error e => exact .inl ⟨e, rfl, rfl⟩
  | ok left =>
    refine .inr ⟨left, rfl, ?_⟩
    cases hvalid : validateTrailerBlock config left with
    | error e =>
      refine .inl ⟨e, rfl, ?_⟩
      rw [ok_bind, hvalid]
      rfl
    | ok =>
      refine .inr ⟨rfl, ?_⟩
      rw [ok_bind, hvalid]
      rfl

/-! ### The writes behind the head -/

section Body

variable [ResponseValues] (config : ProxyConfig) (context : ResponseContext)
  (head : RawResponseHead) (streaming : StreamingHead) (pre : Bytes)
  (frames : List UpstreamBodyFrame) (actions : List ResolvedAction)

theorem streamBody_failed {e} :
    streamBody config context head streaming pre frames (.failed e) actions =
      (frameOutputs streaming (.data pre :: frames),
        match applyResponseTrailerActions config
          (sanitizeUpstreamTrailers (frameTrailers frames) head.headers) actions with
        | .error e => .failed e
        | .ok _ => .done .close) := by
  unfold streamBody
  dsimp only
  generalize applyResponseTrailerActions config
    (sanitizeUpstreamTrailers (frameTrailers frames) head.headers) actions = applied
  cases applied <;> rfl

theorem streamBody_done : streamBody config context head streaming pre frames (.done ()) actions =
    match applyResponseTrailerActions config
      (sanitizeUpstreamTrailers (frameTrailers frames) head.headers) actions with
    | .error e => (frameOutputs streaming (.data pre :: frames), .failed e)
    | .ok trailers =>
      (frameOutputs streaming (.data pre :: frames) ++ finishStreamBody streaming.chunked
        (if !streaming.bodyAllowed || eqIgnoreAsciiCase context.version "HTTP/1.0" then []
          else trailers), .done streaming.connection) := by
  unfold streamBody
  dsimp only
  generalize applyResponseTrailerActions config
    (sanitizeUpstreamTrailers (frameTrailers frames) head.headers) actions = applied
  cases applied <;> rfl

end Body

/-- The writes for frames are data. -/
theorem bytesBehind_frameOutputs {streaming frames more} :
    bytesBehind (frameOutputs streaming frames ++ more) =
      (if streaming.bodyAllowed then
        (frameData frames).flatMap (writeRequestData · streaming.chunked) else []) ++
        bytesBehind more := by
  induction frames with
  | nil => cases streaming.bodyAllowed <;> rfl
  | cons frame frames ih =>
    cases frame with
    | trailers fields => exact ih
    | data bytes =>
      change bytesBehind ((if streaming.bodyAllowed then writeStreamData bytes streaming.chunked
        else []) ++ frameOutputs streaming frames ++ more) = _
      cases hallowed : streaming.bodyAllowed with
      | false =>
        rwa [hallowed] at ih
      | true =>
        rw [hallowed] at ih
        have hdata : frameData (.data bytes :: frames) = bytes :: frameData frames := rfl
        rw [if_pos rfl, if_pos rfl, hdata, flatMap_cons, writeStreamData]
        rw [if_pos rfl] at ih
        split
        next hempty =>
          rwa [isEmpty_iff.mp hempty]
        · rw [append_assoc, append_assoc, ← ih]
          rfl

section Chunks

variable {streaming : StreamingHead} (hallowed : streaming.bodyAllowed)
  (hchunked : streaming.chunked) (frames : List UpstreamBodyFrame)

include hallowed hchunked

/-- The frames as chunks, without a last one. -/
theorem bytesBehind_chunks (more : List Output) :
    bytesBehind (frameOutputs streaming frames ++ more) =
      ((frameData frames).filter fun data => !data.isEmpty).flatMap chunk ++ bytesBehind more := by
  rw [bytesBehind_frameOutputs, hallowed, if_pos rfl, hchunked, flatMap_writeRequestData]

theorem bytesBehind_chunkedBody (trailers : Headers) :
    bytesBehind (frameOutputs streaming frames ++ finishStreamBody streaming.chunked trailers) =
      chunkedBody (frameData frames) trailers := by
  rw [bytesBehind_chunks hallowed hchunked frames, hchunked, chunkedBody]
  change _ ++ (finishRequestBody true trailers ++ []) = _
  rw [append_nil, finishRequestBody, if_pos rfl, lastChunk_eq]

end Chunks

end RsProxy.Engine
