import RsProxy.Engine.StreamedAnswer
import RsProxy.Engine.PooledSync
import RsProxy.Engine.ReadTrailers
import RsProxy.Net.ResponseWire

/-!
# The trailers a client gets

A chunked response reaches a client over a pooled connection, as a stream, or read whole before it
is written. All three drop the trailers that must not be passed on. The stream and the reader of
whole bodies then check what is left; the pooled path writes it as it was read.
-/

namespace RsProxy.Engine

open Text Io Net List Bool
open Data (do_eq_ok ok_bind)
open Rules (Action DeleteOp HeaderOp ResolvedAction isForbiddenTrailerName isHttpTokenChar)

/-! ### Proper trailers -/

/-- Does a connection field of the list nominate this name? -/
def isNominated (headers : Headers) (name : Str) : Bool :=
  (connectionNames headers).any fun nominated => eqIgnoreAsciiCase name (toAsciiLowercase nominated)

/-- A trailer that may be passed on behind a response with these header fields. -/
structure ProperTrailer (headers : Headers) (field : Str × Str) : Prop where
  ok : FieldOk field
  allowed : isForbiddenTrailerName field.1 = false
  own : isNominated headers field.1 = false

def ProperLine (headers : Headers) (line : Str) : Prop :=
  ∃ field, line = trailerLine field ∧ ProperTrailer headers field

variable {trailers : Headers} {field : Str × Str}

theorem mem_sanitize_iff {headers} :
    field ∈ sanitizeUpstreamTrailers trailers headers ↔ field ∈ trailers ∧
      isForbiddenTrailerName field.1 = false ∧ isNominated headers field.1 = false := by
  rw [sanitizeUpstreamTrailers, mem_filter, and_eq_true, not_eq_true', not_eq_true']
  rfl

/-! ### The three paths -/

section Paths

variable [ResponseValues] [ReasonPhrases] {υ : Type} [Read υ]

section

variable (config : ProxyConfig) (rounds : Nat) (context : ResponseContext) (head : RawResponseHead)
  (connection : υ)

/-- What `finish` answers on the pooled path. -/
def answerPooled : Answered :=
  let ((outputs, outcome), _) := finish config rounds context head connection
  (outputs, outcome.map (·.clientConnection))

/-- The head of a chunked response, as `finishChunked` writes it. -/
def chunkedHead : Except IoError Output :=
  writeResponseHeadWithConnection { head with version := clientResponseVersion context.version }
    (chunkedResponseHeaders head.headers) context.clientConnection.keepsAlive

/-- Does the pooled path pass a chunked response on with its trailers? -/
def passesTrailers : Bool :=
  context.deadline.isOk && responseHasFramedBody context.method head.status &&
    head.status ≠ 205 && !isSseResponse head.headers && (chunkedHead context head).isOk

/-- The trailers the pooled path reads and does not throw away. -/
def relayedTrailers : Headers :=
  match passesTrailers context head, relayChunked config.headerLimits rounds connection with
  | true, ((_, .done trailers), _) => trailers
  | _, _ => []

end

end Paths

section Read

variable [ResponseValues] [ReasonPhrases] {υ : Type} [Read υ]

section

variable (config : ProxyConfig)

section

variable (rounds : Nat) (context : ResponseContext) (head : RawResponseHead)
  (actions : List ResolvedAction) (connection : υ)

/-- The trailers of a streamed answer that gets to them. -/
def reachedTrailers (frames : List UpstreamBodyFrame) (ending : Outcome Unit) : Option Headers :=
  match writtenHead config context head actions, ending with
  | some _, .done _ => some (frameTrailers frames)
  | _, _ => none

def streamedTrailers : Option Headers :=
  match newBodyState context.method head.status head.headers with
  | .error _ => none
  | .ok state =>
    let ((frames, ending), _) := bodyFrames config.headerLimits rounds state connection
    reachedTrailers config context head actions frames ending

/-- The trailers of a whole answer that gets to them, behind the actions on its head and body. -/
def bufferedTrailers : Option Headers :=
  match readResponseBody head.headers rounds connection with
  | ((pieces, .done trailers), _) =>
    let body := if head.status = 205 then [] else pieces.flatten
    (applyResponseActions config ⟨head, head.headers, body⟩ actions).toOption.map fun _ =>
      if head.status = 205 then [] else trailers
  | _ => none

end

section

variable (headers : Headers) (actions : List ResolvedAction) (read : Option Headers)

include headers

/-- What the actions leave of the trailers that may be passed on. -/
def trailersLeft : Headers :=
  (read.bind fun read =>
    (editTrailers config (sanitizeUpstreamTrailers read headers) actions).toOption).getD []

/-- The trailers of the upstream that the actions leave as they are can be passed on. -/
def UpstreamProper : Prop :=
  ∀ field ∈ read.getD [], field ∈ trailersLeft config headers actions read → FieldOk field

end

/-- Does a streamed answer have a section for the trailers that are left? -/
def streamedSection (context : ResponseContext) (head : RawResponseHead)
    (actions : List ResolvedAction) (left : Headers) : Bool :=
  (writtenHead config context head actions).any (·.chunked) &&
    (validateTrailerBlock config left).isOk

/-- Does a whole answer have a trailer section? -/
def bufferedSection (rounds : Nat) (context : ResponseContext)
    (head : RawResponseHead) (actions : List ResolvedAction) (connection : υ) : Bool :=
  match readResponseBody head.headers rounds connection with
  | ((pieces, .done trailers), _) =>
    match prepareBufferedResponse config context head pieces.flatten trailers actions with
    | .ok (parts, trailers) => !trailers.isEmpty &&
      responseCanSendContent context.method parts.head.status &&
      (writeResponseHeadWithConnection parts.head parts.headers
        context.clientConnection.keepsAlive).isOk
    | .error _ => false
  | _ => false

end

end Read

/-- Every line of the trailer section the client gets is a proper one, and where a trailer of the
upstream is left that is not proper, an error closes the connection. -/
structure TrailersClean [ResponseValues] [ReasonPhrases] (config : ProxyConfig)
    (context : ResponseContext) (streamingRequest : Bool) (headers : Headers)
    (actions : List ResolvedAction) (read : Option Headers) (answer : Answered) : Prop where
  lines : ∀ line ∈ trailerLines (completeForward context streamingRequest answer).1,
    ProperLine headers line
  closed : ¬ UpstreamProper config headers actions read → ∀ e, answer.2 = .failed e →
    (completeForward context streamingRequest answer).2 = .done .close

/-! ### Heads without a coding -/

variable {outputs : List Output} {keepAlive : Bool} {output : Output} {body : Bytes}

section Written

variable [ReasonPhrases] {headers : Headers}

/-- A head that is written without a coding is not chunked. -/
theorem exists_written_uncoded {head}
    (h : writeResponseHeadWithConnection head headers keepAlive = .ok output)
    (huncoded : headers.filter (named "transfer-encoding") = []) :
    ∃ sent, output = .head sent ∧ hasChunkedTransferEncoding sent.headers = false := by
  obtain ⟨length, -, rfl⟩ := exists_written h
  exact ⟨_, rfl, uncoded_written huncoded⟩

omit [ReasonPhrases] in
/-- A response that is written whole is not chunked. -/
theorem exists_written_whole {version reason status}
    (h : writeResponseWithVersionAndConnection version status reason headers body keepAlive =
      .ok outputs) :
    ∃ sent, outputs = [.head sent, .data body] ∧
      hasChunkedTransferEncoding sent.headers = false := by
  obtain ⟨⟨⟩, -, h⟩ := do_eq_ok.mp h
  split_ifs at h
  cases h
  refine ⟨_, rfl, not_hasChunked_of_uncoded ?_⟩
  exact uncoded_whole

/-- The error response is not chunked. -/
theorem handleForwardError_uncoded {version streamingRequest connection e} :
    StartsWithHead (handleForwardError version streamingRequest connection e).1 ∧
      trailerLines (handleForwardError version streamingRequest connection e).1 = [] := by
  unfold handleForwardError
  dsimp only
  split
  next outputs hwrite =>
    obtain ⟨sent, rfl, huncoded⟩ := exists_written_whole hwrite
    refine ⟨?_, trailerLines_of_not_chunked huncoded⟩
    rintro output ⟨⟩
    exact ⟨sent, rfl⟩
  · exact ⟨nofun, rfl⟩

/-- The error response adds no trailers. -/
theorem trailerLines_completeForward {context streamingRequest answer} :
    trailerLines (completeForward context streamingRequest answer).1 = trailerLines answer.1 := by
  obtain ⟨outputs, outcome⟩ := answer
  cases outcome with
  | done | running => rfl
  | failed e =>
    obtain ⟨hstart, hnone⟩ := handleForwardError_uncoded
    change trailerLines (outputs ++ (handleForwardError context.version streamingRequest
      context.clientConnection e).1) = _
    rw [trailerLines_append hstart, hnone]
    split
    next hempty =>
      rw [hempty]
      rfl
    · rfl

/-- Nothing but the lines matters where every trailer that is left is proper. -/
theorem trailersClean_iff_lines [ResponseValues]
    {config context streamingRequest actions read answer}
    (hleft : ∀ field ∈ trailersLeft config headers actions read, FieldOk field) :
    TrailersClean config context streamingRequest headers actions read answer ↔
      ∀ line ∈ trailerLines answer.1, ProperLine headers line := by
  constructor
  · intro hclean
    rw [← trailerLines_completeForward]
    exact hclean.lines
  · intro hlines
    refine ⟨by rwa [trailerLines_completeForward], fun hbad => ?_⟩
    exact absurd (fun field _ hfield => hleft field hfield) hbad

end Written

variable {sent : RawResponseHead}

/-- Chunks without a last one. -/
theorem trailerLines_dataChunks (pieces : List Bytes) (hbytes : bytesBehind outputs =
      (pieces.filter fun data => !data.isEmpty).flatMap chunk ++ []) :
    trailerLines (.head sent :: outputs) = [] :=
  trailerLines_chunks (fun data hdata => by simpa using (mem_filter.mp hdata).2)
    (hbytes.trans (append_nil _))

/-! ### Trailers that were checked -/

section Checked

variable {config : ProxyConfig} {left : Headers} {present : Bool} {answer : Answered}

/-- How an answer treats the trailers that are left: it does not get to them, it fails their check,
or they pass and stand in its trailer section, if it has one. -/
inductive Treats (config : ProxyConfig) (left : Headers) (present : Bool) (answer : Answered) : Prop
  | silent (hlines : trailerLines answer.1 = []) (hleft : left = [])
  | refused (hlines : trailerLines answer.1 = []) {e} (hfailed : answer.2 = .failed e)
      (habsent : present = false)
  | passed (hlines : trailerLines answer.1 = if present then left.map trailerLine else [])
      (hvalid : AdmittedTrailers config left)

/-- A trailer is told from its line. -/
theorem eq_of_trailerLine {proper : Str × Str} (hfield : ':' ∉ field.1) (hproper : ':' ∉ proper.1)
    (h : trailerLine field = trailerLine proper) : field = proper := by
  have hsame := splitOnce_trailerLine hfield
  rw [h, splitOnce_trailerLine hproper] at hsame
  obtain ⟨hname, hvalue⟩ := Prod.mk.inj (Option.some.inj hsame)
  exact Prod.ext hname.symm (cons.inj hvalue).2.symm

theorem oneLine_of_fieldOk (h : FieldOk field) : OneLine field :=
  fun hin => h.notMem_line (hin.subset (by decide))

/-- The lines of trailers without a colon in their names are proper if and only if the trailers
are. -/
theorem properLines_iff {headers : Headers} (hnames : ∀ field ∈ left, ':' ∉ field.1) :
    (∀ line ∈ left.map trailerLine, ProperLine headers line) ↔
      ∀ field ∈ left, ProperTrailer headers field := by
  rw [forall_mem_map]
  refine forall₂_congr fun field hfield => ⟨?_, fun h => ⟨field, rfl, h⟩⟩
  rintro ⟨proper, hline, hproper⟩
  rwa [eq_of_trailerLine (hnames field hfield) (colon_notMem hproper.ok.tokens) hline]

theorem Treats.clean_iff [ResponseValues] [ReasonPhrases] {headers : Headers}
    {actions : List ResolvedAction} {read : Option Headers}
    (h : Treats config (trailersLeft config headers actions read) present answer)
    (context : ResponseContext) (streamingRequest : Bool) :
    TrailersClean config context streamingRequest headers actions read answer ↔
      (closesOnError context streamingRequest ∨ UpstreamProper config headers actions read) ∧
        (present → ∀ field ∈ trailersLeft config headers actions read,
          isNominated headers field.1 = false) := by
  cases h with
  | silent hlines hleft =>
    rw [trailersClean_iff_lines (by rw [hleft]; exact forall_mem_nil _), hlines,
      UpstreamProper, hleft]
    simp
  | refused hlines hfailed habsent =>
    subst habsent
    obtain ⟨outputs, outcome⟩ := answer
    cases hfailed
    constructor
    · intro hclean
      refine ⟨?_, nofun⟩
      by_contra! hnot
      exact hnot.1 (completeForward_failed.mp (hclean.closed hnot.2 _ rfl))
    · rintro ⟨hok, -⟩
      refine ⟨by rw [trailerLines_completeForward, hlines]; nofun, fun hbad e he => ?_⟩
      exact completeForward_failed.mpr (hok.resolve_right hbad)
  | passed hlines hvalid =>
    have hproper : UpstreamProper config headers actions read :=
      fun field _ hfield => hvalid.proper field hfield
    rw [trailersClean_iff_lines hvalid.proper, hlines,
      and_iff_right (.inr hproper)]
    cases present with
    | false => simp
    | true =>
      rw [if_pos rfl, properLines_iff fun field hfield =>
        colon_notMem (hvalid.proper field hfield).tokens]
      simp only [forall_const]
      exact forall₂_congr fun field hfield => ⟨fun h => h.own, fun h =>
        ⟨hvalid.proper field hfield, hvalid.allowed field hfield, h⟩⟩

end Checked

variable {trailers' : Headers} {parts : ResponseParts}

/-! ### Streamed answers -/

section Streamed

variable [ResponseValues] [ReasonPhrases] {config : ProxyConfig} {context : ResponseContext}
  {head : RawResponseHead} {actions : List ResolvedAction}

/-- A body that was not ended has no trailers. -/
theorem trailerLines_unfinished {streaming parts} (length : Option Nat)
    (frames : List UpstreamBodyFrame)
    (hprepared : Prepared config context head actions streaming parts) :
    trailerLines (.head (streaming.sent length) :: frameOutputs streaming frames) = [] := by
  cases hchunked : streaming.chunked with
  | false => exact trailerLines_of_not_chunked (hprepared.sent_chunked.trans hchunked)
  | true =>
    refine trailerLines_dataChunks (frameData frames) ?_
    rw [← append_nil (frameOutputs streaming frames)]
    exact bytesBehind_chunks (hprepared.chunks hchunked).1 hchunked frames []

omit [ReasonPhrases] in
theorem trailersLeft_some {headers read left}
    (h : editTrailers config (sanitizeUpstreamTrailers read headers) actions = .ok left) :
    trailersLeft config headers actions (some read) = left := by
  rw [trailersLeft, Option.bind_some, h]
  rfl

omit [ReasonPhrases] in
theorem trailersLeft_error {headers read e}
    (h : editTrailers config (sanitizeUpstreamTrailers read headers) actions = .error e) :
    trailersLeft config headers actions (some read) = [] := by
  rw [trailersLeft, Option.bind_some, h]
  rfl

theorem treats_finishStreamingResponse (pre : Bytes) (frames : List UpstreamBodyFrame)
    (ending : Outcome Unit) :
    let left := trailersLeft config head.headers actions
      (reachedTrailers config context head actions frames ending)
    Treats config left (streamedSection config context head actions left)
      (finishStreamingResponse config context head pre frames ending actions) := by
  dsimp only
  obtain ⟨hnone, e, hanswer⟩ | ⟨streaming, parts, length, hwritten, hprepared, -, hanswer⟩ :=
    finishStreamingResponse_cases config context head actions pre frames ending
  · rw [hanswer]
    unfold reachedTrailers
    rw [hnone]
    exact .silent rfl rfl
  have hunfinished := trailerLines_unfinished length (.data pre :: frames) hprepared
  unfold reachedTrailers
  rw [hanswer, hwritten]
  cases ending with
  | running => exact .silent hunfinished rfl
  | failed e =>
    rw [streamBody_failed]
    exact .silent hunfinished rfl
  | done =>
    rw [streamBody_done, streamedSection, hwritten]
    obtain ⟨e, hedit, happly⟩ | ⟨left, hedit, ⟨e, hvalid, happly⟩ | ⟨hvalid, happly⟩⟩ :=
      applyResponseTrailerActions_cases config
        (sanitizeUpstreamTrailers (frameTrailers frames) head.headers) actions
    · rw [happly]
      exact .silent hunfinished (trailersLeft_error hedit)
    · rw [happly, trailersLeft_some hedit]
      refine .refused hunfinished rfl ?_
      rw [hvalid]
      exact and_false _
    · rw [happly, trailersLeft_some hedit]
      refine .passed ?_ (validateTrailerBlock_ok_iff.mp hvalid)
      rw [hvalid]
      cases hchunked : streaming.chunked with
      | false =>
        rw [trailerLines_of_not_chunked (hprepared.sent_chunked.trans hchunked)]
        simp [hchunked, Except.isOk, Except.toBool]
      | true =>
        obtain ⟨hallowed, hversion⟩ := hprepared.chunks hchunked
        rw [hallowed, hversion]
        have hbytes := bytesBehind_chunkedBody hallowed hchunked (.data pre :: frames) left
        rw [hchunked] at hbytes
        refine (trailerLines_chunkedBody (hprepared.sent_chunked.trans hchunked) hbytes ?_).trans ?_
        · exact fun field hfield =>
            oneLine_of_fieldOk ((validateTrailerBlock_ok_iff.mp hvalid).proper field hfield)
        · simp [hchunked, Except.isOk, Except.toBool]

end Streamed

/-! ### Answers that were read whole -/

section Buffered

variable [ResponseValues] [ReasonPhrases] {config : ProxyConfig} {context : ResponseContext}
  {head : RawResponseHead} {actions : List ResolvedAction}

omit [ResponseValues] [ReasonPhrases] in
theorem uncoded_updateBodyHeaders {headers length} :
    (updateBodyHeaders headers length).filter (named "transfer-encoding") = [] := by
  rw [updateBodyHeaders, filter_setHeader_of_ne (by decide), filter_removeHeader_of_ne (by decide),
    filter_removeHeader_self]

omit [ResponseValues] [ReasonPhrases] in
theorem coded_prepareTrailerHeaders {headers trailers} :
    (prepareTrailerHeaders headers trailers).filter (named "transfer-encoding") =
      [(canonicalHeaderName "Transfer-Encoding".toList, "chunked".toList)] := by
  unfold prepareTrailerHeaders
  rw [filter_setHeader_of_ne (by decide)]
  refine filter_setHeader_of_nil (by decide) ?_ _
  exact filter_removeHeader_self _ _

/-- The trailers of a whole answer are those the trailer actions leave, or none; its head announces
a coding where there are any. -/
theorem prepareBuffered_ok
    (h : prepareBufferedResponse config context head body trailers actions =
      .ok (parts, trailers')) :
    (∃ applied, applyResponseTrailerActions config
      (if head.status = 205 then [] else sanitizeUpstreamTrailers trailers head.headers) actions =
        .ok applied ∧ (trailers' = [] ∨ trailers' = applied)) ∧
    (responseCanSendContent context.method parts.head.status →
      parts.headers.filter (named "transfer-encoding") = if trailers'.isEmpty then [] else
        [(canonicalHeaderName "Transfer-Encoding".toList, "chunked".toList)]) := by
  obtain ⟨before, -, hprepare⟩ := do_eq_ok.mp h
  obtain ⟨applied, happly, htimed⟩ := do_eq_ok.mp hprepare
  obtain ⟨⟨⟩, -, hkeep⟩ := do_eq_ok.mp htimed
  dsimp only at hkeep
  generalize hkept : (if !statusCanSendContent before.head.status then _ else _ :
    Bytes × Headers × Headers) = kept at hkeep
  have hgiven : kept.2.1 = [] ∨ kept.2.1 = applied := by
    rw [← hkept]
    split_ifs
    · exact .inl rfl
    · exact .inl rfl
    · exact .inr rfl
  cases hkeep
  refine ⟨⟨applied, happly, ?_⟩, fun hallowed => ?_⟩
  · split
    · exact .inl rfl
    · exact hgiven
  · dsimp only at hallowed ⊢
    rw [hallowed]
    generalize (if eqIgnoreAsciiCase context.version "HTTP/1.0" then [] else kept.2.1 : Headers) =
      left
    cases left with
    | nil => exact uncoded_updateBodyHeaders
    | cons => exact coded_prepareTrailerHeaders

/-- A whole answer has the lines of its trailers, if it has a trailer section. -/
theorem trailerLines_finishBuffered
    (hprepare : prepareBufferedResponse config context head body trailers actions =
      .ok (parts, trailers')) (hok : ∀ field ∈ trailers', FieldOk field) :
    trailerLines
        ((finishBufferedResponse config context head body trailers actions).toOption.elim []
          Prod.fst) =
      if !trailers'.isEmpty && responseCanSendContent context.method parts.head.status &&
        (writeResponseHeadWithConnection parts.head parts.headers
          context.clientConnection.keepsAlive).isOk then trailers'.map trailerLine else [] := by
  obtain ⟨-, hcoding⟩ := prepareBuffered_ok hprepare
  rw [finishBufferedResponse, hprepare, ok_bind]
  dsimp only
  cases hallowed : responseCanSendContent context.method parts.head.status with
  | false =>
    -- no content: a head, and nothing behind it
    rw [if_pos (by decide), Bool.and_false, Bool.false_and, if_neg Bool.false_ne_true]
    cases hwrite : writeResponseHeadWithConnection parts.head parts.headers
      context.clientConnection.keepsAlive with
    | error e => rfl
    | ok written =>
      obtain ⟨length, -, rfl⟩ := exists_written hwrite
      exact trailerLines_chunks (forall_mem_nil _) rfl
  | true =>
    have hcoding := hcoding hallowed
    rw [if_neg (by decide)]
    cases trailers' with
    | nil =>
      rw [if_pos (by decide)]
      split
      · cases hwrite : writeResponseWithVersionAndConnection parts.head.version parts.head.status
          (reasonOf parts.head) parts.headers parts.body context.clientConnection.keepsAlive with
        | error e => rfl
        | ok written =>
          obtain ⟨sent, rfl, hplain⟩ := exists_written_whole hwrite
          exact trailerLines_of_not_chunked hplain
      · cases hwrite : writeResponseHeadWithConnection parts.head parts.headers
          context.clientConnection.keepsAlive with
        | error e => rfl
        | ok written =>
          obtain ⟨sent, rfl, hplain⟩ := exists_written_uncoded hwrite hcoding
          exact trailerLines_of_not_chunked hplain
    | cons field rest =>
      rw [if_neg (by simp)]
      cases hwrite : writeResponseHeadWithConnection parts.head parts.headers
        context.clientConnection.keepsAlive with
      | error e => rfl
      | ok written =>
        obtain ⟨length, -, rfl⟩ := exists_written hwrite
        have hstatus : statusCanSendContent parts.head.status := by
          rw [responseCanSendContent, and_eq_true] at hallowed
          exact hallowed.2
        have hbytes : bytesBehind [.data (writeChunkedRequest parts.body (field :: rest))] =
            chunkedBody [parts.body] (field :: rest) := by
          rw [← writeChunkedRequest_eq]
          exact append_nil _
        exact trailerLines_chunkedBody (coded_written hstatus hcoding) hbytes
          fun field hfield => oneLine_of_fieldOk (hok field hfield)

theorem treats_answerBuffered {υ : Type} [Read υ] {rounds} {connection : υ} :
    Treats config (trailersLeft config head.headers actions
        (bufferedTrailers config rounds head actions connection))
      (bufferedSection config rounds context head actions connection)
      (answerBuffered config rounds context head actions connection).1 := by
  unfold answerBuffered bufferedTrailers bufferedSection
  rcases readResponseBody head.headers rounds connection with
    ⟨⟨pieces, trailers | e | -⟩, connection'⟩
  rotate_left
  · exact .silent rfl rfl
  · exact .silent rfl rfl
  dsimp only
  have hoff : (if head.status = 205 then [] else sanitizeUpstreamTrailers trailers head.headers) =
      sanitizeUpstreamTrailers (if head.status = 205 then [] else trailers) head.headers := by
    split <;> rfl
  -- what stops the preparation stops the answer
  have hstop : ∀ {e}, prepareBufferedResponse config context head pieces.flatten trailers actions =
      .error e → finishBufferedResponse config context head pieces.flatten trailers actions =
        .error e := by
    intro e h
    rw [finishBufferedResponse, h]
    rfl
  cases hbefore : applyResponseActions config
    ⟨head, head.headers, if head.status = 205 then [] else pieces.flatten⟩ actions with
  | error e =>
    have hprepare : prepareBufferedResponse config context head pieces.flatten trailers actions =
        .error e := by
      unfold prepareBufferedResponse
      dsimp only
      rw [hbefore]
      rfl
    rw [hstop hprepare]
    exact .silent rfl rfl
  | ok before =>
    have hfails : ∀ {e}, applyResponseTrailerActions config
        (sanitizeUpstreamTrailers (if head.status = 205 then [] else trailers) head.headers)
          actions = .error e →
        prepareBufferedResponse config context head pieces.flatten trailers actions =
            .error e := by
      intro e h
      unfold prepareBufferedResponse
      dsimp only
      rw [hbefore, hoff, ok_bind, h]
      rfl
    obtain ⟨e, hedit, happly⟩ | ⟨left, hedit, ⟨e, -, happly⟩ | ⟨hvalid, happly⟩⟩ :=
      applyResponseTrailerActions_cases config
        (sanitizeUpstreamTrailers (if head.status = 205 then [] else trailers) head.headers) actions
    · rw [hstop (hfails happly)]
      exact .silent rfl (trailersLeft_error hedit)
    · rw [hstop (hfails happly), hfails happly]
      exact .refused rfl rfl rfl
    · change Treats config (trailersLeft config head.headers actions (some _)) _ _
      rw [trailersLeft_some hedit]
      refine .passed ?_ (validateTrailerBlock_ok_iff.mp hvalid)
      cases hprepare : prepareBufferedResponse config context head pieces.flatten trailers
        actions with
      | error e =>
        rw [hstop hprepare]
        rfl
      | ok result =>
        obtain ⟨parts, trailers'⟩ := result
        obtain ⟨⟨applied, happlied, hkept⟩, -⟩ := prepareBuffered_ok hprepare
        rw [hoff, happly] at happlied
        cases happlied
        have hok : ∀ field ∈ trailers', FieldOk field := by
          intro field hfield
          rcases hkept with rfl | rfl
          · cases hfield
          · exact ((validateTrailerBlock_ok_iff.mp hvalid).proper field hfield)
        refine Eq.trans ?_ ((trailerLines_finishBuffered hprepare hok).trans ?_)
        · cases finishBufferedResponse config context head pieces.flatten trailers actions <;> rfl
        · rcases hkept with rfl | rfl
          · simp
          · rfl

end Buffered

/-! ### Pooled answers -/

variable {rounds : Nat}

section Pooled

variable [ReasonPhrases] {υ : Type} [Read υ] {config : ProxyConfig} {context : ResponseContext}
  {head : RawResponseHead}

variable {headers : Headers} {connection : υ}

omit [Read υ] in
/-- Behind a head that was written stand the pieces the relay handed out, and the ending if it got
there. -/
theorem answerBehind_ok {α written}
    (hwrite : writeResponseHeadWithConnection head headers keepAlive = .ok written) {relay encode}
    {ending : α → List Output} {outcome} :
    (answerBehind head headers keepAlive relay encode ending outcome connection).1 =
      (written :: ((relay connection).1.1.map (.data ∘ encode) ++
          (match (relay connection).1.2 with
          | .done a => ending a
          | _ => [])),
        match (relay connection).1.2 with
        | .done _ => .done outcome
        | .failed _ => .done ⟨.close, false⟩
        | .running => .running) := by
  rw [answerBehind, hwrite]
  dsimp only
  rcases relay connection with ⟨⟨pieces, a | e | -⟩, connection'⟩ <;> simp

omit [Read υ] in
theorem trailerLines_answerBehind_uncoded {α}
    (huncoded : headers.filter (named "transfer-encoding") = []) {relay encode}
    {ending : α → List Output} {outcome} :
    trailerLines (answerBehind head headers keepAlive relay encode ending outcome connection).1.1 =
      [] := by
  cases hwrite : writeResponseHeadWithConnection head headers keepAlive with
  | error e =>
    rw [answerBehind, hwrite]
    rfl
  | ok written =>
    obtain ⟨sent, rfl, hplain⟩ := exists_written_uncoded hwrite huncoded
    rw [answerBehind_ok hwrite]
    exact trailerLines_of_not_chunked hplain

omit [ReasonPhrases] in
theorem discardBody_quiet {limits} : (discardBody limits rounds headers connection).1.1 = [] := by
  unfold discardBody
  split
  · rw [RelayM.bind_pieces]
    split <;> rfl
  · cases declaredLength headers <;> rfl

theorem trailerLines_finishResetContent {reusable} :
    trailerLines (finishResetContent config rounds context head reusable connection).1.1 = [] := by
  rw [finishResetContent, RelayM.bind_pieces, discardBody_quiet]
  split
  · exact trailerLines_answerBehind_uncoded (strip_uncoded _)
  · rfl

/-- The head of a chunked answer is chunked. -/
theorem exists_chunkedHead (hframed : responseHasFramedBody context.method head.status)
    (hreset : head.status ≠ 205) (hwrite : chunkedHead context head = .ok output) :
    ∃ sent, output = .head sent ∧ hasChunkedTransferEncoding sent.headers := by
  obtain ⟨length, -, rfl⟩ := exists_written hwrite
  have hcontent : statusCanSendContent head.status := by
    have := canSendContent_of_framed hframed hreset
    rw [responseCanSendContent, and_eq_true] at this
    exact this.2
  exact ⟨_, rfl, coded_written hcontent coded_chunkedResponseHeaders⟩

/-- What is behind the head of a chunked answer. -/
theorem finishChunked_outputs (config : ProxyConfig) (rounds : Nat) (reusable : Bool)
    (connection : υ) (hwrite : chunkedHead context head = .ok (.head sent)) :
    ∃ outputs, (finishChunked config rounds context head reusable connection).1.1 =
        .head sent :: outputs ∧
      bytesBehind outputs =
        ((relayChunked config.headerLimits rounds connection).1.1.filter
          fun data => !data.isEmpty).flatMap chunk ++
        match (relayChunked config.headerLimits rounds connection).1.2 with
        | .done trailers => lastChunk (sanitizeUpstreamTrailers trailers head.headers)
        | _ => [] := by
  have hdata : ∀ (pieces : List Bytes) more,
      bytesBehind (pieces.map (Output.data ∘ (writeRequestData · true)) ++ more) =
        (pieces.filter fun data => !data.isEmpty).flatMap chunk ++ bytesBehind more := by
    intro pieces more
    rw [← flatMap_writeRequestData]
    induction pieces with
    | nil => rfl
    | cons piece pieces ih =>
      rw [flatMap_cons, append_assoc, ← ih]
      rfl
  refine ⟨_, congrArg Prod.fst (answerBehind_ok hwrite), ?_⟩
  rw [hdata]
  congr 1
  cases (relayChunked config.headerLimits rounds connection).1.2 with
  | done trailers =>
    change finishRequestBody true _ ++ [] = lastChunk _
    rw [append_nil, finishRequestBody, if_pos rfl, lastChunk_eq]
  | failed | running => rfl

variable [ResponseValues]

section

variable (hchunked : hasChunkedTransferEncoding head.headers)

include hchunked

/-- A chunked response that is passed on with its trailers is answered by `finishChunked`. -/
theorem finish_eq_finishChunked (hpasses : passesTrailers context head) :
    (finish config rounds context head connection : _ × υ) =
      finishChunked config rounds context head (responseIsPersistent head) connection := by
  simp only [passesTrailers, and_eq_true, not_eq_true', decide_eq_true_eq] at hpasses
  obtain ⟨⟨⟨⟨hdeadline, hframed⟩, hreset⟩, hsse⟩, -⟩ := hpasses
  rw [finish]
  cases hresult : context.deadline with
  | error e =>
    rw [hresult] at hdeadline
    cases hdeadline
  | ok u =>
    rw [hframed, hsse, if_neg (by decide), if_neg hreset, if_neg (by decide), if_pos hchunked]

/-- Any other answer to a chunked response has no trailers. -/
theorem trailerLines_finish_of_not_passes (hpasses : passesTrailers context head = false) :
    trailerLines (finish config rounds context head connection).1.1 = [] := by
  rw [finish]
  cases hdeadline : context.deadline with
  | error e => rfl
  | ok u =>
    split_ifs with hframed hreset hsse
    · exact trailerLines_answerBehind_uncoded (strip_uncoded _)
    · exact trailerLines_finishResetContent
    · exact trailerLines_answerBehind_uncoded (uncoded_prepareStreamingBody _)
    · -- all that can be wrong is the head
      have hunwritten : (chunkedHead context head).isOk = false := by
        rw [not_eq_true', not_eq_false] at hframed
        rw [not_eq_true] at hsse
        rwa [passesTrailers, hdeadline, hframed, hsse, decide_eq_true hreset] at hpasses
      cases hwrite : chunkedHead context head with
      | ok written =>
        rw [hwrite] at hunwritten
        cases hunwritten
      | error e =>
        rw [chunkedHead] at hwrite
        rw [finishChunked, answerBehind, hwrite]
        rfl

/-- The lines of a pooled answer to a chunked response are those of the trailers that are
relayed. -/
theorem trailerLines_finish {rounds} (hlines : ∀ field ∈ sanitizeUpstreamTrailers
      (relayedTrailers config rounds context head connection) head.headers, OneLine field) :
    trailerLines (finish config rounds context head connection).1.1 =
      (sanitizeUpstreamTrailers (relayedTrailers config rounds context head connection)
        head.headers).map trailerLine := by
  unfold relayedTrailers at hlines ⊢
  cases hpasses : passesTrailers context head with
  | false => exact trailerLines_finish_of_not_passes hchunked hpasses
  | true =>
    rw [finish_eq_finishChunked hchunked hpasses]
    rw [hpasses] at hlines
    simp only [passesTrailers, and_eq_true, decide_eq_true_eq] at hpasses
    obtain ⟨⟨⟨⟨-, hframed⟩, hreset⟩, -⟩, hwritten⟩ := hpasses
    cases hwrite : chunkedHead context head with
    | error e =>
      rw [hwrite] at hwritten
      cases hwritten
    | ok written =>
      obtain ⟨sent, rfl, hcoded⟩ := exists_chunkedHead hframed hreset hwrite
      obtain ⟨outputs, houtputs, hbytes⟩ := finishChunked_outputs config rounds
        (responseIsPersistent head) connection hwrite
      rw [houtputs]
      rcases hrelay : relayChunked config.headerLimits rounds connection with
        ⟨⟨pieces, trailers | e | -⟩, connection'⟩
      · rw [hrelay] at hbytes hlines
        exact trailerLines_chunkedBody hcoded hbytes hlines
      all_goals
        rw [hrelay] at hbytes
        exact trailerLines_dataChunks _ hbytes

/-- On the pooled path the trailers are clean if and only if the upstream sends clean ones. -/
theorem trailersClean_pooled_iff (hwithin : ReadsWithin υ) :
    TrailersClean config context false head.headers []
        (some (relayedTrailers config rounds context head connection))
        (answerPooled config rounds context head connection) ↔
      ∀ field ∈ sanitizeUpstreamTrailers (relayedTrailers config rounds context head connection)
        head.headers, FieldOk field := by
  have hcut : ∀ field ∈ relayedTrailers config rounds context head connection,
      CutTrailer field := by
    unfold relayedTrailers
    split
    next hrelay =>
      exact ensures_relayChunked hwithin _ _ (by rw [hrelay])
    · exact forall_mem_nil _
  have hlines : trailerLines (answerPooled config rounds context head connection).1 = _ :=
    trailerLines_finish hchunked
      fun field hfield => (hcut field (mem_sanitize_iff.mp hfield).1).oneLine
  have hnames : ∀ field ∈ sanitizeUpstreamTrailers
      (relayedTrailers config rounds context head connection) head.headers, ':' ∉ field.1 :=
    fun field hfield => (hcut field (mem_sanitize_iff.mp hfield).1).name
  constructor
  · intro hclean
    have h := hclean.lines
    rw [trailerLines_completeForward, hlines] at h
    exact fun field hfield => ((properLines_iff hnames).mp h field hfield).ok
  · intro hok
    have hleft : ∀ field ∈ trailersLeft config head.headers []
        (some (relayedTrailers config rounds context head connection)), FieldOk field := hok
    refine (trailersClean_iff_lines hleft).mpr ?_
    rw [hlines, properLines_iff hnames]
    intro field hfield
    obtain ⟨-, hallowed, hown⟩ := mem_sanitize_iff.mp hfield
    exact ⟨hok field hfield, hallowed, hown⟩

end

end Pooled

/-! ### The paths -/

section Clean

variable [ResponseValues] [ReasonPhrases] {υ : Type} [Read υ]

end Clean

section Examples

local instance unnamedStatuses : ReasonPhrases := noPhrases

local instance unchangedBodies : ResponseValues := noValues

def getContext : ResponseContext := ⟨"GET", "HTTP/1.1", .keepAlive, .ok ()⟩

def chunkedAnswer : RawResponseHead :=
  ⟨"HTTP/1.1", 200, "OK", [("Transfer-Encoding", "chunked")]⟩

/-- A body of nothing but a trailer. -/
def plainTrailer : Bytes := utf8 "0\r\nX-Sum: 1\r\n\r\n"

/-- The value of this trailer has a line feed in it. -/
def brokenTrailer : Bytes := utf8 "0\r\nX-Sum: 1\nSet-Cookie: a=b\r\n\r\n"

end Examples

end RsProxy.Engine
