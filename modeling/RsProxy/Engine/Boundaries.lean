import RsProxy.Engine.PooledSync
import RsProxy.Engine.StreamedAnswer

/-!
# Where a streamed answer ends

The head of a streamed answer declares a length, or a coding, or that the connection ends. The
length is the one the header list holds when the actions have run, and the bytes are those the
framing of the upstream response brought. The two agree, or the answer is coded, or the client
cannot tell where it ends.
-/

namespace RsProxy.Engine

open Text Io Net List
open Data (do_eq_ok)
open Rules (ResolvedAction)

/-- The bytes behind a head are those the head announces. -/
inductive Announced (method : Str) (sent : RawResponseHead) : Bytes → Prop
  | bodyless (h : responseHasFramedBody method sent.status = false) : Announced method sent []
  | coded (h : hasChunkedTransferEncoding sent.headers) (fragments : List Bytes)
      (trailers : Headers) : Announced method sent (chunkedBody fragments trailers)
  | sized {body} (huncoded : hasChunkedTransferEncoding sent.headers = false)
      (hlength : declaredLength sent.headers = some body.length) : Announced method sent body

/-- The client can tell where the message ends: it was announced, or the connection ends with it,
after an error response or without one. A message that is still being written says nothing yet. -/
def SelfConsistent [ReasonPhrases] (context : ResponseContext) (streamingRequest : Bool)
    (answer : Answered) : Prop :=
  ∀ sent rest, answer.1 = .head sent :: rest →
    answer.2 = .running ∨ (completeForward context streamingRequest answer).2 = .done .close ∨
      Announced context.method sent (bytesBehind rest)

/-! ### What it takes -/

/-- Every length that is declared is this one. -/
def DeclaresOnly (headers : Headers) (length : Nat) : Prop :=
  ∀ value ∈ listElements headers "content-length", parseU64 value = some length

section Kept

variable [ResponseValues] [ReasonPhrases]

/-- The trailers the actions leave pass their check. -/
def TrailersPass (config : ProxyConfig) (head : RawResponseHead) (actions : List ResolvedAction)
    (trailers : Headers) : Prop :=
  ∃ left, editTrailers config (sanitizeUpstreamTrailers trailers head.headers) actions = .ok left ∧
    AdmittedTrailers config left

/-- An upstream body of this length, with these trailers, ended so, keeps its boundary. It does
where no body is written, or where the fields the actions leave declare no other length (none, where
a coding took its place) and the trailers pass. The rest are connections that end anyway. -/
def BoundaryKept (config : ProxyConfig) (context : ResponseContext) (streamingRequest : Bool)
    (head : RawResponseHead) (actions : List ResolvedAction) (trailers : Headers) (length : Nat)
    (ending : Outcome Unit) : Prop :=
  ∀ streaming ∈ writtenHead config context head actions, streaming.bodyAllowed = true →
    ending ≠ .running →
    (TrailersPass config head actions trailers → ending = .done () →
      context.clientConnection = .close ∨ DeclaresOnly streaming.headers length) ∧
    (¬ TrailersPass config head actions trailers → closesOnError context streamingRequest = true ∨
      (header streaming.headers "content-length").isSome = true ∧
        DeclaresOnly streaming.headers length)

end Kept

/-! ### The length a head declares -/

section Declared

variable {headers : Headers} {length : Option Nat} {n : Nat}

/-- The lengths of a list that is accepted are one. -/
theorem foldlM_declareLength_ok {values : List Str} {start : Option Nat}
    (h : values.foldlM declareLength start = .ok length) :
    (values = [] ∧ length = start) ∨ ∃ n, length = some n ∧ (∀ m ∈ start, m = n) ∧ values ≠ [] ∧
      n ≤ Rules.usizeMax ∧ ∀ value ∈ values, parseU64 value = some n := by
  induction values generalizing start with
  | nil =>
    cases h
    exact .inl ⟨rfl, rfl⟩
  | cons value values ih =>
    obtain ⟨next, hnext, h⟩ := do_eq_ok.mp h
    unfold declareLength at hnext
    split_ifs at hnext
    split at hnext
    · cases hnext
    next parsed hparse =>
      split_ifs at hnext with hstart
      cases hnext
      have hstart : ∀ m ∈ start, m = parsed := by
        intro m hm
        rw [Option.mem_def.mp hm] at hstart
        simpa using hstart
      have hn : parsed ≤ Rules.usizeMax := le_of_parseUnsigned hparse
      refine .inr ⟨parsed, ?_, hstart, cons_ne_nil _ _, hn, ?_⟩
      all_goals obtain ⟨rfl, rfl⟩ | ⟨n, rfl, hsame, -, -, hrest⟩ := ih h
      · rfl
      · rw [hsame parsed rfl]
      · exact forall_mem_singleton.mpr hparse
      · cases hsame parsed rfl
        exact forall_mem_cons.mpr ⟨hparse, hrest⟩

theorem header_eq_none_iff {name : Str} :
    header headers name = none ↔ listElements headers name = [] := by
  rw [header_eq_head?, Option.map_eq_none_iff, head?_eq_none_iff, listElements, flatMap_eq_nil_iff]
  constructor
  · intro h
    rw [h]
    exact forall_mem_nil _
  · intro h
    refine eq_nil_iff_forall_not_mem.mpr fun field hfield => ?_
    exact absurd (map_eq_nil_iff.mp (h field hfield)) splitOn_ne_nil

/-- What the writer of a head found in the fields. -/
structure Found (headers : Headers) (length : Option Nat) : Prop where
  bound : ∀ n ∈ length, n ≤ Rules.usizeMax
  header : (header headers "content-length").isSome = length.isSome
  only : ∀ n, DeclaresOnly headers n ↔ length = none ∨ length = some n
  uncoded : length.isSome → headers.filter (named "transfer-encoding") = []

theorem found_of_validate (h : validateStreamingFraming headers = .ok length) :
    Found headers length := by
  obtain ⟨declared, hdeclared, h⟩ := do_eq_ok.mp h
  split_ifs at h with hboth
  cases h
  have huncoded : length.isSome → headers.filter (named "transfer-encoding") = [] := by
    intro hsome
    rw [hsome, Bool.true_and, Bool.not_eq_true, any_eq_false] at hboth
    exact filter_eq_nil_iff.mpr hboth
  obtain ⟨hnil, rfl⟩ | ⟨n, rfl, -, hne, hn, hall⟩ := foldlM_declareLength_ok hdeclared
  · refine ⟨nofun, ?_, fun n => ?_, huncoded⟩
    · rw [header_eq_none_iff.mpr hnil]
      rfl
    · rw [DeclaresOnly, hnil]
      simp
  · refine ⟨fun m hm => ?_, ?_, fun m => ⟨fun h => ?_, ?_⟩, huncoded⟩
    · cases hm
      exact hn
    · exact Option.isSome_iff_ne_none.mpr fun hnone => hne (header_eq_none_iff.mp hnone)
    · obtain ⟨value, hvalue⟩ := exists_mem_of_ne_nil _ hne
      exact .inr ((hall value hvalue).symm.trans (h value hvalue))
    · rintro (h | h)
      · cases h
      · rwa [DeclaresOnly, ← h]

/-- An element of the first field is one of the list. -/
theorem mem_listElements {name value element : Str} (h : header headers name = some value)
    (helement : element ∈ (splitOn (· == ',') value).map trim) :
    element ∈ listElements headers name := by
  rw [header_eq_head?] at h
  obtain ⟨field, hfield, rfl⟩ := Option.map_eq_some_iff.mp h
  exact mem_flatMap.mpr ⟨field, mem_of_mem_head? hfield, helement⟩

/-- The length in a head is the one its writer put there. -/
theorem declaredLength_written {status keepAlive} {declared : Option Nat}
    (hbound : ∀ n ∈ declared, n ≤ Rules.usizeMax)
    (hfield : lengthField status length =
      declared.toList.map fun n => ("Content-Length".toList, decimal n)) :
    declaredLength (headers.filter (isWritten status) ++ lengthField status length ++
      [connectionField keepAlive]) = declared := by
  have hnone : (headers.filter (isWritten status)).filter (named "content-length") = [] := by
    refine filter_eq_nil_iff.mpr fun field hfield hnamed => ?_
    have hwritten := (mem_filter.mp hfield).2
    rw [isWritten, hnamed, Bool.or_true] at hwritten
    cases hwritten
  rw [declaredLength, header_eq_head?, filter_append, filter_append, hnone, hfield]
  cases declared with
  | none => rfl
  | some n => exact parseUnsigned_decimal (hbound n rfl)

end Declared

/-! ### What the head announces -/

/-- Chunks without a last one are not a body. -/
theorem chunkedBody_ne_chunks {fragments pieces : List Bytes} (hne : ∀ data ∈ pieces, data ≠ [])
    {trailers : Headers} : chunkedBody fragments trailers ≠ pieces.flatMap chunk := by
  intro heq
  have hlast : ∀ more, (trailerSection (more + 1) (lastChunk trailers)).isSome := fun _ => rfl
  -- enough rounds for either of them
  obtain ⟨more, hmore⟩ := trailerSection_chunks
    (show ∀ data ∈ fragments.filter (fun data => !data.isEmpty), data ≠ [] by simp)
    (show _ < fragments.length + pieces.length + 1 by
      have := length_filter_le (fun data : Bytes => !data.isEmpty) fragments
      omega) (lastChunk trailers)
  obtain ⟨more', hmore'⟩ := trailerSection_chunks hne
    (show _ < fragments.length + pieces.length + 1 by omega) []
  rw [append_nil, ← heq, chunkedBody, hmore] at hmore'
  have hsome := hlast more
  rw [hmore'] at hsome
  cases hsome

section Answer

variable [ResponseValues] [ReasonPhrases] {config : ProxyConfig} {context : ResponseContext}
  {head : RawResponseHead} {actions : List ResolvedAction} {streaming : StreamingHead}
  {parts : ResponseParts} {length : Option Nat} {frames : List UpstreamBodyFrame}

section

variable (hprepared : Prepared config context head actions streaming parts)

include hprepared

/-- Nothing is behind the head where no body may be sent. -/
theorem Prepared.announced_nil (hallowed : streaming.bodyAllowed = false)
    (hfound : Found streaming.headers length) :
    Announced context.method (streaming.sent length) [] := by
  have hsent := hprepared.status
  have hchunked : streaming.chunked = false := by
    rw [hprepared.chunked, hallowed]
    rfl
  have huncoded : streaming.headers.filter (named "transfer-encoding") = [] := by
    rw [hprepared.plain hchunked, streamingFields_uncoded]
  have hzero : lengthField parts.head.status length = [("Content-Length".toList, decimal 0)] →
      Announced context.method (streaming.sent length) [] := by
    intro hfield
    rw [← hsent] at hfield
    have hbound : ∀ n ∈ some 0, n ≤ Rules.usizeMax := by
      rintro _ ⟨⟩
      exact Nat.zero_le _
    exact .sized (uncoded_written huncoded) (declaredLength_written hbound hfield)
  cases hcan : responseCanSendContent context.method parts.head.status with
  | true =>
    -- The upstream status is the one without content, and the fields declare that there is none.
    rw [hprepared.allowed, hcan, Bool.true_and, decide_eq_false_iff_not, not_not] at hallowed
    rw [responseCanSendContent, Bool.and_eq_true] at hcan
    have hfields : header streaming.headers "content-length" = some "0" := by
      rw [hprepared.plain hchunked, streamingFields, if_pos (by simp [hallowed, hcan.2])]
      exact header_setHeader (by decide)
    have hmem : "0".toList ∈ listElements streaming.headers "content-length" :=
      mem_listElements hfields (by decide)
    obtain ⟨n, rfl⟩ : ∃ n, length = some n := by
      rw [← Option.isSome_iff_exists, ← hfound.header, hfields]
      rfl
    have hn : parseU64 "0" = some n := (hfound.only n).mpr (.inr rfl) _ hmem
    cases hn
    apply hzero
    rw [lengthField, if_pos hcan.2]
    rfl
  | false =>
    cases hframed : responseHasFramedBody context.method parts.head.status with
    | false => exact .bodyless ((congrArg _ hsent).trans hframed)
    | true =>
      have hreset : parts.head.status = 205 := by
        by_contra hne
        rw [canSendContent_of_framed hframed hne] at hcan
        cases hcan
      apply hzero
      rw [hreset]
      rfl

/-- A head with a length announces that many bytes. -/
theorem Prepared.announced_iff
    (hallowed : streaming.bodyAllowed) (hchunked : streaming.chunked = false)
    (hfound : Found streaming.headers length) {body : Bytes} :
    Announced context.method (streaming.sent length) body ↔ length = some body.length := by
  have hcan := (hprepared.canSend hallowed).1
  have hframed := framed_of_canSendContent hcan
  rw [responseCanSendContent, Bool.and_eq_true] at hcan
  have huncoded : hasChunkedTransferEncoding (streaming.sent length).headers = false :=
    hprepared.sent_chunked.trans hchunked
  have hdeclared : declaredLength (streaming.sent length).headers = length :=
    declaredLength_written hfound.bound (by rw [lengthField, if_pos hcan.2])
  constructor
  · rintro (hbodyless | hcoded | ⟨-, hsized⟩)
    · exact absurd (hframed.symm.trans hbodyless) (by decide)
    · exact absurd (huncoded.symm.trans hcoded) (by decide)
    · rw [← hsized, hdeclared]
  · rintro hlength
    exact .sized huncoded (hdeclared.trans hlength)

/-- A head with a coding announces chunks up to a last one. -/
theorem Prepared.not_announced_chunks (hchunked : streaming.chunked) :
    ¬ Announced context.method (streaming.sent length)
      (bytesBehind (frameOutputs streaming frames)) := by
  have hallowed := (hprepared.chunks hchunked).1
  have hframed := framed_of_canSendContent (hprepared.canSend hallowed).1
  have hcoded : hasChunkedTransferEncoding (streaming.sent length).headers = true :=
    hprepared.sent_chunked.trans hchunked
  have hbytes := bytesBehind_chunks hallowed hchunked frames []
  rw [append_nil] at hbytes
  intro h
  generalize bytesBehind (frameOutputs streaming frames) = bytes at h hbytes
  cases h with
  | bodyless hbodyless => exact absurd (hframed.symm.trans hbodyless) (by decide)
  | coded _ fragments trailers =>
    refine chunkedBody_ne_chunks (fun data hdata => ?_) (hbytes.trans (append_nil _))
    simpa using (mem_filter.mp hdata).2
  | sized huncoded => exact absurd (hcoded.symm.trans huncoded) (by decide)

/-- A head with a coding has no length. -/
theorem Prepared.length_eq_none
    (hchunked : streaming.chunked) (hfound : Found streaming.headers length) : length = none := by
  by_contra hsome
  have huncoded := hfound.uncoded (Option.isSome_iff_ne_none.mpr hsome)
  rw [hprepared.coded hchunked] at huncoded
  cases huncoded

/-- The connection ends behind a body without a length and without a coding. -/
theorem Prepared.closes_iff
    (hallowed : streaming.bodyAllowed) (hchunked : streaming.chunked = false)
    (hfound : Found streaming.headers length) :
    streaming.connection = .close ↔ length = none ∨ context.clientConnection = .close := by
  have hnone : (header streaming.headers "content-length").isNone = length.isNone := by
    rw [← Option.not_isSome, hfound.header, Option.not_isSome]
  rw [hprepared.connection, hchunked, hallowed, hnone]
  cases length <;> simp

end

omit [ResponseValues] [ReasonPhrases] in
theorem bytesBehind_plain {more} (hallowed : streaming.bodyAllowed)
    (hchunked : streaming.chunked = false) (hmore : bytesBehind more = []) {pre : Bytes} :
    bytesBehind (frameOutputs streaming (.data pre :: frames) ++ more) =
      pre ++ (frameData frames).flatten := by
  have hplain : ∀ fragments : List Bytes,
      fragments.flatMap (writeRequestData · false) = fragments.flatten := by
    intro fragments
    rw [← flatMap_id]
    apply flatMap_congr
    intro data _
    cases data with
    | nil => rfl
    | cons b data => exact append_nil _
  rw [bytesBehind_frameOutputs, hallowed, if_pos rfl, hchunked, hplain, hmore, append_nil]
  rfl

omit [ReasonPhrases] in
theorem trailersPass_or (config : ProxyConfig) (head : RawResponseHead)
    (actions : List ResolvedAction) (trailers : Headers) :
    (TrailersPass config head actions trailers ∧ ∃ applied, applyResponseTrailerActions config
      (sanitizeUpstreamTrailers trailers head.headers) actions = .ok applied) ∨
    (¬ TrailersPass config head actions trailers ∧ ∃ e, applyResponseTrailerActions config
      (sanitizeUpstreamTrailers trailers head.headers) actions = .error e) := by
  obtain ⟨e, hedit, happly⟩ | ⟨left, hedit, ⟨e, hvalid, happly⟩ | ⟨hvalid, happly⟩⟩ :=
    applyResponseTrailerActions_cases config (sanitizeUpstreamTrailers trailers head.headers)
      actions
  · refine .inr ⟨?_, e, happly⟩
    rintro ⟨left, hleft, -⟩
    rw [hedit] at hleft
    cases hleft
  · refine .inr ⟨?_, e, happly⟩
    rintro ⟨left', hleft, hadmitted⟩
    rw [hedit] at hleft
    cases hleft
    rw [validateTrailerBlock_ok_iff.mpr hadmitted] at hvalid
    cases hvalid
  · exact .inl ⟨⟨left, hedit, validateTrailerBlock_ok_iff.mp hvalid⟩, left, happly⟩

variable {streamingRequest : Bool} {pre : Bytes} {ending : Outcome Unit}

/-- Where no body is written, nothing is behind the head. -/
theorem Prepared.bytesBehind_nil (hprepared : Prepared config context head actions streaming parts)
    (hallowed : streaming.bodyAllowed = false) :
    bytesBehind (streamBody config context head streaming pre frames ending actions).1 = [] := by
  have hchunked : streaming.chunked = false := by
    rw [hprepared.chunked, hallowed]
    rfl
  have hbytes : ∀ more, bytesBehind more = [] →
      bytesBehind (frameOutputs streaming (.data pre :: frames) ++ more) = [] := by
    intro more hmore
    rw [bytesBehind_frameOutputs, hallowed, hmore]
    rfl
  have hunfinished := hbytes [] rfl
  rw [append_nil] at hunfinished
  cases ending with
  | running => exact hunfinished
  | failed e =>
    rw [streamBody_failed]
    exact hunfinished
  | done =>
    rw [streamBody_done]
    split
    · exact hunfinished
    · rw [hchunked]
      exact hbytes _ rfl

omit [ResponseValues] in
theorem selfConsistent_cons {sent rest outcome} :
    SelfConsistent context streamingRequest (.head sent :: rest, outcome) ↔ outcome = .running ∨
      (completeForward context streamingRequest (.head sent :: rest, outcome)).2 = .done .close ∨
      Announced context.method sent (bytesBehind rest) := by
  refine ⟨fun h => h _ _ rfl, ?_⟩
  rintro h _ _ ⟨⟩
  exact h

section

variable (hprepared : Prepared config context head actions streaming parts)
  (hallowed : streaming.bodyAllowed) (hfound : Found streaming.headers length)

include hprepared hallowed hfound

/-- An answer that comes to its end. -/
theorem Prepared.selfConsistent_done (trailers : Headers) :
    SelfConsistent context streamingRequest (.head (streaming.sent length) ::
        (frameOutputs streaming (.data pre :: frames) ++
          finishStreamBody streaming.chunked trailers),
        .done streaming.connection) ↔
      context.clientConnection = .close ∨ length = none ∨
        length = some (pre ++ (frameData frames).flatten).length := by
  rw [selfConsistent_cons, or_iff_right (by nofun)]
  change Outcome.done streaming.connection = .done .close ∨ _ ↔ _
  rw [Outcome.done.injEq]
  cases hchunked : streaming.chunked with
  | true =>
    have hbytes := bytesBehind_chunkedBody hallowed hchunked (.data pre :: frames) trailers
    rw [hchunked] at hbytes
    rw [hbytes]
    exact iff_of_true (.inr (.coded (hprepared.sent_chunked.trans hchunked) _ _))
      (.inr (.inl (hprepared.length_eq_none hchunked hfound)))
  | false =>
    rw [hprepared.closes_iff hallowed hchunked hfound, bytesBehind_plain hallowed hchunked rfl,
      hprepared.announced_iff hallowed hchunked hfound]
    tauto

/-- An answer that is refused for its trailers has no end of its own. -/
theorem Prepared.selfConsistent_failed (e : IoError) :
    SelfConsistent context streamingRequest (.head (streaming.sent length) ::
        frameOutputs streaming (.data pre :: frames), .failed e) ↔
      closesOnError context streamingRequest ∨
        length = some (pre ++ (frameData frames).flatten).length := by
  rw [selfConsistent_cons, or_iff_right (by nofun), completeForward_failed]
  refine or_congr_right ?_
  cases hchunked : streaming.chunked with
  | true =>
    rw [hprepared.length_eq_none hchunked hfound]
    exact iff_of_false (hprepared.not_announced_chunks hchunked) nofun
  | false =>
    rw [← append_nil (frameOutputs _ _), bytesBehind_plain hallowed hchunked rfl]
    exact hprepared.announced_iff hallowed hchunked hfound

end

/-- A streamed answer is consistent if and only if its boundary is kept. -/
theorem selfConsistent_finishStreaming_iff :
    SelfConsistent context streamingRequest
        (finishStreamingResponse config context head pre frames ending actions) ↔
      BoundaryKept config context streamingRequest head actions (frameTrailers frames)
        (pre ++ (frameData frames).flatten).length ending := by
  obtain ⟨hnone, e, hanswer⟩ | ⟨streaming, parts, length, hwritten, hprepared, hvalid, hanswer⟩ :=
    finishStreamingResponse_cases config context head actions pre frames ending
  · rw [hanswer, BoundaryKept, hnone]
    exact iff_of_true nofun nofun
  have hfound := found_of_validate hvalid
  rw [hanswer, BoundaryKept, hwritten]
  simp only [Option.mem_def, Option.some.injEq, forall_eq', hfound.header, hfound.only]
  cases hallowed : streaming.bodyAllowed with
  | false =>
    rw [selfConsistent_cons, hprepared.bytesBehind_nil hallowed]
    exact iff_of_true (.inr (.inr (hprepared.announced_nil hallowed hfound))) nofun
  | true =>
    have hrefused : ∀ n, (length.isSome = true ∧ (length = none ∨ length = some n)) ↔
        length = some n := by
      intro n
      cases length <;> simp
    cases ending with
    | running => exact iff_of_true (selfConsistent_cons.mpr (.inl rfl)) fun _ h => absurd rfl h
    | failed e =>
      rw [streamBody_failed]
      obtain ⟨hpass, trailers, happly⟩ | ⟨hfail, e, happly⟩ :=
        trailersPass_or config head actions (frameTrailers frames)
      · rw [happly]
        exact iff_of_true (selfConsistent_cons.mpr (.inr (.inl rfl)))
          fun _ _ => ⟨fun _ => nofun, absurd hpass⟩
      · rw [happly, hprepared.selfConsistent_failed hallowed hfound]
        simp [hfail, hrefused]
    | done =>
      rw [streamBody_done]
      obtain ⟨hpass, trailers, happly⟩ | ⟨hfail, e, happly⟩ :=
        trailersPass_or config head actions (frameTrailers frames)
      · rw [happly, hprepared.selfConsistent_done hallowed hfound]
        simp [hpass]
      · rw [happly, hprepared.selfConsistent_failed hallowed hfound]
        simp [hfail, hrefused]

end Answer

/-! ### Streams of HTTP/1 -/

variable {rounds : Nat}

section Streams

variable {υ : Type} [Read υ] {limits : HeaderLimits}

/-- A stream of a declared length that comes to its end brought that length. -/
theorem length_bodyFrames (hwithin : ReadsWithin υ) {remaining} {s : υ}
    (h : (bodyFrames limits rounds (.contentLength remaining) s).1.2 = .done ()) :
    (frameData (bodyFrames limits rounds (.contentLength remaining) s).1.1).flatten.length =
      remaining := by
  induction rounds generalizing remaining s with
  | zero => cases h
  | succ rounds ih =>
    cases remaining with
    | zero => rfl
    | succ remaining =>
      have hstep : (nextFrame limits (.contentLength (remaining + 1)) : ReadM υ _).Ensures
          fun next => ∃ bytes, next = (some (.data bytes),
            .contentLength (remaining + 1 - bytes.length)) ∧ bytes.length ≤ remaining + 1 := by
        refine ensures_nextFrame ((hwithin _).bind fun bytes hbytes => ?_)
        split
        · exact ReadM.ensures_fail _
        · exact ReadM.ensures_pure ⟨bytes, rfl, hbytes.trans (Nat.min_le_left _ _)⟩
      rcases hnext : nextFrame limits (.contentLength (remaining + 1)) s with ⟨e | next, s'⟩
      · have hfailed : bodyFrames limits (rounds + 1) (.contentLength (remaining + 1)) s =
            (([], .failed e), s') := RelayM.bind_failed (by rw [RelayM.ofRead, hnext])
        rw [hfailed] at h
        cases h
      · obtain ⟨bytes, rfl, hbytes⟩ := hstep s next s' hnext
        have hread : bodyFrames limits (rounds + 1) (.contentLength (remaining + 1)) s =
            (RelayM.emit (.data bytes) >>= fun _ => bodyFrames limits rounds
              (.contentLength (remaining + 1 - bytes.length))) s' :=
          RelayM.ofRead_bind_ok hnext
        rw [hread, RelayM.emit_bind] at h ⊢
        have hrest := ih h
        rw [show frameData (.data bytes :: _) = bytes :: frameData _ from rfl, flatten_cons,
          length_append]
        omega

/-- How long a body is that came to its end: what its head says, or what was read. -/
def bodyLength (state : BodyState) (data : Bytes) : Nat :=
  match state with
  | .empty => 0
  | .contentLength length => length
  | _ => data.length

theorem bodyLength_eq (hwithin : ReadsWithin υ) {state} {s : υ} {frames}
    (h : (bodyFrames limits rounds state s).1 = (frames, .done ())) :
    bodyLength state (frameData frames).flatten = (frameData frames).flatten.length := by
  cases state with
  | empty =>
    cases rounds with
    | zero => cases h
    | succ rounds =>
      cases h
      rfl
  | contentLength remaining =>
    have hlength := length_bodyFrames (s := s) hwithin (by rw [h])
    rw [h] at hlength
    exact hlength.symm
  | chunkSize | chunkData | chunkTerminator | closeDelimited | done => rfl

end Streams

section Examples

local instance plainPhrases : ReasonPhrases := noPhrases

/-- Values that are all written out in their rule. -/
local instance writtenValues : ResponseValues where
  toRuleValues := inlineValues
  mergeJson body _ _ := .ok body
  deleteResponseBodyPath _ body _ := body

def helloChunk : Bytes := utf8 "5\r\nhello\r\n0\r\n\r\n"

def chunkedHello : RawResponseHead :=
  ⟨"HTTP/1.1", 200, "OK", [("Transfer-Encoding", "chunked")]⟩

/-- The action `res.header(content-length: 3)`. -/
def setLength : ResolvedAction :=
  ⟨.resHeader (.set "content-length" (.inline "3")),
    ⟨"default", 1, "* res.header(content-length: 3)"⟩, .default, none⟩

/-- The action `res.header(x-seen: yes)`, which keeps a request off the pool. -/
def markSeen : ResolvedAction :=
  ⟨.resHeader (.set "x-seen" (.inline "yes")),
    ⟨"default", 1, "* res.header(x-seen: yes)"⟩, .default, none⟩

/-- A response with a length and a coding. -/
def lengthAndCoding : RawResponseHead :=
  ⟨"HTTP/1.1", 200, "OK", [("Content-Length", "2000"),
    ("Transfer-Encoding", "chunked")]⟩

/-- The head of an answer that declares this length. -/
def helloWithLength (fields : Headers) (length : Str) : RawResponseHead :=
  ⟨"HTTP/1.1", 200, "OK", fields.append [("Content-Length", length), ("Connection", "keep-alive")]⟩

/-- A head with a length that is not that of the bytes behind it is not consistent. -/
theorem not_selfConsistent {answer : Answered} {sent rest}
    (hanswer : answer = (.head sent :: rest, .done .keepAlive))
    (hframed : responseHasFramedBody "GET" sent.status)
    (huncoded : hasChunkedTransferEncoding sent.headers = false)
    (hlength : declaredLength sent.headers ≠ some (bytesBehind rest).length) :
    ¬ SelfConsistent getRequest.context false answer := by
  subst hanswer
  intro h
  rcases h sent rest rfl with h | h | h
  · cases h
  · cases h
  generalize bytesBehind rest = body at h hlength
  cases h with
  | bodyless h => exact absurd (hframed.symm.trans h) (by decide)
  | coded h => exact absurd (huncoded.symm.trans h) (by decide)
  | sized _ h => exact hlength h

end Examples

end RsProxy.Engine
