import RsProxy.Engine.BodyChannel
import RsProxy.Engine.PooledSync

/-!
# How much of a body is held

The body of an HTTP/1 response is in memory in portions: each is read whole before any of it goes
on. A stream has the pieces of its reads for portions, a body that is collected has only one. The
collector of HTTP/2 responses keeps to the configured limit, but not the channel it reads from; the
reader of whole HTTP/1 bodies and the chunks of an event stream know no limit.
-/

namespace RsProxy.Engine

open Text Io Net List Bool ReadM RelayM Nat
open Data (do_eq_ok)
open Rules (Action DeleteOp HeaderOp ResolvedAction)
open RelayM (emit ofRead)

/-! ### Portions -/

section Portions

variable {υ : Type} [Read υ]

section

variable (config : ProxyConfig) (rounds : Nat)

/-- How the pooled path takes a framed body off the connection. -/
def pooledPortions (head : RawResponseHead) :
    RelayM υ Bytes Unit :=
  if isSseResponse head.headers && head.status ≠ 205 then streamSseResponse head.headers rounds
  else if hasChunkedTransferEncoding head.headers then do
    let _ ← relayChunked config.headerLimits rounds
  else
    match declaredLength head.headers with
    | some length =>
      if head.status ≠ 205 ∧ length ≤ smallBodyLimit ∧ length ≤ config.bodyBufferLimit then do
        let body ← ofRead (readExact length)
        emit body
      else relayExact length
    | none => if head.status = 205 then pure () else relayToEof rounds

def heldPooled (context : ResponseContext) (head : RawResponseHead) (connection : υ) : List Bytes :=
  if context.deadline.isOk && responseHasFramedBody context.method head.status then
    (pooledPortions config rounds head connection).1.1
  else []

/-- What a tunnel brings is no body. -/
def heldUnpooled (websocketRequest : Bool)
    (context : ResponseContext) (head : RawResponseHead) (actions : List ResolvedAction)
    (connection : υ) : List Bytes :=
  if websocketRequest && isWebsocketResponse head.headers head.status then []
  else if isSseResponse head.headers && canStreamSseResponse actions then
    (streamSseResponse head.headers rounds connection).1.1
  else if shouldStream config context head actions then
    match newBodyState context.method head.status head.headers with
    | .error _ => []
    | .ok state => frameData (bodyFrames config.headerLimits rounds state connection).1.1
  else [(readResponseBody head.headers rounds connection).1.1.flatten]

end

end Portions

/-! ### Actions that need the whole body -/

/-- The action without what it does to a body, if anything else is left of it. -/
def withoutBody (item : ResolvedAction) : Option ResolvedAction :=
  match item.action with
  | .resMerge _ | .inject _ | .resBody _ => none
  | .delete ops => some { item with action := .delete (ops.filter fun op =>
      match op with
      | .resBody | .resBodyPath _ => false
      | _ => true) }
  | _ => some item

/-- A fold that leaves its list alone where a body is deleted. -/
theorem foldl_withoutBody {f} (hbody : ∀ headers, f headers .resBody = headers)
    (hpath : ∀ headers path, f headers (.resBodyPath path) = headers) {headers : Headers}
    {ops : List DeleteOp} :
    (ops.filter fun op =>
      match op with
      | .resBody | .resBodyPath _ => false
      | _ => true).foldl f headers = ops.foldl f headers := by
  rw [foldl_filter]
  congr
  funext headers op
  cases op <;> simp [hbody, hpath]

/-- A fold that does not look at what actions do to a body. -/
theorem foldlM_withoutBody {α : Type} {f : α → ResolvedAction → Except IoError α}
    (h : ∀ a item, (withoutBody item).elim (.ok a) (f a) = f a item) (actions : List ResolvedAction)
    (a : α) : (actions.filterMap withoutBody).foldlM f a = actions.foldlM f a := by
  induction actions generalizing a with
  | nil => rfl
  | cons item actions ih =>
    have hitem := h a item
    cases hleft : withoutBody item with
    | none =>
      rw [hleft] at hitem
      rw [filterMap_cons_none hleft, foldlM_cons, ← hitem, ih]
      rfl
    | some left =>
      rw [hleft] at hitem
      rw [filterMap_cons_some hleft, foldlM_cons, foldlM_cons, ← hitem]
      congr
      funext a
      exact ih a

section Skipped

variable [ResponseValues] [ReasonPhrases] (config : ProxyConfig) (actions : List ResolvedAction)

theorem applyStreamingResponseActions_withoutBody {head headers} :
    applyStreamingResponseActions config head headers (actions.filterMap withoutBody) =
      applyStreamingResponseActions config head headers actions := by
  unfold applyStreamingResponseActions applyResponseActionsInner
  rw [foldlM_withoutBody]
  rintro parts ⟨action, rule, captures, response⟩
  cases action <;> try rfl
  next ops =>
    change applyResponseAction config false parts _ = _
    unfold applyResponseAction applyResponseHeaders
    dsimp only
    rw [foldl_withoutBody (fun _ => rfl) fun _ _ => rfl]
    rfl

omit [ReasonPhrases] in
theorem applyResponseTrailerActions_withoutBody {trailers} :
    applyResponseTrailerActions config trailers (actions.filterMap withoutBody) =
      applyResponseTrailerActions config trailers actions := by
  unfold applyResponseTrailerActions editTrailers
  rw [foldlM_withoutBody]
  rintro trailers ⟨action, rule, captures, response⟩
  cases action <;> try rfl
  next ops =>
    change Except.ok (applyTrailerDelete trailers _) = _
    rw [applyTrailerDelete, foldl_withoutBody (fun _ => rfl) fun _ _ => rfl]
    rfl

omit [ResponseValues] [ReasonPhrases] in
theorem declaredTrailerNames_withoutBody {headers} :
    declaredTrailerNames headers (actions.filterMap withoutBody) =
      declaredTrailerNames headers actions := by
  unfold declaredTrailerNames
  rw [foldl_filterMap]
  congr
  funext names ⟨action, rule, captures, response⟩
  cases action <;> rfl

/-- A streamed answer does not depend on what actions do to a body. -/
theorem finishStreamingResponse_withoutBody {context head pre frames ending} :
    finishStreamingResponse config context head pre frames ending (actions.filterMap withoutBody) =
      finishStreamingResponse config context head pre frames ending actions := by
  have hprepare : prepareStreamingResponse config context head (actions.filterMap withoutBody) =
      prepareStreamingResponse config context head actions := by
    unfold prepareStreamingResponse
    rw [applyStreamingResponseActions_withoutBody, declaredTrailerNames_withoutBody]
  have hbody : ∀ streaming, streamBody config context head streaming pre frames ending
      (actions.filterMap withoutBody) =
        streamBody config context head streaming pre frames ending actions := by
    intro streaming
    simp only [streamBody, applyResponseTrailerActions_withoutBody]
  unfold finishStreamingResponse
  simp [hprepare, hbody]

end Skipped

/-! ### Collected bodies -/

variable {frames : List UpstreamBodyFrame}

/-- Of a body that does not fit the limit is collected, and the frame it ends in is cut. -/
theorem collectBounded_of_lt {limit} (body : Bytes) (ending : Outcome Unit) (trailers : Headers)
    (hbody : body.length ≤ limit) (h : limit < (body ++ (frameData frames).flatten).length) :
    ∃ pending rest, collectBounded limit ending frames body trailers =
        (.done (.overflow ((body ++ (frameData frames).flatten).take limit)),
          .data pending :: rest) ∧
      (body ++ (frameData frames).flatten).drop limit = pending ++ (frameData rest).flatten := by
  induction frames generalizing body trailers with
  | nil =>
    simp [frameData] at h
    omega
  | cons frame frames ih =>
    cases frame with
    | data data =>
      have hdata : frameData (.data data :: frames) = data :: frameData frames := rfl
      rw [hdata, flatten_cons, ← append_assoc] at h ⊢
      rw [collectBounded]
      split
      next hover =>
        refine ⟨data.drop (limit - body.length), frames, ?_, ?_⟩
        · rw [take_append_of_le_length (by rw [length_append]; omega), take_append,
            take_of_length_le hbody]
        · rw [drop_append_of_le_length (by rw [length_append]; omega), drop_append,
            drop_of_length_le hbody, nil_append]
      next hfits =>
        have hfits : (body ++ data).length ≤ limit := by
          rw [length_append]
          omega
        exact ih (body ++ data) trailers hfits h
    | trailers seen =>
      exact ih body (trailers ++ seen) hbody h

/-! ### The portions of a stream -/

variable {headers : Headers} {context : ResponseContext} {rounds : Nat}

section Streams

variable {υ : Type} [Read υ]

/-- A relay whose portions are those of its reads. -/
abbrev HandsWithin {α : Type} (p : RelayM υ Bytes α) (bound : Nat) : Prop :=
  p.Hands (·.length ≤ bound)

/-- A frame of data within a bound. -/
def FrameWithin (bound : Nat) : UpstreamBodyFrame → Prop
  | .data bytes => bytes.length ≤ bound
  | .trailers _ => True

theorem frameData_within {bound} (h : ∀ frame ∈ frames, FrameWithin bound frame) :
    ∀ data ∈ frameData frames, data.length ≤ bound := by
  intro data hdata
  obtain ⟨frame, hframe, hsome⟩ := mem_filterMap.mp hdata
  have := h frame hframe
  cases frame with
  | data bytes =>
    cases hsome
    exact this
  | trailers fields => cases hsome

omit [Read υ] in
theorem within_mono {α} {p : RelayM υ Bytes α} {bound bound'} (h : HandsWithin p bound)
    (hle : bound ≤ bound') : HandsWithin p bound' :=
  fun s piece hpiece => (h s piece hpiece).trans hle

variable (hwithin : ReadsWithin υ)

include hwithin

theorem within_relayExactLoop (buffer rounds remaining : Nat) :
    HandsWithin (relayExactLoop buffer rounds remaining : RelayM υ Bytes Unit) buffer := by
  induction rounds generalizing remaining with
  | zero => cases remaining <;> nofun
  | succ rounds ih =>
    cases remaining with
    | zero => nofun
    | succ remaining =>
      refine (ensures_length_readExact hwithin _).hands fun bytes hbytes => ?_
      refine (hands_emit ?_).bind (ensures_true _) fun _ _ => ih _
      rw [hbytes]
      exact min_le_right _ _

theorem ensures_readOrEnd {buffer ends} :
    (readOrEnd buffer ends : ReadM υ Bytes).Ensures (·.length ≤ buffer) := by
  intro s bytes s' h
  unfold readOrEnd at h
  rcases hread : Read.read buffer s with ⟨e | given, s''⟩
  · rw [hread] at h
    obtain ⟨hend, -⟩ := Prod.mk.inj h
    split at hend <;> cases hend
    exact zero_le _
  · rw [hread] at h
    cases h
    exact hwithin buffer s bytes s' hread

theorem within_relayToEndLoop {buffer ends} :
    HandsWithin (relayToEndLoop buffer ends rounds : RelayM υ Bytes Unit) buffer := by
  induction rounds with
  | zero => nofun
  | succ rounds ih =>
    refine (ensures_readOrEnd hwithin).hands fun bytes hbytes => ?_
    split
    · nofun
    · exact (hands_emit (R := fun piece : Bytes => piece.length ≤ buffer) hbytes).bind
        (ensures_true _) fun _ _ => ih

theorem within_relayChunked {limits} :
    HandsWithin (relayChunked limits rounds : RelayM υ Bytes Headers) relayBufferSize := by
  induction rounds with
  | zero => nofun
  | succ rounds ih =>
    refine (ReadM.ensures_true _).hands fun line _ => (ReadM.ensures_true _).hands fun size _ => ?_
    split
    · exact hands_ofRead
    · refine (within_relayExactLoop hwithin _ _ _).bind (ensures_true _) fun _ _ => ?_
      exact (ReadM.ensures_true _).hands fun _ _ => ih

theorem ensures_nextChunkData {remaining} : (nextChunkData remaining : ReadM υ _).Ensures
      fun next => ∀ frame ∈ next.1, FrameWithin readBufferSize frame := by
  refine (ensures_length_readExact hwithin _).bind fun bytes hbytes => ensures_pure ?_
  rintro _ ⟨⟩
  show bytes.length ≤ readBufferSize
  rw [hbytes]
  exact min_le_right _ _

theorem ensures_nextChunkSize {limits} : (nextChunkSize limits : ReadM υ _).Ensures
      fun next => ∀ frame ∈ next.1, FrameWithin readBufferSize frame := by
  refine (ReadM.ensures_true _).bind fun line _ => (ReadM.ensures_true _).bind fun size _ => ?_
  split
  · refine (ReadM.ensures_true _).bind fun trailers _ => ReadM.ensures_pure ?_
    intro frame hframe
    split at hframe <;> cases hframe
    trivial
  · exact ensures_nextChunkData hwithin

theorem ensures_nextInner (limits : HeaderLimits) (state : BodyState) :
    (nextInner limits state : ReadM υ _).Ensures
      fun next => ∀ frame ∈ next.1, FrameWithin readBufferSize frame := by
  have hnone : (pure (none, .done) : ReadM υ (Option UpstreamBodyFrame × BodyState)).Ensures
      fun next => ∀ frame ∈ next.1, FrameWithin readBufferSize frame := ensures_pure nofun
  cases state with
  | empty | done => exact hnone
  | chunkSize => exact ensures_nextChunkSize hwithin
  | chunkData remaining => exact ensures_nextChunkData hwithin
  | chunkTerminator =>
    exact (ReadM.ensures_true _).bind fun _ _ => ensures_nextChunkSize hwithin
  | contentLength remaining =>
    cases remaining with
    | zero => exact hnone
    | succ remaining =>
      refine (hwithin _).bind fun bytes hbytes => ?_
      split
      · exact ensures_fail _
      · refine ensures_pure ?_
        rintro _ ⟨⟩
        exact hbytes.trans (min_le_right _ _)
  | closeDelimited =>
    rw [nextInner_closeDelimited]
    refine (ensures_readOrEnd hwithin).bind fun bytes hbytes => ensures_pure ?_
    intro frame hframe
    split at hframe <;> cases hframe
    exact hbytes

theorem within_bodyFrames (limits : HeaderLimits) (rounds : Nat) (state : BodyState) :
    (bodyFrames limits rounds state : RelayM υ UpstreamBodyFrame Unit).Hands
      (FrameWithin readBufferSize) := by
  induction rounds generalizing state with
  | zero => nofun
  | succ rounds ih =>
    refine (ensures_nextFrame (ensures_nextInner hwithin limits state)).hands ?_
    rintro ⟨frame | frame, state⟩ hframe
    · nofun
    · exact (hands_emit (hframe frame rfl)).bind (ensures_true _) fun _ _ => ih state

theorem within_streamSseResponse (hplain : hasChunkedTransferEncoding headers = false) :
    HandsWithin (streamSseResponse headers rounds : RelayM υ Bytes Unit) sseBufferSize := by
  rw [streamSseResponse, hplain]
  cases declaredLength headers with
  | none => exact within_relayToEndLoop hwithin
  | some length => exact within_relayExactLoop hwithin _ _ _

/-- A body of a length that is declared is read whole, and only that long. -/
theorem length_readResponseBody {length} (hplain : hasChunkedTransferEncoding headers = false)
    (hlength : declaredLength headers = some length) {connection : υ} :
    (readResponseBody headers rounds connection).1.1.flatten.length ≤ length := by
  rw [readResponseBody, hplain, if_neg Bool.false_ne_true, hlength]
  dsimp only
  rcases hread : (readExact length : ReadM υ Bytes) connection with ⟨e | body, connection'⟩
  · have hfailed : (ofRead (readExact length) : RelayM υ Bytes Bytes) connection =
        (([], .failed e), connection') := by rw [ofRead, hread]
    rw [bind_failed hfailed]
    exact zero_le _
  · rw [ofRead_bind_ok hread]
    change (body ++ []).length ≤ length
    rw [append_nil, ensures_length_readExact hwithin length connection body connection' hread]

end Streams

/-! ### The bound -/

section Bound

variable {υ : Type} [Read υ]

/-- The responses of an HTTP/1 upstream that are held without a limit: event streams and bodies that
look small, where they come in chunks, and whatever is read whole for an action or a client that
knows no chunks. -/
def holdsUnlimited (config : ProxyConfig) (context : ResponseContext) (head : RawResponseHead)
    (actions : List ResolvedAction) : Bool :=
  hasChunkedTransferEncoding head.headers &&
      (isSseResponse head.headers || fixedBodyCanCoalesce config context.method head) ||
    responseActionsRequireBody actions || eqIgnoreAsciiCase context.version "HTTP/1.0"

theorem heldPooled_within (hwithin : ReadsWithin υ) {config head}
    (hlimited : (hasChunkedTransferEncoding head.headers && isSseResponse head.headers) = false)
    {connection : υ} : ∀ portion ∈ heldPooled config rounds context head connection,
      portion.length ≤ config.bodyBufferLimit + readBufferSize := by
  have hrelay : HandsWithin (pooledPortions config rounds head : RelayM υ Bytes Unit)
      (config.bodyBufferLimit + readBufferSize) := by
    have hbuffer : relayBufferSize ≤ config.bodyBufferLimit + readBufferSize := le_add_left _ _
    have hsmaller : sseBufferSize ≤ config.bodyBufferLimit + readBufferSize :=
      le_trans (by decide) hbuffer
    unfold pooledPortions
    split
    next hsse =>
      rw [and_eq_true] at hsse
      rw [hsse.1, Bool.and_true] at hlimited
      exact within_mono (within_streamSseResponse hwithin hlimited) hsmaller
    split
    · exact within_mono ((within_relayChunked hwithin).bind (ensures_true _)
        fun _ _ => nofun) hbuffer
    cases declaredLength head.headers with
    | some length =>
      dsimp only
      split
      next hsmall =>
        refine (ensures_length_readExact hwithin length).hands fun body hbody =>
          hands_emit ?_
        rw [hbody]
        exact hsmall.2.2.trans (le_add_right _ _)
      · exact within_mono (within_relayExactLoop hwithin _ _ _) hbuffer
    | none =>
      dsimp only
      split
      · nofun
      · exact within_mono (within_relayToEndLoop hwithin) hbuffer
  unfold heldPooled
  split
  · exact hrelay connection
  · exact forall_mem_nil _

variable {config : ProxyConfig} {actions : List ResolvedAction}

theorem heldUnpooled_within (hwithin : ReadsWithin υ) {websocketRequest head}
    (hlimited : holdsUnlimited config context head actions = false) {connection : υ} :
    ∀ portion ∈ heldUnpooled config rounds websocketRequest context head actions connection,
      portion.length ≤ config.bodyBufferLimit + readBufferSize := by
  simp only [holdsUnlimited, or_eq_false_iff] at hlimited
  obtain ⟨⟨hchunked, hbody⟩, hversion⟩ := hlimited
  unfold heldUnpooled
  split
  · exact forall_mem_nil _
  split
  next hsse =>
    rw [and_eq_true] at hsse
    rw [hsse.1, Bool.true_or, Bool.and_true] at hchunked
    exact within_mono (within_streamSseResponse hwithin hchunked)
      (le_trans (by decide) (le_add_left readBufferSize _)) connection
  split
  · cases newBodyState context.method head.status head.headers with
    | error e => exact forall_mem_nil _
    | ok state =>
      intro portion hportion
      exact (frameData_within (within_bodyFrames hwithin _ rounds state connection) portion
        hportion).trans (le_add_left _ _)
  next hwhole =>
    -- only a body that is known to be small is left to be read whole
    have hsmall : fixedBodyCanCoalesce config context.method head := by
      rw [shouldStream, hbody, hversion] at hwhole
      simpa using hwhole
    rw [hsmall, Bool.or_true, Bool.and_true] at hchunked
    rw [fixedBodyCanCoalesce, and_eq_true] at hsmall
    obtain ⟨length, hlength, hfits⟩ := (Option.any_eq_true _ _).mp hsmall.2
    rw [and_eq_true, decide_eq_true_eq, decide_eq_true_eq] at hfits
    rw [forall_mem_singleton]
    calc (readResponseBody head.headers rounds connection).1.1.flatten.length
        ≤ length := length_readResponseBody hwithin hchunked hlength
      _ ≤ config.bodyBufferLimit := hfits.2
      _ ≤ config.bodyBufferLimit + readBufferSize := le_add_right _ _

/-- A body that does not fit goes on as a stream: what was collected, and behind it what is left. -/
theorem exists_overflow [ResponseValues] [ReasonPhrases] {status ending}
    (hcollects : collectsBody config context status headers actions)
    (hover : config.bodyBufferLimit < (frameData frames).flatten.length) :
    ∃ pre rest, pre.length = config.bodyBufferLimit ∧
      pre ++ (frameData rest).flatten = (frameData frames).flatten ∧
      finishStreamedUpstreamResponse config context status headers frames ending actions =
        finishStreamingResponse config context
          ⟨"HTTP/1.1", status, ReasonPhrases.phrase status, headers⟩ pre rest ending
          (actions.filterMap withoutBody) := by
  obtain ⟨pending, rest, hcollect, hdrop⟩ := collectBounded_of_lt [] ending [] (zero_le _) hover
  refine ⟨(frameData frames).flatten.take config.bodyBufferLimit, .data pending :: rest, ?_, ?_, ?_⟩
  · exact length_take_of_le (le_of_lt hover)
  · change _ ++ (pending ++ (frameData rest).flatten) = _
    rw [← hdrop]
    exact take_append_drop _ _
  · rw [finishStreamingResponse_withoutBody, finishStreamedUpstreamResponse, if_pos hcollects,
      hcollect]
    rfl

end Bound

section Examples

/-- The action `res.body.set(hi)`. -/
def replaceBody : ResolvedAction :=
  ⟨.resBody (.set (.inline "hi")), ⟨"default", 1, "* res.body.set(hi)"⟩, .default,
    none⟩

def longResponse : RawResponseHead :=
  ⟨"HTTP/1.1", 200, "OK", [("Content-Length", "20000")]⟩

def longBody : Bytes := replicate 20000 0

/-- The action `delay(res, 1s)`. -/
def delayResponse : ResolvedAction :=
  ⟨.delay .res 1000, ⟨"default", 1, "* delay(res, 1s)"⟩, .default, none⟩

/-- Frames of the size of a read buffer. -/
def bufferFrames (n : Nat) : List UpstreamBodyFrame :=
  replicate n (.data (replicate readBufferSize 0))

theorem length_mostHeld_bufferFrames (limit n : Nat) :
    ((BodyReader.streaming [] []).mostHeld limit (bufferFrames n)).length =
      min (bodyChannelCapacity + 1) n * readBufferSize := by
  have hdata : ∀ n, frameData (bufferFrames n) = replicate n (replicate readBufferSize 0) :=
    fun _ => filterMap_replicate_of_some rfl
  have htakes : (BodyReader.streaming [] []).takes limit (bufferFrames n) = 0 := by
    simp [BodyReader.takes]
  rw [BodyReader.mostHeld, htakes, zero_add, bufferFrames, take_replicate, ← bufferFrames, hdata,
    flatten_replicate_replicate]
  exact length_replicate

end Examples

end RsProxy.Engine
