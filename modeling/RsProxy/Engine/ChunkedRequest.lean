import RsProxy.Net.Chunked

/-!
# Request bodies written in the chunked coding

Three parts of the engine write a chunked request body: the relay that streams a large body on, the
writer of a buffered body with trailers, and the adapter that turns the frames of an HTTP/2 request
into HTTP/1 bytes for the common request path. All three write the same wire form, so the request
reader gives their body and trailers back.
-/

namespace RsProxy.Engine

open Text Io Net List Nat RequestBodyReader
open Rules (usizeMax)

/-! ### The streaming relay -/

def writeRequestData (data : Bytes) (chunked : Bool) : Bytes :=
  if data.isEmpty then []
  else (if chunked then utf8 (upperHex data.length ++ "\r\n") else []) ++ data ++
    if chunked then utf8 "\r\n" else []

def finishRequestBody (chunked : Bool) (trailers : Headers) : Bytes :=
  if chunked then
    utf8 "0\r\n" ++
      trailers.flatMap (fun field => utf8 (field.1 ++ ": " ++ field.2 ++ "\r\n")) ++
      utf8 "\r\n"
  else []

/-- What the relay writes for a body that reaches it in these fragments. -/
def relayedRequestBody (chunked : Bool) (fragments : List Bytes) (trailers : Headers) : Bytes :=
  fragments.flatMap (writeRequestData · chunked) ++ finishRequestBody chunked trailers

/-! ### The buffered writer -/

def writeChunkedRequest (body : Bytes) (trailers : Headers) : Bytes :=
  (if !body.isEmpty then
    utf8 (upperHex body.length ++ "\r\n") ++ body ++ utf8 "\r\n"
  else []) ++
    utf8 "0\r\n" ++
    trailers.flatMap (fun field => utf8 (field.1 ++ ": " ++ field.2 ++ "\r\n")) ++
    utf8 "\r\n"

/-! ### The adapter for HTTP/2 requests -/

inductive DownstreamH2RequestFrame where
  | data (bytes : Bytes)
  | trailers (fields : Headers)

structure H2RequestReader where
  /-- What is still to be received; behind it the channel is closed. -/
  receiver : List (Except IoError DownstreamH2RequestFrame)
  pending : Bytes
  offset : Nat
  finished : Bool

namespace H2RequestReader

def new (receiver : List (Except IoError DownstreamH2RequestFrame)) : H2RequestReader :=
  ⟨receiver, [], 0, false⟩

/-- Receive until there is something to hand out. -/
def receiveFrom (reader : H2RequestReader) :
    List (Except IoError DownstreamH2RequestFrame) → Except IoError Unit × H2RequestReader
  | [] => (.ok (), ⟨[], utf8 "0\r\n\r\n", 0, true⟩)
  | .error e :: frames => (.error e, { reader with receiver := frames })
  | .ok (.data data) :: frames =>
    if data.isEmpty then receiveFrom reader frames
    else (.ok (), ⟨frames, utf8 (upperHex data.length ++ "\r\n") ++ data ++
      utf8 "\r\n", 0, reader.finished⟩)
  | .ok (.trailers trailers) :: frames =>
    (.ok (), ⟨frames, utf8 "0\r\n" ++
      trailers.flatMap (fun field => utf8 (field.1 ++ ": " ++ field.2 ++ "\r\n")) ++
      utf8 "\r\n", 0, true⟩)

def refill : ReadM H2RequestReader Unit := fun reader =>
  if reader.finished then (.ok (), reader) else reader.receiveFrom reader.receiver

/-- Hand out pending bytes from the offset on. -/
def takePending (n : Nat) : ReadM H2RequestReader Bytes := fun reader =>
  if reader.pending.isEmpty then (.ok [], reader)
  else
    let size := min n (reader.pending.length - reader.offset)
    (.ok ((reader.pending.drop reader.offset).take size),
      { reader with offset := reader.offset + size })

instance : Read H2RequestReader where
  read n := fun reader =>
    if n = 0 then (.ok [], reader)
    else if reader.offset = reader.pending.length then
      (refill >>= fun _ => takePending n) { reader with pending := [], offset := 0 }
    else takePending n reader

end H2RequestReader

open H2RequestReader

/-! ### All of them write the wire form -/

variable (trailers : Headers)

theorem lastChunk_eq : lastChunk trailers = utf8 "0\r\n" ++
    trailers.flatMap (fun field => utf8 (field.1 ++ ": " ++ field.2 ++ "\r\n")) ++ utf8 "\r\n" := by
  have hcrlf : utf8 "\r\n" = crlf := by decide
  have hzero : utf8 "0\r\n" = utf8 "0" ++ crlf := by decide
  simp only [lastChunk, trailerLine, utf8_append, hcrlf, hzero]

theorem chunk_eq {data} : chunk data =
    utf8 (upperHex data.length ++ "\r\n") ++ data ++ utf8 "\r\n" := by
  have hcrlf : utf8 "\r\n" = crlf := by decide
  rw [chunk, utf8_append, hcrlf]

variable {reader : H2RequestReader} (fragments : List Bytes) {bs : Bytes}

variable {frames : List DownstreamH2RequestFrame}

namespace H2RequestReader

/-- The bytes the adapter makes of frames: nothing is looked at behind the trailers. -/
def framesWire : List DownstreamH2RequestFrame → Bytes
  | [] => lastChunk []
  | .data data :: frames =>
    if data.isEmpty then framesWire frames else chunk data ++ framesWire frames
  | .trailers trailers :: _ => lastChunk trailers

/-- What the reader still has to hand out, if nothing fails. -/
def Holds (reader : H2RequestReader) (bs : Bytes) : Prop :=
  ∃ frames, reader.receiver = frames.map .ok ∧ reader.offset ≤ reader.pending.length ∧
    bs = reader.pending.drop reader.offset ++ if reader.finished then [] else framesWire frames

theorem receiveFrom_spec (reader : H2RequestReader) (hfinished : reader.finished = false) :
    ∃ reader', reader.receiveFrom (frames.map .ok) = (.ok (), reader') ∧
      reader'.Holds (framesWire frames) ∧ reader'.offset = 0 ∧ reader'.pending ≠ [] := by
  induction frames with
  | nil =>
    refine ⟨_, rfl, ⟨[], rfl, zero_le _, ?_⟩, rfl, by decide⟩
    decide
  | cons frame frames ih =>
    cases frame with
    | trailers trailers =>
      refine ⟨_, rfl, ⟨frames, rfl, zero_le _, ?_⟩, rfl, ?_⟩
      · simp [framesWire, lastChunk_eq]
      · exact append_ne_nil_of_right_ne_nil _ (by decide)
    | data data =>
      rw [map_cons, receiveFrom, framesWire]
      split
      · exact ih
      · refine ⟨_, rfl, ⟨frames, rfl, zero_le _, ?_⟩, rfl, ?_⟩
        · simp [hfinished, chunk_eq]
        · exact append_ne_nil_of_right_ne_nil _ (by decide)

theorem refill_spec (h : reader.Holds bs) (hempty : reader.offset = reader.pending.length) :
    ∃ reader', refill { reader with pending := [], offset := 0 } = (.ok (), reader') ∧
      reader'.Holds bs ∧ (bs ≠ [] → reader'.offset < reader'.pending.length) := by
  obtain ⟨frames, hreceiver, -, hbs⟩ := h
  rw [hempty, drop_length] at hbs
  cases hfinished : reader.finished with
  | true =>
    rw [hfinished] at hbs
    exact ⟨_, rfl, ⟨frames, hreceiver, le_rfl, hbs⟩, absurd hbs⟩
  | false =>
    obtain ⟨reader', hreceive, hholds, hzero, hne⟩ :=
      receiveFrom_spec ⟨reader.receiver, [], 0, false⟩ rfl
    rw [hfinished] at hbs
    rw [hbs]
    refine ⟨reader', ?_, hholds, fun _ => by rw [hzero]; exact length_pos_iff.mpr hne⟩
    rw [hreceiver] at hreceive ⊢
    exact hreceive

theorem takePending_spec (h : reader.Holds bs)
    (hpending : bs ≠ [] → reader.offset < reader.pending.length) {n} (hn : 0 < n) :
    ∃ k reader', takePending n reader = (.ok (bs.take k), reader') ∧ reader'.Holds (bs.drop k) ∧
      k ≤ n ∧ (bs ≠ [] → 0 < k) := by
  obtain ⟨frames, hreceiver, hoffset, hbs⟩ := h
  by_cases hnil : reader.pending = []
  · have hbs' : bs = [] := by
      by_contra hne
      have := hpending hne
      rw [hnil, length_nil] at this
      omega
    refine ⟨0, reader, ?_, ⟨frames, hreceiver, hoffset, hbs⟩, zero_le n, absurd hbs'⟩
    rw [takePending, hnil]
    rfl
  · have hfits : min n (reader.pending.length - reader.offset) ≤
        (reader.pending.drop reader.offset).length := by
      rw [length_drop]
      exact min_le_right _ _
    refine ⟨min n (reader.pending.length - reader.offset),
      { reader with offset := reader.offset + min n (reader.pending.length - reader.offset) }, ?_,
      ⟨frames, hreceiver, ?_, ?_⟩, min_le_left _ _, fun hne => ?_⟩
    · rw [takePending, if_neg (by simpa using hnil), hbs, take_append_of_le_length hfits]
    · dsimp only
      omega
    · rw [hbs, drop_append_of_le_length hfits, drop_drop]
    · have := hpending hne
      omega

/-- The adapter is a stream of the wire form, whatever is asked of it at a time. -/
theorem delivers (h : reader.Holds bs) : Delivers reader bs := by
  refine ⟨Holds, ?_, h⟩
  intro reader bs h n hn
  change ∃ k reader', (if n = 0 then (.ok [], reader)
    else if reader.offset = reader.pending.length then
      (refill >>= fun _ => takePending n) { reader with pending := [], offset := 0 }
    else takePending n reader) = _ ∧ _
  rw [if_neg hn.ne']
  split
  next hempty =>
    obtain ⟨reader', hrefill, hholds, hpending⟩ := refill_spec h hempty
    rw [ReadM.bind_ok hrefill]
    exact takePending_spec hholds hpending hn
  next hmore =>
    have hoffset : reader.offset ≤ reader.pending.length := by
      obtain ⟨frames, -, hoffset, -⟩ := h
      exact hoffset
    exact takePending_spec h (fun _ => by omega) hn

theorem framesWire_append :
    framesWire (fragments.map .data ++ frames) =
      (fragments.filter fun data => !data.isEmpty).flatMap chunk ++ framesWire frames := by
  induction fragments with
  | nil => rfl
  | cons data fragments ih =>
    rw [map_cons, cons_append, framesWire, ih]
    cases data with
    | nil => rfl
    | cons b data => simp

end H2RequestReader

theorem flatMap_writeRequestData :
    fragments.flatMap (writeRequestData · true) =
      (fragments.filter fun data => !data.isEmpty).flatMap chunk := by
  have hdata : ∀ data, writeRequestData data true = if data.isEmpty then [] else chunk data := by
    intro data
    rw [writeRequestData, chunk_eq]
    simp
  induction fragments with
  | nil => rfl
  | cons data fragments ih =>
    rw [flatMap_cons, ih, hdata]
    cases data with
    | nil => rfl
    | cons b data => simp

theorem relayedRequestBody_eq :
    relayedRequestBody true fragments trailers = chunkedBody fragments trailers := by
  rw [relayedRequestBody, chunkedBody, finishRequestBody, if_pos rfl, lastChunk_eq,
    flatMap_writeRequestData]

theorem writeChunkedRequest_eq (body : Bytes) (trailers : Headers) :
    writeChunkedRequest body trailers = chunkedBody [body] trailers := by
  rw [writeChunkedRequest, chunkedBody, lastChunk_eq]
  cases body with
  | nil => simp
  | cons b body => simp [chunk_eq]

/-! ### The request reader inverts them -/

/-- Whatever the encoder and the fragments, the reader gives back the body, and the trailers with
their values trimmed. -/
theorem chunked_request_decodes {limits : HeaderLimits} (hlimits : limits.Workable)
    {fragments : List Bytes} (hlengths : ∀ data ∈ fragments, data.length ≤ usizeMax)
    {trailers : Headers}
    (hvalid : validateRequestTrailers trailers limits.maxHeaderSize limits.maxHeaderCount =
      .ok ()) :
    (∀ rest, decodeBody limits .chunked (relayedRequestBody true fragments trailers ++ rest) =
      ⟨fragments.flatten, .ok (trailers.map fun field => (field.1, trim field.2), rest)⟩) ∧
    (fragments.flatten.length ≤ usizeMax → ∀ rest, decodeBody limits .chunked
        (writeChunkedRequest fragments.flatten trailers ++ rest) =
      ⟨fragments.flatten, .ok (trailers.map fun field => (field.1, trim field.2), rest)⟩) ∧
    ∀ frames, (frames = fragments.map .data ++ [.trailers trailers] ∨
        frames = fragments.map .data ∧ trailers = []) →
      (new .chunked).Yields limits (new (frames.map .ok))
        ⟨fragments.flatten, .ok (trailers.map fun field => (field.1, trim field.2), [])⟩ := by
  refine ⟨fun rest => ?_, fun hlength rest => ?_, fun frames hframes => ?_⟩
  · rw [relayedRequestBody_eq]
    exact decodeBody_chunkedBody hlimits hlengths hvalid rest
  · have hdecode := decodeBody_chunkedBody hlimits
      (forall_mem_singleton.mpr hlength) hvalid rest
    rw [writeChunkedRequest_eq, hdecode, flatten_cons, flatten_nil, append_nil]
  · have hwire : framesWire frames = chunkedBody fragments trailers := by
      rcases hframes with rfl | ⟨rfl, rfl⟩
      · exact framesWire_append fragments
      · rw [← append_nil (fragments.map _), framesWire_append]
        rfl
    have hstream : Delivers (new (frames.map .ok)) (chunkedBody fragments trailers) :=
      delivers ⟨frames, rfl, le_rfl, by rw [← hwire]; rfl⟩
    have hdecode := decodeBody_chunkedBody hlimits hlengths hvalid []
    rw [append_nil] at hdecode
    rw [← hdecode]
    exact yields limits (new_live .chunked) hstream

/-- `hello` in three fragments, one of them empty, with a checksum behind it. -/
theorem hello_decodes : (new .chunked).Yields ⟨64, 8⟩
      (new [.ok (.data (utf8 "hel")), .ok (.data []),
        .ok (.data (utf8 "lo")), .ok (.trailers [("x-sum", "5")])])
      ⟨utf8 "hello", .ok ([("x-sum", "5")], [])⟩ := by
  have hlimits : HeaderLimits.Workable ⟨64, 8⟩ := ⟨by decide, by decide⟩
  have hlengths : ∀ data ∈ [utf8 "hel", [], utf8 "lo"], data.length ≤ usizeMax := by
    decide
  have hvalid : validateRequestTrailers [("x-sum", "5")] 64 8 = .ok () := by decide
  exact (chunked_request_decodes hlimits hlengths hvalid).2.2 _ (.inl rfl)

/-- A trailer that passes the check loses the blank in front of its value. -/
theorem trailer_blank_lost :
    validateRequestTrailers [("x-sum", " 5")] 64 8 = .ok () ∧
      (decodeBody ⟨64, 8⟩ .chunked
        (writeChunkedRequest [] [("x-sum", " 5")])).verdict =
        .ok ([("x-sum", "5")], []) := by
  decide +kernel

end RsProxy.Engine
