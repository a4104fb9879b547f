import RsProxy.Io.Relay
import RsProxy.Net.Response

/-!
# Reading the body of an upstream response

Three readers take the body of an HTTP/1 response off its connection: the relays of the pooled path,
the frame stream of a connection of its own, and the collector that reads a body whole. A deadline
that passes while one of them reads shows as a read that fails.
-/

namespace RsProxy.Engine

open Text Io Net ReadM
open Rules (saturatingAdd)
open Read (read)
open RelayM (emit fail ofRead outOfRounds)

/-! ### What a header list says about the body -/

def hasChunkedTransferEncoding (headers : Headers) : Bool :=
  match header headers "transfer-encoding" with
  | some value => (splitOn (· == ',') value).any fun part =>
      eqIgnoreAsciiCase (trim part) "chunked"
  | none => false

/-- The length in the first length field, if it reads as one. -/
def declaredLength (headers : Headers) : Option Nat :=
  (header headers "content-length").bind parseUsize

def isSseResponse (headers : Headers) : Bool :=
  match header headers "content-type" with
  | some value => eqIgnoreAsciiCase (trim ((splitOn (· == ';') value).headD []))
      "text/event-stream"
  | none => false

section Readers

variable {υ : Type} [Read υ]

/-! ### Lines -/

/-- The loop of the line readers. A line longer than the limit ends it. -/
def readLineLoop (limit : Nat) (tooLong : IoError) (decode : Bytes → Except IoError Str) :
    (rounds : Nat) → (bytes : Bytes) → ReadM υ Str
  | 0, _ => fail tooLong
  | rounds + 1, bytes => do
    let byte ← readExact 1
    let bytes := bytes ++ byte
    if crlf.isSuffixOf bytes then liftExcept (decode (bytes.take (bytes.length - 2)))
    else if limit < bytes.length then fail tooLong
    else readLineLoop limit tooLong decode rounds bytes

def readCrlfLine : ReadM υ Str :=
  readLineLoop 8192 (invalidData "chunk line too large")
    (fun bytes => .ok (fromUtf8Lossy bytes)) 8193 []

def readCrlfLineBounded (limit : Nat) : ReadM υ Str :=
  readLineLoop limit (invalidData "chunk line exceeds response header limit")
    (fun bytes =>
      match fromUtf8 bytes with
      | some line => .ok line
      | none => .error (invalidData "invalid chunk line")) (limit + 1) []

/-- The text on a chunk line that should be its size. -/
def chunkSizeText (line : Str) : Str := trim ((splitOn (· == ';') line).headD [])

/-- The size on a chunk line that was read. -/
def chunkSizeOf (line : Str) (message : Str) : ReadM υ Nat :=
  match parseChunkSize line with
  | some size => pure size
  | none => fail (invalidData message)

def readDelimiter : ReadM υ Unit := do
  let delimiter ← readExact 2
  if delimiter = crlf then pure ()
  else fail (invalidData "chunk missing trailing CRLF")

def responseTrailerLimitExceeded : IoError :=
  invalidData "response trailer limit exceeded"

/-- The loop of the trailer readers, which differ in their lines and in what they think of an empty
name. Every round but the last reads a trailer, and their number is limited. -/
def readResponseTrailersLoop (readLine : ReadM υ Str) (emptyName : Bool)
    (maxHeaderSize maxHeaderCount : Nat) :
    (rounds : Nat) → (trailers : Headers) → (size : Nat) → ReadM υ Headers
  | 0, _, _ => fail responseTrailerLimitExceeded
  | rounds + 1, trailers, size => do
    let line ← readLine
    if line.isEmpty then pure trailers
    else
      let size := saturatingAdd size (utf8Len line + 2)
      if maxHeaderSize < size || maxHeaderCount ≤ trailers.length then
        fail responseTrailerLimitExceeded
      else
        match splitOnce [':'] line with
        | none => fail (invalidData "invalid trailer")
        | some (name, value) =>
          if !emptyName && (trim name).isEmpty then
            fail (invalidData "invalid empty trailer name")
          else
            readResponseTrailersLoop readLine emptyName maxHeaderSize maxHeaderCount rounds
              (trailers ++ [(trim name, trim value)]) size

/-! ### Relays -/

/-- Every round hands out a byte at least, so the length is enough rounds. -/
def relayExactLoop (buffer : Nat) : (rounds remaining : Nat) → RelayM υ Bytes Unit
  | _, 0 => pure ()
  | 0, _ + 1 => outOfRounds
  | rounds + 1, remaining + 1 => do
    let bytes ← ofRead (readExact (min (remaining + 1) buffer))
    emit bytes
    relayExactLoop buffer rounds (remaining + 1 - min (remaining + 1) buffer)

/-- A read for which some errors count as the end of the stream. -/
def readOrEnd (buffer : Nat) (ends : IoError → Bool) : ReadM υ Bytes := fun s =>
  match read buffer s with
  | (.ok bytes, s) => (.ok bytes, s)
  | (.error e, s) => (if ends e then .ok [] else .error e, s)

/-- Relay up to the end of the stream, or up to an error that counts as one. -/
def relayToEndLoop (buffer : Nat) (ends : IoError → Bool) : (rounds : Nat) → RelayM υ Bytes Unit
  | 0 => outOfRounds
  | rounds + 1 => do
    let bytes ← ofRead (readOrEnd buffer ends)
    if bytes.isEmpty then pure ()
    else do
      emit bytes
      relayToEndLoop buffer ends rounds

def tlsCloseNotifyMissing (e : IoError) : Bool :=
  (e.kind = .unexpectedEof || e.kind = .invalidData) && containsStr "close_notify" e.message

/-! ### The pooled path -/

def relayBufferSize : Nat := 16 * 1024

def relayExact (length : Nat) : RelayM υ Bytes Unit := relayExactLoop relayBufferSize length length

def relayToEof (rounds : Nat) : RelayM υ Bytes Unit :=
  relayToEndLoop relayBufferSize (fun _ => false) rounds

def relayChunked (limits : HeaderLimits) : (rounds : Nat) → RelayM υ Bytes Headers
  | 0 => outOfRounds
  | rounds + 1 => do
    let line ← ofRead readCrlfLine
    let size ← ofRead (chunkSizeOf line "invalid chunk size")
    if size = 0 then
      ofRead (readResponseTrailersLoop readCrlfLine true limits.maxHeaderSize limits.maxHeaderCount
        (limits.maxHeaderCount + 1) [] 0)
    else do
      relayExact size
      ofRead readDelimiter
      relayChunked limits rounds

/-! ### Event streams -/

def sseBufferSize : Nat := 8192

/-- Lines up to an empty one, which are thrown away. -/
def skipTrailers : (rounds : Nat) → RelayM υ Bytes Unit
  | 0 => outOfRounds
  | rounds + 1 => do
    let line ← ofRead readCrlfLine
    if line.isEmpty then pure () else skipTrailers rounds

/-- A chunk is handed out when its line end was read. -/
def streamSseChunks : (rounds : Nat) → RelayM υ Bytes Unit
  | 0 => outOfRounds
  | rounds + 1 => do
    let line ← ofRead readCrlfLine
    let size ← ofRead (chunkSizeOf line
      ("invalid chunk size `" ++ chunkSizeText line ++ "`"))
    if size = 0 then skipTrailers rounds
    else do
      let chunk ← ofRead (readExact size)
      ofRead readDelimiter
      emit chunk
      streamSseChunks rounds

def streamSseResponse (headers : Headers) (rounds : Nat) : RelayM υ Bytes Unit :=
  if hasChunkedTransferEncoding headers then streamSseChunks rounds
  else
    match declaredLength headers with
    | some length => relayExactLoop sseBufferSize length length
    | none => relayToEndLoop sseBufferSize tlsCloseNotifyMissing rounds

/-! ### Reading a body whole -/

/-- Lines without a name are skipped. -/
def collectTrailers : (rounds : Nat) → (trailers : Headers) → RelayM υ Bytes Headers
  | 0, _ => outOfRounds
  | rounds + 1, trailers => do
    let line ← ofRead readCrlfLine
    if line.isEmpty then pure trailers
    else
      match splitOnce [':'] line with
      | none => collectTrailers rounds trailers
      | some (name, value) =>
        if (trim name).isEmpty then collectTrailers rounds trailers
        else collectTrailers rounds (trailers ++ [(trim name, trim value)])

/-- How a chunk stops the reading: an error is returned, or the code panics. -/
inductive ChunkFault where
  | error (e : IoError)
  | capacityOverflow
  | sliceOutOfRange

def isizeMax : Nat := 2 ^ 63 - 1

/-- `read_chunked_body` resizes its vector to a sum of two words and fills the slice behind the old
end, which is so long. Without overflow checks the sum wraps, and the vector may end before that
slice begins. -/
def grown (start size : Nat) : Except ChunkFault Nat :=
  let resized := (start + size) % 2 ^ 64
  if isizeMax < resized then .error .capacityOverflow
  else if resized < start then .error .sliceOutOfRange
  else .ok (resized - start)

/-- The vector holds `start` bytes. A thread that panics answers nothing, like one that goes on. -/
def readChunkedBody : (rounds start : Nat) → RelayM υ Bytes Headers
  | 0, _ => outOfRounds
  | rounds + 1, start => do
    let line ← ofRead readCrlfLine
    let size ← ofRead (chunkSizeOf line
      ("invalid chunk size `" ++ chunkSizeText line ++ "`"))
    if size = 0 then collectTrailers rounds []
    else
      match grown start size with
      | .error _ => outOfRounds
      | .ok length => do
        let chunk ← ofRead (readExact length)
        emit chunk
        ofRead readDelimiter
        readChunkedBody rounds (start + length)

/-- The pieces are those of the body that is collected. -/
def readResponseBody (headers : Headers) (rounds : Nat) : RelayM υ Bytes Headers :=
  if hasChunkedTransferEncoding headers then readChunkedBody rounds 0
  else
    match declaredLength headers with
    | some length => do
      let body ← ofRead (readExact length)
      emit body
      pure []
    | none => do
      relayToEndLoop sseBufferSize tlsCloseNotifyMissing rounds
      pure []

/-! ### The frame stream -/

inductive UpstreamBodyFrame where
  | data (bytes : Bytes)
  | trailers (fields : Headers)

inductive BodyState where
  | empty
  | contentLength (remaining : Nat)
  | chunkSize
  | chunkData (remaining : Nat)
  | chunkTerminator
  | closeDelimited
  | done
deriving DecidableEq

/-- Where a stream for the body of this response begins. -/
def newBodyState (method : Str) (status : Nat) (headers : Headers) : Except IoError BodyState :=
  if !responseHasFramedBody method status then .ok .empty
  else if hasChunkedTransferEncoding headers then .ok .chunkSize
  else
    match header headers "content-length" with
    | some value =>
      match parseUsize value with
      | some length => .ok (.contentLength length)
      | none => .error (invalidData "invalid response content-length")
    | none => if status = 205 then .ok .empty else .ok .closeDelimited

def readBufferSize : Nat := 16 * 1024

def responseBodyIncomplete : IoError :=
  ⟨.unexpectedEof, "response body ended before content-length was reached"⟩

def nextChunkData (remaining : Nat) : ReadM υ (Option UpstreamBodyFrame × BodyState) := do
  let bytes ← readExact (min remaining readBufferSize)
  pure (some (.data bytes),
    if bytes.length = remaining then .chunkTerminator else .chunkData (remaining - bytes.length))

def nextChunkSize (limits : HeaderLimits) : ReadM υ (Option UpstreamBodyFrame × BodyState) := do
  let line ← readCrlfLineBounded limits.maxHeaderSize
  let size ← chunkSizeOf line "invalid chunk size"
  if size = 0 then do
    let trailers ← readResponseTrailersLoop (readCrlfLineBounded limits.maxHeaderSize) false
      limits.maxHeaderSize limits.maxHeaderCount (limits.maxHeaderCount + 1) [] 0
    pure (if trailers.isEmpty then none else some (.trailers trailers), .done)
  else nextChunkData size

/-- The next frame, if there is one, and where the stream is after it. -/
def nextInner (limits : HeaderLimits) :
    BodyState → ReadM υ (Option UpstreamBodyFrame × BodyState)
  | .empty | .done | .contentLength 0 => pure (none, .done)
  | .contentLength remaining => do
    let bytes ← read (min remaining readBufferSize)
    if bytes.isEmpty then fail responseBodyIncomplete
    else pure (some (.data bytes), .contentLength (remaining - bytes.length))
  | .chunkSize => nextChunkSize limits
  | .chunkData remaining => nextChunkData remaining
  | .chunkTerminator => do
    readDelimiter
    nextChunkSize limits
  | .closeDelimited => fun s =>
    match read readBufferSize s with
    | (.ok bytes, s) =>
      (.ok (if bytes.isEmpty then (none, .done) else (some (.data bytes), .closeDelimited)), s)
    | (.error e, s) => (if tlsCloseNotifyMissing e then .ok (none, .done) else .error e, s)

end Readers

def isRequestTotalTimeout (e : IoError) : Bool :=
  e.kind = .timedOut && "stage=request_total: timeout after ".toList.isPrefixOf e.message

def stageIoError (stage : Str) (e : IoError) : IoError :=
  if isRequestTotalTimeout e then e
  else ⟨e.kind, "stage=" ++ stage ++ ": " ++ e.message⟩

def stageError (stage : Str) (e : IoError) : IoError :=
  ⟨.other, "stage=" ++ stage ++ ": " ++ e.message⟩

section Frames

variable {υ : Type} [Read υ]

def nextFrame (limits : HeaderLimits) (state : BodyState) :
    ReadM υ (Option UpstreamBodyFrame × BodyState) := fun s =>
  match nextInner limits state s with
  | (.ok next, s) => (.ok next, s)
  | (.error e, s) => (.error (stageIoError "response_body" e), s)

/-- The frames of a body, one after the other. -/
def bodyFrames (limits : HeaderLimits) :
    (rounds : Nat) → BodyState → RelayM υ UpstreamBodyFrame Unit
  | 0, _ => outOfRounds
  | rounds + 1, state => do
    let (frame, state) ← ofRead (nextFrame limits state)
    match frame with
    | none => pure ()
    | some frame => do
      emit frame
      bodyFrames limits rounds state

end Frames

end RsProxy.Engine
