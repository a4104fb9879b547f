import RsProxy.Net.Request

/-!
# Reading the body of an HTTP/1 request

`RequestBodyReader` decodes a body one call after the other, into whatever buffer the caller has. It
remembers how much of the current chunk, or of the whole body, is still to come.
-/

namespace RsProxy.Net

open Text Io ReadM
open Rules (usizeMax saturatingAdd isHttpTokenChar)
open Read (read)

/-! ### Lines -/

def crlf : Bytes := [13, 10]

section Lines

variable {σ : Type} [Read σ]

/-- Every round reads a byte, and the limit ends the loop. -/
def readCrlfLineLoop (limit : Nat) : (rounds : Nat) → (bytes : Bytes) → ReadM σ Str
  | 0, _ => fail (lineTooLong limit)
  | rounds + 1, bytes => do
    let byte ← readExact 1
    let bytes := bytes ++ byte
    if saturatingAdd limit 2 < bytes.length then fail (lineTooLong limit)
    else if crlf.isSuffixOf bytes then
      match fromUtf8 (bytes.take (bytes.length - 2)) with
      | some line => pure line
      | none => fail (invalidData "request chunk line is not UTF-8")
    else readCrlfLineLoop limit rounds bytes
where
  lineTooLong (limit : Nat) : IoError :=
    invalidData ("chunk line size limit exceeded (limit " ++ decimal limit ++ ")")

def readCrlfLineLimited (limit : Nat) : ReadM σ Str :=
  readCrlfLineLoop limit (saturatingAdd limit 2 + 1) []

end Lines

/-! ### Trailers -/

def requestTrailerForbidden (name : Str) : Bool :=
  ["authorization", "connection", "content-length", "cookie", "host", "keep-alive",
    "proxy-authorization", "proxy-connection", "te", "trailer", "transfer-encoding",
    "upgrade"].any fun forbidden => toAsciiLowercase name == forbidden.toList

/-- Characters that would end the line of a field. -/
def breaksField (c : Char) : Bool := c == '\r' || c == '\n' || c == '\x00'

def validateRequestTrailer (name value : Str) : Except IoError Unit :=
  if name.isEmpty || !name.all isHttpTokenChar then
    .error (invalidData ("invalid request trailer name `" ++ name ++ "`"))
  else if requestTrailerForbidden name then
    .error (invalidData ("forbidden request trailer `" ++ name ++ "`"))
  else if value.any breaksField then
    .error (invalidData ("invalid value for request trailer `" ++ name ++ "`"))
  else .ok ()

def trailerCountExceeded (maxHeaderCount : Nat) : IoError :=
  invalidData ("trailer count limit exceeded (limit " ++ decimal maxHeaderCount ++
    ")")

def trailerSizeExceeded (maxHeaderSize : Nat) : IoError :=
  invalidData ("trailer size limit exceeded (limit " ++ decimal maxHeaderSize ++
    ")")

def validateRequestTrailers (trailers : Headers) (maxHeaderSize maxHeaderCount : Nat) :
    Except IoError Unit :=
  if maxHeaderCount < trailers.length then .error (trailerCountExceeded maxHeaderCount)
  else do
    let size ← trailers.foldlM (fun size field => do
      validateRequestTrailer field.1 field.2
      pure (saturatingAdd (saturatingAdd (saturatingAdd size (utf8Len field.1))
        (utf8Len field.2)) 32)) 0
    if maxHeaderSize < size then .error (trailerSizeExceeded maxHeaderSize) else .ok ()

/-- A line of the trailer section, trimmed and checked. -/
def parseTrailer (line : Str) : Except IoError (Str × Str) :=
  match splitOnce [':'] line with
  | none => .error (invalidData "invalid request trailer")
  | some (name, value) =>
    if (trim name).isEmpty then .error (invalidData "empty request trailer name")
    else (validateRequestTrailer (trim name) (trim value)).map fun _ => (trim name, trim value)

section Trailers

variable {σ : Type} [Read σ]

/-- Every round but the last reads a trailer, and their number is limited. -/
def readTrailersLoop (maxHeaderSize maxHeaderCount : Nat) :
    (rounds : Nat) → (trailers : Headers) → (totalSize : Nat) → ReadM σ Headers
  | 0, _, _ => fail (trailerCountExceeded maxHeaderCount)
  | rounds + 1, trailers, totalSize => do
    let line ← readCrlfLineLimited maxHeaderSize
    let totalSize := saturatingAdd (saturatingAdd totalSize (utf8Len line)) 2
    if maxHeaderSize < totalSize then fail (trailerSizeExceeded maxHeaderSize)
    else if line.isEmpty then pure trailers
    else if maxHeaderCount ≤ trailers.length then
      fail (trailerCountExceeded maxHeaderCount)
    else
      match parseTrailer line with
      | .error e => fail e
      | .ok field =>
        readTrailersLoop maxHeaderSize maxHeaderCount rounds (trailers ++ [field]) totalSize

def readTrailers (maxHeaderSize maxHeaderCount : Nat) : ReadM σ Headers :=
  readTrailersLoop maxHeaderSize maxHeaderCount (maxHeaderCount + 1) [] 0

end Trailers

/-! ### Chunks -/

/-- The size on a chunk line; what follows a semicolon is an extension. -/
def parseChunkSize (line : Str) : Option Nat :=
  parseHexUsize (trim ((splitOn (· == ';') line).headD []))

section Chunks

variable {σ : Type} [Read σ]

def readChunkSize (maxHeaderSize : Nat) : ReadM σ Nat := do
  let line ← readCrlfLineLimited maxHeaderSize
  match parseChunkSize line with
  | some size => pure size
  | none => fail (invalidData "invalid chunk size in request")

def readChunkEnd : ReadM σ Unit := do
  let bytes ← readExact 2
  if bytes = crlf then pure ()
  else fail (invalidData "invalid chunk terminator in request")

end Chunks

/-! ### The reader -/

inductive RequestBodyState where
  | finished
  | contentLength (remaining : Nat)
  | chunked (remaining : Nat)
deriving DecidableEq, Repr

structure RequestBodyReader where
  framing : RequestBodyFraming
  state : RequestBodyState
deriving DecidableEq

/-- What one call reports: the bytes it put into the buffer, or the end of the body. -/
inductive RequestBodyRead where
  | data (bytes : Bytes)
  | finish (trailers : Headers)
deriving DecidableEq

structure HeaderLimits where
  maxHeaderSize : Nat
  maxHeaderCount : Nat

def bodyIncomplete : IoError :=
  ⟨.unexpectedEof, "connection closed before request body completed"⟩

namespace RequestBodyReader

def new (framing : RequestBodyFraming) : RequestBodyReader :=
  { framing
    state := match framing with
      | .none => .finished
      | .contentLength 0 => .finished
      | .contentLength remaining => .contentLength remaining
      | .chunked => .chunked 0 }

/-- The state after `taken` of the `remaining` bytes of a fixed length. -/
def afterFixed (remaining taken : Nat) : RequestBodyState :=
  if remaining - taken = 0 then .finished else .contentLength (remaining - taken)

variable {σ : Type} [Read σ]

/-- Some data of a chunk, with the line end behind the last of it. -/
def readChunkData (reader : RequestBodyReader) (capacity remaining : Nat) :
    ReadM σ (RequestBodyRead × RequestBodyReader) := do
  let taken := min remaining capacity
  let bytes ← readExact taken
  if remaining - taken = 0 then do
    readChunkEnd
    pure (.data bytes, { reader with state := .chunked 0 })
  else pure (.data bytes, { reader with state := .chunked (remaining - taken) })

/-- One call with a buffer for `capacity` bytes. After a failure the reader is not used again. -/
def read (reader : RequestBodyReader) (capacity : Nat) (limits : HeaderLimits) :
    ReadM σ (RequestBodyRead × RequestBodyReader) :=
  if capacity = 0 then
    fail (invalidInput "request body read buffer must not be empty")
  else
    match reader.state with
    | .finished => pure (.finish [], reader)
    | .contentLength remaining => do
      let bytes ← Read.read (min remaining capacity)
      if bytes = [] then fail bodyIncomplete
      else pure (.data bytes, { reader with state := afterFixed remaining bytes.length })
    | .chunked 0 => do
      let size ← readChunkSize limits.maxHeaderSize
      if size = 0 then do
        let trailers ← readTrailers limits.maxHeaderSize limits.maxHeaderCount
        pure (.finish trailers, { reader with state := .finished })
      else reader.readChunkData capacity size
    | .chunked remaining => reader.readChunkData capacity remaining

end RequestBodyReader

/-! ### Collecting a body up to a limit -/

inductive BoundedRequestBody where
  | complete (body : Bytes) (trailers : Headers)
  | overflow (pre : Bytes) (reader : RequestBodyReader)

def requestBodyChunkSize : Nat := 16 * 1024

section Collect

variable {σ : Type} [Read σ]

/-- Every round adds a byte at least, and the limit ends the loop. -/
def collectLoop (limit : Nat) (limits : HeaderLimits) :
    (rounds : Nat) → (reader : RequestBodyReader) → (body : Bytes) → ReadM σ BoundedRequestBody
  | 0, reader, body => pure (.overflow body reader)
  | rounds + 1, reader, body => do
    let allowed := saturatingAdd limit 1 - body.length
    if allowed = 0 then pure (.overflow body reader)
    else do
      let (progress, reader) ← reader.read (min allowed requestBodyChunkSize) limits
      match progress with
      | .data bytes =>
        if limit < (body ++ bytes).length then pure (.overflow (body ++ bytes) reader)
        else collectLoop limit limits rounds reader (body ++ bytes)
      | .finish trailers => pure (.complete body trailers)

def readRequestBodyBounded (framing : RequestBodyFraming) (limit : Nat) (limits : HeaderLimits) :
    ReadM σ BoundedRequestBody :=
  let reader := RequestBodyReader.new framing
  let declaredOver := match framing with
    | .contentLength length => decide (limit < length)
    | _ => false
  if declaredOver then pure (.overflow [] reader)
  else collectLoop limit limits (limit + 2) reader []

end Collect

end RsProxy.Net
