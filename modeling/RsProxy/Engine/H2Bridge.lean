import RsProxy.Engine.Forward
import RsProxy.Engine.ClientView

/-!
# Answers on their way to an HTTP/2 client

A request of an HTTP/2 client runs through the same code as one of an HTTP/1 client, and what that
code writes is taken apart again: `H2ResponseWriter` reads the head and the body back from the
bytes, however they are cut into writes, and hands them to the channels of the HTTP/2 response.
-/

namespace RsProxy.Engine

open Text Io Net
open Rules (saturatingAdd)
open RelayM (fail update)

inductive ResponseState where
  | head
  | contentLength (remaining : Nat)
  | chunkSize
  | chunkData (remaining : Nat)
  | chunkTerminator
  | chunkTrailers
  | closeDelimited
  | discard
  | done
  | failed
deriving DecidableEq

structure DownstreamH2ResponseHead where
  status : Nat
  headers : Headers
deriving DecidableEq

inductive DownstreamH2ResponseFrame where
  | data (bytes : Bytes)
  | trailers (fields : Headers)
deriving DecidableEq

/-- What goes through the two channels. -/
inductive Delivery where
  | head (head : DownstreamH2ResponseHead)
  | headError (error : IoError)
  | frame (frame : DownstreamH2ResponseFrame)
  | bodyError (error : IoError)
deriving DecidableEq

/-- A writer has the ends of the two channels until it has sent the head and closed the body. The
receiving ends stay. -/
structure H2ResponseWriter where
  headSender : Bool
  bodySender : Bool
  state : ResponseState
  buffer : Bytes
  method : Str
  limits : HeaderLimits

def headerContainsToken (headers : Headers) (name token : Str) : Bool :=
  (listElements headers name).any (eqIgnoreAsciiCase · token)

def prepareH2ClientResponseHeaders (headers : Headers) (status : Nat) : Headers :=
  let headers := stripHopByHopHeaders headers
  if !statusCanSendContent status then removeHeader headers "content-length" else headers

/-- The trailers on some lines, behind those that were on the lines before. -/
def parseTrailerLines (limits : HeaderLimits) :
    List Str → (trailers : Headers) → (size : Nat) → Except IoError Headers
  | [], trailers, _ => .ok trailers
  | line :: lines, trailers, size =>
    if limits.maxHeaderCount ≤ trailers.length then
      .error (invalidData "HTTP/2 bridge response trailer count limit exceeded")
    else
      match splitOnce [':'] line with
      | none => .error (invalidData "invalid bridged response trailer")
      | some (name, value) =>
        let size := saturatingAdd
          (saturatingAdd (saturatingAdd size (utf8Len name)) (utf8Len value)) 4
        if limits.maxHeaderSize < size then
          .error (invalidData "HTTP/2 bridge response trailer size limit exceeded")
        else parseTrailerLines limits lines (trailers ++ [(trim name, trim value)]) size

namespace H2ResponseWriter

abbrev M (α : Type) := RelayM H2ResponseWriter Delivery α

def new (method : Str) (limits : HeaderLimits) : H2ResponseWriter :=
  ⟨true, true, .head, [], method, limits⟩

def parseTrailers (limits : HeaderLimits) (bytes : Bytes) : Except IoError Headers :=
  match fromUtf8 bytes with
  | none => .error (invalidData "invalid trailer encoding")
  | some text =>
    parseTrailerLines limits ((splitStr "\r\n" text).filter fun line => !line.isEmpty) [] 0

/-! ### The channels -/

def sendHead (head : DownstreamH2ResponseHead) : M Unit := fun w =>
  if w.headSender then (([.head head], .done ()), { w with headSender := false })
  else fail ⟨.brokenPipe, "response head already sent"⟩ w

def sendBody (frame : DownstreamH2ResponseFrame) : M Unit := fun w =>
  if w.bodySender then (([.frame frame], .done ()), w)
  else fail ⟨.brokenPipe, "HTTP/2 response body is closed"⟩ w

def closeBody : M Unit := update fun w => { w with bodySender := false }

def signalError (e : IoError) : M Unit := fun w =>
  if w.headSender then
    (([.headError e], .done ()), { w with headSender := false, state := .failed })
  else if w.bodySender then
    (([.bodyError e], .done ()), { w with bodySender := false, state := .failed })
  else (([], .done ()), { w with state := .failed })

/-- Fail, and say so through the channel that is open. -/
def failWith {α : Type} (e : IoError) : M α := do
  signalError e
  fail e

/-! ### Taking the bytes apart -/

def setState (state : ResponseState) : M Unit := update fun w => { w with state := state }

/-- Take bytes off the front of the buffer. -/
def drop (size : Nat) : M Unit := update fun w => { w with buffer := w.buffer.drop size }

def ofExcept {α : Type} : Except IoError α → M α
  | .ok a => pure a
  | .error e => fail e

def contentLengthOf (headers : Headers) : Except IoError (Option Nat) :=
  match header headers "content-length" with
  | none => .ok none
  | some value =>
    match parseUsize value with
    | some length => .ok (some length)
    | none => .error (invalidData "invalid response content-length")

/-- The state behind a head. -/
def bodyState (method : Str) (head : RawResponseHead) (contentLength : Option Nat) :
    ResponseState :=
  if !responseHasFramedBody method head.status then .discard
  else if headerContainsToken head.headers "transfer-encoding" "chunked" then .chunkSize
  else
    match contentLength with
    | some length => .contentLength length
    | none => .closeDelimited

def parseHead (size : Nat) : M Unit := fun w =>
  (do
    drop size
    let head ← ofExcept
      (readResponseHead w.limits.maxHeaderSize w.limits.maxHeaderCount (w.buffer.take size)).1
    if head.status = 101 then
      failWith ⟨.unsupported, "WebSocket over HTTP/2 is not supported"⟩
    else do
      let contentLength ← ofExcept (contentLengthOf head.headers)
      setState (bodyState w.method head contentLength)
      sendHead ⟨head.status, prepareH2ClientResponseHeaders head.headers head.status⟩
      if bodyState w.method head contentLength = .discard then closeBody else pure () : M Unit) w

/-- One round of the loop: whether there is another one. -/
def drainStep : M Bool := fun w =>
  (match w.state with
    | .head =>
      match position w.buffer with
      | none =>
        if saturatingAdd w.limits.maxHeaderSize 4 < w.buffer.length then
          failWith (invalidData "HTTP/2 bridge response header size limit exceeded")
        else pure false
      | some stop => do
        parseHead (stop + 4)
        pure true
    | .contentLength remaining =>
      if remaining = 0 then do
        closeBody
        setState .done
        pure true
      else if w.buffer.isEmpty then pure false
      else do
        let size := min remaining w.buffer.length
        drop size
        sendBody (.data (w.buffer.take size))
        setState (.contentLength (remaining - size))
        pure true
    | .chunkSize =>
      match cutLine w.buffer with
      | none =>
        if w.limits.maxHeaderSize < w.buffer.length then
          failWith (invalidData "HTTP/2 bridge chunk size line limit exceeded")
        else pure false
      | some (line, rest) =>
        match fromUtf8 line with
        | none => do
          drop line.length
          fail (invalidData "invalid chunk size encoding")
        | some text => do
          update fun w => { w with buffer := rest }
          match parseHexUsize (chunkSizeText text) with
          | none => fail (invalidData "invalid chunk size")
          | some size => do
            setState (if size = 0 then .chunkTrailers else .chunkData size)
            pure true
    | .chunkData remaining =>
      if w.buffer.isEmpty then pure false
      else do
        let size := min remaining w.buffer.length
        drop size
        sendBody (.data (w.buffer.take size))
        setState (if size = remaining then .chunkTerminator else .chunkData (remaining - size))
        pure true
    | .chunkTerminator =>
      if w.buffer.length < 2 then pure false
      else if w.buffer.take 2 ≠ crlf then
        failWith (invalidData "invalid chunk terminator in bridged response")
      else do
        drop 2
        setState .chunkSize
        pure true
    | .chunkTrailers =>
      if crlf.isPrefixOf w.buffer then do
        drop 2
        closeBody
        setState .done
        pure true
      else
        match position w.buffer with
        | none =>
          if saturatingAdd w.limits.maxHeaderSize 4 < w.buffer.length then
            failWith (invalidData "HTTP/2 bridge response trailer size limit exceeded")
          else pure false
        | some stop => do
          drop (stop + 4)
          let trailers ← ofExcept (parseTrailers w.limits (w.buffer.take stop))
          if !trailers.isEmpty then sendBody (.trailers trailers) else pure ()
          closeBody
          setState .done
          pure true
    | .closeDelimited =>
      if w.buffer.isEmpty then pure false
      else do
        drop w.buffer.length
        sendBody (.data w.buffer)
        pure true
    | .discard => do
      drop w.buffer.length
      pure false
    | .done =>
      if w.buffer.isEmpty then pure false
      else failWith (invalidData "bytes written after bridged response completed")
    | .failed => pure false : M Bool) w

def drainLoop : (rounds : Nat) → M Unit
  | 0 => RelayM.outOfRounds
  | rounds + 1 => do
    let again ← drainStep
    if again then drainLoop rounds else pure ()

/-- Every round but the one behind a fixed body takes bytes off the buffer. -/
def drain : M Unit := fun w => drainLoop (w.buffer.length + 2) w

def write (bytes : Bytes) : M Unit := fun w =>
  if w.state = .failed then fail ⟨.brokenPipe, "HTTP/2 response bridge has failed"⟩ w
  else drain { w with buffer := w.buffer ++ bytes }

/-- What is left to do when everything has been written and taken apart. -/
def close : M Unit := fun w =>
  (match w.state with
    | .done | .failed => pure ()
    | .closeDelimited => do
      if !w.buffer.isEmpty then do
        drop w.buffer.length
        sendBody (.data w.buffer)
      closeBody
      setState .done
    | .discard => do
      drop w.buffer.length
      setState .done
    | .head => failWith
        ⟨.unexpectedEof, "HTTP/2 bridge completed before a response head was written"⟩
    | _ => failWith
        ⟨.unexpectedEof, "HTTP/2 bridge response body ended before framing completed"⟩ :
    M Unit) w

def finish : M Unit := do
  drain
  close

/-- One write after the other. -/
def writeAll : List Bytes → M Unit
  | [] => pure ()
  | bytes :: writes => do
    write bytes
    writeAll writes

end H2ResponseWriter

def requestExpectsContinue (request : RawRequest) : Bool :=
  headerContainsToken request.headers "expect" "100-continue"

def continueLine : Bytes := utf8 "HTTP/1.1 100 Continue\r\n\r\n"

/-- What an HTTP/2 client gets when `writes` answer its request, behind the interim response a body
that is waited for gets. -/
def processH2Request (head : RequestHead) (limits : HeaderLimits) (writes : List Bytes) :
    List Delivery × Outcome Unit :=
  let interim :=
    if head.body.hasBody && requestExpectsContinue head.request then [continueLine] else []
  match H2ResponseWriter.writeAll (interim ++ writes) (.new head.request.method limits) with
  | ((deliveries, .done _), w) =>
    let ((more, outcome), _) := H2ResponseWriter.finish w
    (deliveries ++ more, outcome)
  | ((deliveries, .failed e), w) =>
    let ((more, _), _) := H2ResponseWriter.signalError e w
    (deliveries ++ more, .failed e)
  | ((deliveries, .running), _) => (deliveries, .running)

end RsProxy.Engine
