import RsProxy.Engine.ResponseActions
import RsProxy.Engine.ChunkedRequest

/-!
# Answering a client with an upstream response

Two functions turn an upstream response into what the client gets. `finishBufferedResponse` has the
whole body and declares its length; `finishStreamingResponse` has a stream of frames and passes them
on as they come, with the length the upstream declared or in chunks. The client takes every write.
-/

namespace RsProxy.Engine

open Text Io Net
open Rules (Action HeaderOp Phase ResolvedAction isForbiddenTrailerName)

/-- What becomes of the client connection after a response. -/
inductive ClientPersistence where
  | keepAlive
  | close
deriving DecidableEq, Repr

def ClientPersistence.keepsAlive (connection : ClientPersistence) : Bool :=
  connection = .keepAlive

def clientResponseVersion (requestVersion : Str) : Str :=
  if eqIgnoreAsciiCase requestVersion "HTTP/1.0" then "HTTP/1.0"
  else "HTTP/1.1"

def throttleBps (actions : List ResolvedAction) (phase : Phase) : Option Nat :=
  actions.findSome? fun item =>
    match item.action with
    | .throttle actionPhase bytesPerSec => if actionPhase = phase then some bytesPerSec else none
    | _ => none

/-- What a finisher needs to know about the request. -/
structure ResponseContext where
  method : Str
  version : Str
  clientConnection : ClientPersistence
  /-- What the deadline says in front of the head, after the delays of the response actions. -/
  deadline : Except IoError Unit

/-! ### A body that was read whole -/

def prepareTrailerHeaders (headers trailers : Headers) : Headers :=
  let headers := removeHeader (removeHeader headers "content-length")
    "transfer-encoding"
  let headers := setHeader headers "Transfer-Encoding" "chunked"
  setHeader headers "Trailer".toList (", ".toList.intercalate (trailers.map Prod.fst))

section

variable [ResponseValues] [ReasonPhrases] (config : ProxyConfig) (context : ResponseContext)
  (head : RawResponseHead) (body : Bytes) (trailers : Headers) (actions : List ResolvedAction)

include head

/-- The response after its actions, ready to be written: its parts and its trailers. -/
def prepareBufferedResponse : Except IoError (ResponseParts × Headers) := do
  let trailers := if head.status = 205 then [] else sanitizeUpstreamTrailers trailers head.headers
  let body := if head.status = 205 then [] else body
  let parts ← applyResponseActions config ⟨head, head.headers, body⟩ actions
  let trailers ← applyResponseTrailerActions config trailers actions
  context.deadline
  let isHead := eqIgnoreAsciiCase context.method "HEAD"
  let (body, trailers, headers) :=
    if !statusCanSendContent parts.head.status then
      (([] : Bytes), ([] : Headers), prepareStreamingBodyHeaders parts.headers)
    else if isHead then
      (parts.body, [], removeHeader (removeHeader parts.headers "transfer-encoding")
        "trailer")
    else (parts.body, trailers, parts.headers)
  let http10 := eqIgnoreAsciiCase context.version "HTTP/1.0"
  let trailers := if http10 then [] else trailers
  let version := if http10 then "HTTP/1.0".toList else parts.head.version
  let headers := stripHopByHopHeaders headers
  let bodyAllowed := responseCanSendContent context.method parts.head.status
  let headers :=
    if bodyAllowed && trailers.isEmpty then updateBodyHeaders headers body.length
    else if bodyAllowed then prepareTrailerHeaders headers trailers
    else headers
  let version := if bodyAllowed && !trailers.isEmpty then "HTTP/1.1".toList else version
  .ok (⟨{ parts.head with version }, headers, body⟩, trailers)

def finishBufferedResponse : Except IoError (List Output × ClientPersistence) := do
  let (parts, trailers) ← prepareBufferedResponse config context head body trailers actions
  let keepAlive := context.clientConnection.keepsAlive
  if !responseCanSendContent context.method parts.head.status then do
    let written ← writeResponseHeadWithConnection parts.head parts.headers keepAlive
    .ok ([written], context.clientConnection)
  else if trailers.isEmpty then
    if (throttleBps actions .res).isNone then do
      let written ← writeResponseWithVersionAndConnection parts.head.version parts.head.status
        (reasonOf parts.head) parts.headers parts.body keepAlive
      .ok (written, context.clientConnection)
    else do
      let written ← writeResponseHeadWithConnection parts.head parts.headers keepAlive
      .ok ([written, .data parts.body], context.clientConnection)
  else do
    let written ← writeResponseHeadWithConnection parts.head parts.headers keepAlive
    .ok ([written, .data (writeChunkedRequest parts.body trailers)], context.clientConnection)

end

/-! ### A body that is streamed -/

def declaredTrailerNames (headers : Headers) (actions : List ResolvedAction) : List Str :=
  let names := ((headers.filter (named "trailer")).flatMap fun field =>
    (splitOn (· == ',') field.2).map trim).filter
      fun name => !name.isEmpty && !isForbiddenTrailerName name
  actions.foldl (fun names item =>
    match item.action with
    | .resTrailer (.set name _) =>
      if !isForbiddenTrailerName name && !names.any fun seen => eqIgnoreAsciiCase seen name then
        names ++ [name]
      else names
    | _ => names) names

/-- The head a streamed response goes out with, and how its body is written. -/
structure StreamingHead where
  head : RawResponseHead
  headers : Headers
  bodyAllowed : Bool
  chunked : Bool
  connection : ClientPersistence

def prepareStreamingResponse [ResponseValues] [ReasonPhrases] (config : ProxyConfig)
    (context : ResponseContext) (head : RawResponseHead) (actions : List ResolvedAction) :
    Except IoError StreamingHead := do
  let declared := declaredTrailerNames head.headers actions
  let parts ← applyStreamingResponseActions config head head.headers actions
  context.deadline
  let headers := stripHopByHopHeaders parts.headers
  let bodyAllowed := responseCanSendContent context.method parts.head.status && head.status ≠ 205
  let headers :=
    if head.status = 205 && statusCanSendContent parts.head.status then
      setHeader (removeHeader (removeHeader headers "transfer-encoding") "trailer")
        "Content-Length" "0"
    else headers
  let chunked := bodyAllowed && !eqIgnoreAsciiCase context.version "HTTP/1.0" &&
    ((header headers "content-length").isNone || !declared.isEmpty)
  let chunkedHeaders := setHeader (removeHeader headers "content-length")
    "Transfer-Encoding" "chunked"
  let headers :=
    if !chunked then headers
    else if declared.isEmpty then chunkedHeaders
    else setHeader chunkedHeaders "Trailer".toList (", ".toList.intercalate declared)
  let connection :=
    if !chunked && bodyAllowed && (header headers "content-length").isNone then .close
    else context.clientConnection
  .ok ⟨{ parts.head with version := clientResponseVersion context.version }, headers, bodyAllowed,
    chunked, connection⟩

/-- What is written for the frames of a body that may be passed on. -/
def writeStreamData (bytes : Bytes) (chunked : Bool) : List Output :=
  if bytes.isEmpty then [] else [.data (writeRequestData bytes chunked)]

def finishStreamBody (chunked : Bool) (trailers : Headers) : List Output :=
  if chunked then [.data (finishRequestBody true trailers)] else []

def frameOutputs (streaming : StreamingHead) (frames : List UpstreamBodyFrame) : List Output :=
  frames.flatMap fun frame =>
    match frame with
    | .data bytes => if streaming.bodyAllowed then writeStreamData bytes streaming.chunked else []
    | .trailers _ => []

def frameTrailers (frames : List UpstreamBodyFrame) : Headers :=
  frames.flatMap fun frame =>
    match frame with
    | .data _ => []
    | .trailers fields => fields

/-- How an answer ended: the connection afterwards, an error, or that it goes on. -/
abbrev Answered := List Output × Outcome ClientPersistence

/-- The answer behind a head that was written: the bytes of a prefix, the frames, and the end. -/
def streamBody [ResponseValues] (config : ProxyConfig) (context : ResponseContext)
    (head : RawResponseHead) (streaming : StreamingHead) (pre : Bytes)
    (frames : List UpstreamBodyFrame) (ending : Outcome Unit) (actions : List ResolvedAction) :
    Answered :=
  let written := (if streaming.bodyAllowed then writeStreamData pre streaming.chunked else []) ++
    frameOutputs streaming frames
  match ending with
  | .running => (written, .running)
  | ending =>
    let trailers := sanitizeUpstreamTrailers (frameTrailers frames) head.headers
    match applyResponseTrailerActions config trailers actions with
    | .error e => (written, .failed e)
    | .ok trailers =>
      let trailers := if !streaming.bodyAllowed ||
        eqIgnoreAsciiCase context.version "HTTP/1.0" then [] else trailers
      match ending with
      | .failed _ => (written, .done .close)
      | _ => (written ++ finishStreamBody streaming.chunked trailers, .done streaming.connection)

def finishStreamingResponse [ResponseValues] [ReasonPhrases] (config : ProxyConfig)
    (context : ResponseContext) (head : RawResponseHead) (pre : Bytes)
    (frames : List UpstreamBodyFrame) (ending : Outcome Unit) (actions : List ResolvedAction) :
    Answered :=
  match prepareStreamingResponse config context head actions with
  | .error e => ([], .failed e)
  | .ok streaming =>
    match writeResponseHeadWithConnection streaming.head streaming.headers
      streaming.connection.keepsAlive with
    | .error e => ([], .failed e)
    | .ok written =>
      let (outputs, outcome) := streamBody config context head streaming pre frames ending actions
      (written :: outputs, outcome)

end RsProxy.Engine
