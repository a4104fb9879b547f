import RsProxy.Engine.Finish
import RsProxy.Engine.Forward

/-!
# Requests on a pooled connection

A pooled connection is used for one request after the other. `exchange` reads the head of a response
and hands it to one of seven finishers, which read the body, answer the client and say whether the
connection may be used again; `servePooled` is the life of one connection. The client takes every
write, and a deadline that passes while a body is read shows as a read that fails.
-/

namespace RsProxy.Engine

open Text Io Net
open RelayM (emit fail ofRead)

/-! ### The request -/

/-- A request that may go on a pooled connection, and what is to become of its client. -/
structure PooledRequest where
  request : RawRequest
  clientConnection : ClientPersistence
  eligible : poolEligible true request []

def PooledRequest.context (pooled : PooledRequest) : ResponseContext :=
  ⟨pooled.request.method, pooled.request.version, pooled.clientConnection, .ok ()⟩

/-! ### The finishers -/

/-- What a response leaves behind: the client connection, and whether the upstream connection may go
back to the pool. -/
structure FastResponseOutcome where
  clientConnection : ClientPersistence
  reusable : Bool
deriving DecidableEq

def smallBodyLimit : Nat := 64 * 1024

def responseIsPersistent (head : RawResponseHead) : Bool :=
  !headerContainsToken head.headers "connection" "close" &&
    (eqIgnoreAsciiCase head.version "HTTP/1.1" ||
      (eqIgnoreAsciiCase head.version "HTTP/1.0" &&
        headerContainsToken head.headers "connection" "keep-alive"))

section Finishers

variable [ReasonPhrases] {υ : Type} [Read υ]

/-- A head, what a relay reads behind it, written as `encode` has it, and an ending. What goes wrong
behind the head is a result like others: nothing more is written, and both connections are given
up. -/
def answerBehind {α : Type} (head : RawResponseHead) (headers : Headers) (keepAlive : Bool)
    (relay : RelayM υ Bytes α) (encode : Bytes → Bytes) (ending : α → List Output)
    (outcome : FastResponseOutcome) : RelayM υ Output FastResponseOutcome :=
  match writeResponseHeadWithConnection head headers keepAlive with
  | .error e => fail e
  | .ok written => fun connection =>
    match relay connection with
    | ((pieces, .done a), connection) =>
      ((written :: (pieces.map (.data ∘ encode) ++ ending a), .done outcome), connection)
    | ((pieces, .failed _), connection) =>
      ((written :: pieces.map (.data ∘ encode), .done ⟨.close, false⟩), connection)
    | ((pieces, .running), connection) =>
      ((written :: pieces.map (.data ∘ encode), .running), connection)

/-- Run a relay for what it reads only. -/
def discard {α : Type} (relay : RelayM υ Bytes α) : RelayM υ Output α := fun connection =>
  let ((_, outcome), connection) := relay connection
  (([], outcome), connection)

/-- The framed body of a response that has no content, if there is one. -/
def discardBody (limits : HeaderLimits) (rounds : Nat) (headers : Headers) :
    RelayM υ Output Unit :=
  if hasChunkedTransferEncoding headers then do
    let _ ← discard (relayChunked limits rounds)
  else
    match declaredLength headers with
    | some length => discard (relayExact length)
    | none => pure ()

/-- The trailers the head of a chunked response announces. -/
def announcedTrailers (headers : Headers) : List Str :=
  (sanitizeUpstreamTrailers ((((headers.filter (named "trailer")).flatMap fun field =>
    (splitOn (· == ',') field.2).map trim).filter fun name => !name.isEmpty).map fun name =>
      (name, [])) headers).map Prod.fst

def chunkedResponseHeaders (headers : Headers) : Headers :=
  let chunked := setHeader (stripHopByHopHeaders headers) "Transfer-Encoding" "chunked"
  if (announcedTrailers headers).isEmpty then chunked
  else setHeader chunked "Trailer".toList (", ".toList.intercalate (announcedTrailers headers))

variable (config : ProxyConfig) (rounds : Nat) (context : ResponseContext) (head : RawResponseHead)
  (length : Nat) (reusable : Bool)

def finishWithoutBody : RelayM υ Output FastResponseOutcome :=
  answerBehind { head with version := clientResponseVersion context.version }
    (stripHopByHopHeaders head.headers) context.clientConnection.keepsAlive (pure ()) id
    (fun _ => []) ⟨context.clientConnection, reusable⟩

def finishResetContent : RelayM υ Output FastResponseOutcome := do
  discardBody config.headerLimits rounds head.headers
  answerBehind { head with version := clientResponseVersion context.version }
    (stripHopByHopHeaders (prepareStreamingBodyHeaders head.headers))
    context.clientConnection.keepsAlive (pure ()) id (fun _ => [])
    ⟨context.clientConnection, reusable⟩

def finishSse : RelayM υ Output FastResponseOutcome :=
  answerBehind { head with version := clientResponseVersion context.version }
    (prepareStreamingBodyHeaders (stripHopByHopHeaders head.headers)) false
    (streamSseResponse head.headers rounds) id (fun _ => []) ⟨.close, false⟩

def finishChunked : RelayM υ Output FastResponseOutcome :=
  answerBehind { head with version := clientResponseVersion context.version }
    (chunkedResponseHeaders head.headers) context.clientConnection.keepsAlive
    (relayChunked config.headerLimits rounds) (writeRequestData · true)
    (fun trailers =>
      [.data (finishRequestBody true (sanitizeUpstreamTrailers trailers head.headers))])
    ⟨context.clientConnection, reusable⟩

def finishFixed : RelayM υ Output FastResponseOutcome :=
  answerBehind { head with version := clientResponseVersion context.version }
    (setHeader (stripHopByHopHeaders head.headers) "Content-Length" (decimal length))
    context.clientConnection.keepsAlive (relayExact length) id (fun _ => [])
    ⟨context.clientConnection, reusable⟩

def finishCloseDelimited : RelayM υ Output FastResponseOutcome :=
  answerBehind { head with version := clientResponseVersion context.version }
    (stripHopByHopHeaders head.headers) false (relayToEof rounds) id (fun _ => []) ⟨.close, false⟩

variable [ResponseValues]

/-- A small body is read whole before anything is written. -/
def finishSmall : RelayM υ Output FastResponseOutcome := do
  let body ← ofRead (readExact length)
  match finishBufferedResponse config context head body [] [] with
  | .error e => fail e
  | .ok (outputs, connection) => fun upstream => ((outputs, .done ⟨connection, reusable⟩), upstream)

def finish : RelayM υ Output FastResponseOutcome :=
  match context.deadline with
  | .error e => fail e
  | .ok () =>
    let reusable := responseIsPersistent head
    if !responseHasFramedBody context.method head.status then
      finishWithoutBody context head reusable
    else if head.status = 205 then finishResetContent config rounds context head reusable
    else if isSseResponse head.headers then finishSse rounds context head
    else if hasChunkedTransferEncoding head.headers then
      finishChunked config rounds context head reusable
    else
      match declaredLength head.headers with
      | some length =>
        if length ≤ smallBodyLimit ∧ length ≤ config.bodyBufferLimit then
          finishSmall config context head length reusable
        else finishFixed context head length reusable
      | none => finishCloseDelimited rounds context head

end Finishers

/-! ### The life of a connection -/

section Serving

variable [ReasonPhrases] [ResponseValues] {υ : Type} [Read υ] [BufRead υ]

/-- What happens on the connection once a request was sent. -/
def exchange (config : ProxyConfig) (rounds : Nat) (pooled : PooledRequest) :
    RelayM υ Output FastResponseOutcome := do
  let head ← ofRead (readResponseHeadBuffered config.maxHeaderSize config.maxHeaderCount)
  finish config rounds pooled.context head

/-- What a connection was used for: the answers its requests got, and the connection itself if it
went back to the pool after the last of them. -/
structure Served (υ : Type) where
  answers : List (List Output × Outcome FastResponseOutcome)
  pooled : Option υ

/-- Requests that find the connection in the pool are sent on it. -/
def servePooled (config : ProxyConfig) (rounds : Nat) : List PooledRequest → υ → Served υ
  | [], connection => ⟨[], some connection⟩
  | request :: requests, connection =>
    let (answer, connection) := exchange config rounds request connection
    match answer.2 with
    | .done ⟨_, true⟩ =>
      let served := servePooled config rounds requests connection
      ⟨answer :: served.answers, served.pooled⟩
    | _ => ⟨[answer], none⟩

end Serving

end RsProxy.Engine
