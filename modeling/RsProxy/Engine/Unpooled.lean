import RsProxy.Engine.Pooled

/-!
# Responses on a connection of their own

A request that does not go to a pooled connection gets one of its own, and `answerUnpooled` is what
`forward_unpooled` does once the head of the response was read: it tunnels, streams events, streams
the body or reads it whole, in that order of preference. Where forwarding fails, on any path, the
client gets an error response behind whatever was written before.
-/

namespace RsProxy.Engine

open Text Io Net
open Rules (Action ResolvedAction)
open RelayM (emit fail ofRead)

/-! ### Which way a response goes -/

def isWebsocketResponse (headers : Headers) (status : Nat) : Bool :=
  status = 101 &&
    (header headers "upgrade").any (eqIgnoreAsciiCase · "websocket") &&
    connectionHasToken headers "upgrade"

def canStreamSseResponse (actions : List ResolvedAction) : Bool :=
  !actions.any fun item =>
    match item.action with
    | .resBody _ | .resMerge _ | .resTrailer _ | .inject _ => true
    | _ => false

/-- Is the body small enough, and declared to be, that it is read whole? -/
def fixedBodyCanCoalesce (config : ProxyConfig) (method : Str) (head : RawResponseHead) : Bool :=
  responseHasFramedBody method head.status && (header head.headers "trailer").isNone &&
    (declaredLength head.headers).any fun length =>
      length ≤ smallBodyLimit && length ≤ config.bodyBufferLimit

def shouldStream (config : ProxyConfig) (context : ResponseContext) (head : RawResponseHead)
    (actions : List ResolvedAction) : Bool :=
  !responseActionsRequireBody actions && !eqIgnoreAsciiCase context.version "HTTP/1.0" &&
    !fixedBodyCanCoalesce config context.method head

section Answers

variable [ResponseValues] [ReasonPhrases] {υ : Type} [Read υ]

/-! ### The four ways -/

section

variable (config : ProxyConfig)

/-- A switch to another protocol. The head goes out as it is, without a check, and behind it what
the tunnel brings. -/
def answerUpgrade (tunnel : RelayM υ Bytes Unit) (context : ResponseContext)
    (head : RawResponseHead) (actions : List ResolvedAction) : RelayM υ Output ClientPersistence :=
  match applyResponseActions config ⟨head, head.headers, []⟩ actions, context.deadline with
  | .error e, _ => fail e
  | .ok _, .error e => fail e
  | .ok parts, .ok () => fun connection =>
    let written := .head ⟨parts.head.version, parts.head.status, reasonOf parts.head, parts.headers⟩
    match tunnel connection with
    | ((pieces, .done _), connection) => ((written :: pieces.map .data, .done .close), connection)
    | ((pieces, .failed e), connection) => ((written :: pieces.map .data, .failed e), connection)
    | ((pieces, .running), connection) => ((written :: pieces.map .data, .running), connection)

section

variable (rounds : Nat) (context : ResponseContext) (head : RawResponseHead)
  (actions : List ResolvedAction)

include head

/-- An event stream, which goes up to the end of the connection. -/
def answerSse : RelayM υ Output ClientPersistence :=
  match applyResponseActions config ⟨head, head.headers, []⟩ actions, context.deadline with
  | .error e, _ => fail e
  | .ok _, .error e => fail e
  | .ok parts, .ok () =>
    match writeResponseHeadWithConnection parts.head
      (prepareStreamingBodyHeaders (stripHopByHopHeaders parts.headers)) false with
    | .error e => fail e
    | .ok written => fun connection =>
      match streamSseResponse head.headers rounds connection with
      | ((pieces, .done _), connection) => ((written :: pieces.map .data, .done .close), connection)
      | ((pieces, .failed e), connection) =>
        ((written :: pieces.map .data, .failed (stageError "response_body" e)), connection)
      | ((pieces, .running), connection) => ((written :: pieces.map .data, .running), connection)

def answerStreaming : RelayM υ Output ClientPersistence :=
  match newBodyState context.method head.status head.headers with
  | .error e => fail e
  | .ok state => fun connection =>
    let ((frames, ending), connection) := bodyFrames config.headerLimits rounds state connection
    (finishStreamingResponse config context head [] frames ending actions, connection)

/-- The body is read before anything is written, whatever the method and the status say about it. -/
def answerBuffered : RelayM υ Output ClientPersistence :=
  fun connection =>
    match readResponseBody head.headers rounds connection with
    | ((_, .failed e), connection) =>
      (([], .failed (stageIoError "response_body" e)), connection)
    | ((_, .running), connection) => (([], .running), connection)
    | ((pieces, .done trailers), connection) =>
      match finishBufferedResponse config context head pieces.flatten trailers actions with
      | .error e => (([], .failed e), connection)
      | .ok (outputs, persistence) => ((outputs, .done persistence), connection)

end

def answerUnpooled (rounds : Nat) (websocketRequest : Bool)
    (tunnel : RelayM υ Bytes Unit) (context : ResponseContext) (head : RawResponseHead)
    (actions : List ResolvedAction) : RelayM υ Output ClientPersistence :=
  if websocketRequest && isWebsocketResponse head.headers head.status then
    answerUpgrade config tunnel context head actions
  else if isSseResponse head.headers && canStreamSseResponse actions then
    answerSse config rounds context head actions
  else if shouldStream config context head actions then
    answerStreaming config rounds context head actions
  else answerBuffered config rounds context head actions

end

end Answers

/-! ### Errors -/

def isClientRequestBodyError (e : IoError) : Bool :=
  "stage=client_request_body:".toList.isPrefixOf e.message

def isUpstreamTtfbTimeout (e : IoError) : Bool :=
  e.kind = .timedOut &&
    ("stage=ttfb: timeout after ".toList.isPrefixOf e.message ||
      "upstream_h2 ttfb: timeout after ".toList.isPrefixOf e.message ||
      ("upstream_h1 pool_".toList.isPrefixOf e.message &&
        containsStr " ttfb: timeout after " e.message))

/-- Did a stage of the way to the upstream take too long? -/
def isStageTimeout (e : IoError) : Bool :=
  ["upstream_h1 pool_wait: timeout after ", "upstream_h2 pool_wait: timeout after ",
    "stage=dns: timeout after ", "stage=connect: timeout after ",
    "stage=tls_handshake: timeout after "].any fun stage => stage.toList.isPrefixOf e.message

def forwardErrorStatus (e : IoError) : Nat :=
  if isClientRequestBodyError e then 400
  else if isStageTimeout e || isUpstreamTtfbTimeout e || isRequestTotalTimeout e then 504
  else 502

/-- A plain text response of the proxy's own. -/
def writePlainText [ReasonPhrases] (version : Str) (status : Nat) (text : Str)
    (connection : ClientPersistence) : Except IoError (List Output) :=
  writeResponseWithVersionAndConnection (clientResponseVersion version) status
    (ReasonPhrases.phrase status) [("Content-Type", "text/plain")] (utf8 text)
    connection.keepsAlive

/-- The error response. Whether it could be written is not looked at. -/
def handleForwardError [ReasonPhrases] (version : Str) (streamingRequest : Bool)
    (clientConnection : ClientPersistence) (e : IoError) : List Output × ClientPersistence :=
  let connection := if streamingRequest then .close else clientConnection
  match writePlainText version (forwardErrorStatus e)
    ("upstream error: " ++ e.message ++ "\n") connection with
  | .ok outputs => (outputs, connection)
  | .error _ => ([], connection)

/-- What the client gets in all, the error response included. -/
def completeForward [ReasonPhrases] (context : ResponseContext) (streamingRequest : Bool) :
    Answered → Answered
  | (outputs, .failed e) =>
    let (more, connection) :=
      handleForwardError context.version streamingRequest context.clientConnection e
    (outputs ++ more, .done connection)
  | answer => answer

/-- Does the client connection end with an error response? -/
def closesOnError (context : ResponseContext) (streamingRequest : Bool) : Bool :=
  streamingRequest || context.clientConnection = .close

theorem completeForward_failed [ReasonPhrases] {context streamingRequest outputs e} :
    (completeForward context streamingRequest (outputs, .failed e)).2 = .done .close ↔
      closesOnError context streamingRequest := by
  have hcompleted : (completeForward context streamingRequest (outputs, .failed e)).2 =
      .done (if streamingRequest then .close else context.clientConnection) := by
    unfold completeForward handleForwardError
    dsimp only
    split <;> rfl
  rw [hcompleted, closesOnError]
  cases streamingRequest <;> simp

end RsProxy.Engine
