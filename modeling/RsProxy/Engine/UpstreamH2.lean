import RsProxy.Engine.Unpooled

/-!
# Responses of an HTTP/2 upstream

The body of such a response comes as frames through a channel: `frames` are those that came, and the
ending says whether the channel was closed behind them, brought an error or is still open. A body
that is needed whole is collected up to a limit, and what does not fit is left on the channel.
-/

namespace RsProxy.Engine

open Text Io Net
open Rules (ResolvedAction)

inductive BoundedBody where
  | complete (body : Bytes) (trailers : Headers)
  | overflow (pre : Bytes)

/-- Collect a body behind what was collected already. Also the frames that are left are returned,
the rest of the one that did not fit in front. -/
def collectBounded (limit : Nat) (ending : Outcome Unit) :
    List UpstreamBodyFrame → (body : Bytes) → (trailers : Headers) →
      Outcome BoundedBody × List UpstreamBodyFrame
  | [], body, trailers => (ending.map fun _ => .complete body trailers, [])
  | .data data :: frames, body, trailers =>
    let available := limit - body.length
    if available < data.length then
      (.done (.overflow (body ++ data.take available)), .data (data.drop available) :: frames)
    else collectBounded limit ending frames (body ++ data) trailers
  | .trailers seen :: frames, body, trailers =>
    collectBounded limit ending frames body (trailers ++ seen)

def coalescedUpstreamBodyLimit : Nat := 64 * 1024

/-- Is the body of this response collected? -/
def collectsBody (config : ProxyConfig) (context : ResponseContext) (status : Nat)
    (headers : Headers) (actions : List ResolvedAction) : Bool :=
  responseActionsRequireBody actions || eqIgnoreAsciiCase context.version "HTTP/1.0" ||
    ((declaredLength headers).any fun length =>
        length ≤ coalescedUpstreamBodyLimit && length ≤ config.bodyBufferLimit) &&
      (header headers "trailer").isNone && responseHasFramedBody context.method status

section Answer

variable [ResponseValues] [ReasonPhrases]

def finishStreamedUpstreamResponse (config : ProxyConfig) (context : ResponseContext) (status : Nat)
    (headers : Headers) (frames : List UpstreamBodyFrame) (ending : Outcome Unit)
    (actions : List ResolvedAction) : Answered :=
  let head := ⟨"HTTP/1.1", status, ReasonPhrases.phrase status, headers⟩
  if collectsBody config context status headers actions then
    match collectBounded config.bodyBufferLimit ending frames [] [] with
    | (.done (.complete body trailers), _) =>
      match finishBufferedResponse config context head body trailers actions with
      | .error e => ([], .failed e)
      | .ok (outputs, connection) => (outputs, .done connection)
    | (.done (.overflow pre), frames) =>
      finishStreamingResponse config context head pre frames ending actions
    | (.failed e, _) => ([], .failed e)
    | (.running, _) => ([], .running)
  else finishStreamingResponse config context head [] frames ending actions

end Answer

end RsProxy.Engine
