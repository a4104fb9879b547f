import RsProxy.Data.Saturating
import RsProxy.Rules.Model
import RsProxy.Text.Utf8

/-!
# Sessions and their events

A session is what the proxy records of one exchange. It reaches the collector as a list of events,
which open it, fill it in and end it. The budgets of the collector are about the memory that a
session takes, so that the strings and vectors of a session come with their capacity. How large the
records are, and how far a vector grows when it is full, is left to a `Layout`.
-/

namespace RsProxy.Trace

open Text Data Rules List

/-! ### Buffers -/

/-- A vector, or a string, and the room it has. -/
structure Buffer (α : Type) where
  items : List α
  capacity : Nat

abbrev OwnedStr := Buffer Char

/-- The sizes of the records, and the capacity a vector of some capacity gets when it needs more. -/
structure Layout where
  session : Nat
  string : Nat
  header : Nat
  rule : Nat
  frame : Nat
  tls : Nat
  grow : (capacity needed : Nat) → Nat

namespace Buffer

variable {α : Type}

def empty : Buffer α := ⟨[], 0⟩

def clear (b : Buffer α) : Buffer α := { b with items := [] }

def extend (layout : Layout) (b : Buffer α) (more : List α) : Buffer α where
  items := b.items ++ more
  capacity :=
    if (b.items ++ more).length ≤ b.capacity then b.capacity
    else layout.grow b.capacity (b.items ++ more).length

@[simp] theorem items_extend (layout : Layout) (b : Buffer α) (more : List α) :
    (b.extend layout more).items = b.items ++ more := rfl

end Buffer

/-! ### Sessions -/

inductive SessionKind where
  | http
  | tunnel
  | sse
  | webSocket
deriving DecidableEq, Repr

structure TlsRecord where
  phase : OwnedStr
  host : OwnedStr
  handshakeMs : Nat
  peerCertificates : Nat
  protocol : Option OwnedStr
  cipherSuite : Option OwnedStr
  alpn : Option OwnedStr
  error : Option OwnedStr

inductive FrameDirection where
  | clientToServer
  | serverToClient
deriving DecidableEq, Repr

inductive FrameDataEncoding where
  | utf8
  | hex
deriving DecidableEq, Repr

structure FrameRecord where
  direction : FrameDirection
  atMs : Nat
  opcode : OwnedStr
  fin : Bool
  payloadLen : Nat
  dataEncoding : FrameDataEncoding
  data : Buffer UInt8
  truncated : Bool

abbrev Headers := Buffer (OwnedStr × OwnedStr)

structure Session where
  id : Nat
  kind : SessionKind
  startedMs : Nat
  durationMs : Nat
  poolWaitMs : Nat
  dnsMs : Nat
  connectMs : Nat
  ttfbMs : Nat
  requestSendMs : Option Nat
  responseReceiveMs : Option Nat
  method : OwnedStr
  url : OwnedStr
  status : Option Nat
  client : OwnedStr
  upstream : Option OwnedStr
  requestBytes : Nat
  responseBytes : Nat
  matchedRules : Buffer MatchedRule
  flags : Buffer OwnedStr
  error : Option OwnedStr
  reqHeaders : Headers
  reqTrailers : Headers
  reqBodyHead : Buffer UInt8
  resHeaders : Headers
  resTrailers : Headers
  resBodyHead : Buffer UInt8
  frames : Buffer FrameRecord
  tls : Buffer TlsRecord

structure SessionStart where
  kind : SessionKind
  startedMs : Nat
  method : OwnedStr
  url : OwnedStr
  client : OwnedStr

/-- `Session::new` for a start, with its identifier and time. -/
def Session.opened (id : Nat) (start : SessionStart) : Session where
  id := id
  kind := start.kind
  startedMs := start.startedMs
  durationMs := 0
  poolWaitMs := 0
  dnsMs := 0
  connectMs := 0
  ttfbMs := 0
  requestSendMs := none
  responseReceiveMs := none
  method := start.method
  url := start.url
  status := none
  client := start.client
  upstream := none
  requestBytes := 0
  responseBytes := 0
  matchedRules := .empty
  flags := .empty
  error := none
  reqHeaders := .empty
  reqTrailers := .empty
  reqBodyHead := .empty
  resHeaders := .empty
  resTrailers := .empty
  resBodyHead := .empty
  frames := .empty
  tls := .empty

/-! ### The memory of a session -/

section Estimates

variable (layout : Layout)

def optionStringBytes (value : Option OwnedStr) : Nat := (value.map Buffer.capacity).getD 0

def vectorStorageBytes (capacity size : Nat) : Nat := min (capacity * size) wordMax

def headersBytes (headers : Headers) : Nat :=
  satAdd (vectorStorageBytes headers.capacity layout.header)
    (headers.items.map fun (name, value) => satAdd name.capacity value.capacity).sum

def frameBytes (frame : FrameRecord) : Nat := satAdd frame.opcode.capacity frame.data.capacity

def tlsBytes (record : TlsRecord) : Nat :=
  [record.host.capacity, optionStringBytes record.protocol, optionStringBytes record.cipherSuite,
    optionStringBytes record.alpn, optionStringBytes record.error].foldl satAdd
      record.phase.capacity

def estimateSessionBytes (session : Session) : Nat :=
  [session.method.capacity,
    session.url.capacity,
    session.client.capacity,
    optionStringBytes session.upstream,
    optionStringBytes session.error,
    headersBytes layout session.reqHeaders,
    headersBytes layout session.reqTrailers,
    headersBytes layout session.resHeaders,
    headersBytes layout session.resTrailers,
    session.reqBodyHead.capacity,
    session.resBodyHead.capacity,
    vectorStorageBytes session.flags.capacity layout.string,
    (session.flags.items.map Buffer.capacity).sum,
    vectorStorageBytes session.matchedRules.capacity layout.rule,
    (session.matchedRules.items.map fun rule =>
      satAdd (utf8Len rule.group) (utf8Len rule.raw)).sum,
    vectorStorageBytes session.frames.capacity layout.frame,
    (session.frames.items.map frameBytes).sum,
    vectorStorageBytes session.tls.capacity layout.tls,
    (session.tls.items.map tlsBytes).sum].foldl satAdd layout.session

end Estimates

/-! ### Events -/

inductive BodyDirection where
  | request
  | response
deriving DecidableEq, Repr

/-- What the end of a session says. -/
structure SessionEnd where
  kind : SessionKind
  durationMs : Nat
  poolWaitMs : Nat
  dnsMs : Nat
  connectMs : Nat
  ttfbMs : Nat
  requestSendMs : Option Nat
  responseReceiveMs : Option Nat
  upstream : Option OwnedStr
  flags : Buffer OwnedStr
  error : Option OwnedStr

inductive TraceEvent where
  | start (id : Nat) (start : SessionStart)
  | request (id : Nat) (method url : Option OwnedStr) (headers trailers : Headers)
      (matchedRules : Buffer MatchedRule)
  | response (id : Nat) (status : Option Nat) (headers trailers : Headers)
  | bodyChunk (id : Nat) (direction : BodyDirection) (data : Bytes) (observedBytes : Nat)
  | bodySnapshot (id : Nat) (direction : BodyDirection) (data : Bytes) (observedBytes : Nat)
  | frame (id : Nat) (frame : FrameRecord)
  | tls (id : Nat) (record : TlsRecord)
  | ended (id : Nat) (fields : SessionEnd)
  | abort (id : Nat)

def TraceEvent.sessionId : TraceEvent → Nat
  | .start id _ => id
  | .request id _ _ _ _ _ => id
  | .response id _ _ _ => id
  | .bodyChunk id _ _ _ => id
  | .bodySnapshot id _ _ _ => id
  | .frame id _ => id
  | .tls id _ => id
  | .ended id _ => id
  | .abort id => id

namespace Session

def start (session : Session) : SessionStart :=
  ⟨session.kind, session.startedMs, session.method, session.url, session.client⟩

def ending (session : Session) : SessionEnd where
  kind := session.kind
  durationMs := session.durationMs
  poolWaitMs := session.poolWaitMs
  dnsMs := session.dnsMs
  connectMs := session.connectMs
  ttfbMs := session.ttfbMs
  requestSendMs := session.requestSendMs
  responseReceiveMs := session.responseReceiveMs
  upstream := session.upstream
  flags := session.flags
  error := session.error

/-- A body that was not seen has no snapshot. -/
def snapshot (id : Nat) (direction : BodyDirection) (observedBytes : Nat) (head : Buffer UInt8) :
    List TraceEvent :=
  if 0 < observedBytes ∨ head.items ≠ [] then
    [.bodySnapshot id direction head.items observedBytes]
  else []

end Session

namespace TraceEvent

/-- The events of a whole session between the one that opens it and the one that ends it. -/
def filling (session : Session) : List TraceEvent :=
  [.request session.id none none session.reqHeaders session.reqTrailers session.matchedRules] ++
    Session.snapshot session.id .request session.requestBytes session.reqBodyHead ++
    [.response session.id session.status session.resHeaders session.resTrailers] ++
    Session.snapshot session.id .response session.responseBytes session.resBodyHead ++
    session.frames.items.map (.frame session.id) ++
    session.tls.items.map (.tls session.id)

def continuationFromSession (session : Session) : List TraceEvent :=
  filling session ++ [.ended session.id session.ending]

def fromSession (session : Session) : List TraceEvent :=
  .start session.id session.start :: continuationFromSession session

/-- Events that write into a session, and do not open or end it. -/
def isFilling : TraceEvent → Bool
  | .start _ _ => false
  | .ended _ _ => false
  | .abort _ => false
  | _ => true

theorem of_mem_filling {session event} (h : event ∈ filling session) :
    event.isFilling ∧ event.sessionId = session.id := by
  have hsnapshot {direction : BodyDirection} {observed : Nat} {head : Buffer UInt8}
      (hmem : event ∈ Session.snapshot session.id direction observed head) :
      event.isFilling ∧ event.sessionId = session.id := by
    rw [Session.snapshot] at hmem
    split at hmem
    · rw [mem_singleton.mp hmem]
      exact ⟨rfl, rfl⟩
    · cases hmem
  simp only [filling, mem_append, mem_singleton, mem_map] at h
  obtain ((((rfl | h) | rfl) | h) | ⟨frame, -, rfl⟩) | ⟨record, -, rfl⟩ := h
  · exact ⟨rfl, rfl⟩
  · exact hsnapshot h
  · exact ⟨rfl, rfl⟩
  · exact hsnapshot h
  all_goals exact ⟨rfl, rfl⟩

end TraceEvent

end RsProxy.Trace
