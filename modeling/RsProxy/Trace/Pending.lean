import RsProxy.Data.Weight
import RsProxy.Trace.Session

/-!
# Sessions that have not ended

`PendingSessions` puts sessions together from their events. Beside the sessions it keeps the sum of
their estimated sizes, changed by differences as sessions come, grow and go. The sum is exact as
long as it fits in a word. What an event does to the memory it does to its own session: the rest of
the pending sessions can only lose some to the time limit.
-/

namespace RsProxy.Trace

open Text Data Rules Option Nat

/-- Times are in milliseconds. -/
def pendingTtl : Nat := 300000

def cleanupInterval : Nat := 1000

structure PendingSession where
  session : Session
  touched : Nat

structure PendingSessions where
  sessions : AList fun _ : Nat => PendingSession
  bodyLimit : Nat
  incompleteSessions : Nat
  orphanEvents : Nat
  memoryBytes : Nat
  lastCleanup : Nat

def appendPreview (layout : Layout) (target : Buffer UInt8) (data : Bytes) (bodyLimit : Nat) :
    Buffer UInt8 :=
  target.extend layout (data.take (bodyLimit - target.items.length))

/-- What an event writes into its session. -/
def TraceEvent.revise (layout : Layout) (bodyLimit : Nat) : TraceEvent → Session → Session
  | .request _ method url headers trailers matchedRules, session =>
    { session with
      method := method.getD session.method
      url := url.getD session.url
      reqHeaders := headers
      reqTrailers := trailers
      matchedRules := matchedRules }
  | .response _ status headers trailers, session =>
    { session with status := status, resHeaders := headers, resTrailers := trailers }
  | .bodyChunk _ .request data observedBytes, session =>
    { session with
      requestBytes := satAdd session.requestBytes observedBytes
      reqBodyHead := appendPreview layout session.reqBodyHead data bodyLimit }
  | .bodyChunk _ .response data observedBytes, session =>
    { session with
      responseBytes := satAdd session.responseBytes observedBytes
      resBodyHead := appendPreview layout session.resBodyHead data bodyLimit }
  | .bodySnapshot _ .request data observedBytes, session =>
    { session with
      requestBytes := observedBytes
      reqBodyHead := appendPreview layout session.reqBodyHead.clear data bodyLimit }
  | .bodySnapshot _ .response data observedBytes, session =>
    { session with
      responseBytes := observedBytes
      resBodyHead := appendPreview layout session.resBodyHead.clear data bodyLimit }
  | .frame _ record, session => { session with frames := session.frames.extend layout [record] }
  | .tls _ record, session => { session with tls := session.tls.extend layout [record] }
  | .start _ _, session => session
  | .ended _ _, session => session
  | .abort _, session => session

/-- What the end of a session writes into it. -/
def Session.close (session : Session) (fields : SessionEnd) : Session :=
  { session with
    kind := fields.kind
    durationMs := fields.durationMs
    poolWaitMs := fields.poolWaitMs
    dnsMs := fields.dnsMs
    connectMs := fields.connectMs
    ttfbMs := fields.ttfbMs
    requestSendMs := fields.requestSendMs
    responseReceiveMs := fields.responseReceiveMs
    upstream := fields.upstream
    flags := fields.flags
    error := fields.error }

variable {id : Nat} {p' : PendingSessions} {now : Nat}

namespace PendingSessions

def new (bodyLimit now : Nat) : PendingSessions := ⟨∅, bodyLimit, 0, 0, 0, now⟩

section Operations

variable (layout : Layout)

section

variable (id : Nat) (now : Nat) (p : PendingSessions) (pending : PendingSession)

/-- The estimated size of a pending session. -/
def size : Nat := estimateSessionBytes layout pending.session

def isFresh : Bool := now - pending.touched < pendingTtl

/-- Every second at most, sessions that have not been touched for too long are dropped. -/
def expireStale : PendingSessions :=
  if now - p.lastCleanup < cleanupInterval then p
  else
    let stale := p.sessions.entries.filter fun e => !isFresh now e.2
    { p with
      lastCleanup := now
      sessions := retain (isFresh now) p.sessions
      memoryBytes := p.memoryBytes - (stale.map fun e => size layout e.2).foldl satAdd 0
      incompleteSessions := satAdd p.incompleteSessions stale.length }

def update (now id : Nat) (revise : Session → Session) (p : PendingSessions) : PendingSessions :=
  match p.sessions.lookup id with
  | none => { p with orphanEvents := satAdd p.orphanEvents 1 }
  | some pending =>
    let revised : PendingSession := ⟨revise pending.session, now⟩
    { p with
      sessions := p.sessions.insert id revised
      memoryBytes := satAdd (p.memoryBytes - size layout pending) (size layout revised) }

/-- A session that is taken out without having ended; `abort_for_budget` does the same. -/
def abort : PendingSessions :=
  match p.sessions.lookup id with
  | none => p
  | some pending =>
    { p with
      sessions := p.sessions.erase id
      memoryBytes := p.memoryBytes - size layout pending
      incompleteSessions := satAdd p.incompleteSessions 1 }

/-- A start takes the place of a session with the same identifier. -/
def open_ (now id : Nat) (start : SessionStart) (p : PendingSessions) : PendingSessions :=
  let pending : PendingSession := ⟨.opened id start, now⟩
  let kept := match p.sessions.lookup id with
    | none => p
    | some replaced =>
      { p with
        memoryBytes := p.memoryBytes - size layout replaced
        incompleteSessions := satAdd p.incompleteSessions 1 }
  { kept with
    sessions := p.sessions.insert id pending
    memoryBytes := satAdd kept.memoryBytes (size layout pending) }

def close (fields : SessionEnd) (p : PendingSessions) : Option Session × PendingSessions :=
  match p.sessions.lookup id with
  | none => (none, { p with orphanEvents := satAdd p.orphanEvents 1 })
  | some pending =>
    (some (pending.session.close fields),
      { p with
        sessions := p.sessions.erase id
        memoryBytes := p.memoryBytes - size layout pending })

/-- An event returns the session that it ends. -/
def apply (event : TraceEvent) (p : PendingSessions) : Option Session × PendingSessions :=
  let p := p.expireStale layout now
  match event with
  | .start id start => (none, p.open_ layout now id start)
  | .ended id fields => p.close layout id fields
  | .abort id => (none, p.abort layout id)
  | event => (none, p.update layout now event.sessionId (event.revise layout p.bodyLimit))

def clear : PendingSessions := { p with sessions := ∅, memoryBytes := 0 }

end

end Operations

/-! ### The sum of the sizes -/

section Accounting

variable {layout : Layout} {p : PendingSessions}

/-- The sum of the estimated sizes of the pending sessions. -/
def total (layout : Layout) (p : PendingSessions) : Nat := weight (size layout) p.sessions

/-- The sum without one session. -/
def totalBut (layout : Layout) (id : Nat) (p : PendingSessions) : Nat :=
  weight (size layout) (p.sessions.erase id)

/-- The counter says what the sessions take, and that fits in a word. -/
structure Exact (layout : Layout) (p : PendingSessions) : Prop where
  memoryBytes_eq : p.memoryBytes = p.total layout
  total_le : p.total layout ≤ wordMax

/-- The counter without one session. -/
def others (layout : Layout) (id : Nat) (p : PendingSessions) : Nat :=
  p.memoryBytes - ((p.sessions.lookup id).map (size layout)).getD 0

theorem others_of_none (hlookup : p.sessions.lookup id = none) :
    p.others layout id = p.memoryBytes := by
  rw [others, hlookup, map_none, getD_none, Nat.sub_zero]

theorem others_of_some {pending} (hlookup : p.sessions.lookup id = some pending) :
    p.others layout id = p.memoryBytes - size layout pending := by
  rw [others, hlookup, map_some, getD_some]

theorem others_le (id : Nat) : p.others layout id ≤ p.memoryBytes := sub_le _ _

/-- What an operation for one identifier may do: the counter stays exact if the sum still fits, and
without that session it says no more than before. -/
structure Local (layout : Layout) (id : Nat) (p p' : PendingSessions) : Prop where
  exact : p.Exact layout → p'.total layout ≤ wordMax → p'.Exact layout
  others_le : p'.others layout id ≤ p.others layout id

theorem Local.refl (id : Nat) (p : PendingSessions) : Local layout id p p := ⟨fun h _ => h, le_rfl⟩

theorem total_expireStale_le : (p.expireStale layout now).total layout ≤ p.total layout := by
  rw [expireStale]
  split
  · exact le_rfl
  · have h := weight_retain (f := size layout) (m := p.sessions) (isFresh now)
    exact le.intro h

theorem exact_expireStale (h : p.Exact layout) : (p.expireStale layout now).Exact layout := by
  refine ⟨?_, total_expireStale_le.trans h.total_le⟩
  rw [expireStale]
  split
  · exact h.memoryBytes_eq
  · have hsum := weight_retain (f := size layout) (m := p.sessions) (isFresh now)
    have hle := h.total_le
    show p.memoryBytes - _ = weight (size layout) (retain (isFresh now) p.sessions)
    rw [total] at hle
    rw [foldl_satAdd (zero_le _), h.memoryBytes_eq, total]
    omega

theorem others_expireStale_le :
    (p.expireStale layout now).others layout id ≤ p.others layout id := by
  rw [expireStale]
  split
  · exact le_rfl
  · dsimp only
    generalize hremoved : List.foldl satAdd 0 _ = removed
    rw [foldl_satAdd (zero_le _), zero_add] at hremoved
    cases hlookup : p.sessions.lookup id with
    | none =>
      rw [others_of_none hlookup]
      exact (sub_le _ _).trans (sub_le _ _)
    | some pending =>
      rw [others_of_some hlookup]
      cases hfresh : isFresh now pending with
      | true =>
        have hkept : (retain (isFresh now) p.sessions).lookup id = some pending := by
          rw [lookup_retain, hlookup]
          simp [hfresh]
        rw [others_of_some hkept]
        show p.memoryBytes - removed - _ ≤ _
        omega
      | false =>
        -- a session that is dropped here has its size among those taken off
        have hsize : size layout pending ≤ removed := by
          rw [← hremoved]
          refine le_min ?_ foldl_satAdd_le
          apply List.single_le_sum (fun _ _ => zero_le _)
          rw [List.mem_map]
          refine ⟨⟨id, pending⟩, ?_, rfl⟩
          rw [List.mem_filter]
          exact ⟨AList.mem_lookup_iff.mp hlookup, by simp [hfresh]⟩
        refine (sub_le _ _).trans ?_
        show p.memoryBytes - removed ≤ _
        omega

theorem Exact.others_eq (h : p.Exact layout) : p.others layout id = p.totalBut layout id := by
  have hsum : p.totalBut layout id + _ = p.total layout := weight_erase id
  rw [others, h.memoryBytes_eq, ← hsum, Nat.add_sub_cancel]

/-- A session that goes in, with the counter changed by the difference. -/
theorem local_insert {v} (hsessions : p'.sessions = p.sessions.insert id v)
    (hbytes : p'.memoryBytes = satAdd (p.others layout id) (size layout v)) :
    Local layout id p p' := by
  have htotal : p'.total layout = size layout v + p.totalBut layout id := by
    rw [total, hsessions, weight_insert, totalBut]
  constructor
  · intro h hle
    refine ⟨?_, hle⟩
    rw [hbytes, h.others_eq, htotal, satAdd_of_le (by omega), add_comm]
  · have hlookup : p'.sessions.lookup id = some v := by rw [hsessions, AList.lookup_insert]
    rw [others_of_some hlookup, hbytes, satAdd]
    omega

/-- A session that goes out, with the counter changed by its size. -/
theorem local_erase (hsessions : p'.sessions = p.sessions.erase id)
    (hbytes : p'.memoryBytes = p.others layout id) : Local layout id p p' := by
  have htotal : p'.total layout = p.totalBut layout id := by rw [total, hsessions, totalBut]
  constructor
  · intro h hle
    exact ⟨by rw [hbytes, h.others_eq, htotal], hle⟩
  · rw [← hbytes]
    exact others_le id

theorem local_update {revise} : Local layout id p (p.update layout now id revise) := by
  rw [update]
  split
  · exact ⟨fun h _ => ⟨h.memoryBytes_eq, h.total_le⟩, le_rfl⟩
  next pending hlookup =>
    apply local_insert rfl
    rw [others_of_some hlookup]

theorem local_open {start} : Local layout id p (p.open_ layout now id start) := by
  apply local_insert rfl
  cases hlookup : p.sessions.lookup id with
  | none => simp [open_, hlookup, others_of_none hlookup]
  | some replaced => simp [open_, hlookup, others_of_some hlookup]

theorem local_abort (id : Nat) : Local layout id p (p.abort layout id) := by
  rw [abort]
  split
  · exact .refl id p
  next pending hlookup => exact local_erase rfl (others_of_some hlookup).symm

theorem local_close {fields} : Local layout id p (p.close layout id fields).2 := by
  rw [close]
  split
  · exact ⟨fun h _ => ⟨h.memoryBytes_eq, h.total_le⟩, le_rfl⟩
  next pending hlookup => exact local_erase rfl (others_of_some hlookup).symm

/-- An event is local to its session, but for the sessions that it finds to be stale. -/
theorem local_apply (layout : Layout) (p : PendingSessions) (now : Nat) (event : TraceEvent) :
    Local layout event.sessionId p (p.apply layout now event).2 := by
  have hlocal : Local layout event.sessionId (p.expireStale layout now)
      (p.apply layout now event).2 := by
    cases event with
    | start id start => exact local_open
    | ended id fields => exact local_close
    | abort id => exact local_abort id
    | request | response | bodyChunk | bodySnapshot | frame | tls => exact local_update
  constructor
  · intro h
    exact hlocal.exact (exact_expireStale h)
  · exact hlocal.others_le.trans others_expireStale_le

/-- An end, and an abort, take the size of the session off the counter. -/
theorem memoryBytes_close (p : PendingSessions) {fields} :
    (p.close layout id fields).2.memoryBytes = p.others layout id := by
  rw [close]
  split
  next hlookup => exact (others_of_none hlookup).symm
  next pending hlookup => exact (others_of_some hlookup).symm

theorem memoryBytes_abort (p : PendingSessions) :
    (p.abort layout id).memoryBytes = p.others layout id := by
  rw [abort]
  split
  next hlookup => exact (others_of_none hlookup).symm
  next pending hlookup => exact (others_of_some hlookup).symm

theorem total_abort_le (layout : Layout) (p : PendingSessions) (id : Nat) :
    (p.abort layout id).total layout ≤ p.total layout := by
  rw [abort]
  split
  · exact le_rfl
  · exact weight_erase_le

end Accounting

end PendingSessions

end RsProxy.Trace
