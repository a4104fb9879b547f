import Mathlib.Data.List.Chain
import RsProxy.Trace.Worker

/-!
# Sessions from their events

What the collector makes of the events of one session, and that a session which comes as one batch
of events is the session that was recorded, with its previews cut.
-/

namespace RsProxy.Trace

open Data Text List PendingSessions Option Nat AList TraceEvent

def TraceEvent.isStart : TraceEvent → Bool
  | .start _ _ => true
  | _ => false

variable {id other touched : Nat} {pending : PendingSession} {event : TraceEvent}
  {session : Session} {steady : Prop}

variable {fields : SessionEnd}

namespace PendingSessions

variable {layout : Layout} {p : PendingSessions} {now : Nat}

/-! ### One event -/

/-- What is left under an identifier when stale sessions have been dropped. -/
theorem lookup_expireStale (p : PendingSessions) :
    (p.expireStale layout now).sessions.lookup id = p.sessions.lookup id ∨
      (p.expireStale layout now).sessions.lookup id =
        (p.sessions.lookup id).filter (isFresh now) := by
  rw [expireStale]
  split
  · exact .inl rfl
  · exact .inr (lookup_retain (isFresh now))

theorem lookup_expireStale_of_fresh (h : p.sessions.lookup id = some pending)
    (hfresh : isFresh now pending) :
    (p.expireStale layout now).sessions.lookup id = some pending := by
  rcases lookup_expireStale p with hsame | hfilter
  · rw [hsame, h]
  · rw [hfilter, h, filter_some, if_pos hfresh]

/-- Nothing appears by dropping. -/
theorem lookup_of_lookup_expireStale
    (h : (p.expireStale layout now).sessions.lookup id = some pending) :
    p.sessions.lookup id = some pending := by
  rcases lookup_expireStale p with hsame | hfilter
  · rwa [hsame] at h
  · rw [hfilter, filter_eq_some_iff] at h
    exact h.1

theorem lookup_update_self {revise} :
    (p.update layout now id revise).sessions.lookup id =
      (p.sessions.lookup id).map fun pending => ⟨revise pending.session, now⟩ := by
  rw [update]
  split
  next hlookup =>
    rw [hlookup]
    rfl
  next pending hlookup =>
    rw [hlookup]
    exact lookup_insert _

theorem lookup_update_ne (h : other ≠ id) {revise} :
    (p.update layout now id revise).sessions.lookup other = p.sessions.lookup other := by
  rw [update]
  split
  · rfl
  · exact lookup_insert_ne h

theorem lookup_abort_self : (p.abort layout id).sessions.lookup id = none := by
  rw [abort]
  split
  next hlookup => exact hlookup
  · exact lookup_erase ..

theorem lookup_abort_ne (h : other ≠ id) :
    (p.abort layout id).sessions.lookup other = p.sessions.lookup other := by
  rw [abort]
  split
  · rfl
  · exact lookup_erase_ne h

theorem lookup_close_self : (p.close layout id fields).2.sessions.lookup id = none := by
  rw [close]
  split
  next hlookup => exact hlookup
  · exact lookup_erase ..

theorem lookup_close_ne (h : other ≠ id) :
    (p.close layout id fields).2.sessions.lookup other = p.sessions.lookup other := by
  rw [close]
  split
  · rfl
  · exact lookup_erase_ne h

theorem close_fst :
    (p.close layout id fields).1 =
      (p.sessions.lookup id).map fun pending => pending.session.close fields := by
  rw [close]
  split
  next hlookup => rw [hlookup, map_none]
  next pending hlookup => rw [hlookup, map_some]

/-- An event that fills in a session. -/
theorem apply_of_isFilling (layout : Layout) (p : PendingSessions) (now : Nat)
    (h : event.isFilling) :
    p.apply layout now event = (none, (p.expireStale layout now).update layout now event.sessionId
      (event.revise layout (p.expireStale layout now).bodyLimit)) := by
  cases event with
  | start | ended | abort => cases h
  | request | response | bodyChunk | bodySnapshot | frame | tls => rfl

theorem lookup_apply_start {fields} :
    (p.apply layout now (.start id fields)).2.sessions.lookup id = some ⟨.opened id fields, now⟩ :=
  lookup_insert _

theorem lookup_apply_ended :
    (p.apply layout now (.ended id fields)).2.sessions.lookup id = none :=
  lookup_close_self

theorem lookup_apply_abort :
    (p.apply layout now (.abort id)).2.sessions.lookup id = none := lookup_abort_self

/-- An event does not touch the sessions of other identifiers, but for stale ones. -/
theorem lookup_apply_ne (h : other ≠ event.sessionId) :
    (p.apply layout now event).2.sessions.lookup other =
      (p.expireStale layout now).sessions.lookup other := by
  cases event with
  | start id fields => exact lookup_insert_ne h
  | ended id fields => exact lookup_close_ne h
  | abort id => exact lookup_abort_ne h
  | request | response | bodyChunk | bodySnapshot | frame | tls => exact lookup_update_ne h

theorem bodyLimit_expireStale (layout : Layout) (p : PendingSessions) (now : Nat) :
    (p.expireStale layout now).bodyLimit = p.bodyLimit := by
  rw [expireStale]
  split <;> rfl

theorem bodyLimit_abort : (p.abort layout id).bodyLimit = p.bodyLimit := by
  rw [abort]
  split <;> rfl

theorem bodyLimit_apply (event : TraceEvent) :
    (p.apply layout now event).2.bodyLimit = p.bodyLimit := by
  have hupdate (q : PendingSessions) (id : Nat) (revise : Session → Session) :
      (q.update layout now id revise).bodyLimit = q.bodyLimit := by
    rw [update]
    split <;> rfl
  have hclose (q : PendingSessions) (id : Nat) (fields : SessionEnd) :
      (q.close layout id fields).2.bodyLimit = q.bodyLimit := by
    rw [close]
    split <;> rfl
  refine Eq.trans ?_ (bodyLimit_expireStale layout p now)
  cases event with
  | start id fields =>
    show (open_ layout now id fields _).bodyLimit = _
    rw [open_]
    split <;> rfl
  | ended id fields => exact hclose _ id fields
  | abort id => exact bodyLimit_abort
  | request | response | bodyChunk | bodySnapshot | frame | tls => exact hupdate _ _ _

end PendingSessions

/-! ### All events of a session -/

/-- The session that events make of another one. -/
def refill (layout : Layout) (bodyLimit : Nat) (events : List TraceEvent) (session : Session) :
    Session :=
  events.foldl (fun session event => event.revise layout bodyLimit session) session

/-- The recorded session with its previews cut. Buffers that were filled anew have their own
capacity. -/
def Session.Rebuilt (bodyLimit : Nat) (session rebuilt : Session) : Prop :=
  ∃ reqBodyHead resBodyHead frames tls,
    rebuilt = { session with reqBodyHead, resBodyHead, frames, tls } ∧
    reqBodyHead.items = session.reqBodyHead.items.take bodyLimit ∧
    resBodyHead.items = session.resBodyHead.items.take bodyLimit ∧
    frames.items = session.frames.items ∧ tls.items = session.tls.items

section Refilling

variable (layout : Layout) (bodyLimit : Nat)

theorem refill_append {events more} :
    refill layout bodyLimit (events ++ more) session =
      refill layout bodyLimit more (refill layout bodyLimit events session) := foldl_append

theorem items_appendPreview_nil {target} (h : target.items = []) {data} :
    (appendPreview layout target data bodyLimit).items = data.take bodyLimit := by
  simp [appendPreview, h]

/-- A body that was not seen is the empty one that the session began with. -/
theorem refill_snapshot_request {observedBytes head} (hbytes : session.requestBytes = 0)
    (hhead : session.reqBodyHead.items = []) :
    ∃ reqBodyHead,
      refill layout bodyLimit (Session.snapshot id .request observedBytes head) session =
        { session with requestBytes := observedBytes, reqBodyHead } ∧
      reqBodyHead.items = head.items.take bodyLimit := by
  rw [Session.snapshot]
  split
  · exact ⟨_, rfl, items_appendPreview_nil layout bodyLimit rfl⟩
  next hnone =>
    rw [not_or, not_not, not_lt, le_zero] at hnone
    refine ⟨session.reqBodyHead, ?_, ?_⟩
    · rw [hnone.1, ← hbytes]
      rfl
    · rw [hhead, hnone.2, take_nil]

theorem refill_snapshot_response {observedBytes head} (hbytes : session.responseBytes = 0)
    (hhead : session.resBodyHead.items = []) :
    ∃ resBodyHead,
      refill layout bodyLimit (Session.snapshot id .response observedBytes head) session =
        { session with responseBytes := observedBytes, resBodyHead } ∧
      resBodyHead.items = head.items.take bodyLimit := by
  rw [Session.snapshot]
  split
  · exact ⟨_, rfl, items_appendPreview_nil layout bodyLimit rfl⟩
  next hnone =>
    rw [not_or, not_not, not_lt, le_zero] at hnone
    refine ⟨session.resBodyHead, ?_, ?_⟩
    · rw [hnone.1, ← hbytes]
      rfl
    · rw [hhead, hnone.2, take_nil]

/-- Records that are put into one buffer of a session follow what it has. -/
theorem refill_records {α event} {put : Buffer α → Session}
    (hput : ∀ buffer record, refill layout bodyLimit [event record] (put buffer) =
      put (buffer.extend layout [record])) (records : List α) (buffer : Buffer α) :
    ∃ filled, refill layout bodyLimit (records.map event) (put buffer) = put filled ∧
      filled.items = buffer.items ++ records := by
  induction records generalizing buffer with
  | nil => exact ⟨buffer, rfl, (append_nil _).symm⟩
  | cons record records ih =>
    obtain ⟨filled, hfilled, hitems⟩ := ih (buffer.extend layout [record])
    refine ⟨filled, ?_, ?_⟩
    · rw [← hfilled, ← hput]
      rfl
    · rw [hitems, Buffer.items_extend, append_assoc]
      rfl

/-- What the events of a session make of the opened one is the session. -/
theorem rebuilt_refill (session : Session) : session.Rebuilt bodyLimit
      ((refill layout bodyLimit (filling session)
        (.opened session.id session.start)).close session.ending) := by
  simp only [filling, refill_append]
  generalize hopened : refill layout bodyLimit [.request session.id none none session.reqHeaders
    session.reqTrailers session.matchedRules] (.opened session.id session.start) = opened
  have hrequestBytes : opened.requestBytes = 0 := by rw [← hopened]; rfl
  have hreqBodyHead : opened.reqBodyHead.items = [] := by rw [← hopened]; rfl
  obtain ⟨reqBodyHead, hrequest, hreqItems⟩ :=
    refill_snapshot_request layout bodyLimit hrequestBytes hreqBodyHead
  rw [hrequest]
  generalize hanswered : refill layout bodyLimit [.response session.id session.status
    session.resHeaders session.resTrailers] _ = answered
  have hresponseBytes : answered.responseBytes = 0 := by rw [← hanswered, ← hopened]; rfl
  have hresBodyHead : answered.resBodyHead.items = [] := by rw [← hanswered, ← hopened]; rfl
  obtain ⟨resBodyHead, hresponse, hresItems⟩ :=
    refill_snapshot_response layout bodyLimit hresponseBytes hresBodyHead
  generalize hbodies : { answered with responseBytes := session.responseBytes, resBodyHead } =
    bodies at hresponse
  obtain ⟨frames, hframes, hframeItems⟩ := refill_records layout bodyLimit
    (fun frames record => rfl : ∀ frames record, refill layout bodyLimit [.frame session.id record]
      { bodies with frames } = _) session.frames.items bodies.frames
  obtain ⟨tls, htls, htlsItems⟩ := refill_records layout bodyLimit
    (fun tls record => rfl : ∀ tls record, refill layout bodyLimit [.tls session.id record]
      { bodies with frames, tls } = _) session.tls.items bodies.tls
  rw [hresponse, hframes, htls]
  subst hbodies hanswered hopened
  exact ⟨reqBodyHead, resBodyHead, frames, tls, rfl, hreqItems, hresItems, hframeItems, htlsItems⟩

end Refilling

/-! ### Batches -/

namespace Worker

variable {layout : Layout} {w : Worker}

theorem committed_collect (layout : Layout) (w : Worker) (now : Nat) (event : TraceEvent) :
    (w.collect layout now event).committed =
      w.committed ++ (w.pending.apply layout now event).1.toList := by
  rw [collect]
  split
  next hnone =>
    rw [hnone]
    exact (append_nil _).symm
  next session hsome =>
    rw [hsome]
    rfl

/-- No time as long as the life of a pending session lies between two events. -/
def Steady (times : List Nat) : Prop := times.IsChain fun t t' => t' - t < pendingTtl

/-- Under an identifier there is this session or none, and it is there if nothing was late. -/
structure Holds (id : Nat) (pending : PendingSession) (steady : Prop) (w : Worker) : Prop where
  only : ∀ p, w.pending.sessions.lookup id = some p → p = pending
  present : steady → w.pending.sessions.lookup id = some pending

/-- The same behind the drop of stale sessions. -/
theorem Holds.expireStale (h : Holds id pending steady w) (layout : Layout) (now : Nat) :
    (∀ p, (w.pending.expireStale layout now).sessions.lookup id = some p → p = pending) ∧
      (steady ∧ now - pending.touched < pendingTtl →
        (w.pending.expireStale layout now).sessions.lookup id = some pending) := by
  constructor
  · intro p hp
    exact h.only p (lookup_of_lookup_expireStale hp)
  · rintro ⟨hsteady, hfresh⟩
    exact lookup_expireStale_of_fresh (h.present hsteady) (decide_eq_true hfresh)

theorem Holds.collect (h : Holds id ⟨session, touched⟩ steady w) (layout : Layout) (now : Nat)
    (hid : event.sessionId = id) (hfilling : event.isFilling) :
    Holds id ⟨event.revise layout w.pending.bodyLimit session, now⟩
        (steady ∧ now - touched < pendingTtl) (w.collect layout now event) ∧
      (w.collect layout now event).committed = w.committed := by
  have happly := apply_of_isFilling layout w.pending now hfilling
  have hlookup : (w.collect layout now event).pending.sessions.lookup id =
      ((w.pending.expireStale layout now).sessions.lookup id).map fun pending =>
        ⟨event.revise layout w.pending.bodyLimit pending.session, now⟩ := by
    rw [pending_collect, happly, ← hid, bodyLimit_expireStale]
    exact lookup_update_self
  obtain ⟨honly, hpresent⟩ := h.expireStale layout now
  refine ⟨⟨?_, ?_⟩, ?_⟩
  · intro p hp
    rw [hlookup, map_eq_some_iff] at hp
    obtain ⟨pending, hpending, rfl⟩ := hp
    rw [honly pending hpending]
  · intro hsteady
    rw [hlookup, hpresent hsteady, map_some]
  · rw [committed_collect, happly]
    exact append_nil _

theorem bodyLimit_collect (now : Nat) (event : TraceEvent) :
    (w.collect layout now event).pending.bodyLimit = w.pending.bodyLimit := by
  rw [pending_collect]
  exact bodyLimit_apply event

theorem bodyLimit_applyEvents {batch} :
    (w.applyEvents layout batch).pending.bodyLimit = w.pending.bodyLimit := by
  induction batch generalizing w with
  | nil => rfl
  | cons timed batch ih =>
    rw [applyEvents_cons, ih]
    exact bodyLimit_collect timed.1 timed.2

theorem bodyLimit_enforceMemoryBudget {currentId} :
    (w.enforceMemoryBudget layout currentId).pending.bodyLimit = w.pending.bodyLimit := by
  cases currentId with
  | none => rfl
  | some id =>
    rw [enforceMemoryBudget]
    split
    · exact bodyLimit_abort
    · rfl

theorem bodyLimit_process {command} :
    (w.process layout command).pending.bodyLimit = w.pending.bodyLimit := by
  cases command with
  | event now event =>
    show ((w.collect layout now event).enforceMemoryBudget layout
      (some event.sessionId)).pending.bodyLimit = _
    rw [bodyLimit_enforceMemoryBudget, bodyLimit_collect]
  | events batch =>
    show ((w.applyEvents layout batch).enforceMemoryBudget layout none).pending.bodyLimit = _
    rw [bodyLimit_enforceMemoryBudget, bodyLimit_applyEvents]
  | follow after backlogLimit capacity answered => cases answered <;> rfl
  | clear | stats | query => rfl

/-- The events between start and end. -/
theorem Holds.applyEvents (h : Holds id ⟨session, touched⟩ steady w) (layout : Layout) {events}
    (hid : ∀ timed ∈ events, timed.2.sessionId = id)
    (hfilling : ∀ timed ∈ events, timed.2.isFilling) :
    Holds id ⟨refill layout w.pending.bodyLimit (events.map Prod.snd) session,
          (events.map Prod.fst).getLastD touched⟩
        (steady ∧ Steady (touched :: events.map Prod.fst)) (w.applyEvents layout events) ∧
      (w.applyEvents layout events).committed = w.committed ∧
      (w.applyEvents layout events).pending.bodyLimit = w.pending.bodyLimit := by
  induction events generalizing w session touched steady with
  | nil =>
    refine ⟨⟨h.only, fun hsteady => h.present hsteady.1⟩, rfl, rfl⟩
  | cons timed events ih =>
    obtain ⟨now, event⟩ := timed
    rw [forall_mem_cons] at hid hfilling
    obtain ⟨hcollect, hcommitted⟩ := h.collect layout now hid.1 hfilling.1
    obtain ⟨hholds, hcommitted', hlimit⟩ := ih hcollect hid.2 hfilling.2
    rw [bodyLimit_collect] at hholds hlimit
    refine ⟨⟨?_, ?_⟩, hcommitted'.trans hcommitted, hlimit⟩
    · intro p hp
      rw [map_cons, map_cons, getLastD_cons]
      exact hholds.only p hp
    · rintro ⟨hsteady, hchain⟩
      rw [map_cons, Steady, isChain_cons_cons] at hchain
      rw [map_cons, map_cons, getLastD_cons]
      exact hholds.present ⟨⟨hsteady, hchain.1⟩, hchain.2⟩

theorem holds_start (layout : Layout) (w : Worker) (now id : Nat) (fields : SessionStart) :
    Holds id ⟨.opened id fields, now⟩ True (w.collect layout now (.start id fields)) ∧
      (w.collect layout now (.start id fields)).committed = w.committed := by
  have hlookup : (w.collect layout now (.start id fields)).pending.sessions.lookup id =
      some ⟨.opened id fields, now⟩ := by
    exact lookup_apply_start
  refine ⟨⟨?_, fun _ => hlookup⟩, ?_⟩
  · intro p hp
    rw [hlookup, some_inj] at hp
    exact hp.symm
  · rw [committed_collect]
    exact append_nil _

/-- The end commits the session that is there. -/
theorem Holds.committed_ended (h : Holds id ⟨session, touched⟩ steady w) (layout : Layout)
    (now : Nat) (fields : SessionEnd) :
    ∃ new, (w.collect layout now (.ended id fields)).committed = w.committed ++ new ∧
      (new = [] ∨ new = [session.close fields]) ∧
      (steady ∧ now - touched < pendingTtl → new = [session.close fields]) := by
  obtain ⟨honly, hpresent⟩ := h.expireStale layout now
  refine ⟨((w.pending.expireStale layout now).sessions.lookup id).toList.map
    fun pending => pending.session.close fields, ?_, ?_, ?_⟩
  · rw [committed_collect]
    show _ ++ (close layout id fields _).1.toList = _
    rw [close_fst, toList_map]
  · cases hlookup : (w.pending.expireStale layout now).sessions.lookup id with
    | none => exact .inl rfl
    | some p =>
      right
      rw [honly p hlookup]
      rfl
  · intro hsteady
    rw [hpresent hsteady]
    rfl

theorem steady_concat {now times} (h : Steady (touched :: (times ++ [now]))) :
    Steady (touched :: times) ∧ now - times.getLastD touched < pendingTtl := by
  rw [Steady, ← cons_append, isChain_append] at h
  refine ⟨h.1, h.2.2 _ ?_ now rfl⟩
  rw [getLast?_cons, mem_def, getLastD_eq_getLast?]

/-- A session that comes as one batch is committed as it was recorded, but for its previews. It is
not committed only if the collector rested between two of its events for as long as a pending
session lives. -/
theorem committed_record (layout : Layout) (w : Worker) {batch}
    (hbatch : batch.map Prod.snd = fromSession session) :
    ∃ new, (w.process layout (.events batch)).committed = w.committed ++ new ∧ new.length ≤ 1 ∧
      (∀ rebuilt ∈ new, session.Rebuilt w.pending.bodyLimit rebuilt) ∧
      (Steady (batch.map Prod.fst) → new.length = 1) := by
  obtain ⟨⟨first, _⟩, rest, rfl, rfl, hrest⟩ := map_eq_cons_iff.mp hbatch
  obtain ⟨before, last, rfl, hbefore, hlast⟩ := map_eq_append_iff.mp hrest
  obtain ⟨⟨now, _⟩, rfl, rfl⟩ := map_eq_singleton_iff.mp hlast
  obtain ⟨hstart, hcommitted₀⟩ := holds_start layout w first session.id session.start
  have hmem (timed : Nat × TraceEvent) (h : timed ∈ before) :
      timed.2 ∈ filling session := hbefore ▸ mem_map_of_mem h
  obtain ⟨hholds, hcommitted₁, hlimit⟩ := hstart.applyEvents layout
    (fun timed h => (of_mem_filling (hmem timed h)).2)
    (fun timed h => (of_mem_filling (hmem timed h)).1)
  obtain ⟨new, hnew, hcases, hsteady⟩ := hholds.committed_ended layout now session.ending
  rw [bodyLimit_collect, hbefore] at hcases hsteady
  have hrebuilt := rebuilt_refill layout w.pending.bodyLimit session
  refine ⟨new, ?_, ?_, ?_, ?_⟩
  · show (w.applyEvents layout _).committed = _
    rw [applyEvents_cons, applyEvents_append]
    exact hnew.trans (by rw [hcommitted₁, hcommitted₀])
  · rcases hcases with rfl | rfl
    · exact zero_le 1
    · exact le_rfl
  · rcases hcases with rfl | rfl
    · exact forall_mem_nil _
    · exact forall_mem_singleton.mpr hrebuilt
  · intro htimes
    rw [map_cons, map_append] at htimes
    obtain ⟨hchain, hnow⟩ := steady_concat htimes
    rw [hsteady ⟨⟨trivial, hchain⟩, hnow⟩]
    rfl

end Worker

end RsProxy.Trace
