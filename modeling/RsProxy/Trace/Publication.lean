import RsProxy.Trace.Assembly
import RsProxy.Trace.StoreAccounts

/-!
# What is published, and how often

An identifier that was named and has no pending session is gone: nothing but another start could
bring it back. An end, an abort and a clear leave identifiers so. The store gives every start an
identifier of its own and sends it before anybody else can know the identifier, so that no start
comes behind an event of the same identifier.
-/

namespace RsProxy.Trace

open Data List PendingSessions TraceEvent Option AList

/-- The second event does not open the session of the first one anew. -/
def NotBefore (first second : TraceEvent) : Prop :=
  second.isStart → first.sessionId ≠ second.sessionId

def Command.eventList : Command → List TraceEvent
  | .event _ single => [single]
  | .events batch => batch.map Prod.snd
  | _ => []

/-! ### Pending sessions -/

variable {event : TraceEvent} {session : Session} {id : Nat}

namespace PendingSessions

variable {layout : Layout} {p : PendingSessions} {now : Nat}

/-- A pending session has the identifier under which it is. -/
def Keyed (p : PendingSessions) : Prop :=
  ∀ id pending, p.sessions.lookup id = some pending → pending.session.id = id

theorem id_revise {bodyLimit} : (event.revise layout bodyLimit session).id = session.id := by
  cases event with
  | bodyChunk id direction data observed | bodySnapshot id direction data observed =>
    cases direction <;> rfl
  | start | request | response | frame | tls | ended | abort => rfl

/-- What is pending behind an event was opened by it, or was pending under the same identifier. -/
theorem exists_of_lookup_apply {pending}
    (h : (p.apply layout now event).2.sessions.lookup id = some pending) :
    event.isStart ∧ event.sessionId = id ∧ pending.session.id = id ∨
      ∃ old, p.sessions.lookup id = some old ∧ pending.session.id = old.session.id := by
  by_cases hid : id = event.sessionId
  · subst hid
    cases hfilling : event.isFilling with
    | true =>
      rw [apply_of_isFilling layout p now hfilling, lookup_update_self, map_eq_some_iff] at h
      obtain ⟨old, hold, rfl⟩ := h
      exact .inr ⟨old, lookup_of_lookup_expireStale hold, id_revise⟩
    | false =>
      cases event with
      | start start fields =>
        rw [sessionId, lookup_apply_start] at h
        cases h
        exact .inl ⟨rfl, rfl, rfl⟩
      | ended ended fields =>
        rw [sessionId, lookup_apply_ended] at h
        cases h
      | abort aborted =>
        rw [sessionId, lookup_apply_abort] at h
        cases h
      | request | response | bodyChunk | bodySnapshot | frame | tls => cases hfilling
  · rw [lookup_apply_ne hid] at h
    exact .inr ⟨pending, lookup_of_lookup_expireStale h, rfl⟩

/-- Without a start, what is not there does not appear. -/
theorem lookup_apply_none (h : p.sessions.lookup id = none)
    (hstart : event.isStart → id ≠ event.sessionId) :
    (p.apply layout now event).2.sessions.lookup id = none := by
  rw [eq_none_iff_forall_ne_some]
  intro pending hpending
  rcases exists_of_lookup_apply hpending with ⟨hevent, hid, -⟩ | ⟨old, hold, -⟩
  · exact hstart hevent hid.symm
  · rw [h] at hold
    cases hold

theorem Keyed.apply (h : p.Keyed) (event : TraceEvent) : (p.apply layout now event).2.Keyed := by
  intro id pending hpending
  rcases exists_of_lookup_apply hpending with ⟨-, -, hid⟩ | ⟨old, hold, hid⟩
  · exact hid
  · rw [hid]
    exact h id old hold

/-- Only an end hands a session out, the one that was pending. -/
theorem exists_of_apply_fst (h : (p.apply layout now event).1 = some session) :
    (p.apply layout now event).2.sessions.lookup event.sessionId = none ∧
      ∃ pending, p.sessions.lookup event.sessionId = some pending ∧
        pending.session.id = session.id := by
  cases event with
  | ended id fields =>
    refine ⟨lookup_apply_ended, ?_⟩
    rw [apply, close_fst, map_eq_some_iff] at h
    obtain ⟨pending, hpending, rfl⟩ := h
    exact ⟨pending, lookup_of_lookup_expireStale hpending, rfl⟩
  | start | abort | request | response | bodyChunk | bodySnapshot | frame | tls => cases h

end PendingSessions

/-! ### The collector -/

variable {command : Command} {ticket : Nat} {submission : Submission}

namespace Worker

variable {layout : Layout} {w w' : Worker} {past events : List TraceEvent}

/-- The identifier was named, and nothing is pending under it. -/
structure Gone (past : List TraceEvent) (w : Worker) (id : Nat) : Prop where
  named : id ∈ past.map sessionId
  lookup : w.pending.sessions.lookup id = none

/-- What was committed behind the events so far. -/
structure Published (past : List TraceEvent) (w : Worker) : Prop where
  keyed : w.pending.Keyed
  once : (w.committed.map Session.id).Nodup
  gone : ∀ session ∈ w.committed, Gone past w session.id

/-- Events behind others: nothing that is gone comes back, and none of it is committed. -/
structure Follows (past events : List TraceEvent) (w w' : Worker) : Prop where
  published : Published (past ++ events) w'
  grows : ∃ new, w'.committed = w.committed ++ new ∧ ∀ session ∈ new, ¬ Gone past w session.id
  gone : ∀ id, Gone past w id → Gone (past ++ events) w' id

theorem Follows.trans {more w''} (h : Follows past events w w')
    (h' : Follows (past ++ events) more w' w'') : Follows past (events ++ more) w w'' := by
  obtain ⟨new, hnew, hnot⟩ := h.grows
  obtain ⟨new', hnew', hnot'⟩ := h'.grows
  refine ⟨?_, ⟨new ++ new', ?_, ?_⟩, ?_⟩
  · rw [← append_assoc]
    exact h'.published
  · rw [hnew', hnew, append_assoc]
  · intro session hsession
    rcases mem_append.mp hsession with hleft | hright
    · exact hnot session hleft
    · exact fun hgone => hnot' session hright (h.gone _ hgone)
  · intro id hgone
    rw [← append_assoc]
    exact h'.gone id (h.gone id hgone)

/-- Nothing is committed. -/
theorem follows_of_committed (h : Published past w) (hcommitted : w'.committed = w.committed)
    (hkeyed : w'.pending.Keyed) (hgone : ∀ id, Gone past w id → Gone (past ++ events) w' id) :
    Follows past events w w' := by
  refine ⟨⟨hkeyed, ?_, ?_⟩, ⟨[], ?_, forall_mem_nil _⟩, hgone⟩
  · rw [hcommitted]
    exact h.once
  · rw [hcommitted]
    exact fun session hsession => hgone _ (h.gone session hsession)
  · rw [hcommitted, append_nil]

/-- Pending sessions that are given up. -/
theorem follows_of_shrinks (h : Published past w) (hcommitted : w'.committed = w.committed)
    (hshrinks : ∀ id pending, w'.pending.sessions.lookup id = some pending →
      w.pending.sessions.lookup id = some pending) : Follows past [] w w' := by
  refine follows_of_committed h hcommitted ?_ ?_
  · exact fun id pending hpending => h.keyed id pending (hshrinks id pending hpending)
  · intro id hid
    rw [append_nil]
    refine ⟨hid.named, ?_⟩
    rw [eq_none_iff_forall_ne_some]
    intro pending hpending
    have hlookup := hid.lookup
    rw [hshrinks id pending hpending] at hlookup
    cases hlookup

theorem follows_collect (layout : Layout) (h : Published past w) (now : Nat)
    (hfresh : ∀ a ∈ past, NotBefore a event) :
    Follows past [event] w (w.collect layout now event) := by
  have hstart (id : Nat) (hid : Gone past w id) (hevent : event.isStart) :
      id ≠ event.sessionId := by
    obtain ⟨a, ha, rfl⟩ := mem_map.mp hid.named
    exact hfresh a ha hevent
  have hgone (id : Nat) (hid : Gone past w id) :
      Gone (past ++ [event]) (w.collect layout now event) id := by
    constructor
    · rw [map_append]
      exact mem_append_left _ hid.named
    · rw [pending_collect]
      exact lookup_apply_none hid.lookup (hstart id hid)
  have hkeyed : (w.collect layout now event).pending.Keyed := by
    rw [pending_collect]
    exact h.keyed.apply event
  have hcommitted := committed_collect layout w now event
  cases hfst : (w.pending.apply layout now event).1 with
  | none =>
    rw [hfst, toList_none, append_nil] at hcommitted
    exact follows_of_committed h hcommitted hkeyed hgone
  | some session =>
    obtain ⟨hnone, pending, hpending, hid⟩ := exists_of_apply_fst hfst
    rw [hfst, toList_some] at hcommitted
    have hsession : session.id = event.sessionId := hid.symm.trans (h.keyed _ pending hpending)
    have hnot : ¬ Gone past w session.id := by
      intro hgone
      have hlookup := hgone.lookup
      rw [hsession, hpending] at hlookup
      cases hlookup
    refine ⟨⟨hkeyed, ?_, ?_⟩, ⟨[session], hcommitted, forall_mem_singleton.mpr hnot⟩, hgone⟩
    · rw [hcommitted, map_append]
      refine h.once.append (nodup_singleton _) (disjoint_singleton.mpr ?_)
      intro hmem
      obtain ⟨old, hold, heq⟩ := mem_map.mp hmem
      exact hnot (heq ▸ h.gone old hold)
    · rw [hcommitted, forall_mem_append, forall_mem_singleton]
      refine ⟨fun old hold => hgone _ (h.gone old hold), ?_, ?_⟩
      · rw [hsession, map_append]
        exact mem_append_right _ (mem_singleton_self _)
      · rwa [hsession, pending_collect]

theorem follows_nil (h : Published past w) : Follows past [] w w :=
  follows_of_shrinks h rfl fun _ _ => id

section

variable (layout : Layout) (h : Published past w)

include h

theorem follows_applyEvents {batch} (hfresh : (past ++ batch.map Prod.snd).Pairwise NotBefore) :
    Follows past (batch.map Prod.snd) w (w.applyEvents layout batch) := by
  induction batch generalizing past w with
  | nil => exact follows_nil h
  | cons timed batch ih =>
    have hevent : ∀ a ∈ past, NotBefore a timed.2 := by
      intro a ha
      exact (pairwise_append.mp hfresh).2.2 a ha _ (mem_cons_self ..)
    have hcollect := follows_collect layout h timed.1 hevent
    have hrest : ((past ++ [timed.2]) ++ batch.map Prod.snd).Pairwise NotBefore := by
      rwa [append_assoc]
    exact hcollect.trans (ih hcollect.published hrest)

theorem follows_enforceMemoryBudget (currentId : Option Nat) :
    Follows past [] w (w.enforceMemoryBudget layout currentId) := by
  cases currentId with
  | none => exact follows_of_shrinks h rfl fun _ _ => id
  | some current =>
    rw [enforceMemoryBudget]
    split
    · refine follows_of_shrinks h rfl ?_
      intro id pending hpending
      change (w.pending.abort layout current).sessions.lookup id = some pending at hpending
      by_cases hid : id = current
      · rw [hid, lookup_abort_self] at hpending
        cases hpending
      · rwa [lookup_abort_ne hid] at hpending
    · exact follows_of_shrinks h rfl fun _ _ => id

/-- One command behind others. -/
theorem follows_process (hfresh : (past ++ command.eventList).Pairwise NotBefore) :
    Follows past command.eventList w (w.process layout command) := by
  cases command with
  | event now event =>
    have hevent : ∀ a ∈ past, NotBefore a event := by
      intro a ha
      exact (pairwise_append.mp hfresh).2.2 a ha _ (mem_singleton_self _)
    have hcollect := follows_collect layout h now hevent
    have henforce := follows_enforceMemoryBudget layout hcollect.published
      (some event.sessionId)
    exact hcollect.trans henforce
  | events batch =>
    have hbatch := follows_applyEvents layout h hfresh
    have henforce := follows_enforceMemoryBudget layout hbatch.published none
    have htrans := hbatch.trans henforce
    rwa [append_nil] at htrans
  | clear =>
    refine follows_of_shrinks h rfl ?_
    intro id pending hpending
    cases hpending
  | stats => exact follows_of_shrinks h rfl fun _ _ => id
  | follow after backlogLimit capacity answered =>
    cases answered with
    | true => exact follows_of_shrinks h rfl fun _ _ => id
    | false => exact follows_nil h
  | query => exact follows_nil h

end

/-- Behind an abort nothing is pending under its identifier. -/
theorem lookup_process_abort {now} :
    (w.process layout (.event now (.abort id))).pending.sessions.lookup id = none := by
  have hcollect : (w.collect layout now (.abort id)).pending.sessions.lookup id = none := by
    exact lookup_apply_abort
  show ((w.collect layout now (.abort id)).enforceMemoryBudget layout
    (some id)).pending.sessions.lookup id = none
  rw [enforceMemoryBudget]
  split
  · exact lookup_abort_self
  · exact hcollect

end Worker

open Worker

/-! ### The store -/

def Message.eventList : Message → List TraceEvent
  | .submitted _ submission => submission.events
  | _ => []

def Collecting.eventList : Collecting → List TraceEvent
  | .holding _ submission => submission.events
  | _ => []

/-- The submission opens the session of an identifier. -/
def Submission.Opens (id : Nat) (submission : Submission) : Prop :=
  ∃ event ∈ submission.events, event.isStart ∧ event.sessionId = id

instance (id : Nat) (submission : Submission) : Decidable (submission.Opens id) :=
  inferInstanceAs (Decidable (∃ event ∈ submission.events, _))

theorem of_mem_continuation (h : event ∈ continuationFromSession session) :
    event.isStart = false ∧ event.sessionId = session.id := by
  rcases mem_append.mp h with hfilling | hended
  · obtain ⟨hkind, hid⟩ := of_mem_filling hfilling
    refine ⟨?_, hid⟩
    cases event with
    | start => cases hkind
    | request | response | bodyChunk | bodySnapshot | frame | tls | ended | abort => rfl
  · rw [mem_singleton.mp hended]
    exact ⟨rfl, rfl⟩

theorem Submission.pairwise_events (submission : Submission) :
    submission.events.Pairwise NotBefore := by
  have hpairwise (session : Session) :
      (continuationFromSession session).Pairwise NotBefore := by
    apply pairwise_of_forall_mem_list
    intro a _ event hevent hstart
    rw [(of_mem_continuation hevent).1] at hstart
    cases hstart
  cases submission with
  | single event => exact pairwise_singleton _ _
  | record session =>
    refine pairwise_cons.mpr ⟨?_, hpairwise session⟩
    intro event hevent hstart
    rw [(of_mem_continuation hevent).1] at hstart
    cases hstart
  | finish session => exact hpairwise session

variable {nextId : Nat} {action : Action}

namespace Store

variable {layout : EventLayout} {config : TraceStoreConfig} {s s' : Store}

/-- The events that the collector has applied. -/
def past (s : Store) : List TraceEvent := s.processed.flatMap Command.eventList

/-- All events that were sent, in the order in which they are applied. -/
def timeline (s : Store) : List TraceEvent :=
  s.past ++ s.collecting.eventList ++ s.channel.flatMap Message.eventList

/-- A caller can know the identifier: the call that has allotted it is over. -/
def Known (s : Store) (id : Nat) : Prop :=
  id < s.nextId ∧ ∀ entry ∈ s.producers.entries, ¬ entry.2.submission.Opens id

instance (s : Store) (id : Nat) : Decidable (s.Known id) :=
  inferInstanceAs (Decidable (_ ∧ _))

/-- Callers pass on identifiers that the store has given them, and leave starts to the store. -/
def disciplined (s : Store) : Action → Bool
  | .call (.finish session) => s.Known session.id
  | .call (.emit event) => !event.isStart && decide (s.Known event.sessionId)
  | _ => true

/-- No start is behind an event of its identifier, nor will it be. -/
structure Ordered (s : Store) : Prop where
  pairwise : s.timeline.Pairwise NotBefore
  sent_lt : ∀ event ∈ s.timeline, event.sessionId < s.nextId
  held_lt : ∀ ticket p, s.producers.lookup ticket = some p →
    ∀ event ∈ p.submission.events, event.sessionId < s.nextId
  sent : ∀ ticket p, s.producers.lookup ticket = some p → ∀ event ∈ p.submission.events,
    ∀ a ∈ s.timeline, NotBefore a event
  held : ∀ ticket p, s.producers.lookup ticket = some p → ∀ event ∈ p.submission.events,
    ∀ ticket' p', ticket' ≠ ticket → s.producers.lookup ticket' = some p' →
      ∀ a ∈ p'.submission.events, NotBefore a event

/-- The same events, and no new submission. -/
theorem Ordered.mono (h : s.Ordered) (htimeline : s'.timeline = s.timeline)
    (hnextId : s'.nextId = s.nextId)
    (hproducers : ∀ ticket p', s'.producers.lookup ticket = some p' →
      ∃ p, s.producers.lookup ticket = some p ∧ p.submission = p'.submission) : s'.Ordered := by
  constructor
  · rw [htimeline]
    exact h.pairwise
  · rw [htimeline, hnextId]
    exact h.sent_lt
  · intro ticket p hp
    obtain ⟨old, hold, hsubmission⟩ := hproducers ticket p hp
    rw [hnextId, ← hsubmission]
    exact h.held_lt ticket old hold
  · intro ticket p hp
    obtain ⟨old, hold, hsubmission⟩ := hproducers ticket p hp
    rw [htimeline, ← hsubmission]
    exact h.sent ticket old hold
  · intro ticket p hp event hevent ticket' p' hne hp'
    obtain ⟨old, hold, hsubmission⟩ := hproducers ticket p hp
    obtain ⟨old', hold', hsubmission'⟩ := hproducers ticket' p' hp'
    rw [← hsubmission] at hevent
    rw [← hsubmission']
    exact h.held ticket old hold event hevent ticket' old' hne hold'

theorem lookup_enter {phase phase'} (hlookup : s.producers.lookup ticket = some ⟨submission, phase⟩)
    (ticket' : Nat) (p' : Producer)
    (h : (s.enter ticket submission phase').producers.lookup ticket' = some p') :
    ∃ p, s.producers.lookup ticket' = some p ∧ p.submission = p'.submission := by
  by_cases hticket : ticket' = ticket
  · subst hticket
    rw [enter, lookup_insert] at h
    cases h
    exact ⟨_, hlookup, rfl⟩
  · rw [enter, lookup_insert_ne hticket] at h
    exact ⟨p', h, rfl⟩

theorem lookup_leave {ticket' p'} (h : (s.leave ticket).producers.lookup ticket' = some p') :
    ticket' ≠ ticket ∧ s.producers.lookup ticket' = some p' := by
  by_cases hticket : ticket' = ticket
  · subst hticket
    rw [leave, lookup_erase] at h
    cases h
  · rw [leave, lookup_erase_ne hticket] at h
    exact ⟨hticket, h⟩

theorem Ordered.leave (h : s.Ordered) (ticket : Nat) : (s.leave ticket).Ordered := by
  refine h.mono rfl rfl ?_
  intro ticket' p' hp'
  exact ⟨p', (lookup_leave hp').2, rfl⟩

/-- A submission of a new identifier, or of one that is known. -/
theorem Ordered.begin (h : s.Ordered) (hnext : s.nextId ≤ nextId)
    (hlt : ∀ event ∈ submission.events, event.sessionId < nextId)
    (hnew : ∀ event ∈ submission.events, event.isStart → s.nextId ≤ event.sessionId)
    (hknown : ∀ ticket p, s.producers.lookup ticket = some p → ∀ event ∈ p.submission.events,
      ∀ a ∈ submission.events, NotBefore a event) :
    Ordered { s.begin submission with nextId } := by
  have hlookup (ticket : Nat) (p : Producer)
      (hp : (s.begin submission).producers.lookup ticket = some p) :
      ticket = s.tickets ∧ p.submission = submission ∨
        ticket ≠ s.tickets ∧ s.producers.lookup ticket = some p := by
    by_cases hticket : ticket = s.tickets
    · subst hticket
      rw [Store.begin, lookup_insert] at hp
      cases hp
      exact .inl ⟨rfl, rfl⟩
    · rw [Store.begin, lookup_insert_ne hticket] at hp
      exact .inr ⟨hticket, hp⟩
  -- an identifier of the new submission's start is above all that were used before
  have habove (event : TraceEvent) (hevent : event ∈ submission.events) (a : TraceEvent)
      (ha : a.sessionId < s.nextId) : NotBefore a event := by
    intro hstart heq
    have := hnew event hevent hstart
    omega
  refine ⟨h.pairwise, ?_, ?_, ?_, ?_⟩
  · intro event hevent
    exact (h.sent_lt event hevent).trans_le hnext
  · intro ticket p hp
    rcases hlookup ticket p hp with ⟨-, hsubmission⟩ | ⟨-, hold⟩
    · rwa [hsubmission]
    · intro event hevent
      exact (h.held_lt ticket p hold event hevent).trans_le hnext
  · intro ticket p hp
    rcases hlookup ticket p hp with ⟨-, hsubmission⟩ | ⟨-, hold⟩
    · rw [hsubmission]
      intro event hevent a ha
      exact habove event hevent a (h.sent_lt a ha)
    · exact h.sent ticket p hold
  · intro ticket p hp event hevent ticket' p' hne hp' a ha
    rcases hlookup ticket p hp with ⟨rfl, hsubmission⟩ | ⟨-, hold⟩
    · rcases hlookup ticket' p' hp' with ⟨hticket', -⟩ | ⟨-, hold'⟩
      · exact absurd hticket' hne
      · rw [hsubmission] at hevent
        exact habove event hevent a (h.held_lt ticket' p' hold' a ha)
    · rcases hlookup ticket' p' hp' with ⟨-, hsubmission'⟩ | ⟨-, hold'⟩
      · rw [hsubmission'] at ha
        exact hknown ticket p hold event hevent a ha
      · exact h.held ticket p hold event hevent ticket' p' hne hold' a ha

variable {p : Producer}

/-- A submission goes from its thread to the end of the channel. -/
theorem Ordered.send (h : s.Ordered) (hlookup : s.producers.lookup ticket = some p)
    (htimeline : s'.timeline = s.timeline ++ p.submission.events) (hnextId : s'.nextId = s.nextId)
    (hproducers : s'.producers = (s.leave ticket).producers) : s'.Ordered := by
  have hold {ticket' : Nat} {p' : Producer} (hp' : s'.producers.lookup ticket' = some p') :
      ticket' ≠ ticket ∧ s.producers.lookup ticket' = some p' := by
    rw [hproducers] at hp'
    exact lookup_leave hp'
  refine ⟨?_, ?_, ?_, ?_, ?_⟩
  · rw [htimeline, pairwise_append]
    refine ⟨h.pairwise, p.submission.pairwise_events, ?_⟩
    intro a ha event hevent
    exact h.sent ticket p hlookup event hevent a ha
  · rw [htimeline, hnextId, forall_mem_append]
    exact ⟨h.sent_lt, h.held_lt ticket p hlookup⟩
  · intro ticket' p' hp'
    rw [hnextId]
    exact h.held_lt ticket' p' (hold hp').2
  · intro ticket' p' hp' event hevent
    rw [htimeline, forall_mem_append]
    obtain ⟨hne, hlookup'⟩ := hold hp'
    exact ⟨h.sent ticket' p' hlookup' event hevent,
      h.held ticket' p' hlookup' event hevent ticket p hne.symm hlookup⟩
  · intro ticket' p' hp' event hevent ticket'' p'' hne hp''
    exact h.held ticket' p' (hold hp').2 event hevent ticket'' p'' hne (hold hp'').2

theorem eventList_command {times} (h : times.length = submission.events.length) :
    (submission.command times).eventList = submission.events := by
  cases submission with
  | single event => rfl
  | record | finish => exact map_snd_zip h

theorem eventList_of_isQuery (h : command.isQuery) : command.eventList = [] := by
  cases command with
  | event | events => cases h
  | clear | stats | follow | query => rfl

theorem Known.notBefore (h : s.Known id) (hlookup : s.producers.lookup ticket = some p) {a}
    (hevent : event ∈ p.submission.events) (ha : a.sessionId = id) :
    NotBefore a event := by
  intro hstart heq
  refine h.2 ⟨ticket, p⟩ (mem_lookup_iff.mp hlookup) ⟨event, hevent, hstart, ?_⟩
  rw [← heq, ha]

theorem Ordered.allot (h : s.Ordered) {call} (hallot : s.allot call = some (submission, nextId))
    (hdisciplined : s.disciplined (.call call)) :
    Ordered { s.begin submission with nextId } := by
  -- a new identifier is above those of all threads
  have hfresh (submission : Submission)
      (hid : ∀ event ∈ submission.events, event.sessionId = s.nextId) :
      Ordered { s.begin submission with nextId := s.nextId + 1 } := by
    apply h.begin (Nat.le_succ _)
    · intro event hevent
      rw [hid event hevent]
      exact Nat.lt_succ_self _
    · intro event hevent _
      exact (hid event hevent).ge
    · intro ticket p hp event hevent a ha _ heq
      have hlt := h.held_lt ticket p hp event hevent
      have := hid a ha
      omega
  have hgiven (submission : Submission) (id : Nat) (hknown : s.Known id)
      (hid : ∀ event ∈ submission.events, event.sessionId = id)
      (hstart : ∀ event ∈ submission.events, event.isStart = false) :
      Ordered { s.begin submission with nextId := s.nextId } := by
    apply h.begin le_rfl
    · intro event hevent
      rw [hid event hevent]
      exact hknown.1
    · intro event hevent hstarts
      rw [hstart event hevent] at hstarts
      cases hstarts
    · intro ticket p hp event hevent a ha
      exact hknown.notBefore hp hevent (hid a ha)
  cases call with
  | record session =>
    cases hallot
    apply hfresh
    refine forall_mem_cons.mpr ⟨rfl, fun event hevent => ?_⟩
    exact (of_mem_continuation hevent).2
  | start fields =>
    cases hallot
    apply hfresh
    intro event hevent
    rw [mem_singleton.mp hevent]
    rfl
  | finish session =>
    rw [Store.allot] at hallot
    split_ifs at hallot
    cases hallot
    apply hgiven _ session.id (of_decide_eq_true hdisciplined)
    · exact fun _ h => (of_mem_continuation h).2
    · exact fun _ h => (of_mem_continuation h).1
  | emit event =>
    cases hallot
    rw [disciplined, Bool.and_eq_true, Bool.not_eq_true', decide_eq_true_eq] at hdisciplined
    apply hgiven _ event.sessionId hdisciplined.2
    · intro a ha
      rw [mem_singleton.mp ha]
    · intro a ha
      rw [mem_singleton.mp ha]
      exact hdisciplined.1

theorem Ordered.moved (h : s.Ordered) (hqueries : ∀ message ∈ s.channel, message.Regular)
    (hdisciplined : s.disciplined action) (hmoved : Moved layout config s action s') :
    s'.Ordered := by
  cases hmoved with
  | called hopen hallot => exact h.allot hallot hdisciplined
  | loaded value hlookup | failed value hlookup | reserved hlookup | refused hlookup
  | released hlookup | halfCounted hlookup => exact h.mono rfl rfl (lookup_enter hlookup)
  | @sent ticket submission hlookup hroom =>
    refine h.send hlookup ?_ rfl rfl
    simp [timeline, Store.leave, past, Message.eventList]
  | @overBudget ticket submission hlookup | @notTaken ticket submission hlookup =>
    exact (h.leave ticket).mono rfl rfl fun _ p' hp' => ⟨p', hp', rfl⟩
  | queried hopen hquery | closed hopen hproducers =>
    refine h.mono ?_ rfl fun _ p' hp' => ⟨p', hp', rfl⟩
    simp [timeline, past, Message.eventList]
  | took hcollecting hchannel | stopped hcollecting hchannel =>
    refine h.mono ?_ rfl fun _ p' hp' => ⟨p', hp', rfl⟩
    simp [timeline, past, hcollecting, hchannel, Message.eventList, Collecting.eventList]
  | @answered command rest hcollecting hchannel =>
    refine h.mono ?_ rfl fun _ p' hp' => ⟨p', hp', rfl⟩
    rw [hchannel, forall_mem_cons] at hqueries
    have hevents : command.eventList = [] := eventList_of_isQuery hqueries.1
    simp [timeline, past, hchannel, hevents, Message.eventList]
  | @applied ticket submission times hcollecting htimes =>
    refine h.mono ?_ rfl fun _ p' hp' => ⟨p', hp', rfl⟩
    simp [timeline, past, hcollecting, eventList_command htimes, Collecting.eventList]
  | settled hcollecting =>
    refine h.mono ?_ rfl fun _ p' hp' => ⟨p', hp', rfl⟩
    simp [timeline, past, hcollecting, Collecting.eventList]

/-! ### Whole runs of the store -/

/-- An abort of the identifier was applied, or a clear behind an event that names it. -/
def Retired (s : Store) (id : Nat) : Prop :=
  (∃ now, .event now (.abort id) ∈ s.processed) ∨
    ∃ before after, s.processed = before ++ .clear :: after ∧
      id ∈ (before.flatMap Command.eventList).map sessionId

structure Publishes (config : TraceStoreConfig) (s : Store) : Prop where
  resident : s.Resident config
  ordered : s.Ordered
  published : Worker.Published s.past s.worker
  retired : ∀ id, s.Retired id → Worker.Gone s.past s.worker id
  bodyLimit : s.worker.pending.bodyLimit = config.bodyLimit

/-- What a step does to the collector, if anything. -/
theorem processed_moved (hmoved : Moved layout config s action s') :
    s'.worker = s.worker ∧ s'.processed = s.processed ∨
      ∃ command, s'.worker = s.worker.process layout.toLayout command ∧
        s'.processed = s.processed ++ [command] := by
  cases hmoved with
  | answered | applied => exact .inr ⟨_, rfl, rfl⟩
  | called | loaded | failed | reserved | sent | refused | released | halfCounted | overBudget
  | notTaken | queried | closed | took | stopped | settled => exact .inl ⟨rfl, rfl⟩

/-- A command behind others retires what it names itself, or what was retired before. -/
theorem Retired.of_concat (hprocessed : s'.processed = s.processed ++ [command])
    (h : s'.Retired id) :
    s.Retired id ∨ (∃ now, command = .event now (.abort id)) ∨
      command = .clear ∧ id ∈ s.past.map sessionId := by
  rcases h with ⟨now, habort⟩ | ⟨before, after, hclear, hid⟩
  · rw [hprocessed] at habort
    rcases mem_append.mp habort with hold | hnew
    · exact .inl (.inl ⟨now, hold⟩)
    · exact .inr (.inl ⟨now, (mem_singleton.mp hnew).symm⟩)
  · rw [hprocessed] at hclear
    rcases eq_nil_or_concat after with rfl | ⟨middle, last, rfl⟩
    · obtain ⟨hbefore, hlast⟩ := append_inj' hclear rfl
      cases hlast
      rw [← hbefore] at hid
      exact .inr (.inr ⟨rfl, hid⟩)
    · rw [concat_eq_append, ← cons_append, ← append_assoc] at hclear
      obtain ⟨hbefore, -⟩ := append_inj' hclear rfl
      exact .inl (.inr ⟨before, middle, hbefore, hid⟩)

theorem Publishes.moved (h : s.Publishes config) (hdisciplined : s.disciplined action)
    (hmoved : Moved layout config s action s') :
    s'.Publishes config ∧
      ∃ events, s'.past = s.past ++ events ∧ Worker.Follows s.past events s.worker s'.worker := by
  have hresident := h.resident.moved hmoved
  have hordered := h.ordered.moved h.resident.queries hdisciplined hmoved
  rcases processed_moved hmoved with ⟨hworker, hprocessed⟩ | ⟨command, hworker, hprocessed⟩
  · have hpast : s'.past = s.past := by rw [past, hprocessed, past]
    refine ⟨⟨hresident, hordered, ?_, ?_, ?_⟩, [], ?_, ?_⟩
    · rw [hpast, hworker]
      exact h.published
    · intro id hid
      rw [Retired, hprocessed] at hid
      rw [hpast, hworker]
      exact h.retired id hid
    · rw [hworker]
      exact h.bodyLimit
    · rw [hpast, append_nil]
    · rw [hworker]
      exact follows_nil h.published
  · have hpast : s'.past = s.past ++ command.eventList := by
      rw [past, hprocessed, flatMap_append, flatMap_singleton, past]
    have hfresh : (s.past ++ command.eventList).Pairwise NotBefore := by
      rw [← hpast]
      have hpairwise := hordered.pairwise
      rw [timeline, append_assoc] at hpairwise
      exact (pairwise_append.mp hpairwise).1
    have hfollows := follows_process layout.toLayout h.published hfresh
    rw [← hworker] at hfollows
    refine ⟨⟨hresident, hordered, ?_, ?_, ?_⟩, command.eventList, hpast, hfollows⟩
    · rw [hpast]
      exact hfollows.published
    · intro id hid
      rw [hpast]
      rcases hid.of_concat hprocessed with hold | ⟨now, rfl⟩ | ⟨rfl, hnamed⟩
      · exact hfollows.gone id (h.retired id hold)
      · constructor
        · rw [map_append]
          exact mem_append_right _ (mem_singleton_self id)
        · rw [hworker]
          exact lookup_process_abort
      · constructor
        · rw [map_append]
          exact mem_append_left _ hnamed
        · rw [hworker]
          rfl
    · rw [hworker, bodyLimit_process]
      exact h.bodyLimit

/-- Along any further steps what is gone stays gone. -/
theorem Publishes.follows_run {now} (h : s.Publishes config) {actions}
    (hrun : ((machine layout config now).restrict disciplined).run s actions = some s') :
    ∃ events, Worker.Follows s.past events s.worker s'.worker := by
  induction actions generalizing s with
  | nil =>
    cases hrun
    exact ⟨[], follows_nil h.published⟩
  | cons action actions ih =>
    obtain ⟨next, hnext, hrun⟩ := bind_eq_some_iff.mp hrun
    obtain ⟨hdisciplined, hstep⟩ := Machine.restrict_step hnext
    obtain ⟨hpublishes, events, hpast, hfollows⟩ := h.moved hdisciplined (moved_step hstep)
    obtain ⟨more, hmore⟩ := ih hpublishes hrun
    rw [hpast] at hmore
    exact ⟨events ++ more, hfollows.trans hmore⟩

theorem publishes_of_reachable {now}
    (h : ((machine layout config now).restrict disciplined).Reachable (fun _ => True) s) :
    s.Publishes config := by
  refine h.invariant ?_ ?_
  · refine ⟨⟨⟨Nat.zero_le _, Nat.zero_le _⟩, rfl, forall_mem_nil _⟩, ?_, ?_, ?_, rfl⟩
    · refine ⟨.nil, forall_mem_nil _, ?_, ?_, ?_⟩
      all_goals
        intro ticket p hp
        cases hp
    · refine ⟨?_, nodup_nil, forall_mem_nil _⟩
      intro id pending hpending
      cases hpending
    · rintro id (⟨now, habort⟩ | ⟨before, after, hclear, -⟩)
      · cases habort
      · cases append_eq_nil_iff.mp hclear.symm with
        | intro _ hnil => cases hnil
  · intro s s' action _ hs _ hstep
    obtain ⟨hdisciplined, hstep⟩ := Machine.restrict_step hstep
    exact (hs.moved hdisciplined (moved_step hstep)).1

/-- A session that is recorded in one call is committed as it is, with its previews cut. Where
callers pass on the identifiers that they were given, each identifier is committed once at most, and
never behind an abort or a clear. -/
theorem publication {now : Nat}
    (h : ((machine layout config now).restrict disciplined).Reachable (fun _ => True) s) :
    (∀ ticket session times s', s.collecting = .holding ticket (.record session) →
      step layout config s (.apply times) = some s' →
        ∃ new, s'.worker.committed = s.worker.committed ++ new ∧ new.length ≤ 1 ∧
          (∀ rebuilt ∈ new, session.Rebuilt config.bodyLimit rebuilt) ∧
          (Worker.Steady times → new.length = 1)) ∧
      (s.worker.committed.map Session.id).Nodup ∧
      ∀ id, s.Retired id → ∀ s', ((machine layout config now).restrict disciplined).CanReach s s' →
        ∃ new, s'.worker.committed = s.worker.committed ++ new ∧
          ∀ session ∈ new, session.id ≠ id := by
  have hpublishes := publishes_of_reachable h
  refine ⟨?_, hpublishes.published.once, ?_⟩
  · intro ticket session times s' hcollecting hstep
    simp only [step, hcollecting] at hstep
    split_ifs at hstep with htimes
    cases hstep
    have hbatch : (times.zip (fromSession session)).map Prod.snd =
        fromSession session := map_snd_zip htimes
    have hfst : (times.zip (fromSession session)).map Prod.fst = times :=
      map_fst_zip htimes.le
    obtain ⟨new, hnew, hlength, hrebuilt, hsteady⟩ :=
      committed_record layout.toLayout s.worker hbatch
    rw [hfst] at hsteady
    rw [hpublishes.bodyLimit] at hrebuilt
    exact ⟨new, hnew, hlength, hrebuilt, hsteady⟩
  · rintro id hid s' ⟨actions, hrun⟩
    obtain ⟨events, hfollows⟩ := hpublishes.follows_run hrun
    obtain ⟨new, hnew, hnot⟩ := hfollows.grows
    refine ⟨new, hnew, ?_⟩
    rintro session hsession rfl
    exact hnot session hsession (hpublishes.retired _ hid)

def roomy : TraceStoreConfig := ⟨8, 4, 9000, none, 2⟩

/-- A submission from its thread through the channel to the collector. -/
def delivering (ticket : Nat) (times : List Nat) : List Action :=
  [.load ticket 0, .exchange ticket none, .send ticket, .receive, .apply times, .settle]

/-- A session with a body of three bytes. -/
def sampleSession : Session :=
  { Session.opened 0 sampleStart with responseBytes := 3, resBodyHead := ⟨[1, 2, 3], 3⟩ }

/-- A session is recorded, and another one started and given up. -/
def recordAndAbort : List Action :=
  [.call (.record sampleSession)] ++ delivering 0 [5, 6, 7, 8, 9] ++
    [.call (.start sampleStart)] ++ delivering 1 [10] ++
    [.call (.emit (.abort 2))] ++ delivering 2 [11]

/-- One session is committed, and the one that was given up never will be. -/
theorem publication_of_recordAndAbort :
    ∃ s : Store, s.worker.committed.map Session.id = [1] ∧
      s.worker.committed.map (fun session => session.resBodyHead.items) = [[1, 2]] ∧
      ∀ s', ((machine sampleLayout roomy 0).restrict disciplined).CanReach s s' →
        ∃ new, s'.worker.committed = s.worker.committed ++ new ∧
          ∀ session ∈ new, session.id ≠ 2 := by
  obtain ⟨s, hs, hids, hheads, command, hcommand, habort⟩ := Machine.exists_reachable_of_run
    (m := (machine sampleLayout roomy 0).restrict disciplined) recordAndAbort (fun _ _ => trivial)
    (p := fun s => s.worker.committed.map Session.id = [1] ∧
      s.worker.committed.map (fun session => session.resBodyHead.items) = [[1, 2]] ∧
      ∃ command ∈ s.processed, (match command with
        | .event 11 (.abort 2) => true
        | _ => false) = true) (by decide +kernel)
  have hretired : s.Retired 2 := by
    refine .inl ⟨11, ?_⟩
    split at habort
    · exact hcommand
    · cases habort
  exact ⟨s, hids, hheads, (publication hs).2.2 2 hretired⟩

/-- A caller makes up the start events of a session, twice. -/
def startedTwice : List Action :=
  [.call (.emit (.start 1 sampleStart))] ++ delivering 0 [1] ++
    [.call (.emit (.ended 1 sampleEnd))] ++ delivering 1 [2] ++
    [.call (.emit (.start 1 sampleStart))] ++ delivering 2 [3] ++
    [.call (.emit (.ended 1 sampleEnd))] ++ delivering 3 [4]

theorem published_twice : ∃ s, (machine sampleLayout roomy 0).Reachable (fun _ => True) s ∧
    s.worker.committed.map Session.id = [1, 1] := by
  exact Machine.exists_reachable_of_run startedTwice (fun _ _ => trivial) (by decide +kernel)

end Store

end RsProxy.Trace
