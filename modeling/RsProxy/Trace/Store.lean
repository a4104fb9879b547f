import RsProxy.Trace.Worker

/-!
# The store and its queue

`TraceStore` stands between the threads of the proxy and the collector. A call reserves the bytes of
its command with a compare-and-swap on a shared counter, hands the command to a bounded channel, and
gives the bytes back if the channel does not take it; otherwise the collector gives them back when
it has applied the command. `Store` is all of this as one state, in which every access to something
shared is a step of its own. A submission has a ticket, by which it is followed through the places
where it can be.
-/

namespace RsProxy.Trace

open Data Rules Text

/-! ### Sizes of events -/

/-- The sizes of the records, with that of an event. -/
structure EventLayout extends Layout where
  event : Nat

def rulesBytes (layout : Layout) (rules : Buffer MatchedRule) : Nat :=
  satAdd (vectorStorageBytes rules.capacity layout.rule)
    (rules.items.map fun rule => satAdd (utf8Len rule.group) (utf8Len rule.raw)).sum

def TraceEvent.dynamicBytes (layout : Layout) : TraceEvent → Nat
  | .start _ fields =>
    [fields.url.capacity, fields.client.capacity].foldl satAdd fields.method.capacity
  | .request _ method url headers trailers matchedRules =>
    [optionStringBytes url, headersBytes layout headers, headersBytes layout trailers,
      rulesBytes layout matchedRules].foldl satAdd (optionStringBytes method)
  | .response _ _ headers trailers =>
    satAdd (headersBytes layout headers) (headersBytes layout trailers)
  | .bodyChunk _ _ data observedBytes => max data.length (min observedBytes wordMax)
  | .bodySnapshot _ _ data _ => data.length
  | .frame _ record => frameBytes record
  | .tls _ record => tlsBytes record
  | .ended _ fields =>
    [optionStringBytes fields.error, vectorStorageBytes fields.flags.capacity layout.string,
      (fields.flags.items.map Buffer.capacity).sum].foldl satAdd (optionStringBytes fields.upstream)
  | .abort _ => 0

def TraceEvent.estimatedBytes (layout : EventLayout) (event : TraceEvent) : Nat :=
  satAdd layout.event (event.dynamicBytes layout.toLayout)

/-! ### The configuration -/

structure TraceStoreConfig where
  maxSessions : Nat
  queueCapacity : Nat
  memoryBudgetBytes : Nat
  queueMemoryBudgetBytes : Option Nat
  bodyLimit : Nat

namespace TraceStoreConfig

def defaultTraceQueueMemoryBudget : Nat := 64 * 1024 * 1024

section

variable (config : TraceStoreConfig)

/-- The shares of the queue and of the resident sessions. -/
def memoryPartitions : Nat × Nat :=
  let total := config.memoryBudgetBytes
  let automatic := if total = 0 then 0 else min (max (total / 4) 1) defaultTraceQueueMemoryBudget
  let queue := min (config.queueMemoryBudgetBytes.getD automatic) total
  (queue, total - queue)

def queueBudget : Nat := config.memoryPartitions.1

def residentBudget : Nat := config.memoryPartitions.2

theorem queueBudget_add_residentBudget :
    config.queueBudget + config.residentBudget = config.memoryBudgetBytes :=
  Nat.add_sub_cancel' (min_le_right _ _)

end

end TraceStoreConfig

/-! ### Calls and what they submit -/

inductive Call where
  | record (session : Session)
  | start (fields : SessionStart)
  | finish (session : Session)
  | emit (event : TraceEvent)

inductive Submission where
  | single (event : TraceEvent)
  | record (session : Session)
  | finish (session : Session)

namespace Submission

def queuedBytes (layout : EventLayout) : Submission → Nat
  | .single event => event.estimatedBytes layout
  | .record session => estimateSessionBytes layout.toLayout session
  | .finish session => estimateSessionBytes layout.toLayout session

def events : Submission → List TraceEvent
  | .single event => [event]
  | .record session => TraceEvent.fromSession session
  | .finish session => TraceEvent.continuationFromSession session

/-- The command, applied at these times. -/
def command (times : List Nat) : Submission → Command
  | .single event => .event (times.headD 0) event
  | .record session => .events (times.zip (TraceEvent.fromSession session))
  | .finish session => .events (times.zip (TraceEvent.continuationFromSession session))

end Submission

/-! ### The state -/

/-- How far a call of `submit` has come. -/
inductive Phase where
  | loading
  | comparing (queued : Nat)
  /-- The budget has no room. -/
  | rejected
  /-- The budget has no room, and one of the two counters says so. -/
  | halfCounted
  | reserved
  /-- The channel has not taken the command. -/
  | refused
  | released
deriving DecidableEq

structure Producer where
  submission : Submission
  phase : Phase

inductive Message where
  | submitted (ticket : Nat) (submission : Submission)
  | query (command : Command)
  | shutdown

/-- What the collector thread is at. -/
inductive Collecting where
  | waiting
  | holding (ticket : Nat) (submission : Submission)
  /-- The command is applied, and its bytes are still to be given back. -/
  | applied (submission : Submission)
  | stopped

/-- The last four fields are the history: the number of submissions, those that the collector has
applied, those that were counted as dropped, and all commands that were applied. -/
structure Store where
  nextId : Nat
  queueDropped : Nat
  queueMemoryDropped : Nat
  queueBytes : Nat
  producers : AList fun _ : Nat => Producer
  channel : List Message
  collecting : Collecting
  worker : Worker
  isOpen : Bool
  tickets : Nat
  delivered : List Nat
  dropped : List Nat
  processed : List Command

inductive Action where
  | call (call : Call)
  | load (ticket value : Nat)
  /-- `compare_exchange_weak`, which may fail for no reason, with the value it read. -/
  | exchange (ticket : Nat) (actual : Option Nat)
  | send (ticket : Nat)
  | release (ticket : Nat)
  | count (ticket : Nat)
  | query (command : Command)
  /-- The last handle is dropped. -/
  | close
  | receive
  | apply (times : List Nat)
  | settle

def Message.isShutdown : Message → Bool
  | .shutdown => true
  | _ => false

def Collecting.isStopped : Collecting → Bool
  | .stopped => true
  | _ => false

/-- The commands that are sent with a reply channel. -/
def Command.isQuery : Command → Bool
  | .event _ _ => false
  | .events _ => false
  | _ => true

namespace Store

def new (config : TraceStoreConfig) (now : Nat) : Store where
  nextId := 1
  queueDropped := 0
  queueMemoryDropped := 0
  queueBytes := 0
  producers := ∅
  channel := []
  collecting := .waiting
  worker := .new config.maxSessions config.residentBudget config.bodyLimit now
  isOpen := true
  tickets := 0
  delivered := []
  dropped := []
  processed := []

/-- What a call submits, and the next identifier behind it. -/
def allot (s : Store) : Call → Option (Submission × Nat)
  | .record session => some (.record { session with id := s.nextId }, s.nextId + 1)
  | .start fields => some (.single (.start s.nextId fields), s.nextId + 1)
  | .finish session => if session.id = 0 then none else some (.finish session, s.nextId)
  | .emit event => some (.single event, s.nextId)

def begin (submission : Submission) (s : Store) : Store :=
  { s with
    producers := s.producers.insert s.tickets ⟨submission, .loading⟩
    tickets := s.tickets + 1 }

def enter (ticket : Nat) (submission : Submission) (phase : Phase) (s : Store) : Store :=
  { s with producers := s.producers.insert ticket ⟨submission, phase⟩ }

def leave (ticket : Nat) (s : Store) : Store := { s with producers := s.producers.erase ticket }

section Steps

variable (layout : EventLayout) (config : TraceStoreConfig)

/-- The test in `try_reserve` of a value that was read. Loads are relaxed, so that the value may be
an old one. -/
def checked (submission : Submission) (value : Nat) : Phase :=
  if config.queueBudget < satAdd value (submission.queuedBytes layout) then .rejected
  else .comparing value

def hasRoom (s : Store) : Bool :=
  decide (s.channel.length < max config.queueCapacity 1) && !s.collecting.isStopped

def receive (s : Store) : Option Store :=
  match s.collecting, s.channel with
  | .waiting, .submitted ticket submission :: rest =>
    some { s with channel := rest, collecting := .holding ticket submission }
  | .waiting, .query command :: rest =>
    some { s with
      channel := rest
      worker := s.worker.process layout.toLayout command
      processed := s.processed ++ [command] }
  | .waiting, .shutdown :: rest => some { s with channel := rest, collecting := .stopped }
  | _, _ => none

def step (s : Store) : Action → Option Store
  | .call call =>
    match s.allot call with
    | some (submission, nextId) =>
      if s.isOpen then some { s.begin submission with nextId } else none
    | none => none
  | .load ticket value =>
    match s.producers.lookup ticket with
    | some ⟨submission, .loading⟩ =>
      some (s.enter ticket submission (checked layout config submission value))
    | _ => none
  | .exchange ticket actual =>
    match s.producers.lookup ticket, actual with
    | some ⟨submission, .comparing queued⟩, none =>
      if s.queueBytes = queued then
        some { s.enter ticket submission .reserved with
          queueBytes := satAdd queued (submission.queuedBytes layout) }
      else none
    | some ⟨submission, .comparing _⟩, some value =>
      some (s.enter ticket submission (checked layout config submission value))
    | _, _ => none
  | .send ticket =>
    match s.producers.lookup ticket with
    | some ⟨submission, .reserved⟩ =>
      if s.hasRoom config then
        some { s.leave ticket with channel := s.channel ++ [.submitted ticket submission] }
      else some (s.enter ticket submission .refused)
    | _ => none
  | .release ticket =>
    match s.producers.lookup ticket with
    | some ⟨submission, .refused⟩ =>
      some { s.enter ticket submission .released with
        queueBytes := s.queueBytes - submission.queuedBytes layout }
    | _ => none
  | .count ticket =>
    match s.producers.lookup ticket with
    | some ⟨submission, .rejected⟩ =>
      some { s.enter ticket submission .halfCounted with queueDropped := s.queueDropped + 1 }
    | some ⟨_, .halfCounted⟩ =>
      some { s.leave ticket with
        queueMemoryDropped := s.queueMemoryDropped + 1
        dropped := s.dropped ++ [ticket] }
    | some ⟨_, .released⟩ =>
      some { s.leave ticket with
        queueDropped := s.queueDropped + 1
        dropped := s.dropped ++ [ticket] }
    | _ => none
  | .query command =>
    if s.isOpen && command.isQuery && s.hasRoom config then
      some { s with channel := s.channel ++ [.query command] }
    else none
  | .close =>
    if s.isOpen && s.producers.entries.isEmpty && s.hasRoom config then
      some { s with isOpen := false, channel := s.channel ++ [.shutdown] }
    else none
  | .receive => s.receive layout
  | .apply times =>
    match s.collecting with
    | .holding ticket submission =>
      if times.length = submission.events.length then
        some { s with
          worker := s.worker.process layout.toLayout (submission.command times)
          collecting := .applied submission
          delivered := s.delivered ++ [ticket]
          processed := s.processed ++ [submission.command times] }
      else none
    | _ => none
  | .settle =>
    match s.collecting with
    | .applied submission =>
      some { s with
        collecting := .waiting
        queueBytes := s.queueBytes - submission.queuedBytes layout }
    | _ => none

def machine (now : Nat) : Machine Store Action := ⟨new config now, step layout config⟩

/-- Small records, for runs that are computed. -/
def sampleLayout : EventLayout := ⟨Worker.smallLayout, 200⟩

/-- All that a step can do. -/
inductive Moved (s : Store) : Action → Store → Prop where
  | called {call submission nextId} (hopen : s.isOpen)
      (hallot : s.allot call = some (submission, nextId)) :
      Moved s (.call call) { s.begin submission with nextId }
  | loaded {ticket submission} (value : Nat)
      (hlookup : s.producers.lookup ticket = some ⟨submission, .loading⟩) :
      Moved s (.load ticket value)
        (s.enter ticket submission (checked layout config submission value))
  | failed {ticket submission queued} (value : Nat)
      (hlookup : s.producers.lookup ticket = some ⟨submission, .comparing queued⟩) :
      Moved s (.exchange ticket (some value))
        (s.enter ticket submission (checked layout config submission value))
  | reserved {ticket submission}
      (hlookup : s.producers.lookup ticket = some ⟨submission, .comparing s.queueBytes⟩) :
      Moved s (.exchange ticket none) { s.enter ticket submission .reserved with
        queueBytes := satAdd s.queueBytes (submission.queuedBytes layout) }
  | sent {ticket submission}
      (hlookup : s.producers.lookup ticket = some ⟨submission, .reserved⟩)
      (hroom : s.hasRoom config) :
      Moved s (.send ticket)
        { s.leave ticket with channel := s.channel ++ [.submitted ticket submission] }
  | refused {ticket submission}
      (hlookup : s.producers.lookup ticket = some ⟨submission, .reserved⟩) :
      Moved s (.send ticket) (s.enter ticket submission .refused)
  | released {ticket submission}
      (hlookup : s.producers.lookup ticket = some ⟨submission, .refused⟩) :
      Moved s (.release ticket) { s.enter ticket submission .released with
        queueBytes := s.queueBytes - submission.queuedBytes layout }
  | halfCounted {ticket submission}
      (hlookup : s.producers.lookup ticket = some ⟨submission, .rejected⟩) :
      Moved s (.count ticket)
        { s.enter ticket submission .halfCounted with queueDropped := s.queueDropped + 1 }
  | overBudget {ticket submission}
      (hlookup : s.producers.lookup ticket = some ⟨submission, .halfCounted⟩) :
      Moved s (.count ticket) { s.leave ticket with
        queueMemoryDropped := s.queueMemoryDropped + 1
        dropped := s.dropped ++ [ticket] }
  | notTaken {ticket submission}
      (hlookup : s.producers.lookup ticket = some ⟨submission, .released⟩) :
      Moved s (.count ticket) { s.leave ticket with
        queueDropped := s.queueDropped + 1
        dropped := s.dropped ++ [ticket] }
  | queried {command} (hopen : s.isOpen) (hquery : command.isQuery) :
      Moved s (.query command) { s with channel := s.channel ++ [.query command] }
  | closed (hopen : s.isOpen) (hproducers : s.producers.entries = []) :
      Moved s .close { s with isOpen := false, channel := s.channel ++ [.shutdown] }
  | took {ticket submission rest}
      (hcollecting : s.collecting = .waiting)
      (hchannel : s.channel = .submitted ticket submission :: rest) :
      Moved s .receive { s with channel := rest, collecting := .holding ticket submission }
  | answered {command rest} (hcollecting : s.collecting = .waiting)
      (hchannel : s.channel = .query command :: rest) :
      Moved s .receive { s with
        channel := rest
        worker := s.worker.process layout.toLayout command
        processed := s.processed ++ [command] }
  | stopped {rest} (hcollecting : s.collecting = .waiting)
      (hchannel : s.channel = .shutdown :: rest) :
      Moved s .receive { s with channel := rest, collecting := .stopped }
  | applied {ticket submission times}
      (hcollecting : s.collecting = .holding ticket submission)
      (htimes : times.length = submission.events.length) :
      Moved s (.apply times) { s with
        worker := s.worker.process layout.toLayout (submission.command times)
        collecting := .applied submission
        delivered := s.delivered ++ [ticket]
        processed := s.processed ++ [submission.command times] }
  | settled {submission} (hcollecting : s.collecting = .applied submission) :
      Moved s .settle { s with
        collecting := .waiting
        queueBytes := s.queueBytes - submission.queuedBytes layout }

variable {layout config} {s s' : Store}

theorem moved_receive (h : s.receive layout = some s') : Moved layout config s .receive s' := by
  rw [receive.eq_def] at h
  split at h
  next hcollecting hchannel =>
    cases h
    exact .took hcollecting hchannel
  next hcollecting hchannel =>
    cases h
    exact .answered hcollecting hchannel
  next hcollecting hchannel =>
    cases h
    exact .stopped hcollecting hchannel
  · cases h

theorem moved_step {action} (h : step layout config s action = some s') :
    Moved layout config s action s' := by
  cases action with
  | call call =>
    simp only [step] at h
    split at h
    next submission nextId hallot =>
      split_ifs at h with hopen
      cases h
      exact .called hopen hallot
    · cases h
  | load ticket value | release ticket | count ticket | settle =>
    simp only [step] at h
    split at h
    all_goals cases h
    all_goals
      constructor
      assumption
  | exchange ticket actual =>
    simp only [step] at h
    split at h
    next hlookup =>
      split_ifs at h with hqueued
      cases hqueued
      cases h
      exact .reserved hlookup
    next hlookup =>
      cases h
      exact .failed _ hlookup
    · cases h
  | send ticket =>
    simp only [step] at h
    split at h
    next hlookup =>
      split at h
      next hroom =>
        cases h
        exact .sent hlookup hroom
      · cases h
        exact .refused hlookup
    · cases h
  | query command =>
    simp only [step] at h
    split_ifs at h with hquery
    simp only [Bool.and_eq_true] at hquery
    cases h
    exact .queried hquery.1.1 hquery.1.2
  | close =>
    simp only [step] at h
    split_ifs at h with hclose
    simp only [Bool.and_eq_true, List.isEmpty_iff] at hclose
    cases h
    exact .closed hclose.1.1 hclose.1.2
  | receive => exact moved_receive h
  | apply times =>
    simp only [step] at h
    split at h
    next hcollecting =>
      split_ifs at h with htimes
      cases h
      exact .applied hcollecting htimes
    · cases h

end Steps

end Store

end RsProxy.Trace
