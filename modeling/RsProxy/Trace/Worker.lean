import RsProxy.Data.Machine
import RsProxy.Trace.Memory
import RsProxy.Trace.Pending

/-!
# The collector

`TraceWorker` takes commands one by one: single events and batches of them, queries, and the order
to clear. A session that ends is committed, which stores it and hands it to the followers. After
every command that brings events the memory budget is enforced, on the pending sessions first and
with what they leave on the ones that have ended.
-/

namespace RsProxy.Trace

open Data List PendingSessions MemoryStore Nat TraceEvent

/-- A subscriber and what its channel holds. -/
structure Follower where
  alive : Bool
  connected : Bool
  capacity : Nat
  channel : List Session

/-- The collector's state, with all that it has committed. -/
structure Worker where
  memory : MemoryStore
  pending : PendingSessions
  followers : List Follower
  followDropped : Nat
  committed : List Session

/-- What is sent to the collector. An event comes with the time at which it is applied. Queries read
the state and leave it as it is. -/
inductive Command where
  | event (now : Nat) (event : TraceEvent)
  | events (events : List (Nat × TraceEvent))
  | clear
  | stats
  | follow (after backlogLimit capacity : Nat) (answered : Bool)
  | query

variable {events : List (Nat × TraceEvent)} {w' : Worker} (session : Session) {command : Command}

namespace Worker

def new (maxSessions residentMemoryBudgetBytes bodyLimit now : Nat) : Worker :=
  ⟨.new maxSessions residentMemoryBudgetBytes, .new bodyLimit now, [], 0, []⟩

/-- Followers that are gone are forgotten; one whose channel is full misses the session. -/
def publish (session : Session) (w : Worker) : Worker :=
  let active := w.followers.filter fun f => f.alive && f.connected
  { w with
    followers := active.map fun f =>
      if f.channel.length < f.capacity then { f with channel := f.channel ++ [session] } else f
    followDropped :=
      satAdd w.followDropped (active.countP fun f => f.capacity ≤ f.channel.length) }

def follow (after backlogLimit capacity : Nat) (answered : Bool) (w : Worker) :
    List Session × Worker :=
  (w.memory.listAfter after backlogLimit,
    if answered then { w with followers := w.followers ++ [⟨true, true, capacity, []⟩] } else w)

def clear (w : Worker) : Worker :=
  { w with memory := w.memory.clear, pending := w.pending.clear }

section Operations

variable (layout : Layout)

def commit (session : Session) (w : Worker) : Worker :=
  { w with
    memory := w.memory.insert layout session
    committed := w.committed ++ [session] }.publish session

/-- Evict sessions down to what the pending ones leave of the budget. -/
def evict (w : Worker) : Worker :=
  let budget := w.memory.memoryBudgetBytes
  { w with memory := w.memory.evictToBudget (budget - w.pending.memoryBytes) }

/-- The session at hand is given up if the pending ones take too much. -/
def enforceMemoryBudget (currentId : Option Nat) (w : Worker) : Worker :=
  match currentId with
  | some id =>
    if w.memory.memoryBudgetBytes < w.pending.memoryBytes then
      { w with pending := w.pending.abort layout id }.evict
    else w.evict
  | none => w.evict

/-- `apply_event` before the budget is enforced. -/
def collect (now : Nat) (event : TraceEvent) (w : Worker) : Worker :=
  match (w.pending.apply layout now event).1 with
  | none => { w with pending := (w.pending.apply layout now event).2 }
  | some session => { w with pending := (w.pending.apply layout now event).2 }.commit layout session

def applyEvent (now : Nat) (event : TraceEvent) (enforceBudget : Bool) (w : Worker) : Worker :=
  let w := w.collect layout now event
  if enforceBudget then w.enforceMemoryBudget layout (some event.sessionId) else w

def applyEvents (events : List (Nat × TraceEvent)) (w : Worker) : Worker :=
  events.foldl (fun w (now, event) => w.applyEvent layout now event false) w

def process (w : Worker) : Command → Worker
  | .event now event => w.applyEvent layout now event true
  | .events events => (w.applyEvents layout events).enforceMemoryBudget layout none
  | .clear => w.clear
  | .stats => { w with followers := w.followers.filter Follower.alive }
  | .follow after backlogLimit capacity answered =>
    (w.follow after backlogLimit capacity answered).2
  | .query => w

end Operations

/-! ### The books -/

variable {layout : Layout} {w : Worker}

/-- The committed sessions that were not turned away. -/
def admitted (layout : Layout) (w : Worker) : List Session :=
  w.committed.filter fun session => !w.memory.Refuses (estimateSessionBytes layout session)

/-- The counters are exact, and the resident sessions are the last ones that came in. -/
structure Books (layout : Layout) (w : Worker) : Prop where
  pending : w.pending.Exact layout
  memory : w.memory.Exact layout
  length_le : w.memory.sessions.length ≤ w.memory.maxSessions
  suffix : w.memory.resident <:+ w.admitted layout

/-- The limits are those of another state. -/
structure SameLimits (w w' : Worker) : Prop where
  maxSessions : w'.memory.maxSessions = w.memory.maxSessions
  budget : w'.memory.memoryBudgetBytes = w.memory.memoryBudgetBytes

theorem SameLimits.refl (w : Worker) : SameLimits w w := ⟨rfl, rfl⟩

theorem SameLimits.trans {w₁ w₂ w₃} (h : SameLimits w₁ w₂) (h' : SameLimits w₂ w₃) :
    SameLimits w₁ w₃ := ⟨h'.maxSessions.trans h.maxSessions, h'.budget.trans h.budget⟩

theorem SameLimits.refuses {w} (h : SameLimits w w') (bytes : Nat) :
    w'.memory.Refuses bytes ↔ w.memory.Refuses bytes := by
  rw [MemoryStore.Refuses, MemoryStore.Refuses, h.maxSessions, h.budget]

theorem sameLimits_commit : SameLimits w (w.commit layout session) :=
  ⟨maxSessions_insert w.memory, budget_insert w.memory⟩

theorem admitted_commit :
    (w.commit layout session).admitted layout = w.admitted layout ++
      if w.memory.Refuses (estimateSessionBytes layout session) then [] else [session] := by
  show filter _ (w.committed ++ [session]) = _
  have hsame (s : Session) :
      (!decide ((w.commit layout session).memory.Refuses (estimateSessionBytes layout s))) =
        !decide (w.memory.Refuses (estimateSessionBytes layout s)) := by
    rw [decide_eq_decide.mpr ((sameLimits_commit session).refuses _)]
  rw [filter_append, filter_congr fun s _ => hsame s]
  rw [filter_congr fun s _ => hsame s]
  by_cases hrefuses : w.memory.Refuses (estimateSessionBytes layout session)
  · rw [if_pos hrefuses, filter_singleton, decide_eq_true hrefuses]
    rfl
  · rw [if_neg hrefuses, filter_singleton, decide_eq_false hrefuses]
    rfl

theorem Books.commit (h : w.Books layout) {session}
    (hfits : w.memory.total layout + estimateSessionBytes layout session ≤ wordMax) :
    (w.commit layout session).Books layout where
  pending := h.pending
  memory := h.memory.insert hfits
  length_le := by
    rw [(sameLimits_commit session).maxSessions]
    exact length_insert session h.length_le
  suffix := by
    rw [admitted_commit]
    obtain ⟨before, hbefore⟩ := h.suffix
    rw [← hbefore, append_assoc]
    exact (resident_insert session).trans (suffix_append before _)

theorem pending_collect (now : Nat) (event : TraceEvent) :
    (w.collect layout now event).pending = (w.pending.apply layout now event).2 := by
  rw [collect]
  split <;> rfl

theorem sameLimits_collect (layout : Layout) (w : Worker) (now : Nat) (event : TraceEvent) :
    SameLimits w (w.collect layout now event) := by
  rw [collect]
  split
  · exact ⟨rfl, rfl⟩
  · exact ⟨maxSessions_insert w.memory, budget_insert w.memory⟩

/-! ### Sums that fit -/

/-- The sums that an event makes the collector compute fit in a word. -/
def fitsEvent (layout : Layout) (now : Nat) (event : TraceEvent) (w : Worker) : Bool :=
  decide ((w.pending.apply layout now event).2.total layout ≤ wordMax) &&
    ((w.pending.apply layout now event).1.all fun session =>
      w.memory.total layout + estimateSessionBytes layout session ≤ wordMax)

def fitsEvents (layout : Layout) : List (Nat × TraceEvent) → Worker → Bool
  | [], _ => true
  | (now, event) :: events, w =>
    w.fitsEvent layout now event && (w.collect layout now event).fitsEvents layout events

def fits (layout : Layout) (w : Worker) : Command → Bool
  | .event now event => w.fitsEvent layout now event
  | .events events => w.fitsEvents layout events
  | _ => true

theorem Books.collect (h : w.Books layout) {now event} (hfits : w.fitsEvent layout now event) :
    (w.collect layout now event).Books layout := by
  rw [fitsEvent, Bool.and_eq_true, decide_eq_true_eq] at hfits
  obtain ⟨htotal, hcommitted⟩ := hfits
  have hpending : (w.pending.apply layout now event).2.Exact layout :=
    (local_apply layout w.pending now event).exact h.pending htotal
  have hbooks :
      ({ w with pending := (w.pending.apply layout now event).2 } : Worker).Books layout :=
    ⟨hpending, h.memory, h.length_le, h.suffix⟩
  rw [Worker.collect]
  split
  next hended =>
    exact hbooks
  next session hended =>
    rw [hended] at hcommitted
    exact hbooks.commit (of_decide_eq_true hcommitted)

theorem applyEvents_cons (now : Nat) (event : TraceEvent) (events : List (Nat × TraceEvent)) :
    w.applyEvents layout ((now, event) :: events) =
      (w.collect layout now event).applyEvents layout events := rfl

theorem applyEvents_append (before after : List (Nat × TraceEvent)) :
    w.applyEvents layout (before ++ after) =
      (w.applyEvents layout before).applyEvents layout after := foldl_append

theorem Books.applyEvents (h : w.Books layout) (hfits : w.fitsEvents layout events) :
    (w.applyEvents layout events).Books layout := by
  induction events generalizing w with
  | nil => exact h
  | cons timed events ih =>
    rw [fitsEvents, Bool.and_eq_true] at hfits
    exact ih (h.collect hfits.1) hfits.2

theorem sameLimits_applyEvents (w : Worker) : SameLimits w (w.applyEvents layout events) := by
  induction events generalizing w with
  | nil => exact .refl w
  | cons timed events ih =>
    exact (sameLimits_collect layout w timed.1 timed.2).trans (ih _)

/-- Events of one session do not add to the others. -/
theorem others_applyEvents_le {id} (hid : ∀ timed ∈ events, timed.2.sessionId = id) :
    (w.applyEvents layout events).pending.others layout id ≤ w.pending.others layout id := by
  induction events generalizing w with
  | nil => exact le_rfl
  | cons timed events ih =>
    rw [forall_mem_cons] at hid
    have hle := (local_apply layout w.pending timed.1 timed.2).others_le
    rw [hid.1, ← pending_collect] at hle
    exact (ih hid.2).trans hle

theorem SameLimits.admitted (h : SameLimits w w') (hcommitted : w'.committed = w.committed) :
    w'.admitted layout = w.admitted layout := by
  rw [Worker.admitted, hcommitted]
  apply filter_congr
  intro s _
  rw [decide_eq_decide.mpr (h.refuses _)]

theorem evicted_evict (w : Worker) : MemoryStore.Evicted w.memory w.evict.memory :=
  evicted_evictWhile _ w.memory

theorem sameLimits_evict (w : Worker) : SameLimits w w.evict :=
  ⟨(evicted_evict w).maxSessions_eq, (evicted_evict w).budget_eq⟩

theorem Books.evict (h : w.Books layout) : w.evict.Books layout where
  pending := h.pending
  memory := (evicted_evict w).exact h.memory
  length_le := by
    rw [(sameLimits_evict w).maxSessions]
    exact (evicted_evict w).suffix.length_le.trans h.length_le
  suffix := by
    rw [(sameLimits_evict w).admitted rfl]
    exact ((evicted_evict w).suffix.map _).trans h.suffix

theorem sameLimits_enforceMemoryBudget (layout : Layout) (currentId : Option Nat) (w : Worker) :
    SameLimits w (w.enforceMemoryBudget layout currentId) := by
  cases currentId with
  | none => exact sameLimits_evict w
  | some id =>
    rw [enforceMemoryBudget]
    split
    · have habort := sameLimits_evict { w with pending := w.pending.abort layout id }
      exact ⟨habort.maxSessions, habort.budget⟩
    · exact sameLimits_evict w

theorem Books.enforceMemoryBudget (h : w.Books layout) (currentId : Option Nat) :
    (w.enforceMemoryBudget layout currentId).Books layout := by
  cases currentId with
  | none => exact h.evict
  | some id =>
    rw [Worker.enforceMemoryBudget]
    split
    · apply Books.evict
      refine ⟨?_, h.memory, h.length_le, h.suffix⟩
      have hle := (total_abort_le layout w.pending id).trans h.pending.total_le
      exact (local_abort id).exact h.pending hle
    · exact h.evict

/-! ### The budget

The bound is one on the counters and needs no sum to fit: what an event adds to the counter it
adds for its own session, and that is what an abort takes off again. -/

structure Within (w : Worker) : Prop where
  covered : w.memory.Covered
  sum_le : w.memory.memoryBytes + w.pending.memoryBytes ≤ w.memory.memoryBudgetBytes

theorem covered_collect (layout : Layout) (w : Worker) (now : Nat) (event : TraceEvent)
    (h : w.memory.Covered) :
    (w.collect layout now event).memory.Covered := by
  rw [collect]
  split
  · exact h
  · exact h.insert _

theorem covered_applyEvents (h : w.memory.Covered) :
    (w.applyEvents layout events).memory.Covered := by
  induction events generalizing w with
  | nil => exact h
  | cons timed events ih => exact ih (covered_collect layout w timed.1 timed.2 h)

/-- Evicting to what the pending sessions leave brings the sum within the budget. -/
theorem within_evict (h : w.memory.Covered)
    (hpending : w.pending.memoryBytes ≤ w.memory.memoryBudgetBytes) : w.evict.Within := by
  refine ⟨(evicted_evict w).covered h, ?_⟩
  have hle : w.evict.memory.memoryBytes ≤ w.memory.memoryBudgetBytes - w.pending.memoryBytes :=
    evictToBudget_le h
  rw [(sameLimits_evict w).budget]
  show w.evict.memory.memoryBytes + w.pending.memoryBytes ≤ _
  omega

theorem Within.applyEvent (h : w.Within) (now : Nat) (event : TraceEvent) :
    (w.applyEvent layout now event true).Within := by
  have hcovered := covered_collect layout w now event h.covered
  have hbudget := (sameLimits_collect layout w now event).budget
  have hothers : (w.collect layout now event).pending.others layout event.sessionId ≤
      w.memory.memoryBudgetBytes := by
    rw [pending_collect]
    calc (w.pending.apply layout now event).2.others layout event.sessionId
      _ ≤ w.pending.others layout event.sessionId :=
        (local_apply layout w.pending now event).others_le
      _ ≤ w.pending.memoryBytes := others_le _
      _ ≤ w.memory.memoryBudgetBytes := (le_add_left _ _).trans h.sum_le
  rw [Worker.applyEvent, if_pos rfl, Worker.enforceMemoryBudget]
  split
  · refine within_evict ?_ ?_
    · exact hcovered
    · rwa [memoryBytes_abort, hbudget]
  next hwithin => exact within_evict hcovered (Nat.le_of_not_lt hwithin)

/-- A batch that ends its session leaves the counter no higher than it was. -/
theorem Within.applyEvents (h : w.Within) {now id fields}
    (hid : ∀ timed ∈ events, timed.2.sessionId = id) :
    ((w.applyEvents layout (events ++ [(now, .ended id fields)])).enforceMemoryBudget layout
      none).Within := by
  apply within_evict (covered_applyEvents h.covered)
  have hlast : (w.applyEvents layout (events ++ [(now, .ended id fields)])).pending =
      (((w.applyEvents layout events).pending.expireStale layout now).close layout id
        fields).2 := by
    rw [applyEvents_append]
    exact pending_collect now _
  rw [(sameLimits_applyEvents w).budget, hlast, memoryBytes_close]
  calc ((w.applyEvents layout events).pending.expireStale layout now).others layout id
    _ ≤ (w.applyEvents layout events).pending.others layout id := others_expireStale_le
    _ ≤ w.pending.others layout id := others_applyEvents_le hid
    _ ≤ w.pending.memoryBytes := others_le id
    _ ≤ w.memory.memoryBudgetBytes := (le_add_left _ _).trans h.sum_le

end Worker

/-! ### Whole runs -/

/-- The batches that `record` and `finish` submit are the events of one session. -/
def Command.Submitted : Command → Prop
  | .events batch => ∃ session, batch.map Prod.snd = fromSession session ∨
      batch.map Prod.snd = continuationFromSession session
  | _ => True

/-- A batch ends the session that all its events belong to. -/
theorem exists_of_submitted {batch} (h : (Command.events batch).Submitted) :
    ∃ before now id fields, batch = before ++ [(now, .ended id fields)] ∧
      ∀ timed ∈ before, timed.2.sessionId = id := by
  obtain ⟨session, hsession⟩ := h
  obtain ⟨init, hinit, hid⟩ : ∃ init,
      batch.map Prod.snd = init ++ [.ended session.id session.ending] ∧
        ∀ event ∈ init, event.sessionId = session.id := by
    rcases hsession with hall | hrest
    · refine ⟨.start session.id session.start :: filling session, hall, ?_⟩
      rw [forall_mem_cons]
      exact ⟨rfl, fun _ h => (of_mem_filling h).2⟩
    · exact ⟨filling session, hrest, fun _ h => (of_mem_filling h).2⟩
  obtain ⟨before, last, rfl, rfl, hlast⟩ := map_eq_append_iff.mp hinit
  obtain ⟨⟨now, event⟩, rfl, rfl⟩ := map_eq_singleton_iff.mp hlast
  exact ⟨before, now, session.id, session.ending, rfl, forall_mem_map.mp hid⟩

namespace Worker

variable {layout : Layout} {w : Worker}

theorem Books.process (h : w.Books layout) (hfits : w.fits layout command) :
    (w.process layout command).Books layout := by
  cases command with
  | event now event => exact (h.collect hfits).enforceMemoryBudget (some event.sessionId)
  | events batch => exact (h.applyEvents hfits).enforceMemoryBudget none
  | clear => exact ⟨⟨rfl, zero_le _⟩, .clear, zero_le _, nil_suffix⟩
  | stats => exact ⟨h.pending, h.memory, h.length_le, h.suffix⟩
  | follow after backlogLimit capacity answered =>
    cases answered with
    | true => exact ⟨h.pending, h.memory, h.length_le, h.suffix⟩
    | false => exact h
  | query => exact h

theorem Within.process (h : w.Within) (hsubmitted : command.Submitted) :
    (w.process layout command).Within := by
  cases command with
  | event now event => exact h.applyEvent now event
  | events batch =>
    obtain ⟨before, now, id, fields, rfl, hid⟩ := exists_of_submitted hsubmitted
    exact h.applyEvents hid
  | clear => exact ⟨zero_le _, zero_le _⟩
  | stats => exact ⟨h.covered, h.sum_le⟩
  | follow after backlogLimit capacity answered =>
    cases answered with
    | true => exact ⟨h.covered, h.sum_le⟩
    | false => exact h
  | query => exact h

def machine (layout : Layout) (maxSessions residentBudget bodyLimit now : Nat) :
    Machine Worker Command where
  initial := .new maxSessions residentBudget bodyLimit now
  step w command := some (w.process layout command)

theorem sameLimits_process (w : Worker) : SameLimits w (w.process layout command) := by
  cases command with
  | event now event =>
    have henforce := sameLimits_enforceMemoryBudget layout (some event.sessionId)
      (w.collect layout now event)
    exact (sameLimits_collect layout w now event).trans henforce
  | events batch =>
    have henforce := sameLimits_enforceMemoryBudget layout none (w.applyEvents layout batch)
    exact (sameLimits_applyEvents w).trans henforce
  | follow after backlogLimit capacity answered => cases answered <;> exact ⟨rfl, rfl⟩
  | clear | stats | query => exact ⟨rfl, rfl⟩

/-- After any commands that the store submits, as long as the sums of estimates fit in a word: the
counters are exact, all that is kept is within the budget, and the resident sessions are the last of
those that were not turned away. -/
theorem memory_bounded {layout : Layout} {maxSessions residentBudget bodyLimit now : Nat}
    {w : Worker} (h : ((machine layout maxSessions residentBudget bodyLimit now).restrict
      (fits layout)).Reachable Command.Submitted w) :
    w.pending.memoryBytes = w.pending.total layout ∧
      w.memory.memoryBytes = w.memory.total layout ∧
      w.memory.memoryBytes + w.pending.memoryBytes ≤ residentBudget ∧
      w.memory.sessions.length ≤ maxSessions ∧
      w.memory.resident <:+ w.admitted layout := by
  let initial : Worker := .new maxSessions residentBudget bodyLimit now
  obtain ⟨hbooks, hwithin, hlimits⟩ : w.Books layout ∧ w.Within ∧ SameLimits initial w := by
    refine h.invariant (I := fun w => w.Books layout ∧ w.Within ∧ SameLimits initial w) ?_ ?_
    · exact ⟨⟨⟨rfl, zero_le _⟩, ⟨forall_mem_nil _, rfl⟩, zero_le _, suffix_rfl⟩,
        ⟨zero_le _, zero_le _⟩, .refl _⟩
    · intro w w' command _ hw hsubmitted hstep
      obtain ⟨hfits, hprocess⟩ := Machine.restrict_step hstep
      cases hprocess
      exact ⟨hw.1.process hfits, hw.2.1.process hsubmitted,
        hw.2.2.trans (sameLimits_process w)⟩
  refine ⟨hbooks.pending.memoryBytes_eq, hbooks.memory.memoryBytes_eq, ?_, ?_, hbooks.suffix⟩
  · calc w.memory.memoryBytes + w.pending.memoryBytes
      _ ≤ w.memory.memoryBudgetBytes := hwithin.sum_le
      _ = residentBudget := hlimits.budget
  · calc w.memory.sessions.length
      _ ≤ w.memory.maxSessions := hbooks.length_le
      _ = maxSessions := hlimits.maxSessions

/-- Small records, and vectors that grow to what they need. -/
def smallLayout : Layout := ⟨100, 24, 48, 40, 80, 120, fun _ needed => needed⟩

def sampleStart : SessionStart := ⟨.http, 0, ⟨[], 3⟩, ⟨[], 20⟩, ⟨[], 9⟩⟩

def sampleEnd : SessionEnd := ⟨.http, 1, 0, 0, 0, 0, none, none, none, .empty, none⟩

/-- Three sessions with room for two of them: the oldest is gone. -/
theorem memory_of_three : ∃ w : Worker, w.committed.length = 3 ∧ w.memory.sessions.length = 2 ∧
    w.memory.memoryBytes = w.memory.total smallLayout ∧
    w.memory.memoryBytes + w.pending.memoryBytes ≤ 300 := by
  let commands : List Command :=
    [.event 1 (.start 1 sampleStart), .event 2 (.start 2 sampleStart),
      .event 3 (.ended 2 sampleEnd), .event 4 (.ended 1 sampleEnd),
      .event 5 (.start 3 sampleStart), .event 6 (.ended 3 sampleEnd)]
  have hsubmitted : ∀ command ∈ commands, command.Submitted := by
    intro command hcommand
    simp only [commands, mem_cons, not_mem_nil, or_false] at hcommand
    rcases hcommand with rfl | rfl | rfl | rfl | rfl | rfl <;> trivial
  obtain ⟨w, hw, hcommitted, hsessions⟩ := Machine.exists_reachable_of_run
    (m := (machine smallLayout 8 300 10 0).restrict (fits smallLayout)) commands hsubmitted
    (p := fun w => w.committed.length = 3 ∧ w.memory.sessions.length = 2) (by decide +kernel)
  obtain ⟨-, hexact, hbudget, -, -⟩ := memory_bounded hw
  exact ⟨w, hcommitted, hsessions, hexact, hbudget⟩

end Worker

end RsProxy.Trace
