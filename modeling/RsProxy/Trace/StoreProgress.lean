import RsProxy.Trace.StoreAccounts

/-!
# Every submission can be settled

From every state the threads that submit something can come to an end, one after the other, and then
the collector can work off the channel. At the end of that each submission was applied once or
counted as dropped, and nothing is reserved.
-/

namespace RsProxy.Trace

open Data List

variable {p : Producer} {message : Message} {rest : List Message} {phase : Phase}
  {P : Message → Prop}

namespace Store

variable {layout : EventLayout} {config : TraceStoreConfig} {now : Nat} {s s' : Store}
  {action : Action}

/-! ### A thread comes to an end -/

/-- One thread fewer is at work, with no new submission. -/
def CanLeave (layout : EventLayout) (config : TraceStoreConfig) (now : Nat) (s : Store) : Prop :=
  ∃ s', (machine layout config now).CanReach s s' ∧ s'.tickets = s.tickets ∧
    s'.producers.keys.length < s.producers.keys.length

section Leaving

variable {ticket : Nat} {submission : Submission}

/-- The thread leaves with one step. -/
theorem CanLeave.of_leave {action} (hlookup : s.producers.lookup ticket = some p)
    (hstep : step layout config s action = some s')
    (hproducers : s'.producers = (s.leave ticket).producers) (htickets : s'.tickets = s.tickets) :
    s.CanLeave layout config now := by
  refine ⟨s', (Machine.CanReach.refl s').step hstep, htickets, ?_⟩
  rw [hproducers, (keys_perm_cons_erase hlookup).length_eq]
  exact Nat.lt_succ_self _

/-- The thread takes one step, after which it can leave. -/
theorem CanLeave.of_enter {action phase'}
    (hlookup : s.producers.lookup ticket = some ⟨submission, phase⟩)
    (hstep : step layout config s action = some s')
    (hproducers : s'.producers = (s.enter ticket submission phase').producers)
    (htickets : s'.tickets = s.tickets)
    (h : s'.producers.lookup ticket = some ⟨submission, phase'⟩ → s'.CanLeave layout config now) :
    s.CanLeave layout config now := by
  have hlookup' : s'.producers.lookup ticket = some ⟨submission, phase'⟩ := by
    rw [hproducers]
    exact AList.lookup_insert _
  obtain ⟨t, hreach, ht, hlength⟩ := h hlookup'
  refine ⟨t, hreach.step hstep, ht.trans htickets, ?_⟩
  have hkeys := (keys_insert_perm (⟨submission, phase'⟩ : Producer) hlookup).length_eq
  rw [hproducers] at hlength
  exact hlength.trans_eq hkeys

theorem canLeave_halfCounted
    (hlookup : s.producers.lookup ticket = some ⟨submission, .halfCounted⟩) :
    s.CanLeave layout config now := by
  have hstep : step layout config s (.count ticket) = some { s.leave ticket with
      queueMemoryDropped := s.queueMemoryDropped + 1
      dropped := s.dropped ++ [ticket] } := by simp only [step, hlookup]
  exact .of_leave hlookup hstep rfl rfl

theorem canLeave_released (hlookup : s.producers.lookup ticket = some ⟨submission, .released⟩) :
    s.CanLeave layout config now := by
  have hstep : step layout config s (.count ticket) = some { s.leave ticket with
      queueDropped := s.queueDropped + 1
      dropped := s.dropped ++ [ticket] } := by simp only [step, hlookup]
  exact .of_leave hlookup hstep rfl rfl

theorem canLeave_rejected (hlookup : s.producers.lookup ticket = some ⟨submission, .rejected⟩) :
    s.CanLeave layout config now := by
  have hstep : step layout config s (.count ticket) =
    some { s.enter ticket submission .halfCounted with
      queueDropped := s.queueDropped + 1 } := by simp only [step, hlookup]
  exact .of_enter hlookup hstep rfl rfl canLeave_halfCounted

theorem canLeave_refused (hlookup : s.producers.lookup ticket = some ⟨submission, .refused⟩) :
    s.CanLeave layout config now := by
  have hstep : step layout config s (.release ticket) =
    some { s.enter ticket submission .released with
      queueBytes := s.queueBytes - submission.queuedBytes layout } := by simp only [step, hlookup]
  exact .of_enter hlookup hstep rfl rfl canLeave_released

theorem canLeave_reserved (hlookup : s.producers.lookup ticket = some ⟨submission, .reserved⟩) :
    s.CanLeave layout config now := by
  cases hroom : s.hasRoom config with
  | true =>
    have hstep : step layout config s (.send ticket) = some { s.leave ticket with
        channel := s.channel ++ [.submitted ticket submission] } := by
      simp [step, hlookup, hroom]
    exact .of_leave hlookup hstep rfl rfl
  | false =>
    have hstep : step layout config s (.send ticket) =
      some (s.enter ticket submission .refused) := by
      simp [step, hlookup, hroom]
    exact .of_enter hlookup hstep rfl rfl canLeave_refused

/-- A comparison with the value that the counter has succeeds. -/
theorem canLeave_comparing_queueBytes
    (hlookup : s.producers.lookup ticket = some ⟨submission, .comparing s.queueBytes⟩) :
    s.CanLeave layout config now := by
  have hstep : step layout config s (.exchange ticket none) =
      some { s.enter ticket submission .reserved with
        queueBytes := satAdd s.queueBytes (submission.queuedBytes layout) } := by
    simp [step, hlookup]
  exact .of_enter hlookup hstep rfl rfl canLeave_reserved

/-- Having read the value that the counter has. -/
theorem canLeave_checked
    (hlookup : s.producers.lookup ticket =
      some ⟨submission, checked layout config submission s.queueBytes⟩) :
    s.CanLeave layout config now := by
  rw [checked] at hlookup
  split at hlookup
  · exact canLeave_rejected hlookup
  · exact canLeave_comparing_queueBytes hlookup

theorem canLeave_comparing {queued}
    (hlookup : s.producers.lookup ticket = some ⟨submission, .comparing queued⟩) :
    s.CanLeave layout config now := by
  have hstep : step layout config s (.exchange ticket (some s.queueBytes)) =
      some (s.enter ticket submission (checked layout config submission s.queueBytes)) := by
    simp [step, hlookup]
  exact .of_enter hlookup hstep rfl rfl canLeave_checked

theorem canLeave_loading (hlookup : s.producers.lookup ticket = some ⟨submission, .loading⟩) :
    s.CanLeave layout config now := by
  have hstep : step layout config s (.load ticket s.queueBytes) =
      some (s.enter ticket submission (checked layout config submission s.queueBytes)) := by
    simp [step, hlookup]
  exact .of_enter hlookup hstep rfl rfl canLeave_checked

theorem canLeave (layout : EventLayout) (config : TraceStoreConfig) (now : Nat)
    (hlookup : s.producers.lookup ticket = some p) :
    s.CanLeave layout config now := by
  obtain ⟨submission, phase⟩ := p
  cases phase with
  | loading => exact canLeave_loading hlookup
  | comparing queued => exact canLeave_comparing hlookup
  | rejected => exact canLeave_rejected hlookup
  | halfCounted => exact canLeave_halfCounted hlookup
  | reserved => exact canLeave_reserved hlookup
  | refused => exact canLeave_refused hlookup
  | released => exact canLeave_released hlookup

end Leaving

/-- All threads can come to an end. -/
theorem canReach_noProducers (s : Store) :
    ∃ s', (machine layout config now).CanReach s s' ∧ s'.tickets = s.tickets ∧
      s'.producers.keys = [] := by
  induction hlength : s.producers.keys.length using Nat.strong_induction_on generalizing s with
  | _ length ih =>
    cases hkeys : s.producers.keys with
    | nil => exact ⟨s, .refl s, rfl, hkeys⟩
    | cons ticket rest =>
      obtain ⟨p, hlookup⟩ : ∃ p, s.producers.lookup ticket = some p := by
        apply Option.isSome_iff_exists.mp
        rw [AList.lookup_isSome, AList.mem_keys, hkeys]
        exact mem_cons_self ..
      obtain ⟨s₁, hreach₁, htickets₁, hlt⟩ := canLeave layout config now hlookup
      obtain ⟨s₂, hreach₂, htickets₂, hkeys₂⟩ := ih _ (hlength ▸ hlt) s₁ rfl
      exact ⟨s₂, hreach₁.trans hreach₂, htickets₂.trans htickets₁, hkeys₂⟩

/-! ### The channel is worked off -/

/-- The last handle leaves nobody behind who could submit something, and its message is the last. -/
structure Closing (s : Store) : Prop where
  producers : s.isOpen = false → s.producers.keys = []
  channel : s.isOpen → ∀ message ∈ s.channel, message.isShutdown = false
  running : s.isOpen → s.collecting.isStopped = false
  last : ∀ message ∈ s.channel.dropLast, message.isShutdown = false
  stopped : s.collecting.isStopped → s.channel = []

/-- A message behind others that do not shut down. -/
theorem forall_mem_dropLast_push {channel} (h : ∀ m ∈ channel, P m) :
    ∀ m ∈ (channel ++ [message]).dropLast, P m := by
  rwa [dropLast_concat]

theorem forall_mem_dropLast_tail (h : ∀ m ∈ (message :: rest).dropLast, P m) :
    ∀ m ∈ rest.dropLast, P m := by
  cases rest with
  | nil => exact forall_mem_nil _
  | cons next rest =>
    rw [dropLast_cons_cons, forall_mem_cons] at h
    exact h.2

/-- There is nothing behind the message that shuts down. -/
theorem eq_nil_of_shutdown (h : ∀ m ∈ (.shutdown :: rest).dropLast, Message.isShutdown m = false) :
    rest = [] := by
  cases rest with
  | nil => rfl
  | cons next rest =>
    rw [dropLast_cons_cons, forall_mem_cons] at h
    cases h.1

section

variable (h : s.Closing)

include h

theorem Closing.isOpen_of_lookup {ticket}
    (hlookup : s.producers.lookup ticket = some p) : s.isOpen := by
  apply Bool.eq_true_of_not_eq_false
  intro hopen
  have hkeys := (keys_perm_cons_erase hlookup).length_eq
  rw [h.producers hopen] at hkeys
  cases hkeys

theorem Closing.enter {ticket submission} (phase' : Phase)
    (hlookup : s.producers.lookup ticket = some ⟨submission, phase⟩) :
    (s.enter ticket submission phase').Closing := by
  have hopen := h.isOpen_of_lookup hlookup
  refine ⟨fun hclosed => ?_, h.channel, h.running, h.last, h.stopped⟩
  rw [Store.enter, hopen] at hclosed
  cases hclosed

theorem Closing.leave {ticket} (hlookup : s.producers.lookup ticket = some p) :
    (s.leave ticket).Closing := by
  have hopen := h.isOpen_of_lookup hlookup
  refine ⟨fun hclosed => ?_, h.channel, h.running, h.last, h.stopped⟩
  rw [Store.leave, hopen] at hclosed
  cases hclosed

/-- Nothing but the counters and the collector's memory changes. -/
theorem Closing.books (queueBytes queueDropped queueMemoryDropped : Nat)
    (dropped : List Nat) (worker : Worker) (processed : List Command) :
    Closing { s with queueBytes, queueDropped, queueMemoryDropped, dropped, worker, processed } :=
  ⟨h.producers, h.channel, h.running, h.last, h.stopped⟩

theorem Closing.push (hopen : s.isOpen) (hmessage : message.isShutdown = false) :
    Closing { s with channel := s.channel ++ [message] } where
  producers := h.producers
  channel _ := forall_mem_append.mpr ⟨h.channel hopen, forall_mem_singleton.mpr hmessage⟩
  running := h.running
  last := forall_mem_dropLast_push (h.channel hopen)
  stopped hstopped := absurd hstopped (Bool.eq_false_iff.mp (h.running hopen))

/-- The collector takes a message and goes on, or there is nothing left. -/
theorem Closing.pop (hchannel : s.channel = message :: rest)
    (collecting : Collecting) (hopen : s.isOpen → collecting.isStopped = false)
    (hrest : collecting.isStopped → rest = []) :
    Closing { s with channel := rest, collecting } where
  producers := h.producers
  channel hs := by
    have hall := h.channel hs
    rw [hchannel, forall_mem_cons] at hall
    exact hall.2
  running := hopen
  last := forall_mem_dropLast_tail (hchannel ▸ h.last)
  stopped := hrest

theorem Closing.moved (hmoved : Moved layout config s action s') : s'.Closing := by
  cases hmoved with
  | called hopen hallot =>
    refine ⟨fun hclosed => ?_, h.channel, h.running, h.last, h.stopped⟩
    rw [begin, hopen] at hclosed
    cases hclosed
  | loaded value hlookup | failed value hlookup => exact h.enter _ hlookup
  | reserved hlookup | refused hlookup | released hlookup | halfCounted hlookup =>
    exact (h.enter _ hlookup).books _ _ _ _ _ _
  | sent hlookup hroom =>
    exact (h.leave hlookup).push (h.isOpen_of_lookup hlookup) rfl
  | overBudget hlookup | notTaken hlookup =>
    exact (h.leave hlookup).books _ _ _ _ _ _
  | queried hopen hquery => exact h.push hopen rfl
  | closed hopen hproducers =>
    refine ⟨fun _ => ?_, fun hclosed => ?_, fun _ => h.running hopen, ?_, ?_⟩
    · rw [AList.keys, hproducers]
      rfl
    · cases hclosed
    · exact forall_mem_dropLast_push (h.channel hopen)
    · intro hstopped
      exact absurd hstopped (Bool.eq_false_iff.mp (h.running hopen))
  | took hcollecting hchannel =>
    exact h.pop hchannel _ (fun _ => rfl) fun hstopped => by cases hstopped
  | @answered command rest hcollecting hchannel =>
    have hstopped : s.collecting.isStopped → rest = [] := by
      rw [hcollecting]
      intro hstopped
      cases hstopped
    exact (h.pop hchannel s.collecting h.running hstopped).books _ _ _ _ _ _
  | @stopped rest hcollecting hchannel =>
    refine h.pop hchannel _ (fun hopen => ?_) fun _ => eq_nil_of_shutdown (hchannel ▸ h.last)
    have hall := h.channel hopen
    rw [hchannel, forall_mem_cons] at hall
    cases hall.1
  | applied hcollecting htimes | settled hcollecting =>
    exact ⟨h.producers, h.channel, fun _ => rfl, h.last, fun hstopped => by cases hstopped⟩

end

theorem closing_of_reachable (h : (machine layout config now).Reachable (fun _ => True) s) :
    s.Closing := by
  refine h.invariant ?_ ?_
  · exact ⟨fun _ => rfl, fun _ => forall_mem_nil _, fun _ => rfl, forall_mem_nil _,
      fun _ => rfl⟩
  · intro s s' action _ hs _ hstep
    exact hs.moved (moved_step hstep)

/-- The collector has nothing in hand. -/
def Idle (s : Store) : Prop := s.collecting.isStopped ∨ s.collecting = .waiting

/-- The collector can finish the command that it has in hand. -/
theorem canReach_idle (s : Store) :
    ∃ s', (machine layout config now).CanReach s s' ∧ s'.tickets = s.tickets ∧
      s'.producers = s.producers ∧ s'.channel = s.channel ∧ s'.Idle := by
  have hsettle (s : Store) (submission : Submission)
      (happlied : s.collecting = .applied submission) :
      (machine layout config now).CanReach s { s with
        collecting := .waiting
        queueBytes := s.queueBytes - submission.queuedBytes layout } := by
    refine (Machine.CanReach.refl _).step (a := .settle) ?_
    simp [machine, step, happlied]
  cases hcollecting : s.collecting with
  | waiting => exact ⟨s, .refl s, rfl, rfl, rfl, .inr hcollecting⟩
  | stopped =>
    refine ⟨s, .refl s, rfl, rfl, rfl, .inl ?_⟩
    rw [hcollecting]
    rfl
  | applied submission =>
    exact ⟨_, hsettle s submission hcollecting, rfl, rfl, rfl, .inr rfl⟩
  | holding ticket submission =>
    let times := replicate submission.events.length 0
    have happly : (machine layout config now).step s (.apply times) = some { s with
        worker := s.worker.process layout.toLayout (submission.command times)
        collecting := .applied submission
        delivered := s.delivered ++ [ticket]
        processed := s.processed ++ [submission.command times] } := by
      simp [machine, step, hcollecting, times]
    exact ⟨_, (hsettle _ submission rfl).step happly, rfl, rfl, rfl, .inr rfl⟩

/-- A collector with nothing in hand takes the next message. -/
theorem receive_of_waiting (hcollecting : s.collecting = .waiting)
    (hchannel : s.channel = message :: rest) :
    ∃ s', (machine layout config now).step s .receive = some s' ∧ s'.tickets = s.tickets ∧
      s'.producers = s.producers ∧ s'.channel = rest := by
  cases message with
  | submitted | query | shutdown =>
    simp [machine, step, receive, hcollecting, hchannel]

theorem canReach_emptyChannel (h : (machine layout config now).Reachable (fun _ => True) s) :
    ∃ s', (machine layout config now).CanReach s s' ∧ s'.tickets = s.tickets ∧
      s'.producers = s.producers ∧ s'.channel = [] ∧ s'.Idle := by
  induction hlength : s.channel.length generalizing s with
  | zero =>
    obtain ⟨s₁, hreach, htickets, hproducers, hchannel, hidle⟩ := canReach_idle s
    rw [length_eq_zero_iff] at hlength
    exact ⟨s₁, hreach, htickets, hproducers, hchannel.trans hlength, hidle⟩
  | succ n ih =>
    obtain ⟨s₁, hreach₁, htickets₁, hproducers₁, hchannel₁, hidle⟩ :=
      canReach_idle s
    have h₁ := h.canReach hreach₁
    rcases hidle with hstopped | hwaiting
    · exact ⟨s₁, hreach₁, htickets₁, hproducers₁, (closing_of_reachable h₁).stopped hstopped,
        .inl hstopped⟩
    · rw [← hchannel₁] at hlength
      obtain ⟨message, rest, hmessage⟩ := exists_cons_of_length_eq_add_one hlength
      obtain ⟨s₂, hstep, htickets₂, hproducers₂, hchannel₂⟩ := receive_of_waiting hwaiting hmessage
      have hrest : s₂.channel.length = n := by
        rw [hmessage] at hlength
        rw [hchannel₂]
        exact Nat.succ_injective hlength
      obtain ⟨s₃, hreach₃, htickets₃, hproducers₃, hchannel₃, hidle₃⟩ :=
        ih (h₁.step trivial hstep) hrest
      exact ⟨s₃, hreach₁.trans (hreach₃.step hstep), by rw [htickets₃, htickets₂, htickets₁],
        by rw [hproducers₃, hproducers₂, hproducers₁], hchannel₃, hidle₃⟩

/-! ### The queue -/

/-- When nobody is at work, every ticket was applied or counted, and nothing is reserved. -/
theorem Idle.settled (layout : EventLayout) (hidle : s.Idle) (hproducers : s.producers.keys = [])
    (hchannel : s.channel = []) :
    s.places = s.delivered ++ s.dropped ∧ s.reservedBytes layout = 0 ∧
      weight Producer.counted s.producers = 0 := by
  have hentries : s.producers.entries = [] := map_eq_nil_iff.mp hproducers
  have hcollecting : s.collecting.tickets = [] ∧ s.collecting.held layout = 0 := by
    rcases hidle with hstopped | hwaiting
    · cases hcollecting : s.collecting with
      | stopped => exact ⟨rfl, rfl⟩
      | waiting | holding | applied =>
        rw [hcollecting] at hstopped
        cases hstopped
    · rw [hwaiting]
      exact ⟨rfl, rfl⟩
  refine ⟨?_, ?_, ?_⟩
  · simp [places, hproducers, hchannel, hcollecting.1]
  · simp [reservedBytes, weight, hentries, hchannel, hcollecting.2]
  · simp [weight, hentries]

/-- A collector that has stopped leaves nothing behind: each submission was applied or counted as
dropped, no bytes are reserved and the counter is back at zero. -/
theorem stopped_settled (s : {s // (machine layout config now).Reachable (fun _ => True) s}) :
    s.1.collecting.isStopped = false ∨
      (s.1.delivered ++ s.1.dropped).Perm (range s.1.tickets) ∧
        s.1.queueDropped = s.1.dropped.length ∧ s.1.reservedBytes layout = 0 ∧
        s.1.queueBytes = 0 := by
  have hclosing := closing_of_reachable s.2
  have hsound := sound_of_reachable s.2
  refine (Bool.eq_false_or_eq_true _).symm.imp_right fun hstopped => ?_
  have hclosed : s.1.isOpen = false := by grind [hclosing.running]
  obtain ⟨hplaces, hbytes, hcounted⟩ :=
    Idle.settled layout (.inl hstopped) (hclosing.producers hclosed) (hclosing.stopped hstopped)
  have hcounts := hsound.counts
  rw [Counts, hcounted] at hcounts
  have hqueue := (accounts_of_reachable s.2).bytes.1
  exact ⟨hplaces ▸ hsound.places, hcounts, hbytes, Nat.le_zero.mp (hqueue.trans_eq hbytes)⟩

/-- Whatever the threads and the collector have done so far: the counter is the sum of what is
reserved and is within its budget, each submission is in one place, the drops are counted, the queue
and the resident sessions together are within the whole budget, and the submissions that are on
their way can all be settled. -/
theorem queue_accounts (hbudget : config.queueBudget < wordMax)
    (h : (machine layout config now).Reachable (fun _ => True) s) :
    s.queueBytes = s.reservedBytes layout ∧ s.queueBytes ≤ config.queueBudget ∧
      s.places.Perm (range s.tickets) ∧ s.Counts ∧
      s.queueBytes + (s.worker.memory.memoryBytes + s.worker.pending.memoryBytes) ≤
        config.memoryBudgetBytes ∧
      ∃ s', (machine layout config now).CanReach s s' ∧
        (s'.delivered ++ s'.dropped).Perm (range s.tickets) ∧ s'.queueBytes = 0 ∧
        s'.queueDropped = s'.dropped.length := by
  have haccounts := accounts_of_reachable h
  have hsound := sound_of_reachable h
  refine ⟨haccounts.bytes.2 hbudget, haccounts.bytes_le, hsound.places, hsound.counts, ?_, ?_⟩
  · calc s.queueBytes + (s.worker.memory.memoryBytes + s.worker.pending.memoryBytes)
      _ ≤ config.queueBudget + config.residentBudget := by
        apply Nat.add_le_add haccounts.bytes_le
        rw [← hsound.resident.budget]
        exact hsound.resident.within.sum_le
      _ = config.memoryBudgetBytes := config.queueBudget_add_residentBudget
  · obtain ⟨s₁, hreach₁, htickets₁, hkeys⟩ := canReach_noProducers s
    obtain ⟨s₂, hreach₂, htickets₂, hproducers, hchannel, hidle⟩ :=
      canReach_emptyChannel (h.canReach hreach₁)
    have hreach := hreach₁.trans hreach₂
    have hsound₂ := sound_of_reachable (h.canReach hreach)
    have haccounts₂ := accounts_of_reachable (h.canReach hreach)
    obtain ⟨hplaces, hbytes, hcounted⟩ := hidle.settled layout (hproducers ▸ hkeys) hchannel
    refine ⟨s₂, hreach, ?_, (haccounts₂.bytes.2 hbudget).trans hbytes, ?_⟩
    · rw [← hplaces, ← htickets₁, ← htickets₂]
      exact hsound₂.places
    · have hcounts := hsound₂.counts
      rwa [Counts, hcounted] at hcounts

def oneSlot : TraceStoreConfig := ⟨8, 1, 4000, some 1000, 10⟩

/-- One thread's submission up to the attempt to send it. -/
def reserving (ticket queued : Nat) : List Action :=
  [.load ticket queued, .exchange ticket none, .send ticket]

def twoAborts : List Action :=
  [.call (.emit (.abort 1)), .call (.emit (.abort 2)),
    .call (.emit (.bodyChunk 3 .request [] 900))] ++
    reserving 0 0 ++ reserving 1 200 ++ [.load 2 400, .release 1, .count 1, .count 2]

/-- Of three submissions one is in the channel, one was not taken, and one is over the budget. -/
theorem queue_of_three : ∃ s : Store, s.channel.length = 1 ∧ s.dropped = [1] ∧
    s.queueBytes = s.reservedBytes sampleLayout ∧ s.queueBytes = 200 ∧ s.Counts := by
  obtain ⟨s, hs, hchannel, hdropped, hbytes⟩ := Machine.exists_reachable_of_run
    (m := machine sampleLayout oneSlot 0) twoAborts (fun _ _ => trivial)
    (p := fun s => s.channel.length = 1 ∧ s.dropped = [1] ∧ s.queueBytes = 200) (by decide +kernel)
  obtain ⟨heq, -, -, hcounts, -⟩ := queue_accounts (by decide +kernel) hs
  exact ⟨s, hchannel, hdropped, heq, hbytes, hcounts⟩

def noBudget : TraceStoreConfig := ⟨8, 4, wordMax, some wordMax, 10⟩

def largest : TraceEvent := .bodyChunk 1 .request [] wordMax

def twoLargest : List Action :=
  [.call (.emit largest), .call (.emit largest)] ++ reserving 0 0 ++ reserving 1 wordMax ++
    [.receive, .apply [0], .settle]

/-- With the largest budget the sum stops at the largest word, and the first release takes all of
it off while a command is still queued. -/
theorem queue_saturates : ∃ s, (machine sampleLayout noBudget 0).Reachable (fun _ => True) s ∧
    s.queueBytes = 0 ∧ s.reservedBytes sampleLayout = wordMax := by
  exact Machine.exists_reachable_of_run twoLargest (fun _ _ => trivial) (by decide +kernel)

end Store

end RsProxy.Trace
