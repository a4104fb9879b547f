import Mathlib.Data.List.Range
import RsProxy.Trace.Store

/-!
# The books of the queue

At any time the counter says what has been reserved and not given back, and each ticket is in one
place: with the thread that submits it, in the channel, with the collector, or among those that were
applied or counted as dropped.
-/

namespace RsProxy.Trace

open Data List Nat AList Producer

def Phase.isComparing : Phase → Bool
  | .comparing _ => true
  | _ => false

/-! ### Reserved bytes -/

section Reserved

variable (layout : EventLayout)

def Producer.held (p : Producer) : Nat :=
  match p.phase with
  | .reserved => p.submission.queuedBytes layout
  | .refused => p.submission.queuedBytes layout
  | _ => 0

def Message.held : Message → Nat
  | .submitted _ submission => submission.queuedBytes layout
  | _ => 0

def Collecting.held : Collecting → Nat
  | .holding _ submission => submission.queuedBytes layout
  | .applied submission => submission.queuedBytes layout
  | _ => 0

/-- The bytes of all commands that are reserved, queued or being processed. -/
def Store.reservedBytes (s : Store) : Nat :=
  weight (held layout) s.producers + (s.channel.map (Message.held layout)).sum +
    s.collecting.held layout

end Reserved

/-! ### Places -/

def Message.ticket? : Message → Option Nat
  | .submitted ticket _ => some ticket
  | _ => none

def Collecting.tickets : Collecting → List Nat
  | .holding ticket _ => [ticket]
  | _ => []

/-- The tickets in all the places where they can be. -/
def Store.places (s : Store) : List Nat :=
  s.producers.keys ++ s.channel.filterMap Message.ticket? ++ s.collecting.tickets ++
    s.delivered ++ s.dropped

/-- What is sent as a query is one. -/
def Message.Regular : Message → Prop
  | .query command => command.isQuery
  | _ => True

/-- A submission that was rejected is counted twice, one time after the other. -/
def Producer.counted (p : Producer) : Nat :=
  match p.phase with
  | .halfCounted => 1
  | _ => 0

variable {ticket : Nat} {submission : Submission} {phase : Phase} (f : Producer → Nat)
  (phase' : Phase) {p : Producer} {times : List Nat} {command : Command}

namespace Store

variable {layout : EventLayout} {config : TraceStoreConfig} {s s' : Store} {action : Action}

/-! ### What a step keeps -/

/-- What is compared and swapped has passed the test. -/
def Tested (layout : EventLayout) (config : TraceStoreConfig) (s : Store) : Prop :=
  ∀ ticket submission queued,
    s.producers.lookup ticket = some ⟨submission, .comparing queued⟩ →
      satAdd queued (submission.queuedBytes layout) ≤ config.queueBudget

/-- The counter never says more than what is reserved, and exactly that as long as no sum is cut. -/
structure Accounts (layout : EventLayout) (config : TraceStoreConfig) (s : Store) : Prop where
  tested : s.Tested layout config
  bytes : s.queueBytes ≤ s.reservedBytes layout ∧
    (config.queueBudget < wordMax → s.queueBytes = s.reservedBytes layout)
  bytes_le : s.queueBytes ≤ config.queueBudget

theorem tested_enter (h : s.Tested layout config)
    (hphase : ∀ queued, phase = .comparing queued →
      satAdd queued (submission.queuedBytes layout) ≤ config.queueBudget) :
    (s.enter ticket submission phase).Tested layout config := by
  intro other submission' queued hlookup
  by_cases hother : other = ticket
  · subst hother
    rw [enter, lookup_insert] at hlookup
    cases hlookup
    exact hphase queued rfl
  · rw [enter, lookup_insert_ne hother] at hlookup
    exact h other submission' queued hlookup

theorem tested_enter_of_ne (h : s.Tested layout config) (hphase : phase.isComparing = false) :
    (s.enter ticket submission phase).Tested layout config := by
  apply tested_enter h
  rintro queued rfl
  cases hphase

theorem tested_leave (h : s.Tested layout config) (ticket : Nat) :
    (s.leave ticket).Tested layout config := by
  intro other submission queued hlookup
  by_cases hother : other = ticket
  · subst hother
    rw [leave, lookup_erase] at hlookup
    cases hlookup
  · rw [leave, lookup_erase_ne hother] at hlookup
    exact h other submission queued hlookup

theorem checked_le {value queued} (h : checked layout config submission value = .comparing queued) :
    satAdd queued (submission.queuedBytes layout) ≤ config.queueBudget := by
  rw [checked] at h
  split_ifs at h with hle
  cases h
  exact Nat.le_of_not_lt hle

theorem held_checked {value} :
    held layout ⟨submission, checked layout config submission value⟩ = 0 := by
  rw [checked]
  split <;> rfl

/-! ### Each ticket in one place -/

theorem places_enter (hlookup : s.producers.lookup ticket = some ⟨submission, phase⟩) :
    (s.enter ticket submission phase').places.Perm s.places := by
  have hkeys := keys_insert_perm (⟨submission, phase'⟩ : Producer) hlookup
  simp only [places, append_assoc]
  exact hkeys.append_right _

theorem places_leave (hlookup : s.producers.lookup ticket = some p) :
    s.places.Perm (ticket :: (s.leave ticket).places) := by
  have hkeys := keys_perm_cons_erase hlookup
  simp only [places, append_assoc]
  exact hkeys.append_right _

theorem lookup_tickets (h : s.places.Perm (range s.tickets)) :
    s.producers.lookup s.tickets = none := by
  apply lookup_eq_none.mpr
  intro hmem
  have hplaces : s.tickets ∈ s.places := by
    simp only [places, append_assoc]
    exact mem_append_left _ (mem_keys.mp hmem)
  exact not_mem_range_self (h.mem_iff.mp hplaces)

theorem places_moved (h : s.places.Perm (range s.tickets))
    (hmoved : Moved layout config s action s') :
    s'.places.Perm (range s'.tickets) := by
  cases hmoved with
  | @called call submission nextId hopen hallot =>
    have hkeys : (s.producers.insert s.tickets ⟨submission, .loading⟩).keys =
        s.tickets :: s.producers.keys := by
      have hfresh : s.tickets ∉ s.producers.keys :=
        fun hmem => lookup_eq_none.mp (lookup_tickets h) (mem_keys.mpr hmem)
      rw [keys_insert, erase_of_not_mem hfresh]
    simp only [places, begin, hkeys, range_succ]
    exact (h.cons _).trans (perm_append_singleton _ _).symm
  | loaded value hlookup | failed value hlookup | reserved hlookup | refused hlookup
  | released hlookup | halfCounted hlookup => exact (places_enter _ hlookup).trans h
  | sent hlookup hroom =>
    refine Perm.trans ?_ ((places_leave hlookup).symm.trans h)
    rw [perm_iff_count]
    simp only [places, leave, Message.ticket?, filterMap_append, filterMap_cons,
      filterMap_nil, count_append, count_cons, count_nil]
    omega
  | overBudget hlookup | notTaken hlookup =>
    refine Perm.trans ?_ ((places_leave hlookup).symm.trans h)
    simp only [places, ← append_assoc]
    exact perm_append_singleton _ _
  | queried hopen hquery | closed hopen hproducers =>
    simp only [places, filterMap_append, filterMap_cons, Message.ticket?, filterMap_nil, append_nil]
    exact h
  | took hcollecting hchannel =>
    refine Perm.trans ?_ h
    rw [perm_iff_count]
    simp only [places, hchannel, hcollecting, Collecting.tickets, Message.ticket?,
      filterMap_cons, count_append, count_cons]
    omega
  | answered hcollecting hchannel =>
    simp only [places, hchannel] at h ⊢
    exact h
  | stopped hcollecting hchannel =>
    simp only [places, hchannel, hcollecting] at h ⊢
    exact h
  | applied hcollecting htimes =>
    refine Perm.trans ?_ h
    rw [perm_iff_count]
    simp only [places, hcollecting, Collecting.tickets, count_append, count_nil]
    omega
  | settled hcollecting =>
    simp only [places, hcollecting] at h ⊢
    exact h

/-! ### The counter -/

theorem weight_begin (submission : Submission) (hplaces : s.places.Perm (range s.tickets)) :
    weight f (s.begin submission).producers = f ⟨submission, .loading⟩ + weight f s.producers := by
  have herase := weight_erase (f := f) (m := s.producers) s.tickets
  rw [lookup_tickets hplaces, Option.map_none, Option.getD_none, add_zero] at herase
  rw [begin, weight_insert, herase]

theorem weight_enter (hlookup : s.producers.lookup ticket = some ⟨submission, phase⟩) :
    weight f (s.enter ticket submission phase').producers + f ⟨submission, phase⟩ =
      weight f s.producers + f ⟨submission, phase'⟩ :=
  weight_replace _ hlookup

theorem weight_leave (hlookup : s.producers.lookup ticket = some p) :
    weight f (s.leave ticket).producers + f p = weight f s.producers :=
  weight_remove hlookup

theorem reservedBytes_enter (layout : EventLayout) (phase' : Phase)
    (hlookup : s.producers.lookup ticket = some ⟨submission, phase⟩) :
    (s.enter ticket submission phase').reservedBytes layout +
        held layout ⟨submission, phase⟩ =
      s.reservedBytes layout + held layout ⟨submission, phase'⟩ := by
  have hweight := weight_enter (held layout) phase' hlookup
  simp only [reservedBytes, enter] at hweight ⊢
  omega

/-- A phase that holds as much as the one before it. -/
theorem reservedBytes_enter_eq {phase'}
    (hlookup : s.producers.lookup ticket = some ⟨submission, phase⟩)
    (hheld : held layout ⟨submission, phase'⟩ = held layout ⟨submission, phase⟩) :
    (s.enter ticket submission phase').reservedBytes layout = s.reservedBytes layout := by
  have hbytes := reservedBytes_enter layout phase' hlookup
  omega

theorem reservedBytes_leave (layout : EventLayout) (hlookup : s.producers.lookup ticket = some p) :
    (s.leave ticket).reservedBytes layout + p.held layout = s.reservedBytes layout := by
  have hweight := weight_leave (held layout) hlookup
  simp only [reservedBytes, leave] at hweight ⊢
  omega

/-- Below the largest word a sum that is within the budget has not been cut. -/
theorem satAdd_of_within {a b budget} (hbudget : budget < wordMax) (h : satAdd a b ≤ budget) :
    satAdd a b = a + b := by
  apply satAdd_of_le
  rw [satAdd] at h
  omega

theorem Accounts.moved (h : s.Accounts layout config)
    (hplaces : s.places.Perm (range s.tickets)) (hmoved : Moved layout config s action s') :
    s'.Accounts layout config := by
  obtain ⟨htested, heq, hle⟩ := h
  cases hmoved with
  | @called call submission nextId hopen hallot =>
    refine ⟨tested_enter_of_ne htested rfl, ?_, hle⟩
    have hweight := weight_begin (held layout) submission hplaces
    have hsame : (s.begin submission).reservedBytes layout = s.reservedBytes layout := by
      rw [reservedBytes, hweight]
      exact congrArg (· + _ + _) (zero_add _)
    exact hsame ▸ heq
  | @loaded ticket submission value hlookup | @failed ticket submission queued value hlookup =>
    refine ⟨tested_enter htested fun _ => checked_le, ?_, hle⟩
    exact (reservedBytes_enter_eq hlookup held_checked).symm ▸ heq
  | @reserved ticket submission hlookup =>
    have hsum := htested _ _ _ hlookup
    refine ⟨tested_enter_of_ne htested rfl, ?_, hsum⟩
    have hbytes := reservedBytes_enter layout .reserved hlookup
    have hcut : satAdd s.queueBytes (submission.queuedBytes layout) ≤ _ := min_le_left _ _
    have hexact := fun hbudget => satAdd_of_within hbudget hsum
    simp only [held] at hbytes
    show satAdd s.queueBytes _ ≤ (s.enter ticket submission .reserved).reservedBytes layout ∧
      (_ → satAdd s.queueBytes _ = (s.enter ticket submission .reserved).reservedBytes layout)
    omega
  | refused hlookup | halfCounted hlookup =>
    exact ⟨tested_enter_of_ne htested rfl, (reservedBytes_enter_eq hlookup rfl).symm ▸ heq, hle⟩
  | @released ticket submission hlookup =>
    refine ⟨tested_enter_of_ne htested rfl, ?_, (sub_le _ _).trans hle⟩
    have hbytes := reservedBytes_enter layout .released hlookup
    simp only [held] at hbytes
    show s.queueBytes - _ ≤ (s.enter ticket submission .released).reservedBytes layout ∧
      (_ → s.queueBytes - _ = (s.enter ticket submission .released).reservedBytes layout)
    omega
  | sent hlookup | overBudget hlookup | notTaken hlookup =>
    refine ⟨tested_leave htested _, ?_, hle⟩
    have hbytes := reservedBytes_leave layout hlookup
    simp only [reservedBytes, leave, held, map_append, sum_append_nat,
      map_cons, map_nil, sum_singleton, Message.held] at heq hbytes ⊢
    omega
  | queried hopen hquery | closed hopen hproducers =>
    refine ⟨htested, ?_, hle⟩
    simp only [reservedBytes, map_append, sum_append_nat, map_cons, map_nil,
      sum_singleton, Message.held] at heq ⊢
    omega
  | took hcollecting hchannel | answered hcollecting hchannel | stopped hcollecting hchannel =>
    refine ⟨htested, ?_, hle⟩
    simp only [reservedBytes, hcollecting, hchannel, map_cons, sum_cons, Message.held,
      Collecting.held] at heq ⊢
    omega
  | applied hcollecting htimes =>
    refine ⟨htested, ?_, hle⟩
    simp only [reservedBytes, hcollecting] at heq ⊢
    exact heq
  | settled hcollecting =>
    refine ⟨htested, ?_, (sub_le _ _).trans hle⟩
    simp only [reservedBytes, hcollecting, Collecting.held] at heq ⊢
    omega

/-! ### What is counted as dropped -/

theorem counted_checked {value} :
    counted ⟨submission, checked layout config submission value⟩ = 0 := by
  rw [checked]
  split <;> rfl

/-- The drops that are counted are those of the tickets that are gone, and of those that are between
their two counters. -/
def Counts (s : Store) : Prop :=
  s.queueDropped = s.dropped.length + weight counted s.producers

theorem Counts.enter {phase'} (h : s.Counts)
    (hlookup : s.producers.lookup ticket = some ⟨submission, phase⟩)
    (hcounted : counted ⟨submission, phase'⟩ = counted ⟨submission, phase⟩) :
    (s.enter ticket submission phase').Counts := by
  have hweight := weight_enter counted phase' hlookup
  rw [hcounted, add_right_cancel_iff] at hweight
  rwa [Counts, hweight]

theorem Counts.moved (h : s.Counts) (hplaces : s.places.Perm (range s.tickets))
    (hmoved : Moved layout config s action s') : s'.Counts := by
  have hcounts : s.queueDropped = s.dropped.length + weight counted s.producers := h
  cases hmoved with
  | @called call submission nextId hopen hallot =>
    have hweight := weight_begin counted submission hplaces
    simp only [counted] at hweight
    show s.queueDropped = s.dropped.length + weight _ (s.begin submission).producers
    omega
  | @loaded ticket submission value hlookup | @failed ticket submission queued value hlookup =>
    exact h.enter hlookup counted_checked
  | reserved hlookup | refused hlookup | released hlookup => exact h.enter hlookup rfl
  | @halfCounted ticket submission hlookup =>
    have hweight := weight_enter counted .halfCounted hlookup
    show s.queueDropped + 1 =
      s.dropped.length + weight _ (s.enter ticket submission .halfCounted).producers
    simp only [counted] at hweight
    omega
  | sent hlookup | overBudget hlookup | notTaken hlookup =>
    have hweight := weight_leave counted hlookup
    simp only [Counts, leave, counted, length_append, length_singleton] at hweight ⊢
    omega
  | queried | closed | took | answered | stopped | applied | settled => exact h

/-! ### The budget of the resident sessions -/

theorem map_snd_zip {events : List TraceEvent} (h : times.length = events.length) :
    (times.zip events).map Prod.snd = events := List.map_snd_zip h.ge

theorem submitted_command (h : times.length = submission.events.length) :
    (submission.command times).Submitted := by
  cases submission with
  | single event => trivial
  | record session => exact ⟨session, .inl (map_snd_zip h)⟩
  | finish session => exact ⟨session, .inr (map_snd_zip h)⟩

theorem submitted_query (h : command.isQuery) : command.Submitted := by
  cases command with
  | events batch => cases h
  | event | clear | stats | follow | query => trivial

/-- The collector keeps to its share, and what waits for it in the channel lets it. -/
structure Resident (config : TraceStoreConfig) (s : Store) : Prop where
  within : s.worker.Within
  budget : s.worker.memory.memoryBudgetBytes = config.residentBudget
  queries : ∀ message ∈ s.channel, message.Regular

theorem Resident.worker_process (layout : EventLayout) (h : s.Resident config)
    (hsubmitted : command.Submitted) :
    Resident config { s with worker := s.worker.process layout.toLayout command } where
  within := h.within.process hsubmitted
  budget := (Worker.sameLimits_process s.worker).budget.trans h.budget
  queries := h.queries

theorem Resident.moved (h : s.Resident config) (hmoved : Moved layout config s action s') :
    s'.Resident config := by
  obtain ⟨hwithin, hbudget, hqueries⟩ := h
  cases hmoved with
  | called | loaded | failed | reserved | refused | released | halfCounted | overBudget | notTaken |
    settled =>
    exact ⟨hwithin, hbudget, hqueries⟩
  | sent hlookup hroom | closed hopen hproducers =>
    refine ⟨hwithin, hbudget, ?_⟩
    exact forall_mem_append.mpr ⟨hqueries, forall_mem_singleton.mpr trivial⟩
  | queried hopen hquery =>
    refine ⟨hwithin, hbudget, ?_⟩
    exact forall_mem_append.mpr ⟨hqueries, forall_mem_singleton.mpr hquery⟩
  | took hcollecting hchannel | stopped hcollecting hchannel =>
    rw [hchannel, forall_mem_cons] at hqueries
    exact ⟨hwithin, hbudget, hqueries.2⟩
  | answered hcollecting hchannel =>
    have hchannel' := hqueries
    rw [hchannel, forall_mem_cons] at hchannel'
    have hworker := Resident.worker_process layout ⟨hwithin, hbudget, hqueries⟩
      (submitted_query hchannel'.1)
    exact ⟨hworker.within, hworker.budget, hchannel'.2⟩
  | applied hcollecting htimes =>
    have hworker := Resident.worker_process layout ⟨hwithin, hbudget, hqueries⟩
      (submitted_command htimes)
    exact ⟨hworker.within, hworker.budget, hworker.queries⟩

/-! ### Whole runs -/

structure Sound (layout : EventLayout) (config : TraceStoreConfig) (s : Store) : Prop where
  places : s.places.Perm (range s.tickets)
  counts : s.Counts
  resident : s.Resident config

theorem sound_of_reachable {now} (h : (machine layout config now).Reachable (fun _ => True) s) :
    s.Sound layout config := by
  refine h.invariant ?_ ?_
  · exact ⟨.rfl, rfl, ⟨zero_le _, zero_le _⟩, rfl, forall_mem_nil _⟩
  · intro s s' action _ hs _ hstep
    have hmoved : Moved layout config s action s' := moved_step hstep
    exact ⟨places_moved hs.places hmoved, hs.counts.moved hs.places hmoved,
      hs.resident.moved hmoved⟩

theorem accounts_of_reachable {now}
    (h : (machine layout config now).Reachable (fun _ => True) s) : s.Accounts layout config := by
  refine h.invariant ?_ ?_
  · refine ⟨?_, ⟨le_rfl, fun _ => rfl⟩, zero_le _⟩
    intro ticket submission queued hlookup
    cases hlookup
  · intro s s' action hreach hs _ hstep
    exact hs.moved (sound_of_reachable hreach).places (moved_step hstep)

end Store

end RsProxy.Trace
