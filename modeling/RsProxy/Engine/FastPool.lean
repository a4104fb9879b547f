import RsProxy.Data.Balance
import RsProxy.Data.Machine
import RsProxy.Text.Basic

/-!
# The pool of HTTP/1 connections

Every thread keeps idle connections of its own; one count for all threads says how many permits are
out under a pool key. A connection owns its permit for as long as it exists, so the permit is out
while the connection is idle too. The threads take turns: a step of one thread is what it does
between two points where another may come in, and each change of the count is a step of its own.
-/

namespace RsProxy.Engine

open Text Data List Function Option

/-! ### The count -/

/-- The active reservations under each key. -/
structure KeyedActivity where
  activeFor : Str → Nat

namespace KeyedActivity

def empty : KeyedActivity := ⟨fun _ => 0⟩

def reserve (activity : KeyedActivity) (key : Str) : KeyedActivity :=
  ⟨update activity.activeFor key (activity.activeFor key + 1)⟩

def release (activity : KeyedActivity) (key : Str) : KeyedActivity :=
  ⟨update activity.activeFor key (activity.activeFor key - 1)⟩

variable {activity : KeyedActivity} {key other : Str}

theorem activeFor_reserve : (activity.reserve key).activeFor other =
    activity.activeFor other + if key = other then 1 else 0 := by
  simp only [reserve, update_apply]
  grind

theorem activeFor_release : (activity.release key).activeFor other =
    activity.activeFor other - if key = other then 1 else 0 := by
  simp only [release, update_apply]
  grind

end KeyedActivity

open KeyedActivity

/-! ### Threads -/

def threadIdleCapacity : Nat := 8

/-- In milliseconds. -/
def fastPoolIdleTtl : Nat := 90 * 1000

/-- A connection owns the permit under its key. -/
structure FastConnection where
  poolKey : Str
  lastUsed : Nat
deriving DecidableEq

open FastConnection (poolKey)

/-- Where a thread is in a request. -/
inductive RequestPhase where
  /-- Between two requests. -/
  | idle
  /-- Waiting for a permit. -/
  | waiting (key : Str)
  /-- With a permit, on the way to a connection. -/
  | connecting (key : Str)
  /-- With a connection, until the response is finished. -/
  | active (connection : FastConnection) (reused : Bool)
  | exited
deriving DecidableEq

/-- `entries` are the idle connections; `dropped` are the keys of permits that the thread is about
to give back. -/
structure PoolThread where
  phase : RequestPhase
  entries : List FastConnection
  dropped : List Str
deriving DecidableEq

def PoolThread.start : PoolThread := ⟨.idle, [], []⟩

/-- The first connection under a key, and the others. -/
def takeEntry (key : Str) : List FastConnection → Option (FastConnection × List FastConnection)
  | [] => none
  | connection :: entries =>
    if connection.poolKey = key then some (connection, entries)
    else (takeEntry key entries).map fun (found, rest) => (found, connection :: rest)

/-- `checkout`, and what the request does with its result. -/
def checkout (thread : PoolThread) (key : Str) (now : Nat) : PoolThread :=
  match takeEntry key thread.entries with
  | none => { thread with phase := .waiting key }
  | some (connection, entries) =>
    if fastPoolIdleTtl ≤ now - connection.lastUsed then
      { phase := .waiting key, entries, dropped := [connection.poolKey] }
    else { thread with phase := .active connection true, entries }

/-- `checkin`: no second connection under the key stays, and there is room for one more. -/
def checkin (thread : PoolThread) (connection : FastConnection) (now : Nat) : PoolThread :=
  let (same, others) := thread.entries.partition (·.poolKey = connection.poolKey)
  let excess := others.length + 1 - threadIdleCapacity
  { phase := .idle
    entries := others.drop excess ++ [{ connection with lastUsed := now }]
    dropped := (same ++ others.take excess).map poolKey }

/-- The keys of the permits a phase owns. -/
def RequestPhase.permits : RequestPhase → List Str
  | connecting key => [key]
  | active connection _ => [connection.poolKey]
  | idle | waiting _ | exited => []

open RequestPhase (permits)

/-- What a thread does by itself. A response that fails leaves a connection that is not reusable. -/
inductive PoolEvent where
  | request (key : Str) (now : Nat)
  | refused
  | connected (now : Nat)
  | connectFailed
  | sendFailed
  | finished (reusable : Bool) (now : Nat)
  | exit
deriving DecidableEq

def PoolThread.step (thread : PoolThread) (event : PoolEvent) : Option PoolThread :=
  -- A thread goes on when it has given back what it dropped.
  if thread.dropped ≠ [] then none
  else
    match event, thread.phase with
    | .request key now, .idle => some (checkout thread key now)
    | .refused, .waiting _ => some { thread with phase := .idle }
    | .connected now, .connecting key => some { thread with phase := .active ⟨key, now⟩ false }
    | .connectFailed, .connecting key => some { thread with phase := .idle, dropped := [key] }
    | .sendFailed, .active connection reused =>
      some { thread with
        phase := if reused then .waiting connection.poolKey else .idle
        dropped := [connection.poolKey] }
    | .finished reusable now, .active connection _ =>
      if reusable then some (checkin thread connection now)
      else some { thread with phase := .idle, dropped := [connection.poolKey] }
    | .exit, phase =>
      if phase = .exited then none
      else some
        { phase := .exited
          entries := []
          dropped := phase.permits ++ thread.entries.map poolKey }
    | _, _ => none

/-! ### The threads together -/

structure FastPool (ι : Type) where
  activity : KeyedActivity
  threads : ι → PoolThread

/-- A step of one thread: by itself, into the count, or out of it. -/
inductive PoolStep where
  | alone (event : PoolEvent)
  | acquire
  | release

namespace FastPool

variable {ι : Type} [DecidableEq ι]

def initial : FastPool ι := ⟨.empty, fun _ => .start⟩

def step (limit : Nat) (pool : FastPool ι) (i : ι) : PoolStep → Option (FastPool ι)
  | .alone event => ((pool.threads i).step event).map fun thread =>
      { pool with threads := update pool.threads i thread }
  | .acquire =>
    match (pool.threads i).phase, (pool.threads i).dropped with
    | .waiting key, [] =>
      if pool.activity.activeFor key < limit then
        some ⟨pool.activity.reserve key,
          update pool.threads i { pool.threads i with phase := .connecting key }⟩
      else none
    | _, _ => none
  | .release =>
    match (pool.threads i).dropped with
    | [] => none
    | key :: dropped =>
      some ⟨pool.activity.release key,
        update pool.threads i { pool.threads i with dropped }⟩

/-- The threads, in any interleaving. -/
def machine (ι : Type) [DecidableEq ι] (limit : Nat) : Machine (FastPool ι) (ι × PoolStep) where
  initial := initial
  step pool s := pool.step limit s.1 s.2

end FastPool

/-! ### What a thread has in hand -/

variable {connection : FastConnection} {limit : Nat}

namespace PoolThread

/-- The request of this thread was admitted under the key and is not finished. -/
def inFlight (key : Str) (thread : PoolThread) : Nat := thread.phase.permits.count key

/-- Idle connections under the key. -/
def idle (key : Str) (thread : PoolThread) : Nat :=
  (thread.entries.map poolKey).count key

/-- All permits under the key that this thread has not given back. -/
def held (key : Str) (thread : PoolThread) : Nat :=
  thread.inFlight key + thread.idle key + thread.dropped.count key

variable {key : Str} {thread thread' : PoolThread}

theorem takeEntry_perm {entries rest} (h : takeEntry key entries = some (connection, rest)) :
    connection.poolKey = key ∧ entries.Perm (connection :: rest) := by
  induction entries generalizing rest with
  | nil => cases h
  | cons first entries ih =>
    rw [takeEntry] at h
    split at h
    next hkey =>
      cases h
      exact ⟨hkey, .refl _⟩
    · obtain ⟨⟨found, others⟩, hfound, heq⟩ := map_eq_some_iff.mp h
      cases heq
      obtain ⟨hkey, hperm⟩ := ih hfound
      exact ⟨hkey, (hperm.cons first).trans (.swap _ _ _)⟩

/-- Taking a connection out moves its permit. -/
theorem held_checkout (hphase : thread.phase = .idle) (hdropped : thread.dropped = []) {now other} :
    (checkout thread key now).held other = thread.held other := by
  have hheld : thread.held other = (thread.entries.map poolKey).count other := by
    simp [held, inFlight, idle, hphase, hdropped, permits]
  rw [checkout, hheld]
  cases hentry : takeEntry key thread.entries with
  | none => simp [held, inFlight, idle, hdropped, permits]
  | some found =>
    have hcount := ((takeEntry_perm hentry).2.map poolKey).count_eq other
    rw [hcount, map_cons, count_cons]
    dsimp only
    split
    · simp only [held, inFlight, idle, permits, count_nil, count_singleton]
      omega
    · simp only [held, inFlight, idle, permits, count_nil, count_singleton, hdropped]
      omega

/-- Putting a connection back moves its permit, and those of the connections it displaces. -/
theorem held_checkin {reused} (hphase : thread.phase = .active connection reused)
    (hdropped : thread.dropped = []) {now other} :
    (checkin thread connection now).held other = thread.held other := by
  have hheld : thread.held other =
      [connection.poolKey].count other +
        (thread.entries.map poolKey).count other := by
    simp [held, inFlight, idle, hphase, hdropped, permits]
  have hsplit : (thread.entries.map poolKey).count other =
      ((thread.entries.filter (·.poolKey = connection.poolKey)).map
        poolKey).count other +
      ((thread.entries.filter (not ∘ (·.poolKey = connection.poolKey))).map
        poolKey).count other := by
    rw [← count_append, ← map_append]
    refine (Perm.map _ (Perm.symm ?_)).count_eq other
    simpa [comp_def] using
      filter_append_perm (fun c => decide (c.poolKey = connection.poolKey)) thread.entries
  rw [hheld, hsplit, checkin, partition_eq_filter_filter]
  dsimp only
  generalize thread.entries.filter (not ∘ (·.poolKey = connection.poolKey)) = others
  generalize others.length + 1 - threadIdleCapacity = excess
  have hcut : (others.map poolKey).count other =
      ((others.take excess).map poolKey).count other +
        ((others.drop excess).map poolKey).count other := by
    rw [← count_append, ← map_append, take_append_drop]
  simp only [held, inFlight, idle, permits, map_append, map_cons,
    map_nil, count_append, count_nil]
  omega

/-- A thread by itself neither gains nor loses a permit. -/
theorem held_step {event} (h : thread.step event = some thread') :
    thread'.held key = thread.held key := by
  unfold step at h
  split_ifs at h with hdropped
  rw [not_not] at hdropped
  split at h
  next target now hphase =>
    cases h
    exact held_checkout hphase hdropped
  iterate 2
    next hphase =>
      cases h
      simp [held, inFlight, idle, hphase, permits]
  next target hphase =>
    cases h
    simp only [held, inFlight, idle, hphase, hdropped, permits]
    omega
  next connection reused hphase =>
    cases h
    have hpermits : (if reused then RequestPhase.waiting connection.poolKey
        else .idle).permits = [] := by cases reused <;> rfl
    rw [held, held, inFlight, inFlight, idle, idle, hpermits, hphase, hdropped]
    simp [permits, Nat.add_comm]
  next reusable now connection reused hphase =>
    split at h
    · cases h
      exact held_checkin hphase hdropped
    · cases h
      simp only [held, inFlight, idle, hphase, hdropped, permits]
      omega
  · split_ifs at h
    cases h
    simp only [held, inFlight, idle, hdropped, permits, map_nil,
      count_nil, count_append]
    omega
  · cases h

theorem held_acquire (hphase : thread.phase = .waiting key) {other} :
    held other { thread with phase := .connecting key } =
      thread.held other + if key = other then 1 else 0 := by
  simp only [held, inFlight, idle, hphase, permits, count_nil, count_singleton,
    beq_iff_eq]
  omega

theorem held_release {dropped} (hdropped : thread.dropped = key :: dropped) (other : Str) :
    thread.held other = held other { thread with dropped } + if key = other then 1 else 0 := by
  simp only [held, inFlight, idle, hdropped, count_cons, beq_iff_eq]
  omega

end PoolThread

open PoolThread

/-! ### Every interleaving -/

namespace FastPool

variable {ι : Type} [DecidableEq ι] [Fintype ι] {pool pool' : FastPool ι}

/-- The count says which permits the threads have, and it is within the limit. -/
structure Counted (limit : Nat) (pool : FastPool ι) : Prop where
  balanced : Balanced held pool.activity.activeFor pool.threads
  limited : ∀ key, pool.activity.activeFor key ≤ limit

omit [DecidableEq ι] in
theorem counted_initial : Counted limit (initial : FastPool ι) := by
  constructor
  · intro key
    simp [initial, empty, start, held, inFlight,
      idle, permits]
  · intro key
    exact Nat.zero_le limit

theorem Counted.step {i s} (h : Counted limit pool) (hstep : pool.step limit i s = some pool') :
    Counted limit pool' := by
  obtain ⟨hbalanced, hlimited⟩ := h
  cases s with
  | alone event =>
    obtain ⟨thread, hthread, rfl⟩ := map_eq_some_iff.mp hstep
    refine ⟨hbalanced.update fun key => ?_, hlimited⟩
    rw [held_step hthread]
  | acquire =>
    simp only [FastPool.step] at hstep
    split at hstep
    next key hphase hdropped =>
      split_ifs at hstep with hlt
      cases hstep
      refine ⟨hbalanced.update fun other => ?_, fun other => ?_⟩
      · rw [held_acquire hphase, activeFor_reserve]
        omega
      · -- The permit was given out below the limit.
        have := hlimited other
        rw [activeFor_reserve]
        split_ifs with hkey
        · subst hkey
          omega
        · omega
    · cases hstep
  | release =>
    simp only [FastPool.step] at hstep
    split at hstep
    · cases hstep
    next key dropped hdropped =>
      cases hstep
      refine ⟨hbalanced.update fun other => ?_, fun other => ?_⟩
      · have hle := hbalanced.held_le other i
        rw [held_release hdropped] at hle ⊢
        rw [activeFor_release]
        omega
      · rw [activeFor_release]
        exact (Nat.sub_le _ _).trans (hlimited other)

theorem counted_of_reachable (h : (machine ι limit).Reachable (fun _ => True) pool) :
    Counted limit pool :=
  h.invariant counted_initial fun _ hcounted _ hstep => hcounted.step hstep

/-- No thread has an idle connection under the key, or one it is about to close. -/
def Drained (pool : FastPool ι) (key : Str) : Prop :=
  ∀ i, (pool.threads i).idle key = 0 ∧ (pool.threads i).dropped.count key = 0

/-- Whatever the threads do, the count under a key is within the limit, and it is the number of
requests in flight if and only if no connection under the key is idle or about to be closed. -/
theorem active_eq_inFlight_iff {limit : Nat} {pool : FastPool ι}
    (h : (machine ι limit).Reachable (fun _ => True) pool) (key : Str) :
    pool.activity.activeFor key ≤ limit ∧
      (pool.activity.activeFor key = ∑ i, (pool.threads i).inFlight key ↔ pool.Drained key) := by
  obtain ⟨hbalanced, hlimited⟩ := counted_of_reachable h
  refine ⟨hlimited key, ?_⟩
  have hsum : pool.activity.activeFor key = ∑ i, (pool.threads i).inFlight key +
      ∑ i, ((pool.threads i).idle key + (pool.threads i).dropped.count key) := by
    rw [hbalanced key, ← Finset.sum_add_distrib]
    apply Finset.sum_congr rfl
    intro i _
    rw [held, Nat.add_assoc]
  rw [hsum, Drained]
  simp

/-! ### A connection that stays idle -/

instance (pool : FastPool ι) (key : Str) : Decidable (pool.Drained key) :=
  inferInstanceAs (Decidable (∀ i, (pool.threads i).idle key = 0 ∧
    (pool.threads i).dropped.count key = 0))

/-- A request of the first of two threads, up to its connection. -/
def connectSteps : List (Fin 2 × PoolStep) :=
  [(0, .alone (.request "a:80" 0)), (0, .acquire), (0, .alone (.connected 1))]

/-- While the request is in flight, the count is right. -/
theorem active_eq_inFlight_of_connected :
    ∃ pool, (machine (Fin 2) 1).Reachable (fun _ => True) pool ∧
    (∑ i, (pool.threads i).inFlight "a:80") = 1 ∧
    pool.activity.activeFor "a:80" = ∑ i, (pool.threads i).inFlight "a:80" := by
  obtain ⟨pool, hreach, hdrained, hone⟩ :=
    Machine.exists_reachable_of_run (m := machine (Fin 2) 1) connectSteps (fun _ _ => trivial)
      (p := fun pool => pool.Drained "a:80" ∧ (∑ i, (pool.threads i).inFlight "a:80") = 1)
      (by decide +kernel)
  exact ⟨pool, hreach, hone, (active_eq_inFlight_iff hreach _).2.mpr hdrained⟩

/-- The response is finished and its connection goes back to the pool of the first thread. With a
limit of one, a request of the second thread then waits for a permit that no request has. -/
theorem idle_connection_uses_limit : ∃ pool, (machine (Fin 2) 1).Reachable (fun _ => True) pool ∧
    (∑ i, (pool.threads i).inFlight "a:80") = 0 ∧
    pool.activity.activeFor "a:80" = 1 ∧
    (pool.threads 1).phase = .waiting "a:80" ∧
    (pool.step 1 1 .acquire).isNone = true := by
  exact Machine.exists_reachable_of_run
    (connectSteps ++ [(0, .alone (.finished true 2)), (1, .alone (.request "a:80" 3))])
    (fun _ _ => trivial) (by decide +kernel)

end FastPool

end RsProxy.Engine
