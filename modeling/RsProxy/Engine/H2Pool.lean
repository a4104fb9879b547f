import RsProxy.Data.Recency
import RsProxy.Engine.Admission

/-!
# The pool of HTTP/2 connections

One connection serves many streams, so the requests under a key share the entry of the pool and,
while there is none, one of them is elected to connect and the others wait for it. A lease counts a
stream of the key; the one that is elected carries the generation under which it was, and a lease
that is dropped takes its election back if that generation is still the one in force.

The parties are the requests with their leases and, on the side of the connections, the tasks that
remove entries. Everything happens under one lock, so a step is what is done while it is held; the
notification that follows a change is a step of its own.
-/

namespace RsProxy.Engine

open Text Data AList

/-! ### The pool -/

/-- In milliseconds. -/
def h2PoolIdleTtl : Nat := 60 * 1000

def h2PoolCapacity : Nat := 256

structure H2PoolLease where
  key : Str
  connectorGeneration : Option Nat
deriving DecidableEq

structure PoolEntry where
  generation : Nat
  lastUsed : Nat
deriving DecidableEq

structure H2Pool where
  entries : AList fun _ : Str => PoolEntry
  order : List Str
  activity : KeyedActivity
  connecting : AList fun _ : Str => Nat

namespace H2Pool

def empty : H2Pool := ⟨∅, [], .empty, ∅⟩

section

variable (pool : H2Pool) (key : Str)

def touch : H2Pool :=
  { pool with order := pool.order.filter (· ≠ key) ++ [key] }

def remove : H2Pool :=
  { pool with entries := pool.entries.erase key, order := pool.order.filter (· ≠ key) }

/-- Has the entry been idle for too long, with no stream on it? -/
def expired (entry : PoolEntry) (now : Nat) : Bool :=
  h2PoolIdleTtl ≤ now - entry.lastUsed && pool.activity.activeFor key = 0

def get (now : Nat) : Option PoolEntry × H2Pool :=
  match pool.entries.lookup key with
  | none => (none, pool)
  | some entry =>
    if pool.expired key entry now then (none, pool.remove key)
    else
      let entry := { entry with lastUsed := now }
      (some entry, { pool with entries := pool.entries.insert key entry }.touch key)

def insert (entry : PoolEntry) : H2Pool :=
  let pool := { pool with connecting := pool.connecting.erase key }
  if key ∈ pool.entries then { pool with entries := pool.entries.insert key entry }.touch key
  else
    let (entries, order) := Recency.makeRoom h2PoolCapacity pool.entries pool.order
    { pool with entries := entries.insert key entry, order := order ++ [key] }

def removeIfGeneration (generation : Nat) : H2Pool :=
  if (pool.entries.lookup key).any (·.generation = generation) then pool.remove key else pool

def claimConnector (generation : Nat) : Option H2Pool :=
  if key ∈ pool.connecting then none
  else some { pool with connecting := pool.connecting.insert key generation }

def cancelConnector (generation : Nat) : H2Pool :=
  if pool.connecting.lookup key = some generation then
    { pool with connecting := pool.connecting.erase key }
  else pool

def reserve : H2Pool :=
  { pool with activity := pool.activity.reserve key }

end

/-- What the drop of a lease does under the lock. -/
def dropLease (pool : H2Pool) (lease : H2PoolLease) : H2Pool :=
  let pool := { pool with activity := pool.activity.release lease.key }
  match lease.connectorGeneration with
  | none => pool
  | some generation => pool.cancelConnector lease.key generation

/-- One round of the task that looks after an idle entry. -/
def evictIdle (pool : H2Pool) (key : Str) (generation now : Nat) : H2Pool :=
  match pool.entries.lookup key with
  | none => pool
  | some entry =>
    if entry.generation ≠ generation then pool
    else if pool.expired key entry now then pool.removeIfGeneration key generation
    else pool

end H2Pool

/-! ### Waiting for an entry -/

/-- How a round of the loop in `wait_for_entry_or_connector` ends. -/
inductive EntryLook where
  | entry (generation : Nat)
  | connector
  | refuse
  | block
deriving DecidableEq

/-- One round of the loop, from the end of a wait to the next one. The flags say whether the time is
over when it is looked at, once in front of the election and once behind it. -/
def waitForEntryOrConnector (pool : H2Pool) (key : Str) (generation : Nat) (wait : WaitState)
    (expired late : Bool) (now now' : Nat) : EntryLook × H2Pool :=
  let woken := if wait = .timedOut then pool.get key now else (none, pool)
  if wait = .timedOut && woken.1.isNone && key ∈ woken.2.connecting then (.refuse, woken.2)
  else
    match woken.2.get key now' with
    | (some entry, pool) => (.entry entry.generation, pool)
    | (none, pool) =>
      if expired then (.refuse, pool)
      else
        match pool.claimConnector key generation with
        | some pool => (.connector, pool)
        | none => if late then (.refuse, pool) else (.block, pool)

/-! ### The requests -/

/-- Where a request is. -/
inductive H2Phase where
  | idle
  /-- In `acquire_slot`. -/
  | admitting (key : Str)
  /-- In `wait_for_entry_or_connector`. -/
  | waiting (lease : H2PoolLease)
  /-- About to use the entry with this generation. -/
  | sending (lease : H2PoolLease) (generation : Nat)
  /-- Elected, with the connection not made yet. -/
  | connecting (lease : H2PoolLease)
  /-- On a connection, until the response is finished. -/
  | streaming (lease : H2PoolLease)
  /-- Finished, and about to drop the lease. -/
  | dropping (lease : H2PoolLease)
deriving DecidableEq

def H2Phase.lease? : H2Phase → Option H2PoolLease
  | idle | admitting _ => none
  | waiting lease | sending lease _ | connecting lease | streaming lease | dropping lease =>
    some lease

/-- The generations are the two global counters, which no run brings to the end of their 64 bits;
`notifying` says of a request that it has changed the pool and has still to notify the others. -/
structure H2Requests (ι : Type) where
  pool : H2Pool
  nextConnectorGeneration : Nat
  nextGeneration : Nat
  phases : ι → H2Phase
  waits : ι → WaitState
  notifying : ι → Bool

inductive H2Event where
  | dispatch (key : Str) (now : Nat)
  | enter (timeoutIsZero : Bool)
  | lookForSlot (expired : Bool)
  | lookForEntry (expired late : Bool) (now now' : Nat)
  | wake (byTimeout : Bool)
  /-- The connection of the entry is gone. -/
  | stale
  | answered
  /-- The request is over, or has failed. -/
  | finished
  | connected (now : Nat)
  | drop
  | notifyAll
deriving DecidableEq

/-- A step of a request, or of one of the tasks that remove entries. -/
inductive H2Move (ι : Type) where
  | request (i : ι) (event : H2Event)
  | remove (key : Str) (generation : Nat)
  | evict (key : Str) (generation now : Nat)

namespace H2Requests

variable {ι : Type} [DecidableEq ι]

def initial : H2Requests ι := ⟨.empty, 1, 1, fun _ => .idle, fun _ => .arriving, fun _ => false⟩

section

variable (limit : Nat) (s : H2Requests ι) (i : ι)

def goTo (phase : H2Phase) (wait : WaitState) : H2Requests ι :=
  { s with phases := Function.update s.phases i phase, waits := Function.update s.waits i wait }

def withPool (pool : H2Pool) : H2Requests ι := { s with pool }

def setNotifying (flag : Bool) : H2Requests ι :=
  { s with notifying := Function.update s.notifying i flag }

def requestStep (event : H2Event) : Option (H2Requests ι) :=
  match event, s.phases i with
  | .dispatch key now, .idle =>
    some ((s.withPool (s.pool.get key now).2).goTo i (.admitting key) .arriving)
  | .enter timeoutIsZero, .admitting key =>
    if s.waits i ≠ .arriving then none
    else if acquireSlotRejects limit timeoutIsZero then some (s.goTo i .idle .arriving)
    else some (s.goTo i (.admitting key) .looking)
  | .lookForSlot expired, .admitting key =>
    if s.waits i = .arriving || s.waits i = .blocked then none
    else
      match acquireSlotLook limit (s.pool.activity.activeFor key) (s.waits i) expired with
      | .reserve => some ((s.withPool (s.pool.reserve key)).goTo i (.waiting ⟨key, none⟩) .looking)
      | .refuse => some (s.goTo i .idle .arriving)
      | .block => some (s.goTo i (.admitting key) .blocked)
  | .lookForEntry expired late now now', .waiting lease =>
    if s.waits i = .blocked then none
    else
      match waitForEntryOrConnector s.pool lease.key s.nextConnectorGeneration (s.waits i)
          expired late now now' with
      | (.entry generation, pool) =>
        some ((s.withPool pool).goTo i (.sending lease generation) .arriving)
      | (.connector, pool) =>
        some { (s.withPool pool).goTo i
            (.connecting { lease with connectorGeneration := some s.nextConnectorGeneration })
            .arriving with
          nextConnectorGeneration := s.nextConnectorGeneration + 1 }
      | (.refuse, pool) => some ((s.withPool pool).goTo i (.dropping lease) .arriving)
      | (.block, pool) => some ((s.withPool pool).goTo i (.waiting lease) .blocked)
  | .wake byTimeout, phase =>
    if s.waits i = .blocked then
      some (s.goTo i phase (if byTimeout then .timedOut else .looking))
    else none
  | .stale, .sending lease generation =>
    some ((s.withPool (s.pool.removeIfGeneration lease.key generation)).goTo i (.waiting lease)
      .looking)
  | .answered, .sending lease _ => some (s.goTo i (.streaming lease) .arriving)
  | .finished, .sending lease _ | .finished, .connecting lease | .finished, .streaming lease =>
    some (s.goTo i (.dropping lease) .arriving)
  | .connected now, .connecting lease =>
    some (({ s with nextGeneration := s.nextGeneration + 1 }.withPool
      (s.pool.insert lease.key ⟨s.nextGeneration, now⟩)).goTo i (.streaming lease)
        .arriving |>.setNotifying i true)
  | .drop, .dropping lease =>
    some (((s.withPool (s.pool.dropLease lease)).goTo i .idle .arriving).setNotifying i true)
  | _, _ => none

/-- Everybody who sleeps wakes up. -/
def notifyAll : H2Requests ι :=
  { s with waits := fun j => if s.waits j = .blocked then .notified else s.waits j }

def step : H2Move ι → Option (H2Requests ι)
  | .request i event =>
    -- A request that has changed the pool does nothing else before it has notified.
    if s.notifying i then
      if event = .notifyAll then some (s.notifyAll.setNotifying i false) else none
    else s.requestStep limit i event
  | .remove key generation => some (s.withPool (s.pool.removeIfGeneration key generation))
  | .evict key generation now => some (s.withPool (s.pool.evictIdle key generation now))

end

/-- The requests and tasks together. -/
def machine (ι : Type) [DecidableEq ι] (limit : Nat) : Machine (H2Requests ι) (H2Move ι) :=
  ⟨initial, step limit⟩

end H2Requests

/-! ### What the operations do to the pool -/

variable {entry : PoolEntry} {generation : Nat}

namespace H2Pool

/-- The recency list has the keys of the entries, and there are not too many of them. -/
structure Ordered (pool : H2Pool) : Prop where
  perm : pool.order.Perm pool.entries.keys
  capacity : pool.entries.keys.length ≤ h2PoolCapacity

theorem Ordered.nodup {pool : H2Pool} (h : pool.Ordered) : pool.order.Nodup :=
  h.perm.nodup_iff.mpr pool.entries.keys_nodup

/-- What a request waits for in `wait_for_entry_or_connector`. -/
def Ready (pool : H2Pool) (key : Str) : Prop := key ∈ pool.entries ∨ key ∉ pool.connecting

/-- At most some entries are gone. -/
structure Shrinks (pool pool' : H2Pool) : Prop where
  connecting : pool'.connecting = pool.connecting
  activity : pool'.activity = pool.activity
  entries : ∀ key, key ∈ pool'.entries → key ∈ pool.entries
  ordered : pool.Ordered → pool'.Ordered

theorem Shrinks.refl (pool : H2Pool) : pool.Shrinks pool := ⟨rfl, rfl, fun _ => id, id⟩

variable {pool pool' pool'' : H2Pool} {key : Str}

theorem Shrinks.trans (h : pool.Shrinks pool') (h' : pool'.Shrinks pool'') : pool.Shrinks pool'' :=
  ⟨h'.connecting.trans h.connecting, h'.activity.trans h.activity,
    fun key hkey => h.entries key (h'.entries key hkey),
    fun hordered => h'.ordered (h.ordered hordered)⟩

theorem Shrinks.not_ready (h : pool.Shrinks pool') (hready : ¬ pool.Ready key) :
    ¬ pool'.Ready key := by
  rintro (hentry | hconnecting)
  · exact hready (.inl (h.entries key hentry))
  · exact hready (.inr (h.connecting ▸ hconnecting))

theorem shrinks_remove (pool : H2Pool) : pool.Shrinks (pool.remove key) := by
  refine ⟨rfl, rfl, fun other hother => (mem_erase.mp hother).2, fun h => ⟨?_, ?_⟩⟩
  · exact Recency.perm_erase h.perm key
  · exact Recency.length_keys_erase_le.trans h.capacity

/-- Replacing the value of an entry and moving its key to the end. -/
theorem ordered_touch (h : pool.Ordered) (hkey : key ∈ pool.entries) :
    ({ pool with entries := pool.entries.insert key entry }.touch key).Ordered :=
  ⟨Recency.perm_insert h.perm key entry,
    (Recency.length_keys_insert hkey).trans_le h.capacity⟩

theorem shrinks_get (pool : H2Pool) (key : Str) (now : Nat) :
    pool.Shrinks (pool.get key now).2 := by
  unfold get
  cases hlookup : pool.entries.lookup key with
  | none => exact .refl pool
  | some entry =>
    have hkey : key ∈ pool.entries := lookup_isSome.mp (hlookup ▸ rfl)
    dsimp only
    split
    · exact shrinks_remove pool
    · refine ⟨rfl, rfl, fun other hother => ?_, fun h => ordered_touch h hkey⟩
      rcases (mem_insert _).mp hother with rfl | hother
      · exact hkey
      · exact hother

theorem notMem_of_get_eq_none {now} (h : (pool.get key now).1 = none) :
    key ∉ (pool.get key now).2.entries := by
  unfold get at h ⊢
  cases hlookup : pool.entries.lookup key with
  | none => exact lookup_eq_none.mp hlookup
  | some entry =>
    rw [hlookup] at h
    dsimp only at h ⊢
    split_ifs at h with hexpired
    rw [if_pos hexpired]
    exact fun hmem => (mem_erase.mp hmem).1 rfl

theorem shrinks_removeIfGeneration (pool : H2Pool) :
    pool.Shrinks (pool.removeIfGeneration key generation) := by
  unfold removeIfGeneration
  split
  · exact shrinks_remove pool
  · exact .refl pool

theorem shrinks_evictIdle (pool : H2Pool) {now} :
    pool.Shrinks (pool.evictIdle key generation now) := by
  unfold evictIdle
  split
  · exact .refl pool
  · split
    · exact .refl pool
    · split
      · exact shrinks_removeIfGeneration pool
      · exact .refl pool

theorem ordered_insert (h : pool.Ordered) : (pool.insert key entry).Ordered := by
  simp only [insert]
  split
  next hkey =>
    have h' : Ordered { pool with connecting := pool.connecting.erase key } := ⟨h.perm, h.capacity⟩
    exact ordered_touch h' hkey
  next hkey =>
    obtain ⟨hperm, hlength, hmem⟩ := Recency.makeRoom_spec (by decide : 0 < h2PoolCapacity) h.perm
    obtain ⟨hinsert, hone⟩ := Recency.perm_insert_new hperm (mt (hmem key) hkey)
    exact ⟨hinsert, hone.trans_le hlength⟩

@[simp]
theorem connecting_insert (pool : H2Pool) :
    (pool.insert key entry).connecting = pool.connecting.erase key := by
  simp only [insert]
  split <;> rfl

theorem entries_dropLease (pool : H2Pool) {lease} :
    (pool.dropLease lease).entries = pool.entries ∧ (pool.dropLease lease).order = pool.order := by
  unfold dropLease cancelConnector
  split
  · exact ⟨rfl, rfl⟩
  · dsimp only
    split <;> exact ⟨rfl, rfl⟩

end H2Pool

/-! ### What a step does -/

namespace H2Requests

variable {ι : Type} [DecidableEq ι] {limit : Nat} {s s' : H2Requests ι} {i : ι} {move : H2Move ι}

/-- The phases a request goes through with one lease, and without being elected. -/
structure KeepsLease (phase phase' : H2Phase) : Prop where
  lease : phase'.lease? = phase.lease?
  connecting : ∀ lease, phase' = .connecting lease → phase = .connecting lease
  owner : ∀ lease, phase = .connecting lease ∨ phase = .dropping lease →
    phase' = .connecting lease ∨ phase' = .dropping lease

theorem KeepsLease.refl (phase : H2Phase) : KeepsLease phase phase :=
  ⟨rfl, fun _ => id, fun _ => id⟩

/-- What a request sleeps for has not happened. -/
def Blocks (limit : Nat) (pool : H2Pool) (phase : H2Phase) : Prop :=
  (∃ key, phase = .admitting key ∧ limit ≤ pool.activity.activeFor key) ∨
    ∃ lease, phase = .waiting lease ∧ ¬ pool.Ready lease.key

/-- The steps with their guards. Most of them move one request on and at most take an entry out. -/
inductive Moved (limit : Nat) (s : H2Requests ι) : H2Move ι → H2Requests ι → Prop where
  | quiet {i event pool phase wait}
      (hshrinks : s.pool.Shrinks pool) (hphase : KeepsLease (s.phases i) phase)
      (hblocks : wait = .blocked → Blocks limit pool phase) :
      Moved limit s (.request i event) ((s.withPool pool).goTo i phase wait)
  | reserves {i event key} (hphase : s.phases i = .admitting key) :
      Moved limit s (.request i event)
        ((s.withPool (s.pool.reserve key)).goTo i (.waiting ⟨key, none⟩) .looking)
  | elected {i event lease pool}
      (hphase : s.phases i = .waiting lease) (hshrinks : s.pool.Shrinks pool)
      (hfree : lease.key ∉ s.pool.connecting) :
      Moved limit s (.request i event)
        { (s.withPool { pool with
              connecting := s.pool.connecting.insert lease.key s.nextConnectorGeneration }).goTo i
            (.connecting { lease with connectorGeneration := some s.nextConnectorGeneration })
            .arriving with
          nextConnectorGeneration := s.nextConnectorGeneration + 1 }
  | connected {i now lease} (hphase : s.phases i = .connecting lease) :
      Moved limit s (.request i (.connected now))
        (({ s with nextGeneration := s.nextGeneration + 1 }.withPool
          (s.pool.insert lease.key ⟨s.nextGeneration, now⟩)).goTo i (.streaming lease)
            .arriving |>.setNotifying i true)
  | dropped {i lease} (hphase : s.phases i = .dropping lease) :
      Moved limit s (.request i .drop)
        (((s.withPool (s.pool.dropLease lease)).goTo i .idle .arriving).setNotifying i true)
  | notified {i : ι} (hnotifying : s.notifying i) :
      Moved limit s (.request i .notifyAll) (s.notifyAll.setNotifying i false)
  | removes {move pool} (hshrinks : s.pool.Shrinks pool) :
      Moved limit s move (s.withPool pool)

/-- How a look for an entry ends. -/
theorem waitForEntryOrConnector_cases {pool key wait expired late now now'} :
    ∃ pool', pool.Shrinks pool' ∧
      (waitForEntryOrConnector pool key generation wait expired late now now' =
          (.connector, { pool' with connecting := pool.connecting.insert key generation }) ∧
          key ∉ pool.connecting ∨
        waitForEntryOrConnector pool key generation wait expired late now now' = (.block, pool') ∧
          ¬ pool'.Ready key ∨
        waitForEntryOrConnector pool key generation wait expired late now now' = (.refuse, pool') ∨
        ∃ found, waitForEntryOrConnector pool key generation wait expired late now now' =
          (.entry found, pool')) := by
  unfold waitForEntryOrConnector
  have hwoken : pool.Shrinks (if wait = .timedOut then pool.get key now else (none, pool)).2 := by
    split
    · exact H2Pool.shrinks_get pool key now
    · exact .refl pool
  generalize (if wait = .timedOut then pool.get key now else (none, pool)) = woken at hwoken
  dsimp only
  split
  · exact ⟨woken.2, hwoken, .inr (.inr (.inl rfl))⟩
  · have hget := hwoken.trans (H2Pool.shrinks_get woken.2 key now')
    rcases hfound : woken.2.get key now' with ⟨found | entry, pool'⟩
    · have hgone := H2Pool.notMem_of_get_eq_none (congrArg Prod.fst hfound)
      rw [hfound] at hget hgone
      refine ⟨pool', hget, ?_⟩
      dsimp only
      split
      · exact .inr (.inr (.inl rfl))
      · rw [H2Pool.claimConnector, hget.connecting]
        by_cases hconnecting : key ∈ pool.connecting
        · rw [if_pos hconnecting]
          dsimp only
          split
          · exact .inr (.inr (.inl rfl))
          · refine .inr (.inl ⟨rfl, ?_⟩)
            rintro (hentry | hfree)
            · exact hgone hentry
            · exact hfree (hget.connecting ▸ hconnecting)
        · rw [if_neg hconnecting]
          exact .inl ⟨rfl, hconnecting⟩
    · rw [hfound] at hget
      exact ⟨pool', hget, .inr (.inr (.inr ⟨entry.generation, rfl⟩))⟩

theorem moved_of_requestStep {event} (h : s.requestStep limit i event = some s') :
    Moved limit s (.request i event) s' := by
  have hsame : s.pool.Shrinks s.pool := .refl s.pool
  have hgoes : ∀ {pool phase phase' wait}, s.phases i = phase → s.pool.Shrinks pool →
      KeepsLease phase phase' → wait ≠ .blocked →
      Moved limit s (.request i event) ((s.withPool pool).goTo i phase' wait) :=
    fun hphase hshrinks hkeeps hwait => .quiet hshrinks (hphase ▸ hkeeps) (absurd · hwait)
  unfold requestStep at h
  split at h
  next key now hphase =>
    cases h
    exact hgoes hphase (H2Pool.shrinks_get _ _ _) ⟨rfl, by simp, by simp⟩ nofun
  next timeoutIsZero key hphase =>
    split at h
    · cases h
    · split at h <;> cases h
      · exact hgoes hphase hsame ⟨rfl, by simp, by simp⟩ nofun
      · exact hgoes hphase hsame (.refl _) nofun
  next expired key hphase =>
    split at h
    · cases h
    · split at h <;> cases h
      · exact .reserves hphase
      · exact hgoes hphase hsame ⟨rfl, by simp, by simp⟩ nofun
      next hlook =>
        exact .quiet hsame (hphase ▸ .refl _) fun _ =>
          .inl ⟨key, rfl, acquireSlotLook_full hlook (by decide)⟩
  next expired late now now' lease hphase =>
    split at h
    · cases h
    · obtain ⟨pool, hshrinks, hcases⟩ := waitForEntryOrConnector_cases
      obtain ⟨hlook, hfree⟩ | ⟨hlook, hready⟩ | hlook | ⟨found, hlook⟩ := hcases
      all_goals
        rw [hlook] at h
        cases h
      · exact .elected hphase hshrinks hfree
      · exact .quiet hshrinks (hphase ▸ .refl _) fun _ => .inr ⟨lease, rfl, hready⟩
      · exact hgoes hphase hshrinks ⟨rfl, by simp, by simp⟩ nofun
      · exact hgoes hphase hshrinks ⟨rfl, by simp, by simp⟩ nofun
  next byTimeout =>
    split at h
    · cases h
      refine .quiet hsame (.refl _) fun hwait => ?_
      cases byTimeout <;> cases hwait
    · cases h
  next lease generation hphase =>
    cases h
    exact hgoes hphase (H2Pool.shrinks_removeIfGeneration _) ⟨rfl, by simp, by simp⟩ nofun
  iterate 4
    next hphase =>
      cases h
      exact hgoes hphase hsame ⟨rfl, by simp, by simp⟩ nofun
  next now lease hphase =>
    cases h
    exact .connected hphase
  next lease hphase =>
    cases h
    exact .dropped hphase
  · cases h

theorem moved_of_step (h : s.step limit move = some s') : Moved limit s move s' := by
  cases move with
  | request i event =>
    simp only [step] at h
    split at h
    next hnotifying =>
      split_ifs at h with hevent
      cases h
      exact hevent ▸ .notified hnotifying
    · exact moved_of_requestStep h
  | remove key generation =>
    cases h
    exact .removes (H2Pool.shrinks_removeIfGeneration _)
  | evict key generation now =>
    cases h
    exact .removes (H2Pool.shrinks_evictIdle _)

end H2Requests

end RsProxy.Engine
