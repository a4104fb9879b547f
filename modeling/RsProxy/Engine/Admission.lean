import Mathlib.Data.Fintype.Prod
import RsProxy.Data.Machine
import RsProxy.Engine.FastPool

/-!
# Waiting for a permit

`acquire_slot` looks at the count under its lock and, while the key has no room, sleeps on one
condition variable that the waiters of all keys share. A thread that gives a permit back changes the
count under the lock and notifies one sleeper, whoever that is, after it has let go of the lock.
`Admission` adds both to the threads of `FastPool`: each look is a step, so is each change of the
count, and so is the notification that follows it.

With one key every sleeper waits for the same thing and no wake-up is lost: as long as somebody
sleeps there are at least as many notifications on their way as there are free slots. With two keys
the one notification can reach a thread that has no use for it.
-/

namespace RsProxy.Engine

open Text Data List Function Option Nat PoolThread KeyedActivity

/-! ### Threads in `acquire_slot` -/

inductive WaitState where
  /-- Outside, or just called. -/
  | arriving
  /-- About to look at the count. -/
  | looking
  /-- Asleep in `wait_timeout`. -/
  | blocked
  /-- Woken by a notification, and about to look at the count. -/
  | notified
  /-- Woken by the timeout, and about to look at the count. -/
  | timedOut
deriving DecidableEq

/-- How a round of the loop in `acquire_slot` ends. -/
inductive SlotLook where
  | reserve
  | refuse
  | block
deriving DecidableEq

/-- One round of the loop, up to the next wait; `expired` says that no time is left. -/
def acquireSlotLook (limit active : Nat) (wait : WaitState) (expired : Bool) : SlotLook :=
  if active < limit then .reserve
  else if expired || wait = .timedOut then .refuse
  else .block

variable {active : Nat} {wait : WaitState} {expired : Bool}

theorem acquireSlotLook_reserve {limit} :
    acquireSlotLook limit active wait expired = .reserve ↔ active < limit := by
  unfold acquireSlotLook
  split_ifs <;> simp_all

theorem acquireSlotLook_full {limit look} (h : acquireSlotLook limit active wait expired = look)
    (hlook : look ≠ .reserve) :
    limit ≤ active :=
  not_lt.mp fun hroom => hlook (h ▸ acquireSlotLook_reserve.mpr hroom)

/-- The check of the arguments. -/
def acquireSlotRejects (limit : Nat) (timeoutIsZero : Bool) : Bool := limit = 0 || timeoutIsZero

/-- `notifying` says of a thread that it has given back a permit and has still to notify. -/
structure Admission (ι : Type) where
  pool : FastPool ι
  waits : ι → WaitState
  notifying : ι → Bool

inductive AdmissionStep (ι : Type) where
  /-- What a thread does outside `acquire_slot`. -/
  | alone (event : PoolEvent)
  | enter (timeoutIsZero : Bool)
  | look (expired : Bool)
  /-- The sleep ends without a notification: the time is over, or for no reason. -/
  | wake (byTimeout : Bool)
  | release
  /-- `notify_one`, and the sleeper it finds. -/
  | notify (sleeper : Option ι)
deriving DecidableEq

variable {thread : PoolThread} {first second : Str}

namespace Admission

variable {ι : Type} [DecidableEq ι] [Fintype ι] {limit : Nat} {s s' : Admission ι} {i : ι}
  {a : AdmissionStep ι}

def initial : Admission ι := ⟨.initial, fun _ => .arriving, fun _ => false⟩

/-- The thread leaves `acquire_slot`, with a permit or without. -/
def leave (limit : Nat) (s : Admission ι) (i : ι) (how : PoolStep) : Option (Admission ι) :=
  (s.pool.step limit i how).map fun pool =>
    { s with pool, waits := update s.waits i .arriving }

def step (limit : Nat) (s : Admission ι) (i : ι) : AdmissionStep ι → Option (Admission ι)
  | .alone event =>
    match (s.pool.threads i).phase with
    | .waiting _ => none
    | _ =>
      if s.notifying i then none
      else (s.pool.step limit i (.alone event)).map fun pool => { s with pool }
  | .enter timeoutIsZero =>
    match (s.pool.threads i).phase with
    | .waiting _ =>
      if s.notifying i || s.waits i ≠ .arriving || (s.pool.threads i).dropped ≠ [] then none
      else if acquireSlotRejects limit timeoutIsZero then s.leave limit i (.alone .refused)
      else some { s with waits := update s.waits i .looking }
    | _ => none
  | .look expired =>
    match (s.pool.threads i).phase with
    | .waiting key =>
      if s.waits i = .arriving || s.waits i = .blocked then none
      else
        match acquireSlotLook limit (s.pool.activity.activeFor key) (s.waits i) expired with
        | .reserve => s.leave limit i .acquire
        | .refuse => s.leave limit i (.alone .refused)
        | .block => some { s with waits := update s.waits i .blocked }
    | _ => none
  | .wake byTimeout =>
    if s.waits i = .blocked then
      some { s with waits := update s.waits i (if byTimeout then .timedOut else .looking) }
    else none
  | .release =>
    if s.notifying i then none
    else (s.pool.step limit i .release).map fun pool =>
      { s with pool, notifying := update s.notifying i true }
  | .notify sleeper =>
    if s.notifying i then
      match sleeper with
      | some j =>
        if s.waits j = .blocked then
          some { s with
            waits := update s.waits j .notified
            notifying := update s.notifying i false }
        else none
      | none =>
        if ∀ j, s.waits j ≠ .blocked then
          some { s with notifying := update s.notifying i false }
        else none
    else none

/-- The threads together. -/
def machine (ι : Type) [DecidableEq ι] [Fintype ι] (limit : Nat) :
    Machine (Admission ι) (ι × AdmissionStep ι) :=
  ⟨initial, fun s move => s.step limit move.1 move.2⟩

/-- The requests of the threads are for these keys. -/
def RequestsIn (keys : Set Str) : ι × AdmissionStep ι → Prop
  | (_, .alone (.request key _)) => key ∈ keys
  | _ => True

/-- A thread sleeps though its key has room, and no notification is on its way: nobody is about to
notify, and nobody who was notified has still to look. -/
def LostWakeup (limit : Nat) (s : Admission ι) : Prop :=
  ∃ i key, (s.pool.threads i).phase = .waiting key ∧ s.waits i = .blocked ∧
    s.pool.activity.activeFor key < limit ∧
    ∀ j, s.waits j ≠ .notified ∧ s.notifying j = false

/-! ### What a step does -/

/-- The steps with their guards. -/
inductive Moved (limit : Nat) (s : Admission ι) (i : ι) : AdmissionStep ι → Admission ι → Prop where
  | alone {event thread}
      (hphase : ∀ key, (s.pool.threads i).phase ≠ .waiting key)
      (hthread : (s.pool.threads i).step event = some thread) :
      Moved limit s i (.alone event)
        { s with pool.threads := update s.pool.threads i thread }
  | enter {timeoutIsZero} (hlimit : limit ≠ 0) (hwait : s.waits i = .arriving) :
      Moved limit s i (.enter timeoutIsZero)
        { s with waits := update s.waits i .looking }
  /-- The thread leaves with an error. -/
  | refused {a key thread}
      (hphase : (s.pool.threads i).phase = .waiting key) (hwait : s.waits i ≠ .blocked)
      (hthread : (s.pool.threads i).step .refused = some thread)
      (hfull : s.waits i ≠ .arriving → limit ≤ s.pool.activity.activeFor key) :
      Moved limit s i a
        { s with
          pool.threads := update s.pool.threads i thread
          waits := update s.waits i .arriving }
  /-- The thread leaves with a permit. -/
  | admitted {expired key} (hphase : (s.pool.threads i).phase = .waiting key)
      (hdropped : (s.pool.threads i).dropped = []) (hwait : s.waits i ≠ .blocked)
      (hroom : s.pool.activity.activeFor key < limit) :
      Moved limit s i (.look expired)
        { s with
          pool := ⟨s.pool.activity.reserve key, update s.pool.threads i
            { s.pool.threads i with phase := .connecting key }⟩
          waits := update s.waits i .arriving }
  | blocks {expired key} (hphase : (s.pool.threads i).phase = .waiting key)
      (hwait : s.waits i ≠ .arriving) (hfull : limit ≤ s.pool.activity.activeFor key) :
      Moved limit s i (.look expired) { s with waits := update s.waits i .blocked }
  | wakes {byTimeout wait} (hwait : s.waits i = .blocked)
      (hnext : wait = .timedOut ∨ wait = .looking) :
      Moved limit s i (.wake byTimeout) { s with waits := update s.waits i wait }
  | releases {key dropped} (hnotifying : s.notifying i = false)
      (hdropped : (s.pool.threads i).dropped = key :: dropped) :
      Moved limit s i .release
        { s with
          pool := ⟨s.pool.activity.release key,
            update s.pool.threads i { s.pool.threads i with dropped }⟩
          notifying := update s.notifying i true }
  | notifies {j} (hnotifying : s.notifying i) (hwait : s.waits j = .blocked) :
      Moved limit s i (.notify (some j))
        { s with
          waits := update s.waits j .notified
          notifying := update s.notifying i false }
  | notifiesNobody (hnotifying : s.notifying i) (hnobody : ∀ j, s.waits j ≠ .blocked) :
      Moved limit s i (.notify none) { s with notifying := update s.notifying i false }

omit [Fintype ι] in
theorem leave_refused (h : s.leave limit i (.alone .refused) = some s') :
    ∃ thread, (s.pool.threads i).step .refused = some thread ∧
      s' = { s with
        pool.threads := update s.pool.threads i thread
        waits := update s.waits i .arriving } := by
  obtain ⟨pool, hpool, rfl⟩ := map_eq_some_iff.mp h
  obtain ⟨thread, hthread, rfl⟩ := map_eq_some_iff.mp hpool
  exact ⟨thread, hthread, rfl⟩

omit [Fintype ι] in
theorem leave_acquire {key} (hphase : (s.pool.threads i).phase = .waiting key)
    (h : s.leave limit i .acquire = some s') :
    (s.pool.threads i).dropped = [] ∧
      s' = { s with
        pool := ⟨s.pool.activity.reserve key, update s.pool.threads i
          { s.pool.threads i with phase := .connecting key }⟩
        waits := update s.waits i .arriving } := by
  obtain ⟨pool, hpool, rfl⟩ := map_eq_some_iff.mp h
  simp only [FastPool.step, hphase] at hpool
  split at hpool
  next heq hdropped =>
    cases heq
    split_ifs at hpool
    cases hpool
    exact ⟨hdropped, rfl⟩
  · cases hpool

theorem moved_of_step (h : s.step limit i a = some s') : Moved limit s i a s' := by
  cases a with
  | alone event =>
    simp only [step] at h
    split at h
    · cases h
    next hphase =>
      split_ifs at h
      obtain ⟨pool, hpool, rfl⟩ := map_eq_some_iff.mp h
      obtain ⟨thread, hthread, rfl⟩ := map_eq_some_iff.mp hpool
      exact .alone hphase hthread
  | enter timeoutIsZero =>
    simp only [step] at h
    split at h
    next key hphase =>
      split at h
      · cases h
      next hguard =>
        simp only [Bool.or_eq_true, decide_eq_true_eq, not_or, not_not] at hguard
        obtain ⟨⟨-, hwait⟩, -⟩ := hguard
        split at h
        · obtain ⟨thread, hthread, rfl⟩ := leave_refused h
          exact .refused hphase (by rw [hwait]; decide) hthread (absurd hwait)
        next hchecked =>
          cases h
          simp only [acquireSlotRejects, Bool.or_eq_true, decide_eq_true_eq, not_or] at hchecked
          exact .enter hchecked.1 hwait
    · cases h
  | look expired =>
    simp only [step] at h
    split at h
    next key hphase =>
      split_ifs at h with hguard
      simp only [Bool.or_eq_true, decide_eq_true_eq, not_or] at hguard
      split at h
      next hlook =>
        obtain ⟨hdropped, rfl⟩ := leave_acquire hphase h
        exact .admitted hphase hdropped hguard.2 (acquireSlotLook_reserve.mp hlook)
      next hlook =>
        obtain ⟨thread, hthread, rfl⟩ := leave_refused h
        exact .refused hphase hguard.2 hthread fun _ => acquireSlotLook_full hlook (by decide)
      next hlook =>
        cases h
        exact .blocks hphase hguard.1 (acquireSlotLook_full hlook (by decide))
    · cases h
  | wake byTimeout =>
    simp only [step] at h
    split at h
    next hwait =>
      cases h
      refine .wakes hwait ?_
      cases byTimeout
      · exact .inr rfl
      · exact .inl rfl
    · cases h
  | release =>
    simp only [step] at h
    split_ifs at h with hnotifying
    obtain ⟨pool, hpool, rfl⟩ := map_eq_some_iff.mp h
    simp only [FastPool.step] at hpool
    split at hpool
    · cases hpool
    next key dropped hdropped =>
      cases hpool
      exact .releases (by simpa using hnotifying) hdropped
  | notify sleeper =>
    simp only [step] at h
    split at h
    next hnotifying =>
      split at h
      · split_ifs at h with hwait
        cases h
        exact .notifies hnotifying hwait
      · split_ifs at h with hnobody
        cases h
        exact .notifiesNobody hnotifying hnobody
    · cases h

/-! ### One key -/

/-- Threads wait for keys of the set and have permits under keys of the set. -/
def KeysIn (keys : Set Str) (s : Admission ι) : Prop :=
  ∀ i key, (s.pool.threads i).phase = .waiting key ∨ 0 < (s.pool.threads i).held key → key ∈ keys

/-- A thread waits for the key it asks for, or for one of which it had a permit. -/
theorem waiting_of_step {thread' event key} (h : thread.step event = some thread')
    (hphase : thread'.phase = .waiting key) :
    (∃ now, event = .request key now) ∨ 0 < thread.held key := by
  unfold PoolThread.step at h
  split_ifs at h
  split at h
  next target now _ =>
    cases h
    unfold checkout at hphase
    split at hphase
    · cases hphase
      exact .inl ⟨now, rfl⟩
    · split_ifs at hphase
      cases hphase
      exact .inl ⟨now, rfl⟩
  · cases h
    cases hphase
  · cases h
    cases hphase
  · cases h
    cases hphase
  next connection reused hactive =>
    cases h
    cases reused with
    | true =>
      cases hphase
      simp [held, inFlight, hactive, RequestPhase.permits]
    | false => cases hphase
  · split at h
    all_goals
      cases h
      cases hphase
  · split_ifs at h
    cases h
    cases hphase
  · cases h

variable {waits : ι → WaitState}

omit [Fintype ι] in
/-- What becomes of the keys of one thread when it changes. -/
theorem KeysIn.update {keys} (h : KeysIn keys s)
    (hthread : ∀ key, thread.phase = .waiting key ∨ 0 < thread.held key → key ∈ keys)
    {activity notifying} :
    KeysIn keys ⟨⟨activity, update s.pool.threads i thread⟩, waits, notifying⟩ := by
  intro j key hkey
  by_cases hj : j = i
  · subst hj
    simp only [update_self] at hkey
    exact hthread key hkey
  · simp only [update_of_ne hj] at hkey
    exact h j key hkey

omit [Fintype ι] in
theorem KeysIn.step {keys} (h : KeysIn keys s) (hallowed : RequestsIn keys (i, a))
    (hmoved : Moved limit s i a s') : KeysIn keys s' := by
  have hheld : ∀ key, 0 < (s.pool.threads i).held key → key ∈ keys := fun key hkey =>
    h i key (.inr hkey)
  cases hmoved with
  | alone hphase hthread | refused hphase hwait hthread hfull =>
    apply h.update
    rintro key (hkey | hkey)
    · rcases waiting_of_step hthread hkey with ⟨now, hevent⟩ | hpos
      · cases hevent <;> exact hallowed
      · exact hheld key hpos
    · rw [held_step hthread] at hkey
      exact hheld key hkey
  | admitted hphase hdropped hwait hroom =>
    apply h.update
    rintro key (hkey | hkey)
    · cases hkey
    · rw [held_acquire hphase] at hkey
      by_cases heq : (s.pool.threads i).held key = 0
      · rw [heq] at hkey
        split at hkey
        next hsame => exact h i key (.inl (hsame ▸ hphase))
        · cases hkey
      · exact hheld key (pos_of_ne_zero heq)
  | releases hnotifying hdropped =>
    apply h.update
    rintro key (hkey | hkey)
    · exact h i key (.inl hkey)
    · apply hheld key
      rw [held_release hdropped]
      exact Nat.add_pos_left hkey _
  | enter | blocks | wakes | notifies | notifiesNobody => exact h

/-- The notifications on their way: threads that have to look because of one, and threads that have
to make one. -/
def notifications (s : Admission ι) : Nat :=
  ∑ i, (if s.waits i = .notified then 1 else 0) + ∑ i, if s.notifying i then 1 else 0

/-- While somebody sleeps, the free slots under the key have their notifications. -/
def Signalled (limit : Nat) (key : Str) (s : Admission ι) : Prop :=
  (∀ i, s.waits i ≠ .blocked) ∨ limit ≤ s.pool.activity.activeFor key + s.notifications

omit [Fintype ι] in
theorem not_blocked_update (h : ∀ j, waits j ≠ .blocked) (hwait : wait ≠ .blocked) (j : ι) :
    update waits i wait j ≠ .blocked := by
  by_cases hj : j = i
  · subst hj
    rwa [update_self]
  · rw [update_of_ne hj]
    exact h j

theorem Signalled.step {keys} (hkeys : keys.Subsingleton) {key} (hkey : key ∈ keys)
    (hin : KeysIn keys s) (h : Signalled limit key s) (hmoved : Moved limit s i a s') :
    Signalled limit key s' := by
  have hwaits : ∀ j wait, ∑ k, (if update s.waits j wait k = .notified then 1 else 0) +
      (if s.waits j = .notified then 1 else 0) =
      ∑ k, (if s.waits k = .notified then 1 else 0) + if wait = .notified then 1 else 0 :=
    sum_holders_update (fun wait => if wait = WaitState.notified then 1 else 0) s.waits
  have hnotify : ∀ flag, ∑ k, (if update s.notifying i flag k then 1 else 0) +
      (if s.notifying i then 1 else 0) =
      ∑ k, (if s.notifying k then 1 else 0) + if flag then 1 else 0 :=
    sum_holders_update (fun flag => if flag then 1 else 0) s.notifying i
  -- There is only one key that a thread can wait for or give back.
  have hsame : ∀ other, (s.pool.threads i).phase = .waiting other ∨
      0 < (s.pool.threads i).held other → other = key := fun other hother =>
    hkeys (hin i other hother) hkey
  unfold Signalled notifications at h ⊢
  cases hmoved with
  | alone => exact h
  | enter hlimit hwait =>
    have hsum := hwaits i .looking
    refine h.imp (fun hnobody => not_blocked_update hnobody (by decide)) fun hle => ?_
    simp only [hwait, reduceCtorEq] at hsum
    simp only
    omega
  | refused hphase hwait hthread hfull =>
    rcases h with hnobody | hle
    · exact .inl (not_blocked_update hnobody (by decide))
    · have hsum := hwaits i .arriving
      by_cases harriving : s.waits i = .arriving
      · simp only [harriving] at hsum
        simp only
        omega
      · obtain rfl := hsame _ (.inl hphase)
        have := hfull harriving
        simp only
        omega
  | admitted hphase hdropped hwait hroom =>
    obtain rfl := hsame _ (.inl hphase)
    refine h.imp (fun hnobody => not_blocked_update hnobody (by decide)) fun hle => ?_
    have hsum := hwaits i .arriving
    simp only [reserve, update_self] at hsum ⊢
    split at hsum <;> omega
  | blocks hphase hwait hfull =>
    obtain rfl := hsame _ (.inl hphase)
    right
    exact le_add_right_of_le hfull
  | @wakes byTimeout wait hwait hnext =>
    rcases h with hnobody | hle
    · exact absurd hwait (hnobody i)
    · have hsum := hwaits i wait
      have hnotified : wait ≠ .notified := by rcases hnext with rfl | rfl <;> decide
      simp only [hwait, hnotified, reduceCtorEq] at hsum
      simp only
      omega
  | @releases other dropped hnotifying hdropped =>
    have hpos : 0 < (s.pool.threads i).held other := by
      rw [held_release hdropped, if_pos rfl]
      omega
    obtain rfl := hsame other (.inr hpos)
    refine h.imp id fun hle => ?_
    have hsum := hnotify true
    simp only [release, update_self, hnotifying, if_true, Bool.false_eq_true,
      if_false] at hsum ⊢
    omega
  | @notifies j hnotifying hwait =>
    rcases h with hnobody | hle
    · exact absurd hwait (hnobody j)
    · have hsum := hwaits j .notified
      have howed := hnotify false
      simp only [hwait, hnotifying, reduceCtorEq] at hsum howed
      simp only
      omega
  | notifiesNobody hnotifying hnobody => exact .inl hnobody

omit [Fintype ι] in
/-- Without a limit nobody gets past the check of the arguments. -/
theorem arriving_of_moved (h : ∀ j, s.waits j = .arriving) (hmoved : Moved 0 s i a s') (j : ι) :
    s'.waits j = .arriving := by
  have hupdate : update s.waits i .arriving j = .arriving := by
    by_cases hj : j = i
    · subst hj
      rw [update_self]
    · rw [update_of_ne hj, h j]
  cases hmoved with
  | alone | releases | notifiesNobody => exact h j
  | enter hlimit => exact absurd rfl hlimit
  | refused | admitted => exact hupdate
  | blocks hphase hwait => exact absurd (h i) hwait
  | wakes hwait =>
    rw [h i] at hwait
    cases hwait
  | notifies hnotifying hwait =>
    rw [h] at hwait
    cases hwait

/-- With one key the wake-ups are not lost. -/
theorem not_lostWakeup_of_subsingleton {keys} (hkeys : keys.Subsingleton)
    (h : (machine ι limit).Reachable (RequestsIn keys) s) : ¬ LostWakeup limit s := by
  have hinvariant : KeysIn keys s ∧ ∀ key ∈ keys, Signalled limit key s := by
    refine h.invariant (I := fun s => KeysIn keys s ∧ ∀ key ∈ keys, Signalled limit key s) ?_ ?_
    · constructor
      · rintro i key (hphase | hheld)
        · cases hphase
        · simp [machine, initial, FastPool.initial, start, held,
            inFlight, idle, RequestPhase.permits] at hheld
      · intro key _
        exact .inl fun i => by simp [machine, initial]
    · rintro s s' ⟨i, a⟩ - ⟨hin, hsignalled⟩ hallowed hstep
      have hmoved := moved_of_step hstep
      exact ⟨hin.step hallowed hmoved, fun key hkey =>
        (hsignalled key hkey).step hkeys hkey hin hmoved⟩
  rintro ⟨i, key, hphase, hblocked, hroom, hnone⟩
  rcases hinvariant.2 key (hinvariant.1 i key (.inl hphase)) with hnobody | hle
  · exact hnobody i hblocked
  · have hzero : s.notifications = 0 := by simp [notifications, hnone]
    omega

/-! ### Two keys -/

/-- A thread that has done nothing yet. -/
structure Fresh (s : Admission ι) (i : ι) : Prop where
  thread : s.pool.threads i = .start
  wait : s.waits i = .arriving
  quiet : s.notifying i = false

/-- The thread has got a permit under the key. -/
def grant (s : Admission ι) (key : Str) (i : ι) : Admission ι :=
  { s with
    pool := ⟨s.pool.activity.reserve key,
      update s.pool.threads i ⟨.connecting key, [], []⟩⟩ }

/-- The thread sleeps and waits for a permit under the key. -/
def sleep (s : Admission ι) (key : Str) (i : ι) : Admission ι :=
  { s with
    pool.threads := update s.pool.threads i ⟨.waiting key, [], []⟩
    waits := update s.waits i .blocked }

variable {l : List ι}

section Construction

variable {keys : Set Str} {key : Str}

/-- What a fresh thread does up to its first look at the count. -/
theorem reachable_look (hkey : key ∈ keys) (hlimit : limit ≠ 0)
    (h : (machine ι limit).Reachable (RequestsIn keys) s) (hfresh : Fresh s i) :
    (machine ι limit).Reachable (RequestsIn keys)
      { s with
        pool.threads := update s.pool.threads i ⟨.waiting key, [], []⟩
        waits := update s.waits i .looking } := by
  refine h.run [(i, .alone (.request key 0)), (i, .enter false)] ?_ ?_
  · simpa [RequestsIn] using hkey
  · simp [Machine.run, machine, step, hfresh.thread, hfresh.wait, hfresh.quiet, acquireSlotRejects,
      hlimit, FastPool.step, PoolThread.start, PoolThread.step, checkout, takeEntry]

theorem reachable_grant (hkey : key ∈ keys) (h : (machine ι limit).Reachable (RequestsIn keys) s)
    (hfresh : Fresh s i) (hroom : s.pool.activity.activeFor key < limit) :
    (machine ι limit).Reachable (RequestsIn keys) (s.grant key i) := by
  have hlook := reachable_look hkey (ne_of_gt (zero_lt_of_lt hroom)) h hfresh
  refine hlook.step (a := (i, .look false)) trivial ?_
  have hwaits : update s.waits i .arriving = s.waits := by
    rw [← hfresh.wait, update_eq_self]
  simp [machine, step, acquireSlotLook, leave, FastPool.step, hroom, grant, hwaits]

theorem reachable_sleep (hkey : key ∈ keys) (hlimit : limit ≠ 0)
    (h : (machine ι limit).Reachable (RequestsIn keys) s) (hfresh : Fresh s i)
    (hfull : limit ≤ s.pool.activity.activeFor key) :
    (machine ι limit).Reachable (RequestsIn keys) (s.sleep key i) := by
  refine (reachable_look hkey hlimit h hfresh).step (a := (i, .look false)) trivial ?_
  simp [machine, step, acquireSlotLook, not_lt.mpr hfull, sleep]

/-- What becomes of a state when some threads get permits under a key. -/
structure Filled (s : Admission ι) (key : Str) (l : List ι) (s' : Admission ι) : Prop where
  waits : s'.waits = s.waits
  notifying : s'.notifying = s.notifying
  active : s'.pool.activity.activeFor key = s.pool.activity.activeFor key + l.length
  others : ∀ other, other ≠ key →
    s'.pool.activity.activeFor other = s.pool.activity.activeFor other
  members : ∀ i ∈ l, s'.pool.threads i = ⟨.connecting key, [], []⟩
  rest : ∀ i, i ∉ l → s'.pool.threads i = s.pool.threads i

omit [DecidableEq ι] [Fintype ι] in
theorem Filled.fresh (h : Filled s key l s') (hfresh : Fresh s i) (hi : i ∉ l) : Fresh s' i :=
  ⟨(h.rest i hi).trans hfresh.thread, (congrFun h.waits i).trans hfresh.wait,
    (congrFun h.notifying i).trans hfresh.quiet⟩

theorem exists_filled (hkey : key ∈ keys) (hnodup : l.Nodup)
    (h : (machine ι limit).Reachable (RequestsIn keys) s) (hfresh : ∀ i ∈ l, Fresh s i)
    (hroom : s.pool.activity.activeFor key + l.length ≤ limit) :
    ∃ s', (machine ι limit).Reachable (RequestsIn keys) s' ∧ Filled s key l s' := by
  induction l generalizing s with
  | nil => exact ⟨s, h, rfl, rfl, rfl, fun _ _ => rfl, by simp, fun _ _ => rfl⟩
  | cons i l ih =>
    obtain ⟨hi, hnodup⟩ := nodup_cons.mp hnodup
    obtain ⟨hfirst, hfresh⟩ := forall_mem_cons.mp hfresh
    rw [length_cons] at hroom
    have hgrant := reachable_grant hkey h hfirst (by omega)
    have hone : (s.grant key i).pool.activity.activeFor key =
        s.pool.activity.activeFor key + 1 := by
      simp [grant, reserve]
    have hstill : ∀ j ∈ l, Fresh (s.grant key i) j := by
      intro j hj
      have hne : j ≠ i := fun heq => hi (heq ▸ hj)
      obtain ⟨hthread, hwait, hquiet⟩ := hfresh j hj
      exact ⟨by simpa [grant, hne] using hthread, hwait, hquiet⟩
    obtain ⟨s', hreach, hwaits, hnotifying, hactive, hothers, hmembers, hrest⟩ :=
      ih hnodup hgrant hstill (by omega)
    refine ⟨s', hreach, hwaits, hnotifying, ?_, ?_, ?_, ?_⟩
    · rw [length_cons]
      omega
    · intro other hother
      rw [hothers other hother]
      simp [grant, reserve, hother]
    · intro j hj
      rcases mem_cons.mp hj with rfl | hj
      · rw [hrest j hi]
        simp [grant]
      · exact hmembers j hj
    · intro j hj
      obtain ⟨hne, hj⟩ := not_or.mp (mt mem_cons.mpr hj)
      rw [hrest j hj]
      simp [grant, hne]

/-- A permit is given back while one thread sleeps for its key and another one for a key that is
full: the second one is notified, has no use for it, and sleeps again. -/
theorem exists_lostWakeup (hne : first ≠ second)
    (h : (machine ι limit).Reachable (RequestsIn keys) s) (holder sleeper other : ι)
    (hholder : s.pool.threads holder = ⟨.connecting first, [], []⟩)
    (hsleeper : (s.pool.threads sleeper).phase = .waiting first)
    (hblocked : s.waits sleeper = .blocked)
    (hother : (s.pool.threads other).phase = .waiting second) (hwaits : s.waits other = .blocked)
    (hroom : s.pool.activity.activeFor first ≤ limit) (hpos : 0 < s.pool.activity.activeFor first)
    (hfull : limit ≤ s.pool.activity.activeFor second)
    (hquiet : ∀ i, s.waits i ≠ .notified ∧ s.notifying i = false) :
    ∃ s', (machine ι limit).Reachable (RequestsIn keys) s' ∧ LostWakeup limit s' := by
  have hdistinct : sleeper ≠ holder := by
    rintro rfl
    rw [hholder] at hsleeper
    cases hsleeper
  have hdistinct' : other ≠ holder := by
    rintro rfl
    rw [hholder] at hother
    cases hother
  refine ⟨⟨⟨s.pool.activity.release first, update s.pool.threads holder ⟨.idle, [], []⟩⟩,
    s.waits, s.notifying⟩, h.run [(holder, .alone .connectFailed), (holder, .release),
    (holder, .notify (some other)), (other, .look false)] ?_ ?_, sleeper, first, ?_, hblocked, ?_,
    hquiet⟩
  · simp [RequestsIn]
  · simp [Machine.run, machine, step, acquireSlotLook, hholder, (hquiet holder).2, FastPool.step,
      PoolThread.step, hwaits, hdistinct', hother, KeyedActivity.release, hne.symm,
      not_lt.mpr hfull]
  · simpa [hdistinct] using hsleeper
  · simp only [release, update_self]
    omega

end Construction

/-- Two keys of the set are enough for a wake-up to be lost, if there are enough threads: those that
fill the two keys, and a sleeper for each. -/
theorem exists_lostWakeup_of_two {keys} (hfirst : first ∈ keys) (hsecond : second ∈ keys)
    (hne : first ≠ second) (hlimit : limit ≠ 0) :
    ∃ s : Admission (Bool × Fin (limit + 1)),
      (machine _ limit).Reachable (RequestsIn keys) s ∧ LostWakeup limit s := by
  let holders : Bool → List (Bool × Fin (limit + 1)) := fun side =>
    (finRange limit).map fun k => (side, k.castSucc)
  have hlength : ∀ side, (holders side).length = limit := by simp [holders]
  have hnodup : ∀ side, (holders side).Nodup := fun side =>
    (nodup_finRange limit).map fun _ _ h => Fin.castSucc_injective limit (congrArg Prod.snd h)
  have hlast : ∀ side side', (side, Fin.last limit) ∉ holders side' := by
    simp [holders]
  have hside : ∀ k, (true, k) ∉ holders false := by simp [holders]
  have hzero : (false, Fin.castSucc ⟨0, pos_of_ne_zero hlimit⟩) ∈ holders false :=
    mem_map_of_mem (mem_finRange _)
  -- The threads of one side fill the first key, those of the other side the second one.
  have hstart : (machine (Bool × Fin (limit + 1)) limit).Reachable (RequestsIn keys) initial :=
    .initial
  have hfresh : ∀ i, Fresh (initial : Admission (Bool × Fin (limit + 1))) i :=
    fun i => ⟨rfl, rfl, rfl⟩
  obtain ⟨s, hreach, hs⟩ := exists_filled hfirst (hnodup false) hstart (fun i _ => hfresh i)
    (by rw [hlength]; exact le_of_eq (zero_add limit))
  have hactive : s.pool.activity.activeFor first = limit := by
    rw [hs.active, hlength]
    exact zero_add limit
  have hempty : s.pool.activity.activeFor second = 0 := hs.others second hne.symm
  have hsecondFresh : ∀ k, Fresh s (true, k) := fun k => hs.fresh (hfresh _) (hside k)
  obtain ⟨t, hreach, ht⟩ := exists_filled hsecond (hnodup true) hreach
    (fun i hi => by
      obtain ⟨k, -, rfl⟩ := mem_map.mp hi
      exact hsecondFresh _)
    (by rw [hempty, hlength, zero_add])
  have hactive : t.pool.activity.activeFor first = limit := (ht.others first hne).trans hactive
  have hactive' : t.pool.activity.activeFor second = limit := by
    rw [ht.active, hempty, hlength, zero_add]
  -- The last thread of each side goes to sleep.
  have hreach := reachable_sleep hfirst hlimit hreach
    (ht.fresh (hs.fresh (hfresh _) (hlast false false)) (hlast false true)) hactive.ge
  have hawake : Fresh (t.sleep first (false, Fin.last limit)) (true, Fin.last limit) := by
    obtain ⟨hthread, hwait, hquiet⟩ := ht.fresh (hsecondFresh (Fin.last limit)) (hlast true true)
    exact ⟨by simpa [sleep] using hthread, by simpa [sleep] using hwait, hquiet⟩
  have hreach := reachable_sleep hsecond hlimit hreach hawake hactive'.ge
  have hholder : t.pool.threads (false, Fin.castSucc ⟨0, pos_of_ne_zero hlimit⟩) =
      ⟨.connecting first, [], []⟩ := by
    rw [ht.rest _ (by simp [holders]), hs.members _ hzero]
  have hquiet : ∀ i, t.waits i = .arriving ∧ t.notifying i = false := fun i =>
    ⟨(congrFun (ht.waits.trans hs.waits) i).trans rfl,
      (congrFun (ht.notifying.trans hs.notifying) i).trans rfl⟩
  have hne_last : ∀ side, (false, Fin.castSucc ⟨0, pos_of_ne_zero hlimit⟩) ≠
      (side, Fin.last limit) := fun side heq =>
    Fin.castSucc_ne_last _ (congrArg Prod.snd heq)
  apply exists_lostWakeup hne hreach (false, Fin.castSucc ⟨0, pos_of_ne_zero hlimit⟩)
    (false, Fin.last limit) (true, Fin.last limit)
  · simp only [sleep, update_of_ne (hne_last _), hholder]
  · simp [sleep]
  · simp [sleep]
  · simp [sleep]
  · simp [sleep]
  · exact hactive.le
  · exact hactive.symm ▸ pos_of_ne_zero hlimit
  · exact hactive'.ge
  · intro i
    simp only [sleep, update_apply]
    split_ifs <;> simp [hquiet]

/-- No wake-up is ever lost, for any number of threads, if and only if the requests are for one key
(or there is nothing to wait for, because a limit of zero is an error). -/
theorem not_lostWakeup_iff (limit : Nat) (keys : Set Str) :
    (∀ (ι : Type) [DecidableEq ι] [Fintype ι] (s : Admission ι),
      (machine ι limit).Reachable (RequestsIn keys) s → ¬ LostWakeup limit s) ↔
    limit = 0 ∨ keys.Subsingleton := by
  constructor
  · intro h
    by_contra hnot
    obtain ⟨hlimit, hkeys⟩ := not_or.mp hnot
    obtain ⟨first, hfirst, second, hsecond, hne⟩ := Set.not_subsingleton_iff.mp hkeys
    obtain ⟨s, hreach, hlost⟩ := exists_lostWakeup_of_two hfirst hsecond hne hlimit
    exact h _ s hreach hlost
  · rintro (rfl | hkeys) ι _ _ s hreach
    · rintro ⟨i, key, -, hblocked, -⟩
      have harriving : ∀ j, s.waits j = .arriving :=
        hreach.invariant (I := fun s => ∀ j, s.waits j = .arriving) (fun j => rfl)
          fun _ h _ hstep => arriving_of_moved h (moved_of_step hstep)
      rw [harriving i] at hblocked
      cases hblocked
    · exact not_lostWakeup_of_subsingleton hkeys hreach

/-- Two threads have the permits of two keys, two more sleep for them. The first thread gives its
permit back and the sleeper for the other key is notified, which finds its key full and sleeps
again. -/
def lostSteps : List (Fin 4 × AdmissionStep (Fin 4)) :=
  [(0, .alone (.request "a:80" 0)), (0, .enter false), (0, .look false),
    (1, .alone (.request "b:80" 0)), (1, .enter false), (1, .look false),
    (2, .alone (.request "a:80" 0)), (2, .enter false), (2, .look false),
    (3, .alone (.request "b:80" 0)), (3, .enter false), (3, .look false),
    (0, .alone .connectFailed), (0, .release), (0, .notify (some 3)), (3, .look false)]

theorem lostWakeup_two_keys : ∃ s : Admission (Fin 4),
    (machine (Fin 4) 1).Reachable (RequestsIn {"a:80".toList, "b:80".toList}) s ∧
      (s.pool.threads 2).phase = .waiting "a:80" ∧
      s.pool.activity.activeFor "a:80" = 0 ∧
      s.waits 2 = .blocked ∧ s.waits 3 = .blocked ∧ LostWakeup 1 s := by
  have hallowed : ∀ move ∈ lostSteps, RequestsIn {"a:80".toList, "b:80".toList} move := by
    simp [lostSteps, RequestsIn]
  obtain ⟨s, hreach, hphase, hactive, hblocked, hother, hquiet⟩ := Machine.exists_reachable_of_run
    (m := machine (Fin 4) 1) lostSteps hallowed
    (p := fun s => (s.pool.threads 2).phase = .waiting "a:80" ∧
      s.pool.activity.activeFor "a:80" = 0 ∧ s.waits 2 = .blocked ∧ s.waits 3 = .blocked ∧
      ∀ j, s.waits j ≠ .notified ∧ s.notifying j = false) (by decide +kernel)
  refine ⟨s, hreach, hphase, hactive, hblocked, hother, 2, _, hphase, hblocked, ?_, hquiet⟩
  rw [hactive]
  exact one_pos

end Admission

end RsProxy.Engine
