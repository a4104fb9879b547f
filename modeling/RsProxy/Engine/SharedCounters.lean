import RsProxy.Data.Machine
import RsProxy.Engine.Route
import Mathlib.Data.Nat.Count
import Mathlib.Tactic.Ring

/-!
# Counters that threads share

Rule sets take their versions from one counter, and the clones of a host pool take their places from
another. Both are read and advanced by any number of threads, so what is shown here holds of every
order in which their steps may follow each other.
-/

namespace RsProxy.Engine

open Data List Nat
open Rules (HostPool Value usizeMax)

/-! ### Versions of rule sets -/

/-- A call of `next_ruleset_version`, with the versions that had been returned when it started. -/
inductive VersionCall where
  | idle
  | started (before : List Nat) (wallClock : Nat)
  | trying (before : List Nat) (wallClock current : Nat)
  | returned (before : List Nat) (version : Nat)

def VersionCall.before : VersionCall → List Nat
  | .idle => []
  | .started before _ | .trying before _ _ | .returned before _ => before

def VersionCall.version? : VersionCall → Option Nat
  | .returned _ version => some version
  | _ => none

/-- The calls that returned and their versions, the last one first, and where every call is. -/
structure Versions where
  returned : List (Nat × Nat)
  calls : Nat → VersionCall

def Versions.issued (s : Versions) : List Nat := s.returned.map Prod.snd

/-- `LAST_VERSION`. -/
def Versions.last (s : Versions) : Nat := s.issued.headD 0

inductive VersionAction where
  | start (call : Nat) (now : UInt64)
  | load (call observed : Nat)
  | exchange (call : Nat)

def nextVersion (wallClock current : Nat) : Nat := max wallClock (min (current + 1) usizeMax)

/-- A relaxed load may read any value the counter has had. So may an exchange that fails, which it
may do for no reason. -/
def Versions.step (s : Versions) : VersionAction → Option Versions
  | .start call now =>
    match s.calls call with
    | .idle => some { s with
        calls := Function.update s.calls call (.started s.issued (max now.toNat 1)) }
    | _ => none
  | .load call observed =>
    match s.calls call with
    | .started before wallClock | .trying before wallClock _ =>
      if observed ∈ 0 :: s.issued then some { s with
        calls := Function.update s.calls call (.trying before wallClock observed) }
      else none
    | _ => none
  | .exchange call =>
    match s.calls call with
    | .trying before wallClock current =>
      if s.last = current then
        let next := nextVersion wallClock current
        some ⟨(call, next) :: s.returned, Function.update s.calls call (.returned before next)⟩
      else none
    | _ => none

/-- Every step is taken while the counter is below its maximum. -/
def versionMachine : Machine Versions VersionAction :=
  Machine.restrict ⟨⟨[], fun _ => .idle⟩, Versions.step⟩ fun s _ => s.last < usizeMax

/-- One step: a call moves on with nothing new, or returns a version above the counter. -/
inductive Versions.Moved (s : Versions) : Versions → Prop where
  | on (call : Nat) (now : VersionCall) (hnone : now.version? = none)
      (hbefore : now.before = (s.calls call).before ∨ now.before = s.issued) :
      Moved s { s with calls := Function.update s.calls call now }
  | returns (call version : Nat) (hlast : s.last < version) :
      Moved s ⟨(call, version) :: s.returned,
        Function.update s.calls call (.returned (s.calls call).before version)⟩

theorem Versions.moved {s s' a} (h : versionMachine.step s a = some s') : s.Moved s' := by
  obtain ⟨hbelow, h⟩ := Machine.restrict_step h
  rw [decide_eq_true_iff] at hbelow
  cases a with
  | start call now =>
    simp only [step] at h
    split at h <;> cases h
    exact .on call _ rfl (.inr rfl)
  | load call observed =>
    simp only [step] at h
    split at h <;> try cases h
    all_goals
      rename_i hcall
      split at h <;> cases h
      exact .on call _ rfl (.inl (by rw [hcall]; rfl))
  | exchange call =>
    simp only [step] at h
    split at h
    next before wallClock current hcall =>
      have hbefore : before = (s.calls call).before := by rw [hcall]; rfl
      split at h <;> cases h
      rw [hbefore]
      exact .returns call _ (by rw [nextVersion]; omega)
    · cases h

/-- What is true of a call: it knows of versions that were returned, and its own is above them. -/
structure VersionCall.Sound (returned : List (Nat × Nat)) (call : Nat) (c : VersionCall) :
    Prop where
  before : c.before ⊆ returned.map Prod.snd
  version : ∀ v, c.version? = some v → (call, v) ∈ returned ∧ ∀ earlier ∈ c.before, earlier < v

structure Versions.Increasing (s : Versions) : Prop where
  decreasing : s.issued.Pairwise (· > ·)
  calls : ∀ call, (s.calls call).Sound s.returned call

theorem Versions.Increasing.le_last {s : Versions} (h : s.Increasing) {version}
    (hversion : version ∈ s.issued) : version ≤ s.last := by
  have hdecreasing := h.decreasing
  rw [Versions.last]
  cases hissued : s.issued with
  | nil =>
    rw [hissued] at hversion
    cases hversion
  | cons first rest =>
    rw [hissued] at hversion hdecreasing
    rcases mem_cons.mp hversion with rfl | hrest
    · exact le_rfl
    · exact (rel_of_pairwise_cons hdecreasing hrest).le

theorem Versions.Increasing.step {s s' : Versions} (h : s.Increasing) (hs : s.Moved s') :
    s'.Increasing := by
  cases hs with
  | on call now hnone hbefore =>
    refine ⟨h.decreasing, (Function.forall_update_iff _ _).mpr ⟨⟨?_, ?_⟩, fun c _ => h.calls c⟩⟩
    · rcases hbefore with hbefore | hbefore <;> rw [hbefore]
      exacts [(h.calls call).before, Subset.refl _]
    · rw [hnone]
      exact nofun
  | returns call version hlast =>
    have hold := (h.calls call).before
    refine ⟨pairwise_cons.mpr ⟨fun v hv => (h.le_last hv).trans_lt hlast, h.decreasing⟩,
      (Function.forall_update_iff _ _).mpr ⟨⟨subset_cons_of_subset _ hold, ?_⟩, fun c _ =>
        ⟨subset_cons_of_subset _ (h.calls c).before, fun v hv => ?_⟩⟩⟩
    · rintro v ⟨⟩
      exact ⟨mem_cons_self, fun earlier he => (h.le_last (hold he)).trans_lt hlast⟩
    · exact ((h.calls c).version v hv).imp_left (mem_cons_of_mem _)

/-- No two calls return one version, and a call returns more than what was returned before it
started, whatever the clock says and in whatever order the threads move. -/
theorem versions_unique_and_increasing {s : Versions}
    (h : versionMachine.Reachable (fun _ => True) s) :
    (∀ call other version, (s.calls call).version? = some version →
      (s.calls other).version? = some version → call = other) ∧
    ∀ call version, (s.calls call).version? = some version →
      ∀ earlier ∈ (s.calls call).before, earlier < version := by
  have hs : s.Increasing := by
    refine h.invariant ⟨.nil, fun _ => ⟨nil_subset _, by rintro _ ⟨⟩⟩⟩ ?_
    exact fun _ hI _ hstep => hI.step (Versions.moved hstep)
  refine ⟨fun call other version hc ho => ?_, fun call version hc =>
    ((hs.calls call).version _ hc).2⟩
  have hinj := inj_on_of_nodup_map (hs.decreasing.imp fun hlt => ne_of_gt hlt)
    ((hs.calls call).version _ hc).1 ((hs.calls other).version _ ho).1 rfl
  exact congrArg Prod.fst hinj

/-- The clock of the second call is behind, and what it reads first is old. -/
theorem versions_unique_and_increasing_two :
    ∃ s, versionMachine.Reachable (fun _ => True) s ∧ (s.calls 0).version? = some 7 ∧
      (s.calls 1).version? = some 8 ∧ (s.calls 1).before = [7] ∧
      ∀ earlier ∈ (s.calls 1).before, earlier < 8 := by
  obtain ⟨s, hs, hfirst, hsecond, hbefore⟩ := Machine.exists_reachable_of_run (m := versionMachine)
    [.start 0 7, .load 0 0, .exchange 0, .start 1 3, .load 1 0, .load 1 7, .exchange 1]
    (fun _ _ => trivial) (p := fun s => (s.calls 0).version? = some 7 ∧
      (s.calls 1).version? = some 8 ∧ (s.calls 1).before = [7]) (by decide +kernel)
  exact ⟨s, hs, hfirst, hsecond, hbefore, (versions_unique_and_increasing hs).2 1 8 hsecond⟩

/-! ### Host pools -/

/-- The `OnceLock` of one instance: the call that fills it runs alone, and others wait for it. -/
inductive Selection where
  | empty
  | running
  | selected (cursor : Nat)

/-- The cursor that the clones of a pool share, their selections, and which instance took which
value of the cursor, in order. A clone is one more instance that has not selected. -/
structure PoolState where
  cursor : Nat
  instances : Nat → Selection
  taken : List (Nat × Nat)

inductive PoolAction where
  | enter (i : Nat)
  | fetchAdd (i : Nat)

def PoolState.step (s : PoolState) : PoolAction → Option PoolState
  | .enter i =>
    match s.instances i with
    | .empty => some { s with instances := Function.update s.instances i .running }
    | _ => none
  | .fetchAdd i =>
    match s.instances i with
    | .running => some ⟨(s.cursor + 1) % 2 ^ 64, Function.update s.instances i (.selected s.cursor),
        s.taken ++ [(i, s.cursor)]⟩
    | _ => none

def poolMachine : Machine PoolState PoolAction :=
  ⟨⟨0, fun _ => .empty, []⟩, PoolState.step⟩

/-- What `selected_address` gives for an instance that has selected. -/
def PoolState.address (s : PoolState) (pool : HostPool) (i : Nat) : Option Value :=
  match s.instances i with
  | .selected cursor => some (selectedAddress pool cursor)
  | _ => none

/-- How many of the instances that have selected are given this host. -/
def PoolState.uses (s : PoolState) (pool : HostPool) (host : Value) : Nat :=
  s.taken.countP fun took => s.address pool took.1 = some host

variable {s s' : PoolState}

theorem PoolState.taken_subset_of_run {as} (h : poolMachine.run s as = some s') :
    s.taken ⊆ s'.taken := by
  induction as generalizing s with
  | nil =>
    cases h
    exact Subset.refl _
  | cons a as ih =>
    obtain ⟨next, hnext, h⟩ := Option.bind_eq_some_iff.mp h
    refine Subset.trans ?_ (ih h)
    cases a with
    | enter i =>
      simp only [poolMachine, step] at hnext
      split at hnext <;> cases hnext
      exact Subset.refl _
    | fetchAdd i =>
      simp only [poolMachine, step] at hnext
      split at hnext <;> cases hnext
      exact subset_append_left _ _

structure PoolState.Consecutive (s : PoolState) : Prop where
  cursor : s.cursor = s.taken.length % 2 ^ 64
  values : s.taken.map Prod.snd = (range s.taken.length).map (· % 2 ^ 64)
  once : (s.taken.map Prod.fst).Nodup
  taken : ∀ i cursor, (i, cursor) ∈ s.taken ↔ s.instances i = .selected cursor

theorem PoolState.Consecutive.step {a} (h : s.Consecutive) (hs : poolMachine.step s a = some s') :
    s'.Consecutive := by
  cases a with
  | enter i =>
    simp only [poolMachine, PoolState.step] at hs
    split at hs <;> cases hs
    refine ⟨h.cursor, h.values, h.once, fun j cursor => (h.taken j cursor).trans ?_⟩
    rcases eq_or_ne j i with rfl | hj <;> simp [*]
  | fetchAdd i =>
    simp only [poolMachine, PoolState.step] at hs
    split at hs <;> cases hs
    rename_i hi
    have hfresh : ∀ cursor, (i, cursor) ∉ s.taken := by
      intro cursor
      rw [h.taken, hi]
      exact nofun
    refine ⟨?_, ?_, ?_, fun j cursor => ?_⟩
    · simp [h.cursor]
    · simp [h.values, h.cursor, range_succ]
    · simpa [nodup_append, h.once] using fun j c hjc (hji : j = i) => hfresh c (hji ▸ hjc)
    · rcases eq_or_ne j i with rfl | hj
      · simp [hfresh, eq_comm]
      · simp [hj, h.taken]

/-! ### Fairness -/

theorem count_getElem? {α} [DecidableEq α] (l : List α) (a : α) :
    count (l[·]? = some a) l.length = l.count a := by
  induction l with
  | nil => rfl
  | cons b l ih =>
    rw [length_cons, count_succ', count_cons, ← ih]
    simp

/-- What comes back every `n` numbers holds equally often in each round. -/
theorem count_rounds {p : Nat → Prop} [DecidablePred p] {n} (h : ∀ k, p (n + k) ↔ p k)
    (rounds rest : Nat) :
    count p (rounds * n + rest) = rounds * count p n + count p rest := by
  induction rounds with
  | zero => simp
  | succ rounds ih =>
    rw [succ_mul, add_right_comm, add_comm, count_add]
    simp only [h]
    rw [ih]
    ring

variable (pool : HostPool)

/-- In one round every place of the pool has its turn. -/
theorem count_selectedAddress (host : Value) :
    count (selectedAddress pool · = host) pool.addresses.length =
      pool.addresses.count host := by
  rw [← count_getElem?, Nat.count, Nat.count]
  refine countP_congr fun i hi => ?_
  have hi : i < pool.addresses.length := mem_range.mp hi
  simp [selectedAddress, mod_eq_of_lt hi, getElem?_eq_getElem hi]

/-- As long as the cursor has not wrapped around, the hosts given are those of the first values. -/
theorem PoolState.Consecutive.uses (h : s.Consecutive) (hlen : s.taken.length ≤ 2 ^ 64) {host} :
    s.uses pool host = count (selectedAddress pool · = host) s.taken.length := by
  have hvalues : s.taken.map Prod.snd = range s.taken.length := by
    rw [h.values]
    exact (map_congr_left fun i hi =>
      mod_eq_of_lt ((mem_range.mp hi).trans_le hlen)).trans (map_id _)
  rw [Nat.count, ← hvalues, countP_map, PoolState.uses]
  refine countP_congr fun took htook => ?_
  simp [PoolState.address, (h.taken took.1 took.2).mp htook]

/-- Each place of a host in the pool is used once in every full round, and at most once more. -/
theorem PoolState.Consecutive.uses_bounds (h : s.Consecutive) (hlen : s.taken.length ≤ 2 ^ 64)
    (host : Value) :
    s.taken.length / pool.addresses.length * pool.addresses.count host ≤ s.uses pool host ∧
      s.uses pool host ≤
        (s.taken.length / pool.addresses.length + 1) * pool.addresses.count host := by
  have hrounds := count_rounds (p := (selectedAddress pool · = host)) (n := pool.addresses.length)
    (fun k => by simp [selectedAddress]) (s.taken.length / pool.addresses.length)
    (s.taken.length % pool.addresses.length)
  have hrest : count (selectedAddress pool · = host)
      (s.taken.length % pool.addresses.length) ≤ pool.addresses.count host := by
    rw [← count_selectedAddress]
    exact count_monotone _ (mod_lt _ (length_pos_iff.mpr pool.nonempty)).le
  rw [div_add_mod', ← h.uses pool hlen, count_selectedAddress] at hrounds
  rw [hrounds, add_one_mul]
  exact ⟨le_add_right _ _, Nat.add_le_add_left hrest _⟩

/-- An instance keeps what it selected first, each took one value of the cursor, the values follow
each other, and until the cursor wraps around the hosts take turns: one that stands in the pool once
is not used more often than another such one by two. -/
theorem hostPool_stable_and_fair (h : poolMachine.Reachable (fun _ => True) s) :
    (∀ as s' i address, poolMachine.run s as = some s' → s.address pool i = some address →
      s'.address pool i = some address) ∧
    (∀ i cursor, (i, cursor) ∈ s.taken ↔ s.instances i = .selected cursor) ∧
    (s.taken.map Prod.fst).Nodup ∧
    s.taken.map Prod.snd = (range s.taken.length).map (· % 2 ^ 64) ∧
    (s.taken.length ≤ 2 ^ 64 → (∀ host,
      s.taken.length / pool.addresses.length * pool.addresses.count host ≤ s.uses pool host ∧
        s.uses pool host ≤
          (s.taken.length / pool.addresses.length + 1) * pool.addresses.count host) ∧
      ∀ host other, pool.addresses.count host = 1 → pool.addresses.count other = 1 →
        s.uses pool host ≤ s.uses pool other + 1) := by
  have hall : ∀ {s}, poolMachine.Reachable (fun _ => True) s → s.Consecutive := fun h =>
    h.invariant ⟨rfl, rfl, by simp [poolMachine], by simp [poolMachine]⟩
      fun _ hI _ hstep => hI.step hstep
  have hs := hall h
  refine ⟨fun as s' i address hrun hi => ?_, hs.taken, hs.once, hs.values, fun hlen =>
    ⟨hs.uses_bounds pool hlen, fun host other hhost hother => ?_⟩⟩
  · unfold PoolState.address at hi
    split at hi <;> cases hi
    rename_i cursor hcursor
    have htaken := PoolState.taken_subset_of_run hrun ((hs.taken i cursor).mpr hcursor)
    rw [PoolState.address, ((hall (h.run as (fun _ _ => trivial) hrun)).taken i cursor).mp htaken]
  · have hle := (hs.uses_bounds pool hlen host).2
    have hge := (hs.uses_bounds pool hlen other).1
    rw [hhost, mul_one] at hle
    rw [hother, mul_one] at hge
    omega

/-- Two instances select at the same time, and a third one has the first host again. -/
theorem hostPool_stable_and_fair_three :
    ∃ pool : HostPool, pool.addresses = [.inline "10.0.0.1", .inline "10.0.0.2"] ∧
    ∃ s, poolMachine.Reachable (fun _ => True) s ∧
      s.uses pool (.inline "10.0.0.1") = 2 ∧ s.uses pool (.inline "10.0.0.2") = 1 ∧
      s.uses pool (.inline "10.0.0.1") ≤ s.uses pool (.inline "10.0.0.2") + 1 := by
  let pool : HostPool := ⟨[.inline "10.0.0.1", .inline "10.0.0.2"], by decide, by decide⟩
  obtain ⟨s, hs, hlen, htest⟩ := Machine.exists_reachable_of_run (m := poolMachine)
    [.enter 0, .enter 1, .fetchAdd 1, .fetchAdd 0, .enter 2, .fetchAdd 2]
    (fun _ _ => trivial) (p := fun s => s.taken.length = 3 ∧
      s.uses pool (.inline "10.0.0.1") = 2 ∧ s.uses pool (.inline "10.0.0.2") = 1)
    (by decide +kernel)
  refine ⟨pool, rfl, s, hs, htest.1, htest.2, ?_⟩
  exact ((hostPool_stable_and_fair pool hs).2.2.2.2 (by rw [hlen]; decide)).2 _ _ (by decide)
    (by decide)

end RsProxy.Engine
