import RsProxy.Trace.Session

/-!
# Sessions that have ended

`MemoryStore` keeps the last sessions, oldest first. A session that could never fit is turned away;
any other one goes in after the oldest have made room for it.
-/

namespace RsProxy.Trace

open Data List Bool Nat

structure StoredSession where
  session : Session
  bytes : Nat

structure MemoryStore where
  maxSessions : Nat
  memoryBudgetBytes : Nat
  memoryBytes : Nat
  evictedSessions : Nat
  sessions : List StoredSession

variable (full : MemoryStore → Bool) (session : Session)

namespace MemoryStore

def new (maxSessions memoryBudgetBytes : Nat) : MemoryStore :=
  ⟨maxSessions, memoryBudgetBytes, 0, 0, []⟩

def evictOldest (m : MemoryStore) : MemoryStore :=
  match m.sessions with
  | [] => m
  | stored :: rest =>
    { m with
      sessions := rest
      memoryBytes := m.memoryBytes - stored.bytes
      evictedSessions := satAdd m.evictedSessions 1 }

/-- As many rounds as there are sessions are enough. -/
def evictLoop (full : MemoryStore → Bool) : (rounds : Nat) → MemoryStore → MemoryStore
  | 0, m => m
  | rounds + 1, m =>
    if !m.sessions.isEmpty && full m then evictLoop full rounds m.evictOldest else m

def evictWhile (full : MemoryStore → Bool) (m : MemoryStore) : MemoryStore :=
  evictLoop full m.sessions.length m

/-- A session of this size is turned away. -/
def Refuses (m : MemoryStore) (bytes : Nat) : Prop :=
  m.maxSessions = 0 ∨ m.memoryBudgetBytes = 0 ∨ m.memoryBudgetBytes < bytes

instance (m : MemoryStore) (bytes : Nat) : Decidable (m.Refuses bytes) :=
  inferInstanceAs (Decidable (_ ∨ _))

/-- There is no room for a session of this size. -/
def isFull (bytes : Nat) (m : MemoryStore) : Bool :=
  m.maxSessions ≤ m.sessions.length || m.memoryBudgetBytes < satAdd m.memoryBytes bytes

def insert (layout : Layout) (session : Session) (m : MemoryStore) : MemoryStore :=
  let bytes := estimateSessionBytes layout session
  if m.Refuses bytes then { m with evictedSessions := satAdd m.evictedSessions 1 }
  else
    let m := m.evictWhile (isFull bytes)
    { m with
      memoryBytes := satAdd m.memoryBytes bytes
      sessions := m.sessions ++ [⟨session, bytes⟩] }

def evictToBudget (budget : Nat) (m : MemoryStore) : MemoryStore :=
  m.evictWhile fun m => budget < m.memoryBytes

def clear (m : MemoryStore) : MemoryStore := { m with sessions := [], memoryBytes := 0 }

/-- The sessions with larger identifiers, in the order in which they were stored. -/
def listAfter (after limit : Nat) (m : MemoryStore) : List Session :=
  ((m.sessions.filter fun stored => after < stored.session.id).take limit).map StoredSession.session

/-! ### What is kept -/

variable {layout : Layout} {m : MemoryStore}

def resident (m : MemoryStore) : List Session := m.sessions.map StoredSession.session

/-- The sum of the estimated sizes of the sessions. -/
def total (layout : Layout) (m : MemoryStore) : Nat :=
  (m.resident.map (estimateSessionBytes layout)).sum

structure Exact (layout : Layout) (m : MemoryStore) : Prop where
  bytes_eq : ∀ stored ∈ m.sessions, stored.bytes = estimateSessionBytes layout stored.session
  memoryBytes_eq : m.memoryBytes = m.total layout

/-- The counter says no more than what the sessions were counted for. -/
def Covered (m : MemoryStore) : Prop :=
  m.memoryBytes ≤ (m.sessions.map StoredSession.bytes).sum

/-- Some of the oldest sessions are gone, and nothing else has changed. -/
structure Evicted (m m' : MemoryStore) : Prop where
  maxSessions_eq : m'.maxSessions = m.maxSessions
  budget_eq : m'.memoryBudgetBytes = m.memoryBudgetBytes
  suffix : m'.sessions <:+ m.sessions
  exact : ∀ {layout}, m.Exact layout → m'.Exact layout
  covered : m.Covered → m'.Covered

theorem Evicted.refl (m : MemoryStore) : Evicted m m := ⟨rfl, rfl, suffix_rfl, id, id⟩

theorem Evicted.trans {m₁ m₂ m₃} (h : Evicted m₁ m₂) (h' : Evicted m₂ m₃) : Evicted m₁ m₃ :=
  ⟨h'.maxSessions_eq.trans h.maxSessions_eq, h'.budget_eq.trans h.budget_eq,
    h'.suffix.trans h.suffix, h'.exact ∘ h.exact, h'.covered ∘ h.covered⟩

theorem evicted_evictOldest (m : MemoryStore) : Evicted m m.evictOldest := by
  obtain ⟨maxSessions, budget, memoryBytes, evicted, sessions⟩ := m
  cases sessions with
  | nil => exact .refl _
  | cons stored rest =>
    refine ⟨rfl, rfl, suffix_cons stored rest, ?_, fun h => ?_⟩
    · intro layout h
      refine ⟨fun s hs => h.bytes_eq s (mem_cons_of_mem _ hs), ?_⟩
      have hbytes := h.bytes_eq stored (mem_cons_self ..)
      have hsum := h.memoryBytes_eq
      show memoryBytes - stored.bytes = (rest.map StoredSession.session |>.map _).sum
      change memoryBytes = (estimateSessionBytes layout stored.session) + _ at hsum
      rw [hsum, hbytes, Nat.add_sub_cancel_left]
      rfl
    · show memoryBytes - stored.bytes ≤ (rest.map StoredSession.bytes).sum
      change memoryBytes ≤ stored.bytes + (rest.map StoredSession.bytes).sum at h
      omega

theorem length_evictOldest (m : MemoryStore) :
    m.evictOldest.sessions.length = m.sessions.length - 1 := by
  obtain ⟨maxSessions, budget, memoryBytes, evicted, sessions⟩ := m
  cases sessions with
  | nil | cons => rfl

theorem evicted_evictLoop {rounds} (m : MemoryStore) : Evicted m (evictLoop full rounds m) := by
  induction rounds generalizing m with
  | zero => exact .refl m
  | succ rounds ih =>
    rw [evictLoop]
    split
    · exact (evicted_evictOldest m).trans (ih m.evictOldest)
    · exact .refl m

/-- The loop stops when there is room, or nothing left. -/
theorem evictLoop_stops {rounds m} (h : m.sessions.length ≤ rounds) :
    (evictLoop full rounds m).sessions = [] ∨ full (evictLoop full rounds m) = false := by
  induction rounds generalizing m with
  | zero =>
    left
    exact eq_nil_of_length_eq_zero (le_zero.mp h)
  | succ rounds ih =>
    rw [evictLoop]
    split
    next hfull =>
      apply ih
      rw [length_evictOldest]
      omega
    next hstop =>
      rwa [and_eq_true, not_and_or, not_eq_true', not_eq_false, List.isEmpty_iff,
        not_eq_true] at hstop

theorem evicted_evictWhile (m : MemoryStore) :
    Evicted m (m.evictWhile full) := evicted_evictLoop full m

theorem evictWhile_stops (m : MemoryStore) :
    (m.evictWhile full).sessions = [] ∨ full (m.evictWhile full) = false :=
  evictLoop_stops full le_rfl

theorem maxSessions_insert {session} (m : MemoryStore) :
    (m.insert layout session).maxSessions = m.maxSessions := by
  rw [insert]
  split
  · rfl
  · exact (evicted_evictWhile _ m).maxSessions_eq

theorem budget_insert {session} (m : MemoryStore) :
    (m.insert layout session).memoryBudgetBytes = m.memoryBudgetBytes := by
  rw [insert]
  split
  · rfl
  · exact (evicted_evictWhile _ m).budget_eq

theorem Exact.clear : (clear m).Exact layout := ⟨forall_mem_nil _, rfl⟩

/-- A session goes in behind the others, or is turned away. -/
theorem resident_insert :
    (m.insert layout session).resident <:+
      m.resident ++ if m.Refuses (estimateSessionBytes layout session) then [] else [session] := by
  rw [insert]
  split
  · rw [append_nil]
    exact suffix_rfl
  · obtain ⟨gone, hgone⟩ :=
      (evicted_evictWhile (isFull (estimateSessionBytes layout session)) m).suffix
    refine ⟨gone.map StoredSession.session, ?_⟩
    simp only [resident, ← hgone, map_append, append_assoc]
    rfl

theorem length_insert (h : m.sessions.length ≤ m.maxSessions) :
    (m.insert layout session).sessions.length ≤ m.maxSessions := by
  rw [insert]
  split
  · exact h
  next hfits =>
    have hmax : m.maxSessions ≠ 0 := fun h0 => hfits (.inl h0)
    have hevicted := evicted_evictWhile (isFull (estimateSessionBytes layout session)) m
    have hstops := evictWhile_stops (isFull (estimateSessionBytes layout session)) m
    simp only [length_append, length_singleton]
    rcases hstops with hempty | hroom
    · rw [hempty]
      simp only [length_nil]
      omega
    · rw [isFull, or_eq_false_iff, decide_eq_false_iff_not, hevicted.maxSessions_eq] at hroom
      omega

theorem Evicted.total_le {m'} (h : Evicted m m') (layout : Layout) :
    m'.total layout ≤ m.total layout := by
  obtain ⟨gone, hgone⟩ := h.suffix
  simp only [total, resident, ← hgone, map_append, sum_append_nat]
  exact le_add_left _ _

theorem Exact.insert (h : m.Exact layout) {session}
    (hfits : m.total layout + estimateSessionBytes layout session ≤ wordMax) :
    (m.insert layout session).Exact layout := by
  rw [MemoryStore.insert]
  split
  · exact ⟨h.bytes_eq, h.memoryBytes_eq⟩
  · have hevicted := evicted_evictWhile (isFull (estimateSessionBytes layout session)) m
    have hexact := hevicted.exact h
    have htotal := hevicted.total_le layout
    constructor
    · intro stored hstored
      rcases mem_append.mp hstored with hold | hnew
      · exact hexact.bytes_eq stored hold
      · rw [mem_singleton.mp hnew]
    · show satAdd _ _ = _
      rw [hexact.memoryBytes_eq, satAdd_of_le (by omega)]
      simp [total, resident]

theorem Covered.insert (h : m.Covered) (session : Session) : (m.insert layout session).Covered := by
  rw [MemoryStore.insert]
  split
  · exact h
  · have hcovered := (evicted_evictWhile (isFull (estimateSessionBytes layout session)) m).covered h
    rw [Covered] at hcovered ⊢
    rw [map_append, sum_append_nat]
    show satAdd _ _ ≤ _ + (estimateSessionBytes layout session + 0)
    rw [satAdd]
    omega

theorem evictToBudget_le (h : m.Covered) {budget} :
    (m.evictToBudget budget).memoryBytes ≤ budget := by
  rcases evictWhile_stops (fun m => budget < m.memoryBytes) m with hempty | hroom
  · have hcovered := (evicted_evictWhile (fun m => budget < m.memoryBytes) m).covered h
    rw [Covered, hempty] at hcovered
    exact hcovered.trans (zero_le _)
  · exact Nat.le_of_not_lt (of_decide_eq_false hroom)

end MemoryStore

end RsProxy.Trace
