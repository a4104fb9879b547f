import RsProxy.Engine.H2Pool

/-!
# Electing the request that connects

Over all interleavings of the requests and the tasks: the election of a request stands under its key
and generation until it connects or drops its lease, no two leases carry one generation, and a
request that sleeps either has nothing to wake up for or will be notified.
-/

namespace RsProxy.Engine.H2Requests

open Text Data Function AList

variable {ι : Type} {phases : ι → H2Phase} {connecting connecting' : AList fun _ : Str => Nat}
  {next next' : Nat} {i j : ι} {lease lease' : H2PoolLease}

/-! ### Elections -/

/-- The request was elected under the key and generation and has not connected. -/
def Owns (phase : H2Phase) (key : Str) (generation : Nat) : Prop :=
  phase = .connecting ⟨key, some generation⟩ ∨ phase = .dropping ⟨key, some generation⟩

/-- `connecting` has the elections that stand, and every lease has a generation of its own. -/
structure Claims (phases : ι → H2Phase) (connecting : AList fun _ => Nat) (next : Nat) :
    Prop where
  stands : ∀ i lease, phases i = .connecting lease → ∃ generation,
    lease.connectorGeneration = some generation ∧ connecting.lookup lease.key = some generation
  issued : ∀ i lease generation, (phases i).lease? = some lease →
    lease.connectorGeneration = some generation → generation < next
  distinct : ∀ i j lease lease' generation, (phases i).lease? = some lease →
    (phases j).lease? = some lease' → lease.connectorGeneration = some generation →
    lease'.connectorGeneration = some generation → i = j
  owner : ∀ key generation, connecting.lookup key = some generation →
    ∃ i, Owns (phases i) key generation

/-- Two requests whose elections stand under one key are the same. -/
theorem Claims.eq_of_lookup (h : Claims phases connecting next) {generation}
    (hi : (phases i).lease? = some lease) (hlease : lease.connectorGeneration = some generation)
    (hlookup : connecting.lookup lease.key = some generation) (hj : phases j = .connecting lease')
    (hkey : lease'.key = lease.key) : i = j := by
  obtain ⟨g, hg, hstands⟩ := h.stands j lease' hj
  rw [hkey, hlookup] at hstands
  cases hstands
  exact h.distinct i j lease lease' generation hi (by rw [hj]; rfl) hlease hg

theorem Claims.eq_of_key (h : Claims phases connecting next) (hi : phases i = .connecting lease)
    (hj : phases j = .connecting lease') (hkey : lease'.key = lease.key) : i = j := by
  obtain ⟨g, hg, hstands⟩ := h.stands i lease hi
  exact h.eq_of_lookup (by rw [hi]; rfl) hg hstands hj hkey

variable [DecidableEq ι] {phase : H2Phase}

/-- One request moves on. The elections of the others stay, its own lease is the one it had or has a
generation that was not used before, and what still stands has an owner. -/
theorem Claims.update (h : Claims phases connecting next) (hnext : next ≤ next')
    (hself : ∀ lease, phase = .connecting lease → ∃ generation,
      lease.connectorGeneration = some generation ∧ connecting'.lookup lease.key = some generation)
    (hothers : ∀ j lease, j ≠ i → phases j = .connecting lease →
      connecting'.lookup lease.key = connecting.lookup lease.key)
    (hlease : ∀ lease generation, phase.lease? = some lease →
      lease.connectorGeneration = some generation →
      (phases i).lease? = some lease ∨ generation = next ∧ next < next')
    (howner : ∀ key generation, connecting'.lookup key = some generation →
      Owns phase key generation ∨
        connecting.lookup key = some generation ∧ ¬ Owns (phases i) key generation) :
    Claims (update phases i phase) connecting' next' := by
  have hissued : ∀ j lease generation, (Function.update phases i phase j).lease? = some lease →
      lease.connectorGeneration = some generation →
      (phases j).lease? = some lease ∨ j = i ∧ generation = next ∧ next < next' := by
    intro j lease generation hj hgeneration
    by_cases hji : j = i
    · subst hji
      rw [update_self] at hj
      exact (hlease lease generation hj hgeneration).imp_right fun hfresh => ⟨rfl, hfresh⟩
    · rw [update_of_ne hji] at hj
      exact .inl hj
  constructor
  · intro j lease hj
    by_cases hji : j = i
    · subst hji
      rw [update_self] at hj
      exact hself lease hj
    · rw [update_of_ne hji] at hj
      rw [hothers j lease hji hj]
      exact h.stands j lease hj
  · intro j lease generation hj hgeneration
    rcases hissued j lease generation hj hgeneration with hold | ⟨-, rfl, hlt⟩
    · exact (h.issued j lease generation hold hgeneration).trans_le hnext
    · exact hlt
  · intro j k lease lease' generation hj hk hgeneration hgeneration'
    rcases hissued j lease generation hj hgeneration with hold | ⟨rfl, hfresh, -⟩
    · rcases hissued k lease' generation hk hgeneration' with hold' | ⟨-, hfresh', -⟩
      · exact h.distinct j k lease lease' generation hold hold' hgeneration hgeneration'
      · exact absurd (h.issued j lease generation hold hgeneration) (by omega)
    · rcases hissued k lease' generation hk hgeneration' with hold' | ⟨rfl, -⟩
      · exact absurd (h.issued k lease' generation hold' hgeneration') (by omega)
      · rfl
  · intro key generation hkey
    rcases howner key generation hkey with hown | ⟨hold, hnot⟩
    · exact ⟨i, by rwa [update_self]⟩
    · obtain ⟨j, hj⟩ := h.owner key generation hold
      have hji : j ≠ i := by
        rintro rfl
        exact hnot hj
      exact ⟨j, by rwa [update_of_ne hji]⟩

/-- What the drop of a lease does to the elections. -/
theorem lookup_connecting_dropLease {pool : H2Pool} {key} :
    (pool.dropLease lease).connecting.lookup key =
      if key = lease.key ∧ lease.connectorGeneration.isSome ∧
        pool.connecting.lookup lease.key = lease.connectorGeneration then none
      else pool.connecting.lookup key := by
  unfold H2Pool.dropLease H2Pool.cancelConnector
  cases hgeneration : lease.connectorGeneration with
  | none => simp
  | some generation =>
    dsimp only
    by_cases hlookup : pool.connecting.lookup lease.key = some generation
    · rw [if_pos hlookup]
      by_cases hkey : key = lease.key
      · subst hkey
        simp [hlookup]
      · simp [hkey]
    · simp [hlookup]

theorem Claims.step {limit s s'} {move : H2Move ι}
    (h : Claims s.phases s.pool.connecting s.nextConnectorGeneration)
    (hmoved : Moved limit s move s') :
    Claims s'.phases s'.pool.connecting s'.nextConnectorGeneration := by
  cases hmoved with
  | @quiet i event pool phase wait hshrinks hphase hblocks =>
    show Claims (Function.update s.phases i phase) pool.connecting s.nextConnectorGeneration
    rw [hshrinks.connecting]
    refine h.update le_rfl ?_ (fun _ _ _ _ => rfl) ?_ ?_
    · intro lease hlease
      exact h.stands i lease (hphase.connecting lease hlease)
    · intro lease generation hlease _
      exact .inl (hphase.lease ▸ hlease)
    · intro key generation hkey
      by_cases hown : Owns (s.phases i) key generation
      · exact .inl (hphase.owner _ hown)
      · exact .inr ⟨hkey, hown⟩
  | @reserves i event key hphase =>
    refine h.update le_rfl ?_ (fun _ _ _ _ => rfl) ?_ ?_
    · rintro lease ⟨⟩
    · rintro lease generation ⟨⟩ ⟨⟩
    · intro other generation hother
      refine .inr ⟨hother, ?_⟩
      simp [hphase, Owns]
  | @elected i event lease pool hphase hshrinks hfree =>
    refine h.update (Nat.le_succ _) ?_ ?_ ?_ ?_
    · rintro lease' ⟨⟩
      exact ⟨_, rfl, lookup_insert _⟩
    · intro j lease' _ hj
      obtain ⟨g, -, hstands⟩ := h.stands j lease' hj
      apply lookup_insert_ne
      rintro hkey
      exact hfree (hkey ▸ lookup_isSome.mp (hstands ▸ rfl))
    · rintro lease' generation ⟨⟩ ⟨⟩
      exact .inr ⟨rfl, Nat.lt_succ_self _⟩
    · intro key generation hkey
      replace hkey : (s.pool.connecting.insert lease.key _).lookup key = some generation := hkey
      by_cases hsame : key = lease.key
      · subst hsame
        rw [lookup_insert] at hkey
        cases hkey
        exact .inl (.inl rfl)
      · rw [lookup_insert_ne hsame] at hkey
        refine .inr ⟨hkey, ?_⟩
        simp [hphase, Owns]
  | @connected i now lease hphase =>
    have hlease : (s.phases i).lease? = some lease := by rw [hphase]; rfl
    show Claims (Function.update s.phases i (.streaming lease))
      (s.pool.insert lease.key _).connecting s.nextConnectorGeneration
    rw [H2Pool.connecting_insert]
    refine h.update le_rfl ?_ ?_ ?_ ?_
    · rintro lease' ⟨⟩
    · intro j lease' hji hj
      apply lookup_erase_ne
      intro hkey
      exact hji (h.eq_of_key hphase hj hkey).symm
    · rintro lease' generation ⟨⟩ -
      exact .inl hlease
    · intro key generation hkey
      have hne : key ≠ lease.key := by
        rintro rfl
        rw [lookup_erase] at hkey
        cases hkey
      rw [lookup_erase_ne hne] at hkey
      refine .inr ⟨hkey, ?_⟩
      rw [hphase]
      rintro (heq | heq)
      · cases heq
        exact hne rfl
      · cases heq
  | @dropped i lease hphase =>
    have hlease : (s.phases i).lease? = some lease := by rw [hphase]; rfl
    refine h.update le_rfl ?_ ?_ ?_ ?_
    · rintro lease' ⟨⟩
    · intro j lease' hji hj
      show (s.pool.dropLease lease).connecting.lookup lease'.key = _
      rw [lookup_connecting_dropLease, if_neg]
      rintro ⟨hkey, hsome, hlookup⟩
      obtain ⟨g, hg⟩ := Option.isSome_iff_exists.mp hsome
      exact hji (h.eq_of_lookup hlease hg (hlookup.trans hg) hj hkey).symm
    · rintro lease' generation ⟨⟩
    · intro key generation hkey
      replace hkey : (s.pool.dropLease lease).connecting.lookup key = some generation := hkey
      rw [lookup_connecting_dropLease] at hkey
      split_ifs at hkey with hnot
      refine .inr ⟨hkey, ?_⟩
      rw [hphase]
      rintro (heq | heq)
      · cases heq
      · cases heq
        exact hnot ⟨rfl, rfl, hkey⟩
  | notified => exact h
  | removes hshrinks =>
    rwa [withPool, hshrinks.connecting]

/-! ### Sleepers -/

/-- Nobody sleeps on something that has happened, unless a notification is to come. -/
def Watched (limit : Nat) (s : H2Requests ι) : Prop :=
  (∃ i, s.notifying i) ∨ ∀ i, s.waits i = .blocked → Blocks limit s.pool (s.phases i)

variable {limit : Nat} {s s' : H2Requests ι} {move : H2Move ι} {pool : H2Pool}

omit [DecidableEq ι] in
theorem Blocks.mono {pool'} (h : Blocks limit pool phase)
    (hactive : ∀ key, pool.activity.activeFor key ≤ pool'.activity.activeFor key)
    (hready : ∀ key, ¬ pool.Ready key → ¬ pool'.Ready key) : Blocks limit pool' phase := by
  rcases h with ⟨key, hphase, hfull⟩ | ⟨lease, hphase, hnot⟩
  · exact .inl ⟨key, hphase, hfull.trans (hactive key)⟩
  · exact .inr ⟨lease, hphase, hready _ hnot⟩

/-- One request moves on, and what the others wait for has not happened. -/
theorem Watched.goTo (h : Watched limit s) {wait next}
    (hactive : ∀ key, s.pool.activity.activeFor key ≤ pool.activity.activeFor key)
    (hready : ∀ key, ¬ s.pool.Ready key → ¬ pool.Ready key)
    (hblocks : wait = .blocked → Blocks limit pool phase) :
    Watched limit { (s.withPool pool).goTo i phase wait with nextConnectorGeneration := next } := by
  refine h.imp id fun hsleep j hj => ?_
  by_cases hji : j = i
  · subst hji
    simp only [goTo, update_self] at hj ⊢
    exact hblocks hj
  · simp only [H2Requests.goTo, update_of_ne hji] at hj ⊢
    exact (hsleep j hj).mono hactive hready

theorem Watched.step (h : Watched limit s) (hmoved : Moved limit s move s') : Watched limit s' := by
  cases hmoved with
  | quiet hshrinks hphase hblocks =>
    exact h.goTo (fun key => by rw [hshrinks.activity]) (fun key => hshrinks.not_ready) hblocks
  | @reserves i event key hphase =>
    refine h.goTo (fun other => ?_) (fun key => id) (by simp)
    rw [KeyedActivity.activeFor_reserve]
    exact Nat.le_add_right _ _
  | elected hphase hshrinks hfree =>
    refine h.goTo (fun key => by rw [hshrinks.activity]) (fun key hready => ?_) (by simp)
    rintro (hentry | hconnecting)
    · exact hready (.inl (hshrinks.entries key hentry))
    · exact hready (.inr fun hmem => hconnecting ((mem_insert _).mpr (.inr hmem)))
  | @connected i | @dropped i => exact .inl ⟨i, by simp [setNotifying]⟩
  | notified =>
    refine .inr fun j hj => ?_
    simp only [setNotifying, notifyAll] at hj
    split_ifs at hj
    contradiction
  | removes hshrinks =>
    exact h.imp id fun hsleep j hj => (hsleep j hj).mono
      (fun key => by rw [withPool, hshrinks.activity]) fun key => hshrinks.not_ready

theorem ordered_step (h : s.pool.Ordered) (hmoved : Moved limit s move s') : s'.pool.Ordered := by
  cases hmoved with
  | quiet hshrinks | removes hshrinks => exact hshrinks.ordered h
  | reserves => exact ⟨h.perm, h.capacity⟩
  | elected hphase hshrinks =>
    obtain ⟨hperm, hcapacity⟩ := hshrinks.ordered h
    exact ⟨hperm, hcapacity⟩
  | connected => exact H2Pool.ordered_insert h
  | dropped =>
    obtain ⟨hentries, horder⟩ := H2Pool.entries_dropLease s.pool
    constructor
    · show (s.pool.dropLease _).order.Perm (s.pool.dropLease _).entries.keys
      rw [hentries, horder]
      exact h.perm
    · show (s.pool.dropLease _).entries.keys.length ≤ _
      rw [hentries]
      exact h.capacity
  | notified => exact h

/-- A request that makes the condition of another one true is about to notify. -/
theorem notifying_of_ready {key} (hmoved : Moved limit s move s') (hbefore : ¬ s.pool.Ready key)
    (hafter : s'.pool.Ready key) :
    ∃ i event, move = .request i event ∧ s'.notifying i := by
  cases hmoved with
  | quiet hshrinks | removes hshrinks => exact absurd hafter (hshrinks.not_ready hbefore)
  | reserves | notified => exact absurd hafter hbefore
  | elected hphase hshrinks hfree =>
    rcases hafter with hentry | hconnecting
    · exact absurd (.inl (hshrinks.entries key hentry)) hbefore
    · exact absurd (.inr fun hmem => hconnecting ((mem_insert _).mpr (.inr hmem))) hbefore
  | @connected i | @dropped i => exact ⟨i, _, rfl, by simp [setNotifying]⟩

/-! ### Every interleaving -/

structure Sound (limit : Nat) (s : H2Requests ι) : Prop where
  claims : Claims s.phases s.pool.connecting s.nextConnectorGeneration
  ordered : s.pool.Ordered
  watched : Watched limit s

theorem sound_of_reachable {allowed} (h : (machine ι limit).Reachable allowed s) :
    Sound limit s := by
  refine h.invariant ⟨by constructor <;> nofun, ⟨.refl _, Nat.zero_le _⟩, ?_⟩ ?_
  · right
    rintro i ⟨⟩
  · intro s s' move _ hsound _ hstep
    have hmoved := moved_of_step hstep
    exact ⟨hsound.claims.step hmoved, ordered_step hsound.ordered hmoved,
      hsound.watched.step hmoved⟩

/-- Whatever the requests and tasks do: no two requests are elected under one key, and an election
that stands is that of a request which has not connected nor dropped its lease; the recency list has
the keys of the entries, each once, and at most 256 of them; a lease that is dropped leaves the
election of every other request standing; a step that makes the condition of a waiting request true
is one of a request that then has to notify; while a request sleeps though its condition is true
there is one that has to notify; and one that has to can do so at any time, does nothing else
before, and leaves nobody asleep. -/
theorem election_sound (h : (machine ι limit).Reachable (fun _ => True) s) :
    (∀ i j lease lease', s.phases i = .connecting lease → s.phases j = .connecting lease' →
      lease.key = lease'.key → i = j) ∧
    (∀ key generation, s.pool.connecting.lookup key = some generation →
      ∃ i, Owns (s.phases i) key generation) ∧
    (s.pool.order.Perm s.pool.entries.keys ∧ s.pool.order.Nodup ∧ s.pool.order.length ≤ 256) ∧
    (∀ i s', s.step limit (.request i .drop) = some s' → ∀ j lease, j ≠ i →
      s.phases j = .connecting lease → s'.phases j = .connecting lease ∧ ∃ generation,
        lease.connectorGeneration = some generation ∧
        s'.pool.connecting.lookup lease.key = some generation) ∧
    (∀ move s' key, s.step limit move = some s' → ¬ s.pool.Ready key → s'.pool.Ready key →
      ∃ i event, move = .request i event ∧ s'.notifying i = true) ∧
    (∀ i lease, s.phases i = .waiting lease → s.waits i = .blocked → s.pool.Ready lease.key →
      ∃ j, s.notifying j = true) ∧
    ∀ i, s.notifying i = true →
      (∃ s', s.step limit (.request i .notifyAll) = some s' ∧ ∀ j, s'.waits j ≠ .blocked) ∧
      ∀ event, event ≠ .notifyAll → s.step limit (.request i event) = none := by
  obtain ⟨hclaims, hordered, hwatched⟩ := sound_of_reachable h
  refine ⟨?_, hclaims.owner, ⟨hordered.perm, hordered.nodup, ?_⟩, ?_, ?_, ?_, ?_⟩
  · intro i j lease lease' hi hj hkey
    exact hclaims.eq_of_key hi hj hkey.symm
  · rw [hordered.perm.length_eq]
    exact hordered.capacity
  · intro i s' hstep j lease hji hj
    have hmoved := moved_of_step hstep
    have hstill : s'.phases j = .connecting lease := by
      cases hmoved with
      | quiet | reserves | elected => simpa [goTo, withPool, update_of_ne hji] using hj
      | dropped => simpa [goTo, withPool, setNotifying, update_of_ne hji] using hj
      | removes => exact hj
    exact ⟨hstill, (hclaims.step hmoved).stands j lease hstill⟩
  · intro move s' key hstep
    exact notifying_of_ready (moved_of_step hstep)
  · intro i lease hphase hblocked hready
    rcases hwatched with hnotifying | hsleep
    · exact hnotifying
    · rcases hsleep i hblocked with ⟨key, hkey, -⟩ | ⟨lease', hlease, hnot⟩
      · rw [hphase] at hkey
        cases hkey
      · rw [hphase] at hlease
        cases hlease
        exact absurd hready hnot
  · intro i hnotifying
    refine ⟨⟨s.notifyAll.setNotifying i false, ?_, ?_⟩, ?_⟩
    · simp [step, hnotifying]
    · intro j
      simp only [setNotifying, notifyAll]
      split
      · decide
      · assumption
    · intro event hevent
      simp [step, hnotifying, hevent]

/-- Two requests under one key: the first one is elected, the second one sleeps. -/
def electionMoves {ι : Type} (i j : ι) : List (H2Move ι) :=
  [i, j].flatMap fun i => [.request i (.dispatch "a:443" 0), .request i (.enter false),
    .request i (.lookForSlot false), .request i (.lookForEntry false false 0 0)]

theorem election_of_two :
    ∃ s : H2Requests (Fin 2), (machine (Fin 2) 8).Reachable (fun _ => True) s ∧
    s.phases 0 = .connecting ⟨"a:443", some 1⟩ ∧ s.waits 1 = .blocked ∧
    (∀ i lease, s.phases i = .connecting lease → lease.key = "a:443" → i = 0) ∧
    s.pool.order.Perm s.pool.entries.keys := by
  obtain ⟨s, hreach, hphase, hblocked⟩ := Machine.exists_reachable_of_run
    (m := machine (Fin 2) 8) (electionMoves 0 1) (fun _ _ => trivial)
    (p := fun s => s.phases 0 = .connecting ⟨"a:443", some 1⟩ ∧ s.waits 1 = .blocked)
    (by decide +kernel)
  obtain ⟨hone, -, ⟨hperm, -⟩, -⟩ := election_sound hreach
  exact ⟨s, hreach, hphase, hblocked, fun i lease hi hkey => hone i 0 lease _ hi hphase hkey, hperm⟩

end RsProxy.Engine.H2Requests
