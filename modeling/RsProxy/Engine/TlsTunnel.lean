import RsProxy.Data.Saturating
import RsProxy.Engine.UpstreamBody
import RsProxy.Engine.WebSocketTunnel

/-!
# The TLS tunnel

`tunnel_copy_tls_inner` carries the bytes of a client over a TLS connection to the upstream proxy.
Like the WebSocket tunnel it polls: every iteration moves what can be moved between the client, the
connection and the socket below it. Of the connection the model keeps what the loop asks it for:
whether it has records to send, which plaintext has been received and not been read, and whether the
peer's `close_notify` has come. The loop begins with the connection as the CONNECT exchange has left
it, which may have received more than the answer it was waiting for.
-/

namespace RsProxy.Engine

open Text Io Data List Bool

def tunnelEndError (e : IoError) : Bool := connectionEnd e

/-! ### The connection -/

structure TlsConn where
  /-- The bytes of the records that wait to be sent. -/
  sendable : Nat
  /-- What has been received and not been read. -/
  plaintext : Bytes
  closeNotify : Bool
deriving DecidableEq

/-- What the connection's writer does with plaintext: it takes some and makes records of it. -/
structure TlsWrite where
  accepted : Nat
  records : Nat

/-- What a read from the socket brings the connection. Records are processed at once: they hold
plaintext and perhaps the peer's `close_notify`, or are refused. -/
inductive TlsRead where
  | ended
  | failed (e : IoError)
  | records (plaintext : Bytes) (closeNotify : Bool)
  | refused (reason : Str)

def TlsRead.Ended : TlsRead → Prop
  | .ended => True
  | .failed e => connectionEnd e
  | .records _ _ => False
  | .refused _ => False

namespace TlsConn

def wantsWrite (conn : TlsConn) : Bool := 0 < conn.sendable

/-- After the handshake a connection wants to read, except while plaintext has not been read and
after the peer's `close_notify`. -/
def wantsRead (conn : TlsConn) : Bool := conn.plaintext.isEmpty && !conn.closeNotify

/-- Nothing has come behind the answer to CONNECT. -/
def fresh : TlsConn := ⟨0, [], false⟩

end TlsConn

/-! ### The loop -/

structure TlsTunnel where
  conn : TlsConn
  clientClosed : Bool
  proxyClosed : Bool
  pendingToTls : Bytes
  pendingToClient : Bytes
  requestBytes : Nat
  responseBytes : Nat
  result : Option (Except IoError Unit)
deriving DecidableEq

/-- What the sockets and the connection do in one iteration. -/
structure TlsRound where
  plaintext₁ : List TlsWrite
  toProxy₁ : List WriteOutcome
  fromClient : List ReadOutcome
  /-- The bytes of the record that tells the peer of the client's end. -/
  closeRecord : Nat
  plaintext₂ : List TlsWrite
  toProxy₂ : List WriteOutcome
  fromProxy : List TlsRead
  toClient : List WriteOutcome
  toProxy₃ : List WriteOutcome

variable {conn : TlsConn} {t t' : TlsTunnel} (writes : List WriteOutcome) (closeRecord : Nat)
  (reads : List TlsRead) {round : TlsRound}

namespace TlsTunnel

def initial (conn : TlsConn) : TlsTunnel where
  conn := conn
  clientClosed := false
  proxyClosed := false
  pendingToTls := []
  pendingToClient := []
  requestBytes := 0
  responseBytes := 0
  result := none

def pendingLimit : Nat := 1024 * 1024

/-- The connection takes plaintext until its buffer is full. -/
def flushTlsPlaintext : List TlsWrite → ReadM TlsTunnel Unit
  | [] => pure ()
  | write :: writes => fun t =>
    if t.pendingToTls = [] ∨ write.accepted = 0 then (.ok (), t)
    else flushTlsPlaintext writes { t with
      pendingToTls := t.pendingToTls.drop write.accepted
      conn := { t.conn with sendable := t.conn.sendable + write.records } }

def flushTlsRecords : List WriteOutcome → ReadM TlsTunnel Unit
  | [] => pure ()
  | .error e :: _ => fun t =>
    if !t.conn.wantsWrite || wouldBlock e || tunnelEndError e then (.ok (), t) else (.error e, t)
  | .ok n :: writes => fun t =>
    if !t.conn.wantsWrite || n = 0 then (.ok (), t)
    else flushTlsRecords writes { t with conn := { t.conn with sendable := t.conn.sendable - n } }

/-- The client has ended, and the connection queues its `close_notify`. -/
def closeClient (closeRecord : Nat) (t : TlsTunnel) : TlsTunnel :=
  { t with
    clientClosed := true
    conn := { t.conn with sendable := t.conn.sendable + closeRecord } }

def readClientLoop (closeRecord : Nat) : List ReadOutcome → ReadM TlsTunnel Unit
  | [] => pure ()
  | .error e :: _ => fun t =>
    if wouldBlock e then (.ok (), t)
    else if tunnelEndError e then (.ok (), t.closeClient closeRecord)
    else (.error e, t)
  | .ok piece :: reads => fun t =>
    if piece.val = [] then (.ok (), t.closeClient closeRecord)
    else
      let t := { t with
        requestBytes := satAdd t.requestBytes piece.val.length
        pendingToTls := t.pendingToTls ++ piece.val }
      if pendingLimit ≤ t.pendingToTls.length then (.ok (), t)
      else readClientLoop closeRecord reads t

def readClient (closeRecord : Nat) (reads : List ReadOutcome) : ReadM TlsTunnel Unit := fun t =>
  if !t.clientClosed && t.pendingToTls.length < pendingLimit then readClientLoop closeRecord reads t
  else (.ok (), t)

/-- After the peer's `close_notify` the connection reads an end and does not ask the socket. -/
def readProxyLoop : List TlsRead → ReadM TlsTunnel Unit
  | [] => fun t => (.ok (), if t.conn.closeNotify then { t with proxyClosed := true } else t)
  | read :: reads => fun t =>
    if t.conn.closeNotify then (.ok (), { t with proxyClosed := true })
    else
      match read with
      | .ended => (.ok (), { t with proxyClosed := true })
      | .failed e =>
        if wouldBlock e then (.ok (), t)
        else if tlsCloseNotifyMissing e || tunnelEndError e then
          (.ok (), { t with proxyClosed := true })
        else (.error e, t)
      | .refused reason => (.error ⟨.invalidData, reason⟩, t)
      | .records plaintext closeNotify =>
        readProxyLoop reads { t with
          pendingToClient := t.pendingToClient ++ (t.conn.plaintext ++ plaintext)
          conn := { t.conn with plaintext := [], closeNotify := closeNotify } }

def readProxy (reads : List TlsRead) : ReadM TlsTunnel Unit := fun t =>
  if !t.proxyClosed && t.conn.wantsRead then readProxyLoop reads t else (.ok (), t)

def flushPendingToStream (writes : List WriteOutcome) : ReadM TlsTunnel Unit := fun t =>
  let flushed := flushLoop tunnelEndError t.pendingToClient writes
  let t := { t with pendingToClient := flushed.pending }
  match flushed.error with
  | some e => (.error e, t)
  | none =>
    (.ok (), { t with responseBytes := satAdd t.responseBytes flushed.written.length })

/-- The exit tests. -/
def finished (t : TlsTunnel) : Bool :=
  (t.proxyClosed && t.pendingToClient.isEmpty) ||
    (t.clientClosed && t.proxyClosed && t.pendingToTls.isEmpty && t.pendingToClient.isEmpty)

def exitTest : ReadM TlsTunnel Bool := fun t => (.ok t.finished, t)

def iteration (round : TlsRound) : ReadM TlsTunnel Bool := do
  flushTlsPlaintext round.plaintext₁
  flushTlsRecords round.toProxy₁
  readClient round.closeRecord round.fromClient
  flushTlsPlaintext round.plaintext₂
  flushTlsRecords round.toProxy₂
  readProxy round.fromProxy
  flushPendingToStream round.toClient
  flushTlsRecords round.toProxy₃
  exitTest

def iterate (t : TlsTunnel) (round : TlsRound) : TlsTunnel :=
  match iteration round t with
  | (.ok true, t) => { t with result := some (.ok ()) }
  | (.ok false, t) => t
  | (.error e, t) => { t with result := some (.error e) }

def machine (conn : TlsConn) : Machine TlsTunnel TlsRound where
  initial := initial conn
  step t round := if t.result.isNone then some (t.iterate round) else none

/-! ### What the steps leave alone -/

/-- What concerns the upstream side is the same in both states. -/
structure Still (t t' : TlsTunnel) : Prop where
  wantsRead : t'.conn.wantsRead = t.conn.wantsRead
  proxyClosed : t'.proxyClosed = t.proxyClosed
  pendingToClient : t'.pendingToClient = t.pendingToClient
  result : t'.result = t.result

theorem Still.refl (t : TlsTunnel) : t.Still t := ⟨rfl, rfl, rfl, rfl⟩

theorem Still.trans {t₁ t₂ t₃ : TlsTunnel} (h : t₁.Still t₂) (h' : t₂.Still t₃) : t₁.Still t₃ :=
  ⟨h'.wantsRead.trans h.wantsRead, h'.proxyClosed.trans h.proxyClosed,
    h'.pendingToClient.trans h.pendingToClient, h'.result.trans h.result⟩

theorem still_flushTlsPlaintext (writes : List TlsWrite) (t : TlsTunnel) :
    ∃ t', flushTlsPlaintext writes t = (.ok (), t') ∧ t.Still t' := by
  induction writes generalizing t with
  | nil => exact ⟨t, rfl, .refl t⟩
  | cons write writes ih =>
    rw [flushTlsPlaintext]
    beta_reduce
    split
    · exact ⟨t, rfl, .refl t⟩
    · obtain ⟨t', hflush, hstill⟩ := ih { t with
        pendingToTls := t.pendingToTls.drop write.accepted
        conn := { t.conn with sendable := t.conn.sendable + write.records } }
      exact ⟨t', hflush, hstill.wantsRead, hstill.proxyClosed, hstill.pendingToClient,
        hstill.result⟩

theorem still_flushTlsRecords (t : TlsTunnel) : t.Still (flushTlsRecords writes t).2 := by
  induction writes generalizing t with
  | nil => exact .refl t
  | cons write writes ih =>
    cases write with
    | error e =>
      rw [flushTlsRecords]
      beta_reduce
      split <;> exact .refl t
    | ok n =>
      rw [flushTlsRecords]
      beta_reduce
      split
      · exact .refl t
      · exact ⟨(ih _).wantsRead, (ih _).proxyClosed, (ih _).pendingToClient, (ih _).result⟩

theorem still_readClientLoop {reads} (t : TlsTunnel) :
    t.Still (readClientLoop closeRecord reads t).2 := by
  induction reads generalizing t with
  | nil => exact .refl t
  | cons read reads ih =>
    cases read with
    | error e =>
      rw [readClientLoop]
      split
      · exact .refl t
      · split <;> exact ⟨rfl, rfl, rfl, rfl⟩
    | ok piece =>
      rw [readClientLoop]
      split
      · exact ⟨rfl, rfl, rfl, rfl⟩
      · dsimp only
        split
        · exact ⟨rfl, rfl, rfl, rfl⟩
        · exact ⟨(ih _).wantsRead, (ih _).proxyClosed, (ih _).pendingToClient, (ih _).result⟩

theorem still_readClient (reads : List ReadOutcome) (t : TlsTunnel) :
    t.Still (readClient closeRecord reads t).2 := by
  rw [readClient]
  split
  · exact still_readClientLoop closeRecord t
  · exact .refl t

/-! ### When the upstream side is read -/

/-- A connection that wanted to be read in the beginning does so until its end has been seen, and
one that did not never does. -/
def Follows (conn : TlsConn) (t : TlsTunnel) : Prop :=
  if conn.wantsRead then t.conn.wantsRead = false → t.proxyClosed
  else t.conn.wantsRead = false ∧ t.proxyClosed = false

theorem Still.follows (h : t.Still t') (ht : t.Follows conn) : t'.Follows conn := by
  rwa [Follows, h.wantsRead, h.proxyClosed]

theorem keeps_of_still {p : ReadM TlsTunnel Unit} (h : ∀ t : TlsTunnel, t.Still (p t).2) :
    p.Keeps (Follows conn) fun _ => True :=
  fun t ht => ⟨trivial, fun _ _ => (h t).follows ht⟩

/-- What is received is read at once, and a `close_notify` is noticed. -/
theorem readProxyLoop_noticed (t : TlsTunnel) (hread : t.conn.plaintext = [])
    (h : (readProxyLoop reads t).1 = .ok ()) :
    (readProxyLoop reads t).2.conn.wantsRead = false → (readProxyLoop reads t).2.proxyClosed := by
  have hopen {t : TlsTunnel} (hread : t.conn.plaintext = []) (hclose : ¬ t.conn.closeNotify) :
      t.conn.wantsRead = true := by
    simp [TlsConn.wantsRead, hread, hclose]
  induction reads generalizing t with
  | nil =>
    rw [readProxyLoop]
    beta_reduce
    split
    · exact fun _ => rfl
    next hclose => simp [hopen hread hclose]
  | cons read reads ih =>
    rw [readProxyLoop] at h ⊢
    beta_reduce at h ⊢
    by_cases hclose : t.conn.closeNotify
    · rw [if_pos hclose]
      exact fun _ => rfl
    · rw [if_neg hclose] at h ⊢
      cases read with
      | ended => exact fun _ => rfl
      | failed e =>
        dsimp only
        split
        · simp [hopen hread hclose]
        · split
          · exact fun _ => rfl
          · simp_all
      | refused reason => cases h
      | records plaintext closeNotify => exact ih _ rfl h

theorem keeps_readProxy : (readProxy reads).Keeps (Follows conn) fun _ => True := by
  intro t ht
  refine ⟨trivial, fun _ hok => ?_⟩
  rw [readProxy] at hok ⊢
  split
  next hread =>
    rw [if_pos hread] at hok
    rw [and_eq_true] at hread
    have hwants := hread.2
    rw [TlsConn.wantsRead, and_eq_true, List.isEmpty_iff] at hwants
    rw [Follows] at ht ⊢
    split at ht
    next hconn =>
      rw [if_pos hconn]
      exact readProxyLoop_noticed reads t hwants.1 hok
    · cases hread.2.symm.trans ht.1
  · exact ht

theorem keeps_flushPendingToStream :
    (flushPendingToStream writes).Keeps (Follows conn) fun _ => True := by
  intro t ht
  refine ⟨trivial, fun _ _ => ?_⟩
  rw [flushPendingToStream]
  split <;> exact ht

theorem keeps_iteration (round : TlsRound) :
    (iteration round).Keeps (Follows conn) fun _ => True := by
  have hplaintext (writes : List TlsWrite) :
      (flushTlsPlaintext writes).Keeps (Follows conn) fun _ => True := by
    apply keeps_of_still
    intro t
    obtain ⟨t', hflush, hstill⟩ := still_flushTlsPlaintext writes t
    rwa [hflush]
  have hrecords (writes : List WriteOutcome) :
      (flushTlsRecords writes).Keeps (Follows conn) fun _ => True :=
    keeps_of_still (still_flushTlsRecords writes)
  apply (hplaintext _).bind
  intro _
  apply (hrecords _).bind
  intro _
  apply (keeps_of_still (still_readClient _ _)).bind
  intro _
  apply (hplaintext _).bind
  intro _
  apply (hrecords _).bind
  intro _
  apply (keeps_readProxy _).bind
  intro _
  apply (keeps_flushPendingToStream _).bind
  intro _
  apply (hrecords _).bind
  intro _ t ht
  exact ⟨trivial, fun _ _ => ht⟩

theorem eq_of_step (h : (machine conn).step t round = some t') :
    t.result = none ∧ t.iterate round = t' := by
  obtain ⟨hrunning, heq⟩ := Option.ite_none_right_eq_some.mp h
  exact ⟨Option.isNone_iff_eq_none.mp hrunning, Option.some.inj heq⟩

theorem follows_of_reachable (ht : (machine conn).Reachable (fun _ => True) t) :
    t.result = none → t.Follows conn := by
  refine ht.invariant (I := fun t => t.result = none → t.Follows conn) ?_ ?_
  · intro _
    rw [Follows]
    split
    next hconn => exact fun h => absurd hconn (ne_true_of_eq_false h)
    next hconn => exact ⟨eq_false_of_ne_true hconn, rfl⟩
  · rintro t t' round - hfollows - hstep
    obtain ⟨hrunning, rfl⟩ := eq_of_step hstep
    obtain ⟨-, hagain⟩ := keeps_iteration round t (hfollows hrunning)
    rw [iterate]
    split
    next t' hiter => exact fun h => by cases h
    next t' hiter =>
      rw [hiter] at hagain
      exact fun _ => hagain false rfl
    next e t' hiter => exact fun h => by cases h

end TlsTunnel

/-! ### Both peers are gone -/

/-- Every call reports that the peer is gone. -/
structure TlsRound.Gone (round : TlsRound) : Prop where
  fromClient : ReadsEnded round.fromClient
  fromProxy : ∃ r rest, round.fromProxy = r :: rest ∧ r.Ended
  toProxy₁ : WritesEnded round.toProxy₁
  toProxy₂ : WritesEnded round.toProxy₂
  toProxy₃ : WritesEnded round.toProxy₃
  toClient : WritesEnded round.toClient

namespace TlsTunnel

theorem flushTlsRecords_of_ended {writes} (h : WritesEnded writes) (t : TlsTunnel) :
    flushTlsRecords writes t = (.ok (), t) := by
  obtain ⟨w, rest, rfl, hw⟩ := h
  cases w with
  | ok n => cases hw
  | error e =>
    have hend : tunnelEndError e := hw
    simp [flushTlsRecords, hend]

theorem readClient_of_ended {reads} (h : ReadsEnded reads) (closeRecord : Nat) (t : TlsTunnel) :
    (readClient closeRecord reads t).1 = .ok () := by
  obtain ⟨r, rest, rfl, hr⟩ := h
  rw [readClient]
  split
  · cases r with
    | ok piece =>
      have hend : piece.val = [] := hr
      simp [readClientLoop, hend]
    | error e =>
      have hend : tunnelEndError e := hr
      simp [readClientLoop, not_wouldBlock hr, hend]
  · rfl

/-- A read from the proxy that is gone closes its side and brings nothing. -/
theorem readProxy_of_ended {reads} (h : ∃ r rest, reads = r :: rest ∧ r.Ended)
    (ht : t.Follows conn) :
    readProxy reads t = (.ok (), { t with proxyClosed := conn.wantsRead }) := by
  obtain ⟨r, rest, rfl, hr⟩ := h
  rw [Follows] at ht
  by_cases hread : (!t.proxyClosed && t.conn.wantsRead) = true
  · obtain ⟨hopen, hwants⟩ := (and_eq_true _ _).mp hread
    have hconn : conn.wantsRead = true := by
      by_contra hconn
      rw [if_neg hconn] at ht
      cases hwants.symm.trans ht.1
    have hclose : t.conn.closeNotify = false := by simp_all [TlsConn.wantsRead]
    rw [readProxy, if_pos hread, hconn]
    cases r with
    | ended => simp [readProxyLoop, hclose]
    | failed e =>
      have hend : tunnelEndError e := hr
      simp [readProxyLoop, not_wouldBlock hr, hend, hclose]
    | records | refused => cases hr
  · have hclosed : t.proxyClosed = conn.wantsRead := by
      split at ht <;> simp_all
      grind
    rw [readProxy, if_neg hread, ← hclosed]

theorem flushPendingToStream_of_ended {writes} (h : WritesEnded writes) (t : TlsTunnel) :
    flushPendingToStream writes t =
      (.ok (), { t with responseBytes := satAdd t.responseBytes 0 }) := by
  obtain ⟨w, rest, rfl, hw⟩ := h
  cases w with
  | ok n => cases hw
  | error e =>
    have hloop : flushLoop tunnelEndError t.pendingToClient (.error e :: rest) =
        ⟨[], t.pendingToClient, none⟩ := flushLoop_of_ended hw t.pendingToClient rest
    simp only [flushPendingToStream, hloop]
    rfl

/-- With both peers gone the upstream side is closed, and what is queued for the client stays. -/
theorem iteration_of_gone (h : round.Gone) (ht : t.Follows conn) :
    ∃ t', iteration round t = (.ok t'.finished, t') ∧ t'.proxyClosed = conn.wantsRead ∧
      t'.pendingToClient = t.pendingToClient ∧ t'.result = t.result := by
  obtain ⟨t₁, h₁, s₁⟩ := still_flushTlsPlaintext round.plaintext₁ t
  have h₂ : readClient round.closeRecord round.fromClient t₁ =
      (.ok (), (readClient round.closeRecord round.fromClient t₁).2) :=
    Prod.ext (readClient_of_ended h.fromClient _ _) rfl
  have s₂ := still_readClient round.closeRecord round.fromClient t₁
  generalize (readClient round.closeRecord round.fromClient t₁).2 = t₂ at h₂ s₂
  obtain ⟨t₃, h₃, s₃⟩ := still_flushTlsPlaintext round.plaintext₂ t₂
  have still : t.Still t₃ := (s₁.trans s₂).trans s₃
  rw [iteration, ReadM.bind_ok h₁, ReadM.bind_ok (flushTlsRecords_of_ended h.toProxy₁ _),
    ReadM.bind_ok h₂, ReadM.bind_ok h₃, ReadM.bind_ok (flushTlsRecords_of_ended h.toProxy₂ _),
    ReadM.bind_ok (readProxy_of_ended h.fromProxy (still.follows ht)),
    ReadM.bind_ok (flushPendingToStream_of_ended h.toClient _),
    ReadM.bind_ok (flushTlsRecords_of_ended h.toProxy₃ _)]
  exact ⟨_, rfl, rfl, still.pendingToClient, still.result⟩

/-- What the loop needs to end once its peers are gone. -/
def Free (conn : TlsConn) (t : TlsTunnel) : Prop := t.pendingToClient = [] ∧ conn.wantsRead

instance : Decidable (Free conn t) := inferInstanceAs (Decidable (_ ∧ _))

theorem iterate_of_gone (h : round.Gone) (ht : t.Follows conn) (hrunning : t.result = none) :
    ((t.iterate round).Free conn ↔ t.Free conn) ∧
      (t.iterate round).result = if t.Free conn then some (.ok ()) else none := by
  obtain ⟨t', hiter, hclosed, hpending, hresult⟩ := iteration_of_gone h ht
  have hfinished : t'.finished = decide (t.Free conn) := by
    simp only [finished, hclosed, Free, ← hpending]
    cases t'.pendingToClient <;> cases conn.wantsRead <;> simp
  rw [iterate, hiter, hfinished]
  by_cases hfree : t.Free conn
  · rw [decide_eq_true hfree, if_pos hfree]
    exact ⟨by rw [Free, Free, hpending], rfl⟩
  · rw [decide_eq_false hfree, if_neg hfree]
    exact ⟨by rw [Free, Free, hpending], hresult.trans hrunning⟩

/-- With both peers gone for good the loop ends at once or never. -/
theorem run_of_gone (ht : (machine conn).Reachable (fun _ => True) t) (hrunning : t.result = none)
    (hfree : ¬ t.Free conn) (rounds : List TlsRound) (hrounds : ∀ round ∈ rounds, round.Gone) :
    ∃ t', (machine conn).run t rounds = some t' ∧ t'.result = none := by
  induction rounds generalizing t with
  | nil => exact ⟨t, rfl, hrunning⟩
  | cons round rounds ih =>
    rw [forall_mem_cons] at hrounds
    obtain ⟨hagain, hresult⟩ :=
      iterate_of_gone hrounds.1 (follows_of_reachable ht hrunning) hrunning
    rw [if_neg hfree] at hresult
    have hstep : (machine conn).step t round = some (t.iterate round) := by
      simp [machine, hrunning]
    obtain ⟨t', hrun, ht'⟩ := ih (ht.step trivial hstep) hresult (hagain.not.mpr hfree) hrounds.2
    exact ⟨t', by rw [Machine.run, hstep]; exact hrun, ht'⟩

end TlsTunnel

/-! ### When the loops end -/

/-- In both tunnels, once both peers are gone the next iteration ends the loop if and only if
nothing is queued for a peer (for the client, in the TLS tunnel) and, in the TLS tunnel, the CONNECT
exchange has left neither plaintext nor a `close_notify` behind; otherwise no iteration ever
does. -/
theorem tunnels_end_iff (w : WsTunnel) (conn : TlsConn) (t : TlsTunnel) :
    (WsTunnel.machine.Reachable (fun _ => True) w → w.result = none →
      (∀ round : WsRound, round.Gone → ((w.iterate round).result = some (.ok ()) ↔ w.Drained)) ∧
      (¬ w.Drained → ∀ rounds : List WsRound, (∀ round ∈ rounds, round.Gone) →
        ∃ w', WsTunnel.machine.run w rounds = some w' ∧ w'.result = none)) ∧
    ((TlsTunnel.machine conn).Reachable (fun _ => True) t → t.result = none →
      (∀ round : TlsRound, round.Gone → ((t.iterate round).result = some (.ok ()) ↔ t.Free conn)) ∧
      (¬ t.Free conn → ∀ rounds : List TlsRound, (∀ round ∈ rounds, round.Gone) →
        ∃ t', (TlsTunnel.machine conn).run t rounds = some t' ∧ t'.result = none)) := by
  constructor
  · intro _ hrunning
    refine ⟨fun round hround => ?_, WsTunnel.run_of_gone hrunning⟩
    rw [(WsTunnel.iterate_of_gone hround hrunning).2]
    split <;> simp_all
  · intro ht hrunning
    refine ⟨fun round hround => ?_, TlsTunnel.run_of_gone ht hrunning⟩
    rw [(TlsTunnel.iterate_of_gone hround (TlsTunnel.follows_of_reachable ht hrunning) hrunning).2]
    split <;> simp_all

/-- A read that finds the end of the stream. -/
def endOfStream : ReadOutcome := .ok ⟨[], by decide⟩

/-- A write to a peer that has reset the connection. -/
def writeReset : WriteOutcome := .error ⟨.connectionReset, []⟩

theorem readsEnded_endOfStream : ReadsEnded [endOfStream] := ⟨_, _, rfl, rfl⟩

theorem writesEnded_writeReset : WritesEnded [writeReset] := ⟨_, _, rfl, rfl⟩

def wsGoneRound : WsRound :=
  ⟨[endOfStream], [endOfStream], [writeReset], none, [writeReset], none⟩

def tlsGoneRound : TlsRound :=
  ⟨[], [writeReset], [endOfStream], 2, [], [writeReset], [.ended], [writeReset], [writeReset]⟩

theorem gone_wsGoneRound : wsGoneRound.Gone :=
  ⟨readsEnded_endOfStream, readsEnded_endOfStream, writesEnded_writeReset, writesEnded_writeReset⟩

theorem gone_tlsGoneRound : tlsGoneRound.Gone :=
  ⟨readsEnded_endOfStream, ⟨_, _, rfl, trivial⟩, writesEnded_writeReset, writesEnded_writeReset,
    writesEnded_writeReset, writesEnded_writeReset⟩

/-- Tunnels that have carried nothing end when their peers do. -/
theorem idle_tunnels_end :
    (WsTunnel.initial.iterate wsGoneRound).result = some (.ok ()) ∧
      ((TlsTunnel.initial .fresh).iterate tlsGoneRound).result = some (.ok ()) := by
  obtain ⟨hws, htls⟩ := tunnels_end_iff WsTunnel.initial .fresh (TlsTunnel.initial .fresh)
  exact ⟨((hws .initial rfl).1 _ gone_wsGoneRound).mpr ⟨rfl, rfl⟩,
    ((htls .initial rfl).1 _ gone_tlsGoneRound).mpr ⟨rfl, rfl⟩⟩

/-- The proxy sends a letter, and the client does not take it. -/
def proxySendsLetter : TlsRound := ⟨[], [], [], 0, [], [], [.records [0x61] false], [], []⟩

/-- A letter that is queued when both peers go keeps the loop of either tunnel in one state. So
does, in the TLS tunnel, a letter that has come with the answer to CONNECT. -/
theorem stuck_with_letter :
    (∃ t : WsTunnel, WsTunnel.machine.Reachable (fun _ => True) t ∧ wsGoneRound.Gone ∧
      WsTunnel.machine.step t wsGoneRound = some t) ∧
    ∀ conn ∈ [TlsConn.fresh, ⟨0, [0x61], false⟩],
      ∃ t : TlsTunnel, (TlsTunnel.machine conn).Reachable (fun _ => True) t ∧ tlsGoneRound.Gone ∧
        (TlsTunnel.machine conn).step t tlsGoneRound = some t := by
  constructor
  · obtain ⟨t, ht, hstep⟩ := Machine.exists_reachable_of_run (m := WsTunnel.machine)
      [WsTunnel.clientSends ⟨WsTunnel.letterFrame, by decide⟩, wsGoneRound] (fun _ _ => trivial)
      (p := fun t => WsTunnel.machine.step t wsGoneRound = some t) (by decide +kernel)
    exact ⟨t, ht, gone_wsGoneRound, hstep⟩
  · have hstuck : ∀ conn ∈ [TlsConn.fresh, ⟨0, [0x61], false⟩],
        (((TlsTunnel.machine conn).run (.initial conn) [proxySendsLetter, tlsGoneRound]).any
          fun t => (TlsTunnel.machine conn).step t tlsGoneRound = some t) = true := by
      decide +kernel
    intro conn hconn
    obtain ⟨t, ht, hstep⟩ := Machine.exists_reachable_of_run _ (fun _ _ => trivial)
      (hstuck conn hconn)
    exact ⟨t, ht, gone_tlsGoneRound, hstep⟩

/-! ### The client's end behind its data -/

namespace TlsTunnel

/-- One run of the read loop takes these pieces and then meets the client's end. -/
structure MeetsEnd (t : TlsTunnel) (reads : List ReadOutcome) (pieces : List Piece) : Prop where
  ended : ∃ last rest, reads = pieces.map .ok ++ last :: rest ∧ last.Ended
  nonempty : ∀ piece ∈ pieces, piece.val ≠ []
  room : (t.pendingToTls ++ pieces.flatMap Subtype.val).length < pendingLimit

/-- The pieces are still pending when `close_notify` is queued. -/
theorem readClientLoop_of_meetsEnd {reads pieces} (h : t.MeetsEnd reads pieces) :
    (readClientLoop closeRecord reads t).2.clientClosed ∧
      (readClientLoop closeRecord reads t).2.pendingToTls =
        t.pendingToTls ++ pieces.flatMap Subtype.val := by
  obtain ⟨⟨last, rest, rfl, hlast⟩, hnonempty, hroom⟩ := h
  induction pieces generalizing t with
  | nil =>
    cases last with
    | ok piece =>
      have hend : piece.val = [] := hlast
      simp [readClientLoop, hend, closeClient]
    | error e =>
      have hend : tunnelEndError e := hlast
      simp [readClientLoop, not_wouldBlock hlast, hend, closeClient]
  | cons piece pieces ih =>
    rw [forall_mem_cons] at hnonempty
    rw [flatMap_cons, ← append_assoc] at hroom ⊢
    rw [map_cons, cons_append, readClientLoop]
    beta_reduce
    rw [if_neg hnonempty.1, if_neg]
    · exact ih hnonempty.2 hroom
    · rw [length_append] at hroom
      show ¬ pendingLimit ≤ (t.pendingToTls ++ piece.val).length
      omega

theorem exists_meetsEnd {reads} (hopen : t.clientClosed = false)
    (hroom : t.pendingToTls.length < pendingLimit)
    (h : (readClientLoop closeRecord reads t).2.clientClosed) :
    ∃ pieces, t.MeetsEnd reads pieces := by
  induction reads generalizing t with
  | nil => cases hopen.symm.trans h
  | cons read reads ih =>
    have hends (hend : read.Ended) : t.MeetsEnd (read :: reads) [] :=
      ⟨⟨read, reads, rfl, hend⟩, forall_mem_nil _, by simpa using hroom⟩
    cases read with
    | error e =>
      rw [readClientLoop] at h
      split_ifs at h with _ hend
      · cases hopen.symm.trans h
      · exact ⟨[], hends hend⟩
      · cases hopen.symm.trans h
    | ok piece =>
      simp only [readClientLoop] at h
      split_ifs at h with hend hfull
      · exact ⟨[], hends hend⟩
      · cases hopen.symm.trans h
      · obtain ⟨pieces, ⟨last, rest, rfl, hlast⟩, hnonempty, hlater⟩ :=
          ih (by exact hopen) (by exact Nat.not_le.mp hfull) h
        refine ⟨piece :: pieces, ⟨last, rest, rfl, hlast⟩, ?_, ?_⟩
        · exact forall_mem_cons.mpr ⟨hend, hnonempty⟩
        · rwa [flatMap_cons, ← append_assoc]

/-- In a run with such iterations the read loop begins in this state, before the client's end. -/
structure BeginsReading (conn : TlsConn) (allowed : TlsRound → Prop) (round : TlsRound)
    (t : TlsTunnel) : Prop where
  reached : ∃ start, (machine conn).Reachable allowed start ∧ start.result = none ∧ allowed round ∧
    (do flushTlsPlaintext round.plaintext₁; flushTlsRecords round.toProxy₁) start = (.ok (), t)
  isOpen : t.clientClosed = false

/-- When the client's end is met, all its bytes have been handed to the connection before
`close_notify` is queued if and only if none were pending and none were read in front of the end in
the same loop. The runs of a tunnel keep to this order if and only if all their loops do. -/
theorem data_before_closeNotify_iff (conn : TlsConn) (allowed : TlsRound → Prop) :
    (∀ (t : TlsTunnel) closeRecord reads, t.clientClosed = false →
      (((readClient closeRecord reads t).2.clientClosed = true →
        (readClient closeRecord reads t).2.pendingToTls = []) ↔
      ∀ pieces, t.MeetsEnd reads pieces → t.pendingToTls = [] ∧ pieces = [])) ∧
    ((∀ round t, BeginsReading conn allowed round t →
        (readClient round.closeRecord round.fromClient t).2.clientClosed = true →
          (readClient round.closeRecord round.fromClient t).2.pendingToTls = []) ↔
      ∀ round t, BeginsReading conn allowed round t →
        ∀ pieces, t.MeetsEnd round.fromClient pieces → t.pendingToTls = [] ∧ pieces = []) := by
  rw [and_iff_left_of_imp fun hloop =>
    forall₂_congr fun round t => imp_congr_right fun h => hloop t _ _ h.isOpen]
  intro t closeRecord reads hopen
  constructor
  · intro h pieces hmeets
    have hroom := hmeets.room
    obtain ⟨hclosed, hpending⟩ := readClientLoop_of_meetsEnd closeRecord hmeets
    rw [length_append] at hroom
    rw [readClient, if_pos (by simp [hopen]; omega)] at h
    rw [h hclosed] at hpending
    obtain ⟨hnone, hflat⟩ := append_eq_nil_iff.mp hpending.symm
    refine ⟨hnone, eq_nil_iff_forall_not_mem.mpr fun piece hpiece => ?_⟩
    exact hmeets.nonempty piece hpiece (flatMap_eq_nil_iff.mp hflat piece hpiece)
  · intro h
    rw [readClient]
    split
    next hroom =>
      intro hclosed
      rw [and_eq_true] at hroom
      obtain ⟨pieces, hmeets⟩ :=
        exists_meetsEnd closeRecord hopen (of_decide_eq_true hroom.2) hclosed
      obtain ⟨hnone, rfl⟩ := h pieces hmeets
      rw [(readClientLoop_of_meetsEnd closeRecord hmeets).2, hnone]
      rfl
    · intro hclosed
      cases hopen.symm.trans hclosed

/-- A client that ends without a byte. -/
theorem data_before_closeNotify_of_idle :
    (readClient 2 [endOfStream] (initial .fresh)).2.clientClosed = true ∧
      (readClient 2 [endOfStream] (initial .fresh)).2.pendingToTls = [] := by
  refine ⟨by decide,
    ((data_before_closeNotify_iff .fresh fun _ => True).1 (initial .fresh) 2 [endOfStream] rfl).mpr
      ?_ (by decide)⟩
  rintro pieces ⟨⟨last, rest, hreads, -⟩, hnonempty, -⟩
  cases pieces with
  | nil => exact ⟨rfl, rfl⟩
  | cons piece pieces =>
    have hpiece := Except.ok.inj (cons.inj hreads).1
    exact absurd (congrArg Subtype.val hpiece).symm (hnonempty piece mem_cons_self)

/-- A letter and the end in one loop: `close_notify` is queued while the letter waits. -/
theorem closeNotify_before_letter :
    (readClient 2 [.ok ⟨[0x61], by decide⟩, endOfStream] (initial .fresh)).2.clientClosed = true ∧
      (readClient 2 [.ok ⟨[0x61], by decide⟩, endOfStream] (initial .fresh)).2.pendingToTls =
        [0x61] := by
  decide

end TlsTunnel

end RsProxy.Engine
