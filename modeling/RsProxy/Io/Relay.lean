import RsProxy.Io.Stream

/-!
# Relaying from a byte stream

A relay reads from a stream and hands out pieces while it goes. What it handed out stays handed out
when it fails later, so the pieces are part of every result. A relay without an end of its own is
given a number of rounds; one that used them up is still `running`.
-/

namespace RsProxy.Io

open Text List ReadM

/-- How a computation ended, or that it had not ended yet. -/
inductive Outcome (α : Type) where
  | done (value : α)
  | failed (error : IoError)
  | running
deriving DecidableEq

def Outcome.map {α β : Type} (f : α → β) : Outcome α → Outcome β
  | .done value => .done (f value)
  | .failed e => .failed e
  | .running => .running

/-- Computations that read from `σ` and hand out pieces of type `ω`. -/
def RelayM (σ ω α : Type) := σ → (List ω × Outcome α) × σ

variable (e : IoError) {bs mid rest content : Bytes}

namespace RelayM

variable {σ ω α β : Type} {p : RelayM σ ω α} {s' : σ}

instance : Monad (RelayM σ ω) where
  pure a := fun s => (([], .done a), s)
  bind p f := fun s =>
    match p s with
    | ((pieces, .done a), s) => ((pieces ++ (f a s).1.1, (f a s).1.2), (f a s).2)
    | ((pieces, .failed e), s) => ((pieces, .failed e), s)
    | ((pieces, .running), s) => ((pieces, .running), s)

def emit (piece : ω) : RelayM σ ω Unit := fun s => (([piece], .done ()), s)

def fail (e : IoError) : RelayM σ ω α := fun s => (([], .failed e), s)

/-- Change the state. -/
def update (f : σ → σ) : RelayM σ ω Unit := fun s => (([], .done ()), f s)

/-- The rounds are used up. -/
def outOfRounds : RelayM σ ω α := fun s => (([], .running), s)

/-- Read without handing anything out. -/
def ofRead (p : ReadM σ α) : RelayM σ ω α := fun s =>
  match p s with
  | (.ok a, s) => (([], .done a), s)
  | (.error e, s) => (([], .failed e), s)

variable {f : α → RelayM σ ω β}

@[simp] theorem pure_apply (a : α) (s : σ) : (pure a : RelayM σ ω α) s = (([], .done a), s) := rfl

theorem bind_apply (p : RelayM σ ω α) {s} :
    (p >>= f) s = match p s with
      | ((pieces, .done a), s) => ((pieces ++ (f a s).1.1, (f a s).1.2), (f a s).2)
      | ((pieces, .failed e), s) => ((pieces, .failed e), s)
      | ((pieces, .running), s) => ((pieces, .running), s) := rfl

variable {s : σ} {pieces : List ω}

theorem bind_done {a} (h : p s = ((pieces, .done a), s')) (f : α → RelayM σ ω β) :
    (p >>= f) s = ((pieces ++ (f a s').1.1, (f a s').1.2), (f a s').2) := by
  rw [bind_apply, h]

theorem bind_failed {e} (h : p s = ((pieces, .failed e), s')) :
    (p >>= f) s = ((pieces, .failed e), s') := by
  rw [bind_apply, h]

theorem bind_running (h : p s = ((pieces, .running), s')) :
    (p >>= f) s = ((pieces, .running), s') := by
  rw [bind_apply, h]

theorem bind_pieces (p : RelayM σ ω α) :
    ((p >>= f) s).1.1 = (p s).1.1 ++
      match (p s).1.2 with
      | .done a => (f a (p s).2).1.1
      | _ => [] := by
  rcases h : p s with ⟨⟨pieces, a | e | -⟩, s'⟩
  · rw [bind_done h]
  · rw [bind_failed h, append_nil]
  · rw [bind_running h, append_nil]

/-- A read in front of a relay changes nothing but the stream. -/
theorem ofRead_bind_ok {p a} (h : p s = (.ok a, s')) : (ofRead p >>= f) s = f a s' := by
  have hread : (ofRead p : RelayM σ ω α) s = (([], .done a), s') := by rw [ofRead, h]
  rw [bind_done hread]
  rfl

theorem update_bind {f} {g : Unit → RelayM σ ω β} :
    (update f >>= g) s = g () (f s) :=
  bind_done rfl g

theorem emit_bind {piece} {f : Unit → RelayM σ ω β} :
    (emit piece >>= f) s = ((piece :: (f () s).1.1, (f () s).1.2), (f () s).2) :=
  bind_done rfl f

end RelayM

open RelayM

/-! ### What a computation makes of the bytes of a stream

`Reads p bs a rest` says that `p` takes `bs` apart into its result `a` and the bytes `rest` it
leaves, however the stream cuts them, and `Relays p bs content a rest` that a relay hands out
`content` on the way. Both compose along `>>=`. -/

section Rules

variable {σ : Type} [Read σ] {α β : Type}

def Reads (p : ReadM σ α) (bs : Bytes) (a : α) (rest : Bytes) : Prop :=
  ∀ s, Delivers s bs → ∃ s', p s = (.ok a, s') ∧ Delivers s' rest

/-- No piece that is handed out is empty. -/
def Relays (p : RelayM σ Bytes α) (bs content : Bytes) (a : α) (rest : Bytes) : Prop :=
  ∀ s, Delivers s bs → ∃ pieces s', p s = ((pieces, .done a), s') ∧ pieces.flatten = content ∧
    (∀ piece ∈ pieces, piece ≠ []) ∧ Delivers s' rest

theorem reads_pure {a} : Reads (pure a : ReadM σ α) bs a bs :=
  fun s hs => ⟨s, rfl, hs⟩

variable {p : ReadM σ α} {a : α} {b : β}

theorem Reads.bind {f} (hp : Reads p bs a mid) (hf : Reads (f a) mid b rest) :
    Reads (p >>= f) bs b rest := by
  intro s hs
  obtain ⟨s', hps, hs'⟩ := hp s hs
  rw [bind_ok hps]
  exact hf s' hs'

theorem reads_readExact_take {n} (h : n ≤ bs.length) :
    Reads (readExact n : ReadM σ Bytes) bs (bs.take n) (bs.drop n) := by
  intro s hs
  obtain ⟨s', hread, hrest⟩ := readExactLoop_spec (le_refl n) hs
  rw [if_pos h] at hread
  exact ⟨s', hread, hrest⟩

theorem reads_readExact {data} :
    Reads (readExact data.length : ReadM σ Bytes) (data ++ rest) data rest := by
  have hlen : data.length ≤ (data ++ rest).length := by simp
  have hread : Reads (readExact data.length : ReadM σ Bytes) (data ++ rest) _ _ :=
    reads_readExact_take hlen
  rwa [take_left, drop_left] at hread

theorem Agrees.reads {q} (h : Agrees p q) (hq : q bs = (.ok a, rest)) : Reads p bs a rest := by
  intro s hs
  obtain ⟨s', hps, hs'⟩ := h.apply hs
  rw [hq] at hps hs'
  exact ⟨s', hps, hs'⟩

theorem relays_pure (a : α) (bs : Bytes) : Relays (pure a : RelayM σ Bytes α) bs [] a bs :=
  fun s hs => ⟨[], s, rfl, rfl, forall_mem_nil _, hs⟩

theorem relays_emit {piece : Bytes} (hne : piece ≠ []) :
    Relays (emit piece : RelayM σ Bytes Unit) bs piece () bs :=
  fun s hs => ⟨[piece], s, rfl, append_nil _, by simpa using hne, hs⟩

theorem Reads.relays (hp : Reads p bs a rest) :
    Relays (ofRead p : RelayM σ Bytes α) bs [] a rest := by
  intro s hs
  obtain ⟨s', hps, hs'⟩ := hp s hs
  exact ⟨[], s', by rw [ofRead, hps], rfl, forall_mem_nil _, hs'⟩

variable {f : α → RelayM σ Bytes β}

theorem Relays.bind {p content'} (hp : Relays p bs content a mid)
    (hf : Relays (f a) mid content' b rest) :
    Relays (p >>= f) bs (content ++ content') b rest := by
  intro s hs
  obtain ⟨pieces, s', hps, hflat, hne, hs'⟩ := hp s hs
  obtain ⟨pieces', s'', hfs, hflat', hne', hs''⟩ := hf s' hs'
  refine ⟨pieces ++ pieces', s'', ?_, ?_, ?_, hs''⟩
  · rw [bind_done hps, hfs]
  · rw [flatten_append, hflat, hflat']
  · exact forall_mem_append.mpr ⟨hne, hne'⟩

/-- A read in front of a relay. -/
theorem Reads.bind_relays (hp : Reads p bs a mid) (hf : Relays (f a) mid content b rest) :
    Relays (ofRead p >>= f) bs content b rest :=
  hp.relays.bind hf

end Rules

/-! ### What every result satisfies

Results may have a property on any stream, also on one that fails. Streams have to keep to one
thing: a read brings no more than it was asked for. -/

section Ensures

variable {σ ω : Type} {α β : Type} {P : α → Prop} {Q : β → Prop}

def ReadM.Ensures (p : ReadM σ α) (P : α → Prop) : Prop := ∀ s a s', p s = (.ok a, s') → P a

def RelayM.Ensures (p : RelayM σ ω α) (P : α → Prop) : Prop := ∀ s a, (p s).1.2 = .done a → P a

/-- A read brings at most as many bytes as it was asked for. -/
def ReadsWithin (σ : Type) [Read σ] : Prop :=
  ∀ n, ReadM.Ensures (Read.read n : ReadM σ Bytes) (·.length ≤ n)

theorem readsWithin_bytes : ReadsWithin Bytes := by
  rintro n bs _ _ ⟨⟩
  exact length_take_le _ _

theorem ReadM.ensures_pure {a} (h : P a) : (pure a : ReadM σ α).Ensures P := by
  rintro s b s' ⟨⟩
  exact h

theorem ReadM.ensures_fail : (fail e : ReadM σ α).Ensures P := nofun

variable {p : ReadM σ α}

theorem ReadM.Ensures.bind {f} (hp : p.Ensures P) (hf : ∀ a, P a → (f a).Ensures Q) :
    (p >>= f).Ensures Q := by
  intro s b s' h
  cases hps : p s with
  | mk result s'' =>
    cases result with
    | error e =>
      rw [bind_error hps] at h
      cases h
    | ok a =>
      rw [bind_ok hps] at h
      exact hf a (hp s a s'' hps) s'' b s' h

theorem ReadM.ensures_true (p : ReadM σ α) : p.Ensures fun _ => True := fun _ _ _ _ => trivial

theorem RelayM.ensures_true (p : RelayM σ ω α) : p.Ensures fun _ => True := fun _ _ _ => trivial

theorem ReadM.Ensures.ofRead (hp : p.Ensures P) : (ofRead p : RelayM σ ω α).Ensures P := by
  intro s a h
  cases hps : p s with
  | mk result s' =>
    rw [RelayM.ofRead, hps] at h
    cases result with
    | error e => cases h
    | ok b =>
      cases h
      exact hp s a s' hps

theorem RelayM.Ensures.bind {p} {f : α → RelayM σ ω β} (hp : p.Ensures P)
    (hf : ∀ a, P a → (f a).Ensures Q) : (p >>= f).Ensures Q := by
  intro s b h
  rcases hps : p s with ⟨⟨pieces, a | e | -⟩, s'⟩
  · rw [bind_done hps] at h
    have ha : P a := hp s a (by rw [hps])
    exact hf a ha s' b h
  · rw [bind_failed hps] at h
    cases h
  · rw [bind_running hps] at h
    cases h

/-- A byte that is asked for comes alone. -/
theorem ensures_readExact_one [Read σ] (hwithin : ReadsWithin σ) :
    (readExact 1 : ReadM σ Bytes).Ensures fun bytes => ∃ b, bytes = [b] := by
  refine (hwithin 1).bind fun bytes hbytes => ?_
  match bytes, hbytes with
  | [], _ => exact ensures_fail _
  | [b], _ => exact (ensures_pure (P := (· = [])) rfl).bind fun rest hrest =>
      ensures_pure ⟨b, by rw [hrest]; rfl⟩

theorem ensures_length_readExact [Read σ] (hwithin : ReadsWithin σ) (n : Nat) :
    (readExact n : ReadM σ Bytes).Ensures (·.length = n) := by
  suffices hloop : ∀ rounds n, (readExactLoop rounds n : ReadM σ Bytes).Ensures (·.length = n) from
    hloop n n
  intro rounds
  induction rounds with
  | zero =>
    intro n
    cases n with
    | zero => exact ensures_pure rfl
    | succ n => exact ensures_fail _
  | succ rounds ih =>
    intro n
    cases n with
    | zero => exact ensures_pure rfl
    | succ n =>
      refine (hwithin (n + 1)).bind fun bytes hbytes => ?_
      split
      · exact ensures_fail _
      · refine (ih _).bind fun rest hrest => ensures_pure ?_
        rw [length_append]
        omega

end Ensures

/-! ### What every piece satisfies -/

section Hands

variable {σ ω α β : Type} {P : α → Prop} {R : ω → Prop} {f : α → RelayM σ ω β}

/-- Every piece that is handed out has the property. -/
def RelayM.Hands (p : RelayM σ ω α) (R : ω → Prop) : Prop := ∀ s, ∀ piece ∈ (p s).1.1, R piece

theorem RelayM.hands_emit {piece} (h : R piece) : (emit piece : RelayM σ ω Unit).Hands R :=
  fun _ => forall_mem_singleton.mpr h

theorem RelayM.hands_ofRead {p} : (ofRead p : RelayM σ ω α).Hands R := by
  intro s piece hpiece
  rcases hps : p s with ⟨a | e, s'⟩ <;> (rw [ofRead, hps] at hpiece; cases hpiece)

theorem RelayM.Hands.bind {p} (hp : p.Hands R) (hresult : p.Ensures P)
    (hf : ∀ a, P a → (f a).Hands R) : (p >>= f).Hands R := by
  intro s piece hpiece
  rw [bind_pieces, mem_append] at hpiece
  rcases hpiece with hpiece | hpiece
  · exact hp s piece hpiece
  · split at hpiece
    next a ha => exact hf a (hresult s a ha) _ piece hpiece
    · cases hpiece

/-- A read in front of a relay hands nothing out. -/
theorem ReadM.Ensures.hands {p} (hp : p.Ensures P) (hf : ∀ a, P a → (f a).Hands R) :
    (RelayM.ofRead p >>= f).Hands R :=
  hands_ofRead.bind hp.ofRead hf

end Hands

end RsProxy.Io
