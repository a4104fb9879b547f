import RsProxy.Text.Utf8

/-!
# Reading from a byte stream

`ReadM σ` is the type of computations that read from a stream of type `σ` and may fail. A stream
hands out its bytes in pieces of any size; `Delivers s bs` says that the pieces of `s` make up `bs`,
in whatever way they are cut. A list of bytes is a stream of its own, one that never cuts, and a
computation `Agrees` with the same computation on lists when the cuts make no difference to it.
-/

namespace RsProxy.Io

open Text List Nat

/-! ### Failure -/

inductive ErrorKind where
  | unexpectedEof
  | invalidData
  | invalidInput
  | timedOut
  | wouldBlock
  | connectionReset
  | connectionAborted
  | brokenPipe
  | unsupported
  | other
deriving DecidableEq, Repr

structure IoError where
  kind : ErrorKind
  message : Str
deriving DecidableEq

/-! ### Computations on a stream -/

/-- A failed computation leaves the stream where it stopped. -/
def ReadM (σ α : Type) := σ → Except IoError α × σ

namespace ReadM

variable {σ α β : Type} {p : ReadM σ α}

instance : Monad (ReadM σ) where
  pure a := fun s => (.ok a, s)
  bind p f := fun s =>
    match p s with
    | (.ok a, s) => f a s
    | (.error e, s) => (.error e, s)

def fail (e : IoError) : ReadM σ α := fun s => (.error e, s)

variable {s s' : σ} {f : α → ReadM σ β}

@[simp] theorem pure_apply (a : α) (s : σ) : (pure a : ReadM σ α) s = (.ok a, s) := rfl

theorem bind_ok {a} (h : p s = (.ok a, s')) (f : α → ReadM σ β) : (p >>= f) s = f a s' := by
  change (match p s with
    | (.ok a, s) => f a s
    | (.error e, s) => (.error e, s)) = _
  rw [h]

theorem bind_error {e} (h : p s = (.error e, s')) : (p >>= f) s = (.error e, s') := by
  change (match p s with
    | (.ok a, s) => f a s
    | (.error e, s) => (.error e, s)) = _
  rw [h]

theorem bind_eq_ok {b} (h : (p >>= f) s = (.ok b, s')) :
    ∃ a s₁, p s = (.ok a, s₁) ∧ f a s₁ = (.ok b, s') := by
  cases hp : p s with
  | mk r s₁ =>
    cases r with
    | error e =>
      rw [bind_error hp] at h
      cases h
    | ok a =>
      rw [bind_ok hp] at h
      exact ⟨a, s₁, rfl, h⟩

/-- Where `I` holds, `p` leaves `J` and, if it succeeds, `I` again. -/
def Keeps (I J : σ → Prop) (p : ReadM σ α) : Prop :=
  ∀ s, I s → J (p s).2 ∧ ∀ a, (p s).1 = .ok a → I (p s).2

theorem Keeps.bind {I J} (hp : p.Keeps I J) (hf : ∀ a, (f a).Keeps I J) : (p >>= f).Keeps I J := by
  intro s hs
  obtain ⟨hleft, hagain⟩ := hp s hs
  cases hr : p s with
  | mk r s' =>
    rw [hr] at hleft hagain
    cases r with
    | error e =>
      rw [bind_error hr]
      exact ⟨hleft, fun b hb => by cases hb⟩
    | ok a =>
      rw [bind_ok hr]
      exact hf a s' (hagain a rfl)

end ReadM

open ReadM

/-! ### Streams -/

/-- A stream that can be asked for up to `n` bytes. No bytes are its end. -/
class Read (σ : Type) where
  read : Nat → ReadM σ Bytes

open Read (read)

/-- A list of bytes gives all that is asked for. -/
instance : Read Bytes where
  read n := fun bs => (.ok (bs.take n), bs.drop n)

theorem read_bytes (n : Nat) (bs : Bytes) : read n bs = (.ok (bs.take n), bs.drop n) := rfl

variable {bs : Bytes} {n : Nat}

section Delivery

variable {σ : Type} [Read σ]

/-- `R s bs` is kept by every read, which gives some of the bytes asked for unless there are
none. -/
def Delivery (R : σ → Bytes → Prop) : Prop :=
  ∀ s bs, R s bs → ∀ n, 0 < n → ∃ k s', read n s = (.ok (bs.take k), s') ∧ R s' (bs.drop k) ∧
    k ≤ n ∧ (bs ≠ [] → 0 < k)

/-- The stream `s` hands out the bytes `bs`, however it cuts them, and then ends. -/
def Delivers (s : σ) (bs : Bytes) : Prop := ∃ R, Delivery R ∧ R s bs

theorem Delivers.read {s : σ} (h : Delivers s bs) (hn : 0 < n) :
    ∃ k s', read n s = (.ok (bs.take k), s') ∧ Delivers s' (bs.drop k) ∧ k ≤ n ∧
      (bs ≠ [] → 0 < k) := by
  obtain ⟨R, hR, hs⟩ := h
  obtain ⟨k, s', hread, hs', hk⟩ := hR s bs hs n hn
  exact ⟨k, s', hread, ⟨R, hR, hs'⟩, hk⟩

end Delivery

theorem delivers_bytes : Delivers bs bs := by
  refine ⟨Eq, ?_, rfl⟩
  rintro s _ rfl n hn
  exact ⟨n, s.drop n, rfl, rfl, le_rfl, fun _ => hn⟩

/-! ### Computations that do not see the cuts -/

section Agrees

variable {σ α β : Type} [Read σ]

/-- On every stream, `p` gives what `q` gives on the list of its bytes, and leaves the bytes that
`q` leaves. -/
def Agrees (p : ReadM σ α) (q : ReadM Bytes α) : Prop :=
  ∀ s bs, Delivers s bs → (p s).1 = (q bs).1 ∧ Delivers (p s).2 (q bs).2

variable {p : ReadM σ α} {q : ReadM Bytes α}

theorem Agrees.apply (h : Agrees p q) {s} (hs : Delivers s bs) :
    ∃ s', p s = ((q bs).1, s') ∧ Delivers s' (q bs).2 :=
  ⟨(p s).2, Prod.ext (h s bs hs).1 rfl, (h s bs hs).2⟩

theorem agrees_pure {a} : Agrees (pure a : ReadM σ α) (pure a) := fun _ _ h => ⟨rfl, h⟩

theorem agrees_fail (e : IoError) : Agrees (fail e : ReadM σ α) (fail e) :=
  fun _ _ h => ⟨rfl, h⟩

theorem Agrees.bind {f} {g : α → ReadM Bytes β} (hp : Agrees p q) (hf : ∀ a, Agrees (f a) (g a)) :
    Agrees (p >>= f) (q >>= g) := by
  intro s bs hs
  obtain ⟨s', hps, hs'⟩ := hp.apply hs
  cases hq : q bs with
  | mk r bs' =>
    rw [hq] at hps hs'
    cases r with
    | error e =>
      rw [bind_error hps, bind_error hq]
      exact ⟨rfl, hs'⟩
    | ok a =>
      rw [bind_ok hps, bind_ok hq]
      exact hf a s' bs' hs'

theorem Agrees.ite {c} [Decidable c] {p' q'} (h : c → Agrees p q) (h' : ¬ c → Agrees p' q') :
    Agrees (if c then p else p') (if c then q else q') := by
  split
  next hc => exact h hc
  next hc => exact h' hc

/-- A result and the stream behind it follow `spec` when the result is that of `spec` and, after
success, the stream still delivers what `spec` leaves. -/
def Follows {σ α : Type} (D : σ → Bytes → Prop) (r : Except IoError α × σ)
    (spec : Except IoError (α × Bytes)) : Prop :=
  match spec with
  | .ok (a, rest) => r.1 = .ok a ∧ D r.2 rest
  | .error e => r.1 = .error e

variable {spec : Except IoError (α × Bytes)}

omit [Read σ] in
theorem Follows.fst_eq {τ D E} {r : Except IoError α × σ} {r' : Except IoError α × τ}
    (h : Follows D r spec) (h' : Follows E r' spec) : r.1 = r'.1 := by
  cases spec with
  | error e => exact h.trans h'.symm
  | ok ar => exact h.1.trans h'.1.symm

theorem Agrees.follows (h : Agrees p q) {s} (hs : Delivers s bs) (hq : Follows Eq (q bs) spec) :
    Follows Delivers (p s) spec := by
  obtain ⟨hresult, hrest⟩ := h s bs hs
  cases spec with
  | error e => exact hresult.trans hq
  | ok ar =>
    obtain ⟨hok, heq⟩ := hq
    exact ⟨hresult.trans hok, heq ▸ hrest⟩

end Agrees

/-! ### Reading an exact number of bytes -/

def eofError : IoError := ⟨.unexpectedEof, "failed to fill whole buffer"⟩

section ReadExact

variable {σ : Type} [Read σ]

/-- Every round reads a byte at least, so `n` rounds are enough. -/
def readExactLoop : (rounds n : Nat) → ReadM σ Bytes
  | _, 0 => pure []
  | 0, _ + 1 => fail eofError
  | rounds + 1, n + 1 => do
    let bs ← read (n + 1)
    if bs = [] then fail eofError
    else do
      let rest ← readExactLoop rounds (n + 1 - bs.length)
      pure (bs ++ rest)

def readExact (n : Nat) : ReadM σ Bytes := readExactLoop n n

theorem readExactLoop_spec {rounds} (hn : n ≤ rounds) {s : σ} (h : Delivers s bs) :
    ∃ s', readExactLoop rounds n s =
        (if n ≤ bs.length then .ok (bs.take n) else .error eofError, s') ∧
      Delivers s' (bs.drop n) := by
  induction rounds generalizing n s bs with
  | zero =>
    obtain rfl : n = 0 := by omega
    exact ⟨s, rfl, h⟩
  | succ rounds ih =>
    cases n with
    | zero => exact ⟨s, rfl, h⟩
    | succ n =>
      obtain ⟨k, s', hread, h', hk, hpos⟩ := h.read (n := n + 1) (by omega)
      rw [readExactLoop, bind_ok hread]
      by_cases hbs : bs = []
      · subst hbs
        refine ⟨s', ?_, by simpa using h'⟩
        rw [if_pos (by simp)]
        rfl
      · have hpos := hpos hbs
        have hne : bs.take k ≠ [] := by
          rw [ne_eq, take_eq_nil_iff]
          rintro (h | h)
          · omega
          · exact hbs h
        have hlen : (bs.take k).length = min k bs.length := length_take
        have hbslen : 0 < bs.length := length_pos_iff.mpr hbs
        rw [if_neg hne]
        obtain ⟨s'', hrest, h''⟩ := ih (n := n + 1 - (bs.take k).length) (by omega) h'
        refine ⟨s'', ?_, ?_⟩
        · by_cases hle : n + 1 ≤ bs.length
          · rw [if_pos (by rw [length_drop]; omega)] at hrest
            have hcut : bs.take k = (bs.take (n + 1)).take k := by
              rw [take_take, min_eq_left hk]
            rw [bind_ok hrest, if_pos hle, pure_apply, take_drop,
              show k + (n + 1 - (bs.take k).length) = n + 1 by omega, hcut, take_append_drop]
          · rw [if_neg (by rw [length_drop]; omega)] at hrest
            rw [bind_error hrest, if_neg hle]
        · rw [drop_drop] at h''
          rcases le_total k bs.length with hkl | hkl
          · rwa [show k + (n + 1 - (bs.take k).length) = n + 1 by omega] at h''
          · rwa [drop_of_length_le (by omega),
              ← drop_of_length_le (l := bs) (i := n + 1) (by omega)] at h''

theorem Delivers.prefix_of {s : σ} {bs bs'} (h : Delivers s bs) (h' : Delivers s bs') :
    bs <+: bs' := by
  obtain ⟨t, hread, -⟩ := readExactLoop_spec (le_refl bs.length) h
  obtain ⟨t', hread', -⟩ := readExactLoop_spec (le_refl bs.length) h'
  rw [hread, if_pos le_rfl, take_length] at hread'
  split_ifs at hread' with hle
  · rw [Except.ok.inj (Prod.mk.inj hread').1]
    exact take_prefix _ _
  · cases hread'

/-- A stream delivers one list of bytes. -/
theorem Delivers.unique {s : σ} {bs bs'} (h : Delivers s bs) (h' : Delivers s bs') : bs = bs' :=
  (h.prefix_of h').eq_of_length_le (h'.prefix_of h).length_le

theorem readExact_bytes (n : Nat) (bs : Bytes) :
    readExact n bs = (if n ≤ bs.length then .ok (bs.take n) else .error eofError, bs.drop n) := by
  obtain ⟨s', h, hs'⟩ := readExactLoop_spec (le_refl n) delivers_bytes
  rw [readExact, h, delivers_bytes.unique hs']

theorem agrees_readExact (n : Nat) : Agrees (readExact n : ReadM σ Bytes) (readExact n) := by
  intro s bs hs
  obtain ⟨s', h, hs'⟩ := readExactLoop_spec (le_refl n) hs
  rw [readExact_bytes]
  exact ⟨congrArg Prod.fst h, by rw [readExact, h]; exact hs'⟩

end ReadExact

/-! ### Buffered streams and streams that can be peeked at -/

/-- A stream that shows the bytes it has buffered. No bytes are its end. -/
class BufRead (σ : Type) where
  fillBuf : ReadM σ Bytes
  consume : Nat → ReadM σ Unit

/-- Showing the buffer takes nothing from the stream, and consuming takes what is consumed. -/
def BufDelivery {σ : Type} [BufRead σ] (R : σ → Bytes → Prop) : Prop :=
  ∀ s bs, R s bs → ∃ k s', BufRead.fillBuf s = (.ok (bs.take k), s') ∧ R s' bs ∧
    (bs ≠ [] → 0 < k) ∧ ∀ j ≤ (bs.take k).length,
      ∃ s'', BufRead.consume j s' = (.ok (), s'') ∧ R s'' (bs.drop j)

def BufDelivers {σ : Type} [BufRead σ] (s : σ) (bs : Bytes) : Prop := ∃ R, BufDelivery R ∧ R s bs

theorem BufDelivers.fillBuf {σ} [BufRead σ] {s : σ} (h : BufDelivers s bs) :
    ∃ k s', BufRead.fillBuf s = (.ok (bs.take k), s') ∧ BufDelivers s' bs ∧
      (bs ≠ [] → 0 < k) ∧ ∀ j ≤ (bs.take k).length, ∃ s'', BufRead.consume j s' = (.ok (), s'') ∧
        BufDelivers s'' (bs.drop j) := by
  obtain ⟨R, hR, hs⟩ := h
  obtain ⟨k, s', hfill, hs', hk, hconsume⟩ := hR s bs hs
  refine ⟨k, s', hfill, ⟨R, hR, hs'⟩, hk, fun j hj => ?_⟩
  obtain ⟨s'', hs'', hR''⟩ := hconsume j hj
  exact ⟨s'', hs'', R, hR, hR''⟩

/-- A stream whose next bytes can be seen without taking them. -/
class Peek (σ : Type) extends Read σ where
  peek : Nat → ReadM σ Bytes

/-- Peeking shows some of the bytes to come, unless there are none, and takes nothing. -/
def PeekDelivers {σ : Type} [Peek σ] (s : σ) (bs : Bytes) : Prop :=
  ∃ R, Delivery R ∧ R s bs ∧ ∀ s bs, R s bs → ∀ n, 0 < n →
    ∃ k s', Peek.peek n s = (.ok (bs.take k), s') ∧ R s' bs ∧ k ≤ n ∧ (bs ≠ [] → 0 < k)

theorem PeekDelivers.peek {σ} [Peek σ] {s : σ} (h : PeekDelivers s bs) (hn : 0 < n) :
    ∃ k s', Peek.peek n s = (.ok (bs.take k), s') ∧ Delivers s' bs ∧ k ≤ n ∧ (bs ≠ [] → 0 < k) := by
  obtain ⟨R, hR, hs, hpeek⟩ := h
  obtain ⟨k, s', hk, hs', hle⟩ := hpeek s bs hs n hn
  exact ⟨k, s', hk, ⟨R, hR, hs'⟩, hle⟩

/-! ### Fragments -/

/-- A stream given by the pieces it hands out; a piece longer than what is asked for is cut. -/
structure Fragments where
  pieces : List Bytes

variable (fs : List Bytes)

namespace Fragments

/-- The pieces from the first one that is not empty. -/
def settle : List Bytes → List Bytes
  | [] :: fs => settle fs
  | fs => fs

instance : Peek Fragments where
  read n := fun s =>
    match settle s.pieces with
    | [] => (.ok [], ⟨[]⟩)
    | f :: fs => (.ok (f.take n), ⟨f.drop n :: fs⟩)
  peek n := fun s => (.ok (((settle s.pieces).headD []).take n), s)

instance : BufRead Fragments where
  fillBuf := fun s => (.ok ((settle s.pieces).headD []), ⟨settle s.pieces⟩)
  consume n := fun s => (.ok (), ⟨s.pieces.headD [] |>.drop n |> (· :: s.pieces.tail)⟩)

theorem settle_flatten : (settle fs).flatten = fs.flatten := by
  fun_induction settle fs with
  | case1 fs ih => simpa using ih
  | case2 fs h => rfl

theorem settle_cases : settle fs = [] ∨ ∃ f rest, settle fs = f :: rest ∧ f ≠ [] := by
  fun_induction settle fs with
  | case1 fs ih => exact ih
  | case2 fs h =>
    cases fs with
    | nil => exact .inl rfl
    | cons f rest => exact .inr ⟨f, rest, rfl, fun hf => h rest (by rw [hf])⟩

/-- The bytes of a stream of pieces are those of its pieces, one behind the other. -/
theorem delivery : Delivery fun (s : Fragments) bs => s.pieces.flatten = bs := by
  rintro s _ rfl n hn
  rw [← settle_flatten]
  rcases settle_cases s.pieces with h | ⟨f, rest, h, hf⟩
  · refine ⟨0, ⟨[]⟩, ?_, by simp [h], by omega, by simp [h]⟩
    simp [Read.read, h]
  · have htake : (f :: rest).flatten.take (min n f.length) = f.take n := by
      rw [flatten_cons, take_append_of_le_length (by omega), ← take_eq_take_min]
    have hdrop : (f :: rest).flatten.drop (min n f.length) = (f.drop n :: rest).flatten := by
      rw [flatten_cons, flatten_cons, drop_append_of_le_length (by omega)]
      rcases le_total n f.length with hle | hle
      · rw [min_eq_left hle]
      · rw [min_eq_right hle, drop_length, drop_of_length_le hle]
    refine ⟨min n f.length, ⟨f.drop n :: rest⟩, ?_, ?_, by omega, fun _ => ?_⟩
    · simp only [Read.read, h, htake]
    · rw [h, hdrop]
    · have := length_pos_iff.mpr hf
      omega

theorem delivers : Delivers (⟨fs⟩ : Fragments) fs.flatten := ⟨_, delivery, rfl⟩

theorem head_settle : ∃ k, (settle fs).headD [] = fs.flatten.take k ∧
    (fs.flatten ≠ [] → 0 < k) := by
  rw [← settle_flatten]
  rcases settle_cases fs with h | ⟨f, rest, h, hf⟩
  · exact ⟨0, by simp [h], by simp [h]⟩
  · exact ⟨f.length, by simp [h], fun _ => length_pos_iff.mpr hf⟩

theorem peekDelivers : PeekDelivers (⟨fs⟩ : Fragments) fs.flatten := by
  refine ⟨_, delivery, rfl, ?_⟩
  rintro s _ rfl n hn
  obtain ⟨k, hk, hpos⟩ := head_settle s.pieces
  refine ⟨min n k, s, ?_, rfl, by omega, fun hne => ?_⟩
  · simp only [Peek.peek, hk, take_take]
  · have := hpos hne
    omega

theorem bufDelivers : BufDelivers (⟨fs⟩ : Fragments) fs.flatten := by
  refine ⟨fun s bs => s.pieces.flatten = bs, ?_, rfl⟩
  rintro s _ rfl
  obtain ⟨k, hk, hpos⟩ := head_settle s.pieces
  refine ⟨k, ⟨settle s.pieces⟩, by simp only [BufRead.fillBuf, hk], settle_flatten _, hpos,
    fun j hj => ?_⟩
  refine ⟨_, rfl, ?_⟩
  rw [← hk] at hj
  rw [← settle_flatten s.pieces]
  rcases settle_cases s.pieces with h | ⟨f, rest, h, -⟩
  · simp [h]
  · simp only [h, headD_cons] at hj
    simp [h, drop_append_of_le_length hj]

/-- Reading takes what is shown first and is consumed then. -/
theorem delivers_of_bufDelivers {c : Fragments} (h : BufDelivers c bs) : Delivers c bs := by
  refine ⟨BufDelivers, fun s bs hs n hn => ?_, h⟩
  obtain ⟨k, s', hfill, -, hpos, hconsume⟩ := hs.fillBuf
  obtain ⟨hshown, rfl⟩ := Prod.mk.inj hfill
  have hshown : (settle s.pieces).headD [] = bs.take k := Except.ok.inj hshown
  rcases settle_cases s.pieces with hset | ⟨f, rest, hset, hf⟩
  · rw [hset] at hshown
    obtain rfl : bs = [] := by
      by_contra hne
      have := hpos hne
      exact hne ((take_eq_nil_iff.mp hshown.symm).resolve_left (by omega))
    exact ⟨0, ⟨[]⟩, by simp [Read.read, hset], bufDelivers [], by omega, nofun⟩
  · rw [hset, headD_cons] at hshown
    obtain ⟨s'', hs'', hrest⟩ := hconsume (min n f.length) (by rw [← hshown]; omega)
    rw [hset] at hs''
    refine ⟨min n f.length, s'', ?_, hrest, by omega, fun _ => ?_⟩
    · rw [← (Prod.mk.inj hs'').2]
      have htake : f.take n = bs.take (min n f.length) := by
        rw [hshown, take_take, length_take, take_eq_take_iff]
        omega
      have hdrop : f.drop n = f.drop (min n f.length) := drop_eq_drop_iff.mpr (by omega)
      simp only [Read.read, hset, headD_cons, tail_cons, htake, hdrop]
    · have := length_pos_iff.mpr hf
      omega

end Fragments

end RsProxy.Io
