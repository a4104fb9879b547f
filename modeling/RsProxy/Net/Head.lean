import RsProxy.Net.Request

/-!
# Three ways to read a head

`readHead` takes one byte after the other. `readHeadBuffered` looks for the blank line in whatever
its buffer holds, with a matcher that it keeps from one buffer to the next. `readTcp` peeks first
and reads the head in one go when the peeked bytes hold all of it. All three give the same head.
-/

namespace RsProxy.Net

open Text Io List Nat ReadM
open Rules (usizeMax saturatingAdd)
open Read (read)

/-! ### The readers -/

/-- Two line ends. -/
def terminator : Bytes := [13, 10, 13, 10]

def headersIncomplete : IoError :=
  ⟨.unexpectedEof, "connection closed before headers completed"⟩

def headerSizeExceeded : IoError := invalidData "header size limit exceeded"

section Readers

variable {σ : Type}

/-- The limit ends the loop after `max + 1` bytes. -/
def readHeadLoop [Read σ] (max : Nat) : (rounds : Nat) → (buf : Bytes) → ReadM σ (Option Bytes)
  | 0, _ => fail headerSizeExceeded
  | rounds + 1, buf => do
    let byte ← read 1
    if byte = [] then
      if buf = [] then pure none else fail headersIncomplete
    else if max < (buf ++ byte).length then fail headerSizeExceeded
    else if terminator.isSuffixOf (buf ++ byte) then
      pure (some ((buf ++ byte).take ((buf ++ byte).length - 4)))
    else readHeadLoop max rounds (buf ++ byte)

def readHead [Read σ] (max : Nat) : ReadM σ (Option Bytes) := readHeadLoop max (max + 1) []

/-- How much of the terminator still matches when the next byte does not go on with it. -/
def matchedPrefix : List Nat := [0, 0, 1, 2]

/-- The inner loop of the matcher; every round falls back to a shorter match. -/
def fallBack (byte : UInt8) : (rounds matched : Nat) → Nat
  | 0, matched => matched
  | rounds + 1, matched =>
    if 0 < matched ∧ terminator[matched]? ≠ some byte then
      fallBack byte rounds (matchedPrefix.getD (matched - 1) 0)
    else matched

def matchByte (matched : Nat) (byte : UInt8) : Nat :=
  let matched := fallBack byte 4 matched
  if terminator[matched]? = some byte then matched + 1 else matched

/-- Bytes taken from a buffer, the state of the matcher behind them, and whether it is done. -/
def scanTerminator : (available : Bytes) → (index matched : Nat) → Nat × Nat × Bool
  | [], index, matched => (index, matched, false)
  | byte :: available, index, matched =>
    let matched := matchByte matched byte
    if matched = 4 then (index + 1, matched, true)
    else scanTerminator available (index + 1) matched

def readHeadBufferedLoop [BufRead σ] (max : Nat) :
    (rounds : Nat) → (buf : Bytes) → (matched : Nat) → ReadM σ (Option Bytes)
  | 0, _, _ => fail headerSizeExceeded
  | rounds + 1, buf, matched => do
    let available ← BufRead.fillBuf
    if available = [] then
      if buf = [] then pure none else fail headersIncomplete
    else do
      let (consumed, matched, complete) := scanTerminator available 0 matched
      let buf := buf ++ available.take consumed
      BufRead.consume consumed
      if max < buf.length then fail headerSizeExceeded
      else if complete then pure (some (buf.take (buf.length - 4)))
      else readHeadBufferedLoop max rounds buf matched

def readHeadBuffered [BufRead σ] (max : Nat) : ReadM σ (Option Bytes) :=
  readHeadBufferedLoop max (max + 2) [] 0

/-- A result of the pure parser as a computation. -/
def liftExcept {α : Type} : Except IoError α → ReadM σ α
  | .ok a => pure a
  | .error e => fail e

@[simp] theorem liftExcept_apply {α} {r : Except IoError α} {s : σ} : liftExcept r s = (r, s) := by
  cases r <;> rfl

def readRequestHead [Read σ] (max maxHeaderCount : Nat) : ReadM σ (Option RequestHead) := do
  let head ← readHead max
  match head with
  | none => pure none
  | some head => some <$> liftExcept (parse head maxHeaderCount)

/-- The place of the first terminator in some bytes. -/
def position : Bytes → Option Nat
  | [] => none
  | b :: bs => if terminator.isPrefixOf (b :: bs) then some 0 else (position bs).map (· + 1)

def peekCapacity : Nat := 4 * 1024

def readTcp [Peek σ] (max maxHeaderCount : Nat) : ReadM σ (Option RequestHead) := do
  let peekLimit := Nat.max (min peekCapacity (saturatingAdd max 1)) 1
  let peeked ← Peek.peek peekLimit
  if peeked = [] then pure none
  else
    match position peeked with
    | some place =>
      if max < place + 4 then fail headerSizeExceeded
      else do
        let head ← readExact (place + 4)
        some <$> liftExcept (parse (head.take (place + 4 - 4)) maxHeaderCount)
    | none => readRequestHead max maxHeaderCount

end Readers

/-! ### What a head is -/

variable {bs : Bytes}

/-- The terminator that is found has none before it, not even one that it finishes. -/
theorem position_eq_some {p} (h : position bs = some p) :
    ∃ x y, bs = x ++ (terminator ++ y) ∧ x.length = p ∧ ¬ terminator <:+: x ++ [13, 10, 13] := by
  induction bs generalizing p with
  | nil => cases h
  | cons b bs ih =>
    rw [position] at h
    split at h
    next hp =>
      cases h
      obtain ⟨y, hy⟩ := isPrefixOf_iff_prefix.mp hp
      exact ⟨[], y, hy.symm, rfl, by decide⟩
    next hp =>
      obtain ⟨q, hq, rfl⟩ := Option.map_eq_some_iff.mp h
      obtain ⟨x, y, rfl, rfl, hfirst⟩ := ih hq
      refine ⟨b :: x, y, rfl, rfl, ?_⟩
      rw [cons_append, infix_cons_iff, not_or]
      refine ⟨fun hpre => hp ?_, hfirst⟩
      refine isPrefixOf_iff_prefix.mpr (hpre.trans ?_)
      exact ⟨10 :: y, by simp [terminator]⟩

theorem position_eq_none_iff : position bs = none ↔ ¬ terminator <:+: bs := by
  induction bs with
  | nil => simp [position, terminator]
  | cons b bs ih =>
    rw [position, infix_cons_iff, not_or, ← ih, ← isPrefixOf_iff_prefix]
    split
    next hp => simp [hp]
    next hp => simp [hp]

theorem position_append {x} (hx : ¬ terminator <:+: x ++ [13, 10, 13]) (y : Bytes) :
    position (x ++ (terminator ++ y)) = some x.length := by
  induction x with
  | nil => simp [position, terminator]
  | cons c x ih =>
    rw [cons_append, infix_cons_iff, not_or] at hx
    have hp : ¬ terminator.isPrefixOf (c :: (x ++ (terminator ++ y))) := by
      intro hp
      have hfront := isPrefixOf_iff_prefix.mp hp
      have hshorter : c :: (x ++ [13, 10, 13]) <+: c :: (x ++ (terminator ++ y)) :=
        ⟨10 :: y, by simp [terminator]⟩
      refine hx.1 (prefix_of_prefix_length_le hfront hshorter ?_)
      simp [terminator]
    rw [cons_append, position, if_neg hp, ih hx.2]
    rfl

/-- The place of the terminator in the first bytes is its place in all of them. -/
theorem position_take {k p} (h : position (bs.take k) = some p) : position bs = some p := by
  obtain ⟨x, y, hxy, rfl, hfirst⟩ := position_eq_some h
  rw [← take_append_drop k bs, hxy, append_assoc]
  exact position_append hfirst _

/-- What a head reader with this limit makes of the bytes: the head and the bytes behind it. -/
def headOutcome (max : Nat) (bs : Bytes) : Except IoError (Option Bytes × Bytes) :=
  if bs = [] then .ok (none, [])
  else
    match position bs with
    | some p =>
      if p + 4 ≤ max then .ok (some (bs.take p), bs.drop (p + 4)) else .error headerSizeExceeded
    | none => .error (if max < bs.length then headerSizeExceeded else headersIncomplete)

variable {max : Nat}

theorem headOutcome_found {x y} (hx : ¬ terminator <:+: x ++ [13, 10, 13])
    (hmax : x.length + 4 ≤ max) :
    headOutcome max (x ++ (terminator ++ y)) = .ok (some x, y) := by
  have hne : x ++ (terminator ++ y) ≠ [] := by simp [terminator]
  rw [headOutcome, if_neg hne, position_append hx]
  dsimp only
  rw [if_pos hmax, take_left, ← append_assoc,
    show x.length + 4 = (x ++ terminator).length by simp [terminator], drop_left]

variable {buf rest : Bytes}

/-- No terminator among the first `max` bytes, and more bytes than that. -/
theorem headOutcome_exceeded (hbuf : ¬ terminator <:+: buf) (hmax : max ≤ buf.length)
    (hlen : max < (buf ++ rest).length) :
    headOutcome max (buf ++ rest) = .error headerSizeExceeded := by
  have hne : buf ++ rest ≠ [] := ne_nil_of_length_pos (by omega)
  rw [headOutcome, if_neg hne]
  cases hp : position (buf ++ rest) with
  | none =>
    rw [if_pos hlen]
  | some p =>
    refine if_neg fun hle => hbuf ?_
    obtain ⟨x, y, hxy, rfl, -⟩ := position_eq_some hp
    have hall : x ++ terminator <+: buf ++ rest := ⟨y, by rw [hxy, append_assoc]⟩
    have hpre : x ++ terminator <+: buf := by
      refine prefix_of_prefix_length_le hall (prefix_append _ _) ?_
      · simp only [terminator, length_append, length_cons, length_nil]
        omega
    exact (suffix_append x terminator).isInfix.trans hpre.isInfix

theorem headOutcome_incomplete (hbs : ¬ terminator <:+: bs) (hmax : bs.length ≤ max) :
    headOutcome max bs = if bs = [] then .ok (none, []) else .error headersIncomplete := by
  rw [headOutcome]
  split
  · rfl
  · rw [position_eq_none_iff.mpr hbs]
    rw [if_neg (by omega)]

variable {b : UInt8}

/-- A terminator that the last byte finishes. -/
theorem headOutcome_finished (hbuf : ¬ terminator <:+: buf) (hend : terminator <:+ buf ++ [b])
    (hmax : (buf ++ [b]).length ≤ max) (rest : Bytes) :
    headOutcome max (buf ++ b :: rest) =
      .ok (some ((buf ++ [b]).take ((buf ++ [b]).length - 4)), rest) := by
  obtain ⟨x, hx⟩ := hend
  have hcut : x ++ [13, 10, 13] ++ [10] = buf ++ [b] := by
    rw [← hx, append_assoc]
    rfl
  rw [← (append_inj' hcut rfl).1] at hbuf
  have hlength : (x ++ terminator).length = x.length + 4 := length_append
  rw [← hx, hlength] at hmax
  rw [append_cons, ← hx, append_assoc, headOutcome_found hbuf hmax, hlength,
    Nat.add_sub_cancel, take_left]

theorem infix_append_singleton {t : Bytes} : t <:+: buf ++ [b] ↔ t <:+: buf ∨ t <:+ buf ++ [b] := by
  rw [infix_concat_iff]
  exact or_comm

/-! ### One byte after the other -/

variable {rounds : Nat}

theorem readHeadLoop_spec (buf : Bytes) (hbuf : ¬ terminator <:+: buf) (hmax : buf.length ≤ max)
    (hrounds : max < rounds + buf.length) :
    Follows (Eq : Bytes → Bytes → Prop) (readHeadLoop max rounds buf rest)
      (headOutcome max (buf ++ rest)) := by
  induction rest generalizing rounds buf with
  | nil =>
    cases rounds with
    | zero => omega
    | succ rounds =>
      rw [readHeadLoop, bind_ok (read_bytes 1 []), if_pos take_nil, append_nil,
        headOutcome_incomplete hbuf hmax]
      split_ifs
      · exact ⟨rfl, rfl⟩
      · rfl
  | cons b rest ih =>
    cases rounds with
    | zero => omega
    | succ rounds =>
      have hread : read 1 (b :: rest) = (.ok [b], rest) := rfl
      rw [readHeadLoop, bind_ok hread, if_neg (cons_ne_nil b [])]
      by_cases hexceeded : max < (buf ++ [b]).length
      · rw [length_append, length_singleton] at hexceeded
        rw [if_pos (by simpa using hexceeded), headOutcome_exceeded hbuf (by omega)
          (by rw [length_append, length_cons]; omega)]
        rfl
      · rw [if_neg hexceeded]
        by_cases hend : terminator <:+ buf ++ [b]
        · rw [if_pos (isSuffixOf_iff_suffix.mpr hend), headOutcome_finished hbuf hend (by omega)]
          exact ⟨rfl, rfl⟩
        · rw [if_neg (by rwa [isSuffixOf_iff_suffix]), append_cons buf b rest]
          refine ih _ ?_ (by omega) (by rw [length_append, length_singleton]; omega)
          rw [infix_append_singleton, not_or]
          exact ⟨hbuf, hend⟩

theorem not_terminator_infix_nil : ¬ terminator <:+: [] := by
  simp [terminator]

theorem readHead_bytes :
    Follows (Eq : Bytes → Bytes → Prop) (readHead max bs) (headOutcome max bs) :=
  readHeadLoop_spec [] not_terminator_infix_nil (zero_le max) (by simp)

section Streams

variable {σ : Type}

theorem agrees_read_one [Read σ] : Agrees (read 1 : ReadM σ Bytes) (read 1) := by
  intro s bs hs
  obtain ⟨k, s', hread, hs', hk, hpos⟩ := hs.read one_pos
  rw [hread, read_bytes]
  by_cases hbs : bs = []
  · subst hbs
    simpa using hs'
  · obtain rfl : k = 1 := by have := hpos hbs; omega
    exact ⟨rfl, hs'⟩

theorem agrees_readHead [Read σ] :
    Agrees (readHead max : ReadM σ (Option Bytes)) (readHead max) := by
  suffices ∀ rounds buf, Agrees (readHeadLoop max rounds buf : ReadM σ (Option Bytes))
      (readHeadLoop max rounds buf) from this _ _
  intro rounds
  induction rounds with
  | zero => exact fun buf => agrees_fail _
  | succ rounds ih =>
    intro buf
    refine agrees_read_one.bind fun byte => Agrees.ite (fun _ => ?_) fun _ => ?_
    · exact Agrees.ite (fun _ => agrees_pure) fun _ => agrees_fail _
    · refine Agrees.ite (fun _ => agrees_fail _) fun _ => ?_
      exact Agrees.ite (fun _ => agrees_pure) fun _ => ih _

theorem readHead_follows [Read σ] {s : σ} (hs : Delivers s bs) (max : Nat) :
    Follows Delivers (readHead max s) (headOutcome max bs) :=
  agrees_readHead.follows hs readHead_bytes

end Streams

/-! ### Buffer after buffer -/

/-- How far the last bytes, the newest first, are into a terminator. -/
def tracked : Bytes → Nat
  | 13 :: 10 :: 13 :: _ => 3
  | 10 :: 13 :: _ => 2
  | 13 :: _ => 1
  | _ => 0

theorem tracked_cons_other (h13 : b ≠ 13) (h10 : b ≠ 10) {rev : Bytes} :
    tracked (b :: rev) = 0 := by
  unfold tracked
  split <;> simp_all

theorem matchByte_tracked (rev : Bytes) (b : UInt8) :
    matchByte (tracked rev) b = if tracked rev = 3 ∧ b = 10 then 4 else tracked (b :: rev) := by
  by_cases h13 : b = 13
  · fun_cases tracked rev <;> simp_all [tracked, matchByte, fallBack, terminator, matchedPrefix]
  · by_cases h10 : b = 10
    · fun_cases tracked rev <;> simp_all [tracked, matchByte, fallBack, terminator, matchedPrefix]
    · have h13' := Ne.symm h13
      have h10' := Ne.symm h10
      rw [tracked_cons_other h13 h10]
      fun_cases tracked rev <;> simp_all [matchByte, fallBack, terminator, matchedPrefix]

theorem tracked_eq_three_iff {rev} : tracked rev = 3 ↔ ∃ t, rev = 13 :: 10 :: 13 :: t := by
  constructor
  · fun_cases tracked rev <;> simp_all
  · rintro ⟨t, rfl⟩
    rfl

/-- The matcher is done when the last byte finishes a terminator. -/
theorem terminator_suffix_iff : terminator <:+ buf ++ [b] ↔ tracked buf.reverse = 3 ∧ b = 10 := by
  rw [tracked_eq_three_iff]
  constructor
  · rintro ⟨x, hx⟩
    have hrev := congrArg reverse hx
    simp only [terminator, reverse_append, reverse_cons, reverse_nil,
      nil_append, cons_append, cons.injEq] at hrev
    exact ⟨⟨x.reverse, hrev.2.symm⟩, hrev.1.symm⟩
  · rintro ⟨⟨t, ht⟩, rfl⟩
    have hbuf := congrArg reverse ht
    rw [reverse_reverse] at hbuf
    simp [hbuf, terminator]

/-- The state of the matcher after the bytes of a buffer, when nothing before was a terminator. -/
theorem scanTerminator_spec (hbuf : ¬ terminator <:+: buf) (available : Bytes) (index : Nat) :
    (∃ x b y, available = x ++ b :: y ∧ ¬ terminator <:+: buf ++ x ∧
      terminator <:+ buf ++ x ++ [b] ∧
      scanTerminator available index (tracked buf.reverse) = (index + x.length + 1, 4, true)) ∨
    (¬ terminator <:+: buf ++ available ∧
      scanTerminator available index (tracked buf.reverse) =
        (index + available.length, tracked (buf ++ available).reverse, false)) := by
  induction available generalizing buf index with
  | nil => exact .inr ⟨by simpa using hbuf, by simp [scanTerminator]⟩
  | cons b available ih =>
    rw [scanTerminator, matchByte_tracked]
    by_cases hend : terminator <:+ buf ++ [b]
    · left
      refine ⟨[], b, available, rfl, by simpa using hbuf, by simpa using hend, ?_⟩
      rw [if_pos (terminator_suffix_iff.mp hend)]
      rfl
    · have hne : ¬ tracked (b :: buf.reverse) = 4 := by
        unfold tracked
        split <;> decide
      have hbuf' : ¬ terminator <:+: buf ++ [b] := by
        rw [infix_append_singleton, not_or]
        exact ⟨hbuf, hend⟩
      rw [if_neg (mt terminator_suffix_iff.mpr hend), if_neg hne,
        show b :: buf.reverse = (buf ++ [b]).reverse by simp]
      rcases ih hbuf' (index + 1) with ⟨x, c, y, rfl, hx, hc, heq⟩ | ⟨hnone, heq⟩
      · left
        refine ⟨b :: x, c, y, rfl, by simpa using hx, by simpa using hc, ?_⟩
        rw [heq, length_cons]
        congr 1
        omega
      · right
        refine ⟨by simpa using hnone, ?_⟩
        rw [heq, length_cons, append_assoc]
        congr 1
        omega

theorem readHeadBufferedLoop_spec {τ} [BufRead τ] (buf : Bytes) {t : τ} (ht : BufDelivers t rest)
    (hbuf : ¬ terminator <:+: buf) (hmax : buf.length ≤ max) (hrounds : max < rounds + buf.length) :
    Follows BufDelivers (readHeadBufferedLoop max rounds buf (tracked buf.reverse) t)
      (headOutcome max (buf ++ rest)) := by
  induction rounds generalizing buf rest t with
  | zero => omega
  | succ rounds ih =>
    obtain ⟨k, t', hfill, ht', hpos, hconsume⟩ := ht.fillBuf
    rw [readHeadBufferedLoop, bind_ok hfill]
    by_cases hrest : rest = []
    · subst hrest
      rw [if_pos take_nil, append_nil, headOutcome_incomplete hbuf hmax]
      split_ifs
      · exact ⟨rfl, ht'⟩
      · rfl
    · have hne : rest.take k ≠ [] := by
        rw [ne_eq, take_eq_nil_iff, not_or]
        exact ⟨(hpos hrest).ne', hrest⟩
      rw [if_neg hne]
      rcases scanTerminator_spec hbuf (rest.take k) 0 with
        ⟨x, b, y, hsplit, hx, hend, hscan⟩ | ⟨hnone, hscan⟩
      · -- The buffer holds the end of the head.
        have hrest' : rest = x ++ b :: (y ++ rest.drop k) := by
          rw [← cons_append, ← append_assoc, ← hsplit, take_append_drop]
        have hlen : (rest.take k).length = x.length + 1 + y.length := by
          rw [hsplit, length_append, length_cons]
          omega
        have htaken : (rest.take k).take (0 + x.length + 1) = x ++ [b] := by
          rw [hsplit, append_cons, show 0 + x.length + 1 = (x ++ [b]).length by simp, take_left]
        obtain ⟨t'', hconsumed, ht''⟩ := hconsume (0 + x.length + 1) (by omega)
        rw [hscan]
        dsimp only
        rw [bind_ok hconsumed, htaken, ← append_assoc]
        rw [hrest', ← append_assoc]
        by_cases hexceeded : max < (buf ++ x ++ [b]).length
        · rw [if_pos hexceeded]
          rw [length_append, length_singleton] at hexceeded
          rw [headOutcome_exceeded hx (by omega) (by rw [length_append, length_cons]; omega)]
          rfl
        · rw [if_neg hexceeded, headOutcome_finished hx hend (by omega)]
          refine ⟨rfl, ?_⟩
          rw [hrest', append_cons, show 0 + x.length + 1 = (x ++ [b]).length by simp,
            drop_left] at ht''
          exact ht''
      · -- All of the buffer goes into the head.
        obtain ⟨t'', hconsumed, ht''⟩ := hconsume (0 + (rest.take k).length) (by omega)
        have hrest' : buf ++ rest = buf ++ rest.take k ++ rest.drop k := by
          rw [append_assoc, take_append_drop]
        rw [zero_add, length_take, ← drop_eq_drop_min] at ht''
        rw [zero_add] at hconsumed hscan
        rw [hscan]
        dsimp only
        rw [bind_ok hconsumed, take_length, hrest']
        by_cases hexceeded : max < (buf ++ rest.take k).length
        · rw [if_pos hexceeded, headOutcome_exceeded hnone hexceeded.le
            (by rw [length_append]; omega)]
          rfl
        · have := length_pos_iff.mpr hne
          rw [if_neg hexceeded]
          exact ih _ ht'' hnone (by omega) (by rw [length_append]; omega)

theorem readHeadBuffered_follows {τ} [BufRead τ] {t : τ} (ht : BufDelivers t bs) (max : Nat) :
    Follows BufDelivers (readHeadBuffered max t) (headOutcome max bs) :=
  readHeadBufferedLoop_spec [] ht not_terminator_infix_nil (zero_le max)
    (by simp only [length_nil]; omega)

/-! ### Peeking first -/

/-- The parsed head of an outcome. -/
def parsedOutcome (maxHeaderCount : Nat) :
    Option Bytes × Bytes → Except IoError (Option RequestHead × Bytes)
  | (none, rest) => .ok (none, rest)
  | (some head, rest) => (parse head maxHeaderCount).map fun h => (some h, rest)

theorem follows_liftExcept {σ α R s} (hs : R s rest) {r} :
    Follows R ((some <$> (liftExcept r : ReadM σ α)) s) (r.map fun a => (some a, rest)) := by
  cases r with
  | error e => rfl
  | ok a => exact ⟨rfl, hs⟩

theorem readRequestHead_follows {σ} [Read σ] {s : σ} (hs : Delivers s bs)
    (max maxHeaderCount : Nat) :
    Follows Delivers (readRequestHead max maxHeaderCount s)
      (headOutcome max bs >>= parsedOutcome maxHeaderCount) := by
  have h := readHead_follows hs max
  cases hr : readHead max s with
  | mk r s' =>
    rw [hr] at h
    cases ho : headOutcome max bs with
    | error e =>
      rw [ho] at h
      obtain rfl : r = .error e := h
      rw [readRequestHead, bind_error hr]
      rfl
    | ok ar =>
      rw [ho] at h
      obtain ⟨head?, rest⟩ := ar
      obtain ⟨hok, hrest⟩ := h
      obtain rfl : r = .ok head? := hok
      rw [readRequestHead, bind_ok hr]
      cases head? with
      | none => exact ⟨rfl, hrest⟩
      | some head => exact follows_liftExcept hrest

theorem readTcp_follows {υ} [Peek υ] {u : υ} (hu : PeekDelivers u bs) (max maxHeaderCount : Nat) :
    Follows Delivers (readTcp max maxHeaderCount u)
      (headOutcome max bs >>= parsedOutcome maxHeaderCount) := by
  have hlimit : 0 < Nat.max (min peekCapacity (saturatingAdd max 1)) 1 :=
    lt_of_lt_of_le one_pos (le_max_right _ _)
  obtain ⟨k, u', hpeek, hu', -, hpos⟩ := hu.peek hlimit
  rw [readTcp, bind_ok hpeek]
  by_cases hbs : bs = []
  · subst hbs
    rw [if_pos take_nil]
    exact ⟨rfl, hu'⟩
  · have hne : bs.take k ≠ [] := by
      rw [ne_eq, take_eq_nil_iff, not_or]
      exact ⟨(hpos hbs).ne', hbs⟩
    rw [if_neg hne]
    cases hplace : position (bs.take k) with
    | none => exact readRequestHead_follows hu' max maxHeaderCount
    | some place =>
      have hfound := position_take hplace
      rw [headOutcome, if_neg hbs, hfound]
      dsimp only
      by_cases hmax : max < place + 4
      · rw [if_pos hmax, if_neg (by omega)]
        rfl
      · obtain ⟨x, y, rfl, rfl, -⟩ := position_eq_some hfound
        obtain ⟨u'', hread, hu''⟩ := (agrees_readExact (x.length + 4)).apply hu'
        have hlen : x.length + 4 ≤ (x ++ (terminator ++ y)).length := by
          simp only [terminator, length_append, length_cons]
          omega
        rw [readExact_bytes, if_pos hlen] at hread hu''
        rw [if_neg hmax, if_pos (by omega), ReadM.bind_ok hread, Nat.add_sub_cancel, take_take,
          min_eq_left (by omega), take_left]
        exact follows_liftExcept hu''

/-! ### The readers agree -/

theorem headOutcome_some {head} (h : headOutcome max bs = .ok (some head, rest)) :
    bs = head ++ (terminator ++ rest) ∧ position bs = some head.length := by
  rw [headOutcome] at h
  split at h
  · cases h
  split at h
  next p hp =>
    split_ifs at h
    cases h
    obtain ⟨x, y, rfl, rfl, -⟩ := position_eq_some hp
    have hrest : (x ++ (terminator ++ y)).drop (x.length + 4) = y := by
      rw [← append_assoc, show x.length + 4 = (x ++ terminator).length by simp [terminator],
        drop_left]
    rw [hrest, take_left]
    exact ⟨rfl, hp⟩
  · cases h

/-- The three readers of a head give the same result on the same bytes, whatever the pieces the
bytes come in, and after success each stream stands behind the first blank line. -/
theorem headReaders_agree {σ τ υ : Type} [Read σ] [BufRead τ] [Peek υ] {s : σ} {t : τ} {u : υ}
    {bs : Bytes} (hs : Delivers s bs) (ht : BufDelivers t bs) (hu : PeekDelivers u bs)
    (max maxHeaderCount : Nat) :
    (readHeadBuffered max t).1 = (readHead max s).1 ∧
    (readTcp max maxHeaderCount u).1 = (readRequestHead max maxHeaderCount s).1 ∧
    ∀ head, (readHead max s).1 = .ok (some head) → ∃ rest,
      bs = head ++ (terminator ++ rest) ∧ position bs = some head.length ∧
      Delivers (readHead max s).2 rest ∧ BufDelivers (readHeadBuffered max t).2 rest ∧
      ∀ request, (readTcp max maxHeaderCount u).1 = .ok (some request) →
        Delivers (readTcp max maxHeaderCount u).2 rest := by
  have hhead := readHead_follows hs max
  have hbuffered := readHeadBuffered_follows ht max
  have htcp := readTcp_follows hu max maxHeaderCount
  refine ⟨hbuffered.fst_eq hhead, htcp.fst_eq (readRequestHead_follows hs max maxHeaderCount), ?_⟩
  intro head hok
  cases ho : headOutcome max bs with
  | error e =>
    rw [ho] at hhead
    rw [show (readHead max s).1 = .error e from hhead] at hok
    cases hok
  | ok ar =>
    obtain ⟨head?, rest⟩ := ar
    rw [ho] at hhead hbuffered htcp
    obtain ⟨hresult, hrest⟩ := hhead
    obtain rfl : head? = some head := by
      rw [hresult] at hok
      exact Except.ok.inj hok
    obtain ⟨hbs, hplace⟩ := headOutcome_some ho
    refine ⟨rest, hbs, hplace, hrest, hbuffered.2, fun request hrequest => ?_⟩
    change Follows Delivers _ ((parse head maxHeaderCount).map fun h => (some h, rest)) at htcp
    cases hparse : parse head maxHeaderCount with
    | error e =>
      rw [hparse] at htcp
      rw [show (readTcp max maxHeaderCount u).1 = .error e from htcp] at hrequest
      cases hrequest
    | ok h =>
      rw [hparse] at htcp
      exact htcp.2

/-- The blank line is cut in its middle and the limit falls on its last byte. -/
theorem headReaders_agree_on_cut_line :
    let pieces := [utf8 "GET / HTTP/1.1\r\nHost: a\r", utf8 "\n\r", utf8 "\nbody"]
    let s : Fragments := ⟨pieces⟩
    (readHead 27 s).1 = .ok (some (utf8 "GET / HTTP/1.1\r\nHost: a")) ∧
      (readHeadBuffered 27 s).1 = (readHead 27 s).1 ∧
      (readTcp 27 10 s).1 = (readRequestHead 27 10 s).1 ∧
      Delivers (readHead 27 s).2 (utf8 "body") := by
  intro pieces s
  obtain ⟨hbuffered, htcp, hhead⟩ := headReaders_agree (Fragments.delivers pieces)
    (Fragments.bufDelivers pieces) (Fragments.peekDelivers pieces) 27 10
  have hok : (readHead 27 s).1 = .ok (some (utf8 "GET / HTTP/1.1\r\nHost: a")) := by
    decide +kernel
  obtain ⟨rest, hbytes, -, hrest, -⟩ := hhead _ hok
  have hrest' : rest = utf8 "body" := by
    have hbody : pieces.flatten = utf8 "GET / HTTP/1.1\r\nHost: a" ++
        (terminator ++ utf8 "body") := by decide +kernel
    rw [hbody] at hbytes
    exact (append_cancel_left (append_cancel_left hbytes)).symm
  exact ⟨hok, hbuffered, htcp, hrest' ▸ hrest⟩

end RsProxy.Net
