import RsProxy.Net.Body

/-!
# A body is decoded the same way in every buffer

`decodeFrom` says what a body reader still has to deliver, from the bytes ahead of it alone. A call
with any buffer, on a stream that cuts the bytes in any way, delivers the first part of that and
leaves the rest for the next call.
-/

namespace RsProxy.Net

open Text Io List ReadM Nat
open Rules (usizeMax saturatingAdd)
open Read (read)

/-! ### The parts of the reader do not see the cuts -/

section Agreement

variable {σ : Type} [Read σ]

theorem agrees_readCrlfLineLimited {limit} :
    Agrees (readCrlfLineLimited limit : ReadM σ Str) (readCrlfLineLimited limit) := by
  suffices ∀ rounds bytes, Agrees (readCrlfLineLoop limit rounds bytes : ReadM σ Str)
      (readCrlfLineLoop limit rounds bytes) from this _ _
  intro rounds
  induction rounds with
  | zero => exact fun bytes => agrees_fail _
  | succ rounds ih =>
    intro bytes
    refine (agrees_readExact 1).bind fun byte => Agrees.ite (fun _ => agrees_fail _) fun _ => ?_
    refine Agrees.ite (fun _ => ?_) fun _ => ih _
    cases fromUtf8 ((bytes ++ byte).take ((bytes ++ byte).length - 2)) with
    | none => exact agrees_fail _
    | some line => exact agrees_pure

theorem agrees_readTrailers {maxHeaderSize maxHeaderCount} :
    Agrees (readTrailers maxHeaderSize maxHeaderCount : ReadM σ Headers)
      (readTrailers maxHeaderSize maxHeaderCount) := by
  suffices ∀ rounds trailers size,
      Agrees (readTrailersLoop maxHeaderSize maxHeaderCount rounds trailers size : ReadM σ Headers)
        (readTrailersLoop maxHeaderSize maxHeaderCount rounds trailers size) from this _ _ _
  intro rounds
  induction rounds with
  | zero => exact fun _ _ => agrees_fail _
  | succ rounds ih =>
    intro trailers size
    refine agrees_readCrlfLineLimited.bind fun line =>
      Agrees.ite (fun _ => agrees_fail _) fun _ => Agrees.ite (fun _ => agrees_pure) fun _ =>
        Agrees.ite (fun _ => agrees_fail _) fun _ => ?_
    cases parseTrailer line with
    | error e => exact agrees_fail e
    | ok field => exact ih _ _

theorem agrees_readChunkSize {maxHeaderSize} :
    Agrees (readChunkSize maxHeaderSize : ReadM σ Nat) (readChunkSize maxHeaderSize) := by
  refine agrees_readCrlfLineLimited.bind fun line => ?_
  cases parseChunkSize line with
  | none => exact agrees_fail _
  | some size => exact agrees_pure

theorem agrees_readChunkEnd : Agrees (readChunkEnd : ReadM σ Unit) readChunkEnd :=
  (agrees_readExact 2).bind fun _ => Agrees.ite (fun _ => agrees_pure) fun _ => agrees_fail _

end Agreement

/-! ### What is read is taken from the front -/

variable {limit rounds : Nat} {rest : Bytes}

theorem readCrlfLineLoop_ok {buf rest' line}
    (h : readCrlfLineLoop limit rounds buf rest = (.ok line, rest')) :
    rest'.length < rest.length := by
  induction rounds generalizing buf rest with
  | zero => cases h
  | succ rounds ih =>
    rw [readCrlfLineLoop] at h
    cases rest with
    | nil =>
      cases h
    | cons b rest =>
      have hread : readExact 1 (b :: rest) = (.ok [b], rest) := by simp [readExact_bytes]
      rw [bind_ok hread] at h
      rw [length_cons]
      split at h
      · cases h
      split at h
      · cases hutf : fromUtf8 ((buf ++ [b]).take ((buf ++ [b]).length - 2)) with
        | none =>
          rw [hutf] at h
          cases h
        | some text =>
          rw [hutf] at h
          cases h
          omega
      · exact lt_succ_of_lt (ih h)

variable {bs : Bytes}

theorem readChunkSize_ok {maxHeaderSize size}
    (h : readChunkSize maxHeaderSize bs = (.ok size, rest)) : rest.length < bs.length := by
  rw [readChunkSize] at h
  cases hline : (readCrlfLineLimited maxHeaderSize : ReadM Bytes Str) bs with
  | mk r rest' =>
    cases r with
    | error e =>
      rw [bind_error hline] at h
      cases h
    | ok line =>
      rw [bind_ok hline] at h
      have hlt := readCrlfLineLoop_ok hline
      rcases hparse : parseChunkSize line with _ | n <;> rw [hparse] at h
      · cases h
      cases h
      exact hlt

theorem readChunkEnd_bytes : readChunkEnd bs =
    if 2 ≤ bs.length then
      if bs.take 2 = crlf then (.ok (), bs.drop 2)
      else (.error (invalidData "invalid chunk terminator in request"), bs.drop 2)
    else (.error eofError, bs.drop 2) := by
  rw [readChunkEnd]
  have h := readExact_bytes 2 bs
  split
  next hlen =>
    rw [if_pos hlen] at h
    rw [bind_ok h]
    split <;> rfl
  next hlen =>
    rw [if_neg hlen] at h
    rw [bind_error h]

/-! ### The decoded body -/

/-- The bytes of a body and how it ends: with trailers and the bytes behind it, or with an error. -/
structure Decoded where
  data : Bytes
  verdict : Except IoError (Headers × Bytes)

/-- The rest of a chunk, its line end, and what `next` makes of the bytes behind that. -/
def decodeChunk (next : Bytes → Decoded) (remaining : Nat) (bs : Bytes) : Decoded :=
  if bs.length < remaining then ⟨bs, .error eofError⟩
  else
    match readChunkEnd (bs.drop remaining) with
    | (.error e, _) => ⟨bs.take remaining, .error e⟩
    | (.ok _, rest) => ⟨bs.take remaining ++ (next rest).data, (next rest).verdict⟩

/-- Every chunk takes a byte at least from the front. -/
def decodeChunks (limits : HeaderLimits) : (rounds : Nat) → Bytes → Decoded
  | 0, _ => ⟨[], .error eofError⟩
  | rounds + 1, bs =>
    match readChunkSize limits.maxHeaderSize bs with
    | (.error e, _) => ⟨[], .error e⟩
    | (.ok size, rest) =>
      if size = 0 then
        match readTrailers limits.maxHeaderSize limits.maxHeaderCount rest with
        | (.error e, _) => ⟨[], .error e⟩
        | (.ok trailers, rest) => ⟨[], .ok (trailers, rest)⟩
      else decodeChunk (decodeChunks limits rounds) size rest

/-- What a reader in this state makes of the bytes ahead of it. -/
def decodeFrom (limits : HeaderLimits) (state : RequestBodyState) (bs : Bytes) : Decoded :=
  match state with
  | .finished => ⟨[], .ok ([], bs)⟩
  | .contentLength remaining =>
    if bs.length < remaining then ⟨bs, .error bodyIncomplete⟩
    else ⟨bs.take remaining, .ok ([], bs.drop remaining)⟩
  | .chunked 0 => decodeChunks limits (bs.length + 1) bs
  | .chunked remaining => decodeChunk (fun rest => decodeChunks limits (rest.length + 1) rest)
      remaining bs

/-- The whole body under a framing. -/
def decodeBody (limits : HeaderLimits) (framing : RequestBodyFraming) (bs : Bytes) : Decoded :=
  decodeFrom limits (RequestBodyReader.new framing).state bs

variable {remaining : Nat}

theorem decodeChunk_congr {f g} (h : ∀ rest, rest.length ≤ bs.length → f rest = g rest) :
    decodeChunk f remaining bs = decodeChunk g remaining bs := by
  rw [decodeChunk, decodeChunk]
  split
  · rfl
  · rw [readChunkEnd_bytes]
    have hrest : ((bs.drop remaining).drop 2).length ≤ bs.length := by
      simp only [length_drop]
      omega
    split_ifs
    · simp only [h _ hrest]
    all_goals rfl

/-- More rounds than bytes make no difference. -/
theorem decodeChunks_rounds {limits m n} (hm : bs.length < m) (hn : bs.length < n) :
    decodeChunks limits m bs = decodeChunks limits n bs := by
  induction m generalizing bs n with
  | zero => omega
  | succ m ih =>
    cases n with
    | zero => omega
    | succ n =>
      rw [decodeChunks, decodeChunks]
      cases hsize : (readChunkSize limits.maxHeaderSize : ReadM Bytes Nat) bs with
      | mk r rest =>
        cases r with
        | error e => rfl
        | ok size =>
          have hlt := readChunkSize_ok hsize
          dsimp only
          congr 1
          exact decodeChunk_congr fun rest' hle => ih (by omega) (by omega)

theorem decodeFrom_chunked {limits} (h : remaining ≠ 0) :
    decodeFrom limits (.chunked remaining) bs =
      decodeChunk (decodeFrom limits (.chunked 0)) remaining bs := by
  cases remaining with
  | zero => exact absurd rfl h
  | succ remaining => rfl

/-! ### One call -/

variable {reader : RequestBodyReader} {capacity : Nat}

namespace RequestBodyReader

/-- A fixed length that is used up ends the body at once. -/
def Live (reader : RequestBodyReader) : Prop := reader.state ≠ .contentLength 0

theorem new_live (framing : RequestBodyFraming) : (new framing).Live := by
  unfold Live new
  split <;> simp_all

variable {σ : Type} [Read σ] {limits : HeaderLimits}

/-- What a call can report, against what the reader had to deliver before it. -/
inductive Step (limits : HeaderLimits) (reader : RequestBodyReader) (capacity : Nat) (bs : Bytes) :
    Except IoError (RequestBodyRead × RequestBodyReader) × σ → Prop
  | data {bytes : Bytes} {reader' s' bs'}
      (delivers : Delivers s' bs') (live : reader'.Live)
      (framing : reader'.framing = reader.framing)
      (ne_nil : bytes ≠ []) (fits : bytes.length ≤ capacity) (shorter : bs'.length < bs.length)
      (decoded : decodeFrom limits reader.state bs =
        ⟨bytes ++ (decodeFrom limits reader'.state bs').data,
          (decodeFrom limits reader'.state bs').verdict⟩) :
      Step limits reader capacity bs (.ok (.data bytes, reader'), s')
  | finish {trailers reader' s' bs'}
      (delivers : Delivers s' bs')
      (decoded : decodeFrom limits reader.state bs = ⟨[], .ok (trailers, bs')⟩) :
      Step limits reader capacity bs (.ok (.finish trailers, reader'), s')
  | error {e s' data}
      (decoded : decodeFrom limits reader.state bs = ⟨data, .error e⟩) :
      Step limits reader capacity bs (.error e, s')

theorem decodeChunk_split {next taken} (htaken : taken ≤ remaining) (hlen : taken ≤ bs.length) :
    decodeChunk next remaining bs =
      ⟨bs.take taken ++ (decodeChunk next (remaining - taken) (bs.drop taken)).data,
        (decodeChunk next (remaining - taken) (bs.drop taken)).verdict⟩ := by
  have hend : (bs.drop taken).drop (remaining - taken) = bs.drop remaining := by
    rw [drop_drop, Nat.add_sub_cancel' htaken]
  have htake : bs.take taken ++ (bs.drop taken).take (remaining - taken) = bs.take remaining := by
    rw [← take_add, Nat.add_sub_cancel' htaken]
  rw [decodeChunk, decodeChunk, hend, length_drop]
  by_cases hshort : bs.length < remaining
  · rw [if_pos hshort, if_pos (by omega), take_append_drop]
  · rw [if_neg hshort, if_neg (by omega)]
    cases readChunkEnd (bs.drop remaining) with
    | mk r rest =>
      cases r with
      | error e => simp [htake]
      | ok u => simp [← htake]

variable {s : σ}

/-- Data of a chunk, with the line in front of the chunk or without it. -/
theorem readChunkData_step {whole} (hs : Delivers s bs) (hcapacity : 0 < capacity)
    (hremaining : 0 < remaining) (hwhole : bs.length ≤ whole.length)
    (hdecode : decodeFrom limits reader.state whole = decodeFrom limits (.chunked remaining) bs) :
    Step limits reader capacity whole (reader.readChunkData capacity remaining s) := by
  rw [decodeFrom_chunked hremaining.ne'] at hdecode
  obtain ⟨s', hread, hs'⟩ := (agrees_readExact (min remaining capacity)).apply hs
  rw [readExact_bytes] at hread hs'
  rw [readChunkData]
  by_cases hlen : min remaining capacity ≤ bs.length
  · rw [if_pos hlen] at hread
    rw [bind_ok hread]
    have hne : bs.take (min remaining capacity) ≠ [] :=
      ne_nil_of_length_pos (by rw [length_take]; omega)
    have hfits : (bs.take (min remaining capacity)).length ≤ capacity :=
      (length_take_le _ _).trans (min_le_right _ _)
    by_cases hlast : remaining - min remaining capacity = 0
    · have hall : min remaining capacity = remaining := by omega
      rw [if_pos hlast]
      rw [hall] at hs' hlen hne hfits ⊢
      obtain ⟨s'', hcrlf, hs''⟩ := agrees_readChunkEnd.apply hs'
      rw [decodeChunk, if_neg (by omega)] at hdecode
      cases hend : (readChunkEnd : ReadM Bytes Unit) (bs.drop remaining) with
      | mk r rest =>
        rw [hend] at hcrlf hs'' hdecode
        cases r with
        | error e =>
          rw [bind_error hcrlf]
          exact .error hdecode
        | ok u =>
          rw [bind_ok hcrlf]
          refine .data hs'' (by simp [Live]) rfl hne hfits ?_ hdecode
          have hrest : rest = (bs.drop remaining).drop 2 := by
            have := congrArg Prod.snd hend
            rw [readChunkEnd_bytes] at this
            split_ifs at this <;> exact this.symm
          rw [hrest, length_drop, length_drop]
          omega
    · rw [if_neg hlast]
      refine .data hs' (by simp [Live]) rfl hne hfits (by rw [length_drop]; omega) ?_
      rw [hdecode, decodeChunk_split (min_le_left _ _) hlen, decodeFrom_chunked hlast]
  · rw [if_neg hlen] at hread
    rw [bind_error hread]
    rw [decodeChunk, if_pos (by omega)] at hdecode
    exact .error hdecode

theorem readFixed_step (hstate : reader.state = .contentLength remaining) (hs : Delivers s bs)
    (hcapacity : 0 < capacity) (hremaining : 0 < remaining) :
    Step limits reader capacity bs (reader.read capacity limits s) := by
  obtain ⟨k, s', hread, hs', hk, hpos⟩ := hs.read (n := min remaining capacity) (by omega)
  have hdecode : decodeFrom limits reader.state bs =
      if bs.length < remaining then ⟨bs, .error bodyIncomplete⟩
      else ⟨bs.take remaining, .ok ([], bs.drop remaining)⟩ := by
    rw [hstate, decodeFrom]
  rw [read, if_neg hcapacity.ne', hstate]
  dsimp only
  rw [bind_ok hread]
  by_cases hbs : bs = []
  · subst hbs
    rw [if_pos take_nil]
    rw [if_pos (by simpa using hremaining)] at hdecode
    exact .error hdecode
  · have hk0 := hpos hbs
    have hbs0 := length_pos_iff.mpr hbs
    -- A cut behind the end is a cut at the end.
    rw [drop_eq_drop_min] at hs'
    rw [take_eq_take_min]
    generalize hj : min k bs.length = j at hs' ⊢
    have hlen : (bs.take j).length = j := by
      rw [length_take]
      omega
    have hne : bs.take j ≠ [] := ne_nil_of_length_pos (by omega)
    rw [if_neg hne]
    refine .data hs' ?_ rfl hne (by omega) (by rw [length_drop]; omega) ?_
    · unfold Live afterFixed
      split <;> simp_all
    · rw [hdecode, hlen]
      dsimp only [afterFixed]
      by_cases hlast : remaining - j = 0
      · obtain rfl : j = remaining := by omega
        rw [if_neg (by omega), if_pos hlast, decodeFrom, append_nil]
      · rw [if_neg hlast, decodeFrom, length_drop]
        by_cases hshort : bs.length < remaining
        · rw [if_pos hshort, if_pos (by omega), take_append_drop]
        · rw [if_neg hshort, if_neg (by omega), ← take_add, drop_drop,
            Nat.add_sub_cancel' (by omega)]

theorem readSize_step (hstate : reader.state = .chunked 0) (hs : Delivers s bs)
    (hcapacity : 0 < capacity) :
    Step limits reader capacity bs (reader.read capacity limits s) := by
  have hdecode : decodeFrom limits reader.state bs = decodeChunks limits (bs.length + 1) bs := by
    rw [hstate, decodeFrom]
  rw [decodeChunks] at hdecode
  obtain ⟨s', hsize, hs'⟩ := agrees_readChunkSize.apply hs
  rw [read, if_neg hcapacity.ne', hstate]
  show Step limits reader capacity bs ((readChunkSize limits.maxHeaderSize >>= _) s)
  cases hbytes : (readChunkSize limits.maxHeaderSize : ReadM Bytes Nat) bs with
  | mk r rest =>
    rw [hbytes] at hsize hs' hdecode
    cases r with
    | error e =>
      rw [bind_error hsize]
      exact .error hdecode
    | ok size =>
      rw [bind_ok hsize]
      dsimp only at hdecode
      by_cases hzero : size = 0
      · rw [if_pos hzero] at hdecode ⊢
        obtain ⟨s'', htrailers, hs''⟩ :=
          agrees_readTrailers.apply hs'
        cases ht : (readTrailers limits.maxHeaderSize limits.maxHeaderCount :
            ReadM Bytes Headers) rest with
        | mk r' rest' =>
          rw [ht] at htrailers hs'' hdecode
          cases r' with
          | error e =>
            rw [bind_error htrailers]
            exact .error hdecode
          | ok trailers =>
            rw [bind_ok htrailers]
            exact .finish hs'' hdecode
      · have hlt := readChunkSize_ok hbytes
        rw [if_neg hzero] at hdecode ⊢
        -- The first data of the chunk comes with the call that reads its size.
        have hchunk : decodeFrom limits reader.state bs =
          decodeFrom limits (.chunked size) rest := by
          rw [hdecode, decodeFrom_chunked hzero]
          exact decodeChunk_congr fun rest' hle =>
            decodeChunks_rounds (by omega) (by omega)
        exact readChunkData_step hs' hcapacity (pos_of_ne_zero hzero) hlt.le hchunk

theorem read_step (limits : HeaderLimits) (hlive : reader.Live) (hs : Delivers s bs)
    (hcapacity : 0 < capacity) :
    Step limits reader capacity bs (reader.read capacity limits s) := by
  cases hstate : reader.state with
  | finished =>
    rw [read, if_neg hcapacity.ne', hstate]
    exact .finish hs (by rw [hstate, decodeFrom])
  | contentLength remaining =>
    refine readFixed_step hstate hs hcapacity (pos_of_ne_zero ?_)
    rintro rfl
    exact hlive hstate
  | chunked remaining =>
    cases remaining with
    | zero => exact readSize_step hstate hs hcapacity
    | succ remaining =>
      rw [read, if_neg hcapacity.ne', hstate]
      exact readChunkData_step hs hcapacity remaining.succ_pos le_rfl (by rw [hstate])

/-! ### Call after call -/

/-- Call the reader with buffers of these sizes until it ends: the data it delivered and how it
ended, `none` when the sizes ran out first. -/
def drain (limits : HeaderLimits) :
    (sizes : List Nat) → RequestBodyReader → σ → (Bytes × Option (Except IoError Headers)) × σ
  | [], _, s => (([], none), s)
  | size :: sizes, reader, s =>
    match reader.read size limits s with
    | (.error e, s) => (([], some (.error e)), s)
    | (.ok (.finish trailers, _), s) => (([], some (.ok trailers)), s)
    | (.ok (.data bytes, reader), s) =>
      let (rest, s) := drain limits sizes reader s
      ((bytes ++ rest.1, rest.2), s)

/-- With enough calls of any sizes, a body that decodes is delivered whole, and one that does not is
given up for the same reason, after some of its data. -/
def Yields (limits : HeaderLimits) (reader : RequestBodyReader) (s : σ) (decoded : Decoded) :
    Prop :=
  ∃ enough, ∀ sizes, (∀ size ∈ sizes, 0 < size) → enough ≤ sizes.length →
    match decoded.verdict with
    | .ok (trailers, rest) => ∃ s', Delivers s' rest ∧
        drain limits sizes reader s = ((decoded.data, some (.ok trailers)), s')
    | .error e => ∃ delivered s', delivered <+: decoded.data ∧
        drain limits sizes reader s = ((delivered, some (.error e)), s')

theorem yields (limits : HeaderLimits) (hlive : reader.Live) (hs : Delivers s bs) :
    reader.Yields limits s (decodeFrom limits reader.state bs) := by
  refine ⟨bs.length + 1, fun sizes hsizes henough => ?_⟩
  induction sizes generalizing reader s bs with
  | nil => simp at henough
  | cons size sizes ih =>
    have hstep := read_step limits hlive hs (hsizes size mem_cons_self)
    rw [drain]
    generalize reader.read size limits s = result at hstep ⊢
    cases hstep with
    | error hdecoded =>
      rw [hdecoded]
      exact ⟨[], _, nil_prefix, rfl⟩
    | finish hdelivers hdecoded =>
      rw [hdecoded]
      exact ⟨_, hdelivers, rfl⟩
    | @data bytes reader' s' bs' hdelivers hlive' _ hne _ hshorter hdecoded =>
      have hrest := ih hlive' hdelivers (fun n hn => hsizes n (mem_cons_of_mem _ hn))
        (by rw [length_cons] at henough; omega)
      rw [hdecoded]
      cases hv : (decodeFrom limits reader'.state bs').verdict with
      | error e =>
        rw [hv] at hrest
        obtain ⟨delivered, s'', hpre, heq⟩ := hrest
        refine ⟨bytes ++ delivered, s'', (prefix_append_right_inj bytes).mpr hpre, ?_⟩
        simp [heq]
      | ok tr =>
        rw [hv] at hrest
        obtain ⟨s'', hs'', heq⟩ := hrest
        refine ⟨s'', hs'', ?_⟩
        simp [heq]

end RequestBodyReader

open RequestBodyReader

/-! ### Collecting up to a limit -/

section Collect

variable {σ : Type} [Read σ]

/-- What the collector can return, when a body under `framing` decodes to `decoded`. -/
inductive Collected (limits : HeaderLimits) (limit : Nat) (framing : RequestBodyFraming)
    (decoded : Decoded) : Except IoError BoundedRequestBody × σ → Prop
  | complete {trailers rest s'} (delivers : Delivers s' rest)
      (verdict : decoded.verdict = .ok (trailers, rest)) (fits : decoded.data.length ≤ limit) :
      Collected limits limit framing decoded (.ok (.complete decoded.data trailers), s')
  | overflow {pre reader bs' s'}
      (delivers : Delivers s' bs') (live : reader.Live) (framing_eq : reader.framing = framing)
      (yields : reader.Yields limits s' (decodeFrom limits reader.state bs'))
      (short : pre.length ≤ limit + 1)
      (decoded_eq : decoded = ⟨pre ++ (decodeFrom limits reader.state bs').data,
        (decodeFrom limits reader.state bs').verdict⟩)
      (exceeds : ∀ trailers rest, decoded.verdict = .ok (trailers, rest) →
        limit < decoded.data.length) :
      Collected limits limit framing decoded (.ok (.overflow pre reader), s')
  | error {e s'} (verdict : decoded.verdict = .error e) :
      Collected limits limit framing decoded (.error e, s')

variable {limits : HeaderLimits}

theorem collectLoop_spec {body} {s : σ} (hs : Delivers s bs) (hlive : reader.Live)
    (hbody : body.length ≤ limit) (hrounds : limit + 1 < rounds + body.length)
    (hfits : limit < usizeMax ∨
      (body ++ (decodeFrom limits reader.state bs).data).length < usizeMax) :
    Collected limits limit reader.framing
      ⟨body ++ (decodeFrom limits reader.state bs).data,
        (decodeFrom limits reader.state bs).verdict⟩
      (collectLoop limit limits rounds reader body s) := by
  induction rounds generalizing reader body bs s with
  | zero => omega
  | succ rounds ih =>
    have hallowed : 0 < saturatingAdd limit 1 - body.length := by
      unfold saturatingAdd
      rw [length_append] at hfits
      omega
    have hcapacity : 0 < min (saturatingAdd limit 1 - body.length) requestBodyChunkSize := by
      unfold requestBodyChunkSize
      omega
    have hstep := read_step limits hlive hs hcapacity
    rw [collectLoop, if_neg hallowed.ne']
    cases hr : reader.read (min (saturatingAdd limit 1 - body.length) requestBodyChunkSize)
        limits s with
    | mk r s' =>
      rw [hr] at hstep
      cases hstep with
      | error hdecoded =>
        rw [bind_error hr]
        exact .error (by rw [hdecoded])
      | finish hdelivers hdecoded =>
        rw [bind_ok hr, hdecoded, append_nil]
        exact .complete hdelivers rfl hbody
      | @data bytes reader' s' bs' hdelivers hlive' hframing hne hshort hshorter hdecoded =>
        have hdata : body ++ (decodeFrom limits reader.state bs).data =
            body ++ bytes ++ (decodeFrom limits reader'.state bs').data := by
          rw [hdecoded, append_assoc]
        have hpre : (body ++ bytes).length ≤ limit + 1 := by
          have hallowance : bytes.length ≤ limit + 1 - body.length :=
            hshort.trans ((min_le_left _ _).trans
              (Nat.sub_le_sub_right (min_le_left _ _) body.length))
          rw [length_append]
          omega
        rw [bind_ok hr, hdata, hdecoded]
        dsimp only
        by_cases hover : limit < (body ++ bytes).length
        · rw [if_pos hover]
          refine .overflow hdelivers hlive' hframing (yields limits hlive' hdelivers)
            hpre rfl fun _ _ _ => ?_
          rw [length_append]
          omega
        · rw [hdata] at hfits
          rw [if_neg hover]
          have := length_pos_iff.mpr hne
          rw [← hframing]
          exact ih hdelivers hlive' (by omega) (by rw [length_append]; omega) hfits

theorem readRequestBodyBounded_spec {framing} {s : σ} (hs : Delivers s bs)
    (hfits : limit < usizeMax ∨ (decodeBody limits framing bs).data.length < usizeMax) :
    Collected limits limit framing (decodeBody limits framing bs)
      (readRequestBodyBounded framing limit limits s) := by
  have hlive := new_live framing
  have hloop : Collected limits limit framing
      ⟨[] ++ (decodeBody limits framing bs).data, (decodeBody limits framing bs).verdict⟩
      (collectLoop limit limits (limit + 2) (new framing) [] s) :=
    collectLoop_spec hs hlive (zero_le limit) (lt_succ_self (limit + 1)) hfits
  cases framing with
  | none | chunked => exact hloop
  | contentLength length =>
    unfold readRequestBodyBounded
    simp only [decide_eq_true_eq]
    by_cases hover : limit < length
    · -- A declared length over the limit is not read at all.
      rw [if_pos hover]
      refine .overflow hs hlive rfl (yields limits hlive hs) (by simp) rfl
        fun trailers rest hok => ?_
      have hstate : (new (.contentLength length)).state =
          .contentLength length := by
        cases length with
        | zero => omega
        | succ n => rfl
      rw [decodeBody, hstate, decodeFrom] at hok ⊢
      split_ifs at hok
      rw [if_neg ‹_›, length_take]
      omega
    · rwa [if_neg hover]

/-- A body decodes to one thing: the reader delivers it in buffers of any sizes from a stream that
cuts it in any way, and the collector returns it when it fits the limit, and otherwise its first
bytes with a reader for the others. -/
theorem requestBody_decodes (limits : HeaderLimits) (framing : RequestBodyFraming) {bs : Bytes}
    {s : σ} (hs : Delivers s bs) :
    (new framing).Yields limits s (decodeBody limits framing bs) ∧
      ∀ limit, (limit < usizeMax ∨ (decodeBody limits framing bs).data.length < usizeMax) →
        Collected limits limit framing (decodeBody limits framing bs)
          (readRequestBodyBounded framing limit limits s) :=
  ⟨yields limits (new_live framing) hs,
    fun _ hfits => readRequestBodyBounded_spec hs hfits⟩

end Collect

/-- The body `hello` in one chunk, with the first byte of the next request behind it, cut inside the
chunk and inside both of its line ends. -/
theorem requestBody_decodes_hello : (new .chunked).Yields ⟨64, 8⟩
      (⟨[utf8 "5\r", utf8 "\nhel", [], utf8 "lo\r", utf8 "\n0\r\n\r\nG"]⟩ : Fragments)
      ⟨utf8 "hello", .ok ([], utf8 "G")⟩ ∧
    Collected ⟨64, 8⟩ 3 .chunked ⟨utf8 "hello", .ok ([], utf8 "G")⟩
      (readRequestBodyBounded .chunked 3 ⟨64, 8⟩
        (⟨[utf8 "5\r", utf8 "\nhel", [], utf8 "lo\r", utf8 "\n0\r\n\r\nG"]⟩ : Fragments)) := by
  obtain ⟨hyields, hcollected⟩ := requestBody_decodes ⟨64, 8⟩ .chunked
    (Fragments.delivers [utf8 "5\r", utf8 "\nhel", [], utf8 "lo\r", utf8 "\n0\r\n\r\nG"])
  have hdecoded : decodeBody ⟨64, 8⟩ .chunked
      [utf8 "5\r", utf8 "\nhel", [], utf8 "lo\r",
        utf8 "\n0\r\n\r\nG"].flatten =
      ⟨utf8 "hello", .ok ([], utf8 "G")⟩ := by rfl
  rw [hdecoded] at hyields hcollected
  exact ⟨hyields, hcollected 3 (.inl (by decide))⟩

/-- How much of a chunk that breaks off is delivered before the failure depends on the buffer. -/
theorem drain_broken_chunk :
    ((new .chunked).drain ⟨64, 8⟩ [1, 1, 1] (utf8 "5\r\nab")).1 =
      (utf8 "ab", some (.error eofError)) ∧
    ((new .chunked).drain ⟨64, 8⟩ [16, 16, 16] (utf8 "5\r\nab")).1 =
      ([], some (.error eofError)) := by
  exact ⟨rfl, rfl⟩

end RsProxy.Net
