import RsProxy.Engine.UpstreamBody
import RsProxy.Net.Chunked

/-!
# The bodies an upstream may send

The chunked coding as an upstream may write it: sizes in hexadecimal digits of either case, with
extensions of any bytes, and a section of trailers. The relays take exactly the bytes of such a body
off the stream, however it is cut, and hand out exactly its content.
-/

namespace RsProxy.Engine

open Text Io Net List
open Rules (saturatingAdd usizeMax)
open Read (read)
open RelayM (emit ofRead ofRead_bind_ok emit_bind bind_done)

/-! ### The grammar -/

/-- The longest line the readers of the pooled path take. -/
def maxChunkLine : Nat := 8191

/-- A line that announces a chunk of this size. -/
structure ChunkLine (size : Nat) (line : Bytes) : Prop where
  fits : line.length ≤ maxChunkLine
  unbroken : 13 ∉ line
  spelled : ∃ digits extension, line = utf8 digits ++ extension ∧ IsNumeral 16 digits ∧
    parseHexUsize digits = some size ∧ (extension = [] ∨ extension.head? = some 59)

/-- A line of the trailer section, and the field it holds. -/
structure TrailerLine (line : Bytes) (field : Str × Str) : Prop where
  fits : line.length ≤ maxChunkLine
  unbroken : 13 ∉ line
  spelled : ∃ name value, splitOnce [':'] (fromUtf8Lossy line) = some (name, value) ∧
    field = (trim name, trim value)

/-- What the lines of a trailer section count against the header size. -/
def trailerSize (lines : List Bytes) : Nat :=
  (lines.map fun line => utf8Len (fromUtf8Lossy line) + 2).sum

/-- The lines of a trailer section under these limits. -/
structure TrailerSection (limits : HeaderLimits) (lines : List Bytes) (trailers : Headers) :
    Prop where
  spelled : Forall₂ TrailerLine lines trailers
  size : trailerSize lines ≤ limits.maxHeaderSize
  count : trailers.length ≤ limits.maxHeaderCount

/-- The wire form of a chunked body, its content and its trailers. -/
inductive ChunkedWire (limits : HeaderLimits) : Bytes → Bytes → Headers → Prop
  | last {line lines trailers} (size : ChunkLine 0 line)
      (ending : TrailerSection limits lines trailers) :
      ChunkedWire limits (line ++ crlf ++ (lines.flatMap (· ++ crlf) ++ crlf)) [] trailers
  | chunk {line data wire content : Bytes} {trailers} (size : ChunkLine data.length line)
      (nonempty : data ≠ []) (rest : ChunkedWire limits wire content trailers) :
      ChunkedWire limits (line ++ crlf ++ (data ++ (crlf ++ wire))) (data ++ content) trailers

/-! ### Lines -/

variable {line : Bytes} {size : Nat}

/-- What follows the size on a chunk line is no part of the size. -/
theorem ChunkLine.parse (h : ChunkLine size line) :
    parseChunkSize (fromUtf8Lossy line) = some size := by
  obtain ⟨digits, extension, rfl, hnum, hparse, hext⟩ := h.spelled
  have hplain : parseChunkSize digits = some size := (parseChunkSize_numeral hnum).trans hparse
  rw [fromUtf8Lossy_utf8_append]
  rcases hext with rfl | hext
  · rwa [show fromUtf8Lossy [] = [] from rfl, append_nil]
  · obtain ⟨tail, rfl⟩ := head?_eq_some_iff.mp hext
    have hsemicolon : ';' ∉ digits := hnum.notMem (by decide)
    rw [parseChunkSize, splitOn_of_notMem hsemicolon] at hplain
    rw [fromUtf8Lossy_one (by decide), parseChunkSize,
      show Char.ofNat (59 : UInt8).toNat = ';' by rfl, splitOn_append_cons hsemicolon]
    exact hplain

section Streams

variable {υ : Type} [Read υ]

theorem agrees_readLineLoop (limit : Nat) (tooLong : IoError) (decode : Bytes → Except IoError Str)
    (rounds : Nat) (seen : Bytes) :
    Agrees (readLineLoop limit tooLong decode rounds seen : ReadM υ Str)
      (readLineLoop limit tooLong decode rounds seen) := by
  induction rounds generalizing seen with
  | zero => exact agrees_fail _
  | succ rounds ih =>
    refine (agrees_readExact 1).bind fun byte => ?_
    refine Agrees.ite (fun _ => ?_) fun _ => Agrees.ite (fun _ => agrees_fail _) fun _ => ih _
    intro s bs hs
    simpa using hs

end Streams

variable {rounds : Nat} {decode : Bytes → Except IoError Str} {tooLong : IoError}

variable {limit : Nat} {seen : Bytes}

theorem readLineLoop_cons {rest : Bytes} {b} :
    readLineLoop limit tooLong decode (rounds + 1) seen (b :: rest) =
      if crlf.isSuffixOf (seen ++ [b]) then
        (decode ((seen ++ [b]).take ((seen ++ [b]).length - 2)), rest)
      else if limit < (seen ++ [b]).length then (.error tooLong, rest)
      else readLineLoop limit tooLong decode rounds (seen ++ [b]) rest := by
  have hread : readExact 1 (b :: rest) = (.ok [b], rest) := by simp [readExact_bytes]
  rw [readLineLoop, ReadM.bind_ok hread]
  split
  · rw [liftExcept_apply]
  · split <;> rfl

variable (rest : Bytes)

/-- The loop passes over a line that holds no line end. -/
theorem readLineLoop_line {todo} (hopen : ¬ crlf <:+: seen ++ todo ++ [13])
    (hlimit : (seen ++ todo).length < limit) (hrounds : todo.length + 2 ≤ rounds) :
    readLineLoop limit tooLong decode rounds seen (todo ++ (crlf ++ rest)) =
      (decode (seen ++ todo), rest) := by
  obtain ⟨rounds, rfl⟩ : ∃ n, rounds = n + 2 := ⟨rounds - 2, by omega⟩
  have hnot : ∀ {front}, front <+: seen ++ todo ++ [13] → ¬ crlf.isSuffixOf front :=
    fun hfront hend =>
      hopen ((isSuffixOf_iff_suffix.mp hend).isInfix.trans hfront.isInfix)
  induction todo generalizing seen rounds with
  | nil =>
    have hend : crlf.isSuffixOf (seen ++ [13] ++ [10]) := isSuffixOf_crlf.mpr ⟨rfl, seen, rfl⟩
    rw [append_nil] at hlimit hnot
    rw [nil_append, crlf, cons_append, singleton_append, readLineLoop_cons,
      if_neg (hnot (prefix_refl _)),
      if_neg (by rw [length_append, length_singleton]; omega), readLineLoop_cons,
      if_pos hend]
    simp
  | cons b todo ih =>
    have hfront : ¬ crlf.isSuffixOf (seen ++ [b]) := hnot ⟨todo ++ [13], by simp⟩
    rw [length_append] at hlimit
    rw [length_cons] at hrounds
    rw [cons_append, readLineLoop_cons, if_neg hfront,
      if_neg (by rw [length_append, length_singleton]; omega)]
    obtain _ | rounds := rounds
    · omega
    have happend : seen ++ [b] ++ todo = seen ++ b :: todo := by simp
    rw [ih (happend ▸ hopen) (by simp; omega) _ (by omega) (happend ▸ hnot), happend]

variable {limits : HeaderLimits} {trailers : Headers} {lines : List Bytes}

variable {buffer : Nat} {wire content : Bytes}

section Streams

variable {υ : Type} [Read υ]

omit [Read υ] in
theorem crlf_not_inside (h : 13 ∉ line) : ¬ crlf <:+: line ++ [13] := by
  rw [infix_append_singleton]
  rintro (hin | ⟨front, hend⟩)
  · exact h (hin.subset (by decide))
  · have hlast := congrArg getLast? hend
    simp [crlf] at hlast

theorem reads_readCrlfLine (hopen : ¬ crlf <:+: line ++ [13]) (hfits : line.length ≤ maxChunkLine)
    {rest} :
    Reads (readCrlfLine : ReadM υ Str) (line ++ (crlf ++ rest)) (fromUtf8Lossy line) rest := by
  unfold maxChunkLine at hfits
  apply (agrees_readLineLoop _ _ _ _ _).reads
  exact readLineLoop_line rest hopen (by simp; omega) (by omega)

/-- The empty line that ends a section. -/
theorem reads_readCrlfLine_nil : Reads (readCrlfLine : ReadM υ Str) (crlf ++ rest) [] rest :=
  reads_readCrlfLine (crlf_not_inside not_mem_nil) (Nat.zero_le _)

theorem reads_readDelimiter : Reads (readDelimiter : ReadM υ Unit) (crlf ++ rest) () rest :=
  reads_readExact.bind reads_pure

theorem ChunkLine.reads (h : ChunkLine size line) (rest : Bytes) :
    Reads (readCrlfLine : ReadM υ Str) (line ++ (crlf ++ rest)) (fromUtf8Lossy line) rest :=
  reads_readCrlfLine (crlf_not_inside h.unbroken) h.fits

theorem ChunkLine.reads_size (h : ChunkLine size line) (message : Str) (rest : Bytes) :
    Reads (chunkSizeOf (fromUtf8Lossy line) message : ReadM υ Nat) rest size rest := by
  rw [chunkSizeOf, h.parse]
  exact reads_pure

/-! ### Trailers -/

theorem TrailerLine.not_isEmpty {field} (h : TrailerLine line field) :
    (fromUtf8Lossy line).isEmpty = false := by
  obtain ⟨name, value, hcut, -⟩ := h.spelled
  rw [splitOnce_eq_some hcut]
  simp

theorem reads_readResponseTrailers {done} (hlines : List.Forall₂ TrailerLine lines trailers)
    (hrounds : trailers.length < rounds) (hsize : size + trailerSize lines ≤ limits.maxHeaderSize)
    (hcount : done.length + trailers.length ≤ limits.maxHeaderCount) {rest} :
    Reads (readResponseTrailersLoop readCrlfLine true limits.maxHeaderSize limits.maxHeaderCount
        rounds done size : ReadM υ Headers)
      (lines.flatMap (· ++ crlf) ++ (crlf ++ rest)) (done ++ trailers) rest := by
  obtain _ | rounds := rounds
  · omega
  induction hlines generalizing rounds size done with
  | nil =>
    rw [append_nil]
    exact (reads_readCrlfLine_nil rest).bind reads_pure
  | @cons line field lines fields hline hlines ih =>
    obtain ⟨name, value, hcut, rfl⟩ := hline.spelled
    rw [length_cons] at hrounds hcount
    rw [trailerSize, map_cons, sum_cons] at hsize
    obtain _ | rounds := rounds
    · omega
    rw [flatMap_cons, append_assoc, append_assoc]
    refine (reads_readCrlfLine (crlf_not_inside hline.unbroken) hline.fits).bind ?_
    have hadd : saturatingAdd size (utf8Len (fromUtf8Lossy line) + 2) ≤
        size + (utf8Len (fromUtf8Lossy line) + 2) := Nat.min_le_left _ _
    rw [hline.not_isEmpty, if_neg Bool.false_ne_true, if_neg (by simp; omega), hcut, append_cons]
    exact ih (by rw [trailerSize]; omega) (by simp; omega) rounds (by omega)

theorem TrailerSection.reads (h : TrailerSection limits lines trailers) (rest : Bytes) :
    Reads (readResponseTrailersLoop readCrlfLine true limits.maxHeaderSize limits.maxHeaderCount
        (limits.maxHeaderCount + 1) [] 0 : ReadM υ Headers)
      (lines.flatMap (· ++ crlf) ++ (crlf ++ rest)) trailers rest :=
  reads_readResponseTrailers h.spelled (Nat.lt_succ_of_le h.count) (by simpa using h.size)
    (by simpa using h.count)

/-- The reader of event streams passes over the trailers. -/
theorem relays_skipTrailers (hlines : List.Forall₂ TrailerLine lines trailers)
    (hrounds : lines.length < rounds) {rest} :
    Relays (skipTrailers rounds : RelayM υ Bytes Unit)
      (lines.flatMap (· ++ crlf) ++ (crlf ++ rest)) [] () rest := by
  obtain _ | rounds := rounds
  · omega
  induction hlines generalizing rounds with
  | nil => exact (reads_readCrlfLine_nil rest).bind_relays (relays_pure () rest)
  | @cons line field lines fields hline hlines ih =>
    rw [length_cons] at hrounds
    obtain _ | rounds := rounds
    · omega
    rw [flatMap_cons, append_assoc, append_assoc]
    refine (reads_readCrlfLine (crlf_not_inside hline.unbroken) hline.fits).bind_relays ?_
    rw [hline.not_isEmpty]
    exact ih rounds (by omega)

/-! ### The relays -/

theorem relays_relayExactLoop (hbuffer : 0 < buffer) {data} (hrounds : data.length ≤ rounds)
    {rest} :
    Relays (relayExactLoop buffer rounds data.length : RelayM υ Bytes Unit) (data ++ rest) data ()
      rest := by
  induction rounds generalizing data with
  | zero =>
    obtain rfl : data = [] := length_eq_zero_iff.mp (by omega)
    exact relays_pure () rest
  | succ rounds ih =>
    cases hdata : data.length with
    | zero =>
      obtain rfl : data = [] := length_eq_zero_iff.mp hdata
      exact relays_pure () rest
    | succ n =>
      -- One round takes a buffer full of data, or all that is left.
      obtain ⟨now, later, rfl, hnow⟩ :
          ∃ now later, data = now ++ later ∧ now.length = min (n + 1) buffer :=
        ⟨data.take (min (n + 1) buffer), data.drop (min (n + 1) buffer),
          (take_append_drop _ _).symm, by rw [length_take]; omega⟩
      rw [length_append] at hdata hrounds
      have hne : now ≠ [] := ne_nil_of_length_pos (by omega)
      have hlater : later.length = n + 1 - min (n + 1) buffer := by omega
      rw [relayExactLoop, ← hlater, ← hnow, append_assoc]
      exact reads_readExact.bind_relays ((relays_emit hne).bind (ih (by omega)))

theorem relays_relayExact {data rest} :
    Relays (relayExact data.length : RelayM υ Bytes Unit) (data ++ rest) data () rest :=
  relays_relayExactLoop (by decide) (le_refl _)

theorem relays_relayToEndLoop (hbuffer : 0 < buffer) (ends : IoError → Bool) {bs}
    (hrounds : bs.length < rounds) :
    Relays (relayToEndLoop buffer ends rounds : RelayM υ Bytes Unit) bs bs () [] := by
  induction rounds generalizing bs with
  | zero => omega
  | succ rounds ih =>
    intro s hs
    obtain ⟨k, s', hread, hs', hk, hpos⟩ := hs.read hbuffer
    have hone : readOrEnd buffer ends s = (.ok (bs.take k), s') := by rw [readOrEnd, hread]
    rw [relayToEndLoop, ofRead_bind_ok hone]
    by_cases hbs : bs = []
    · subst hbs
      exact ⟨[], s', by simp, rfl, forall_mem_nil _, by simpa using hs'⟩
    · have hpos := hpos hbs
      have hlen := length_pos_iff.mpr hbs
      have hne : bs.take k ≠ [] := by
        apply ne_nil_of_length_pos
        rw [length_take]
        omega
      have hround : Relays (emit (bs.take k) >>= fun _ => relayToEndLoop buffer ends rounds :
          RelayM υ Bytes Unit) (bs.drop k) (bs.take k ++ bs.drop k) () [] :=
        (relays_emit hne).bind (ih (by rw [length_drop]; omega))
      rw [take_append_drop] at hround
      rw [if_neg (by simpa using hne)]
      exact hround s' hs'

theorem ensures_nextFrame {υ} [Read υ] {state P}
    (h : (nextInner limits state : ReadM υ _).Ensures P) :
    (nextFrame limits state : ReadM υ _).Ensures P := by
  intro s next s' hnext
  unfold nextFrame at hnext
  rcases hinner : nextInner limits state s with ⟨e | given, s''⟩
  · rw [hinner] at hnext
    cases hnext
  · rw [hinner] at hnext
    cases hnext
    exact h s next s' hinner

/-- A body up to the end of the connection is read like any other stream. -/
theorem nextInner_closeDelimited :
    (nextInner limits .closeDelimited : ReadM υ _) = (do
      let bytes ← readOrEnd readBufferSize tlsCloseNotifyMissing
      pure (if bytes.isEmpty then (none, .done) else (some (.data bytes), .closeDelimited))) := by
  funext s
  rcases hread : Read.read readBufferSize s with ⟨e | bytes, s'⟩
  · cases hends : tlsCloseNotifyMissing e with
    | true =>
      have hend : readOrEnd readBufferSize tlsCloseNotifyMissing s = (.ok [], s') := by
        rw [readOrEnd, hread]
        simp [hends]
      rw [ReadM.bind_ok hend]
      simp [nextInner, hread, hends]
    | false =>
      have hend : readOrEnd readBufferSize tlsCloseNotifyMissing s = (.error e, s') := by
        rw [readOrEnd, hread]
        simp [hends]
      rw [ReadM.bind_error hend]
      simp [nextInner, hread, hends]
  · have hdata : readOrEnd readBufferSize tlsCloseNotifyMissing s = (.ok bytes, s') := by
      rw [readOrEnd, hread]
    rw [ReadM.bind_ok hdata]
    simp [nextInner, hread]

/-- A chunked body takes a round for every chunk. -/
theorem ChunkedWire.relays (h : ChunkedWire limits wire content trailers)
    (hrounds : wire.length < rounds) (rest : Bytes) :
    Relays (relayChunked limits rounds : RelayM υ Bytes Headers) (wire ++ rest) content trailers
      rest := by
  obtain _ | rounds := rounds
  · omega
  induction h generalizing rounds with
  | @last line lines trailers size ending =>
    simp only [append_assoc]
    refine (size.reads _).bind_relays ((size.reads_size _ _).bind_relays ?_)
    exact (ending.reads rest).relays
  | @chunk line data wire content trailers size nonempty _ ih =>
    have hpos := length_pos_iff.mpr nonempty
    simp only [length_append] at hrounds
    obtain _ | rounds := rounds
    · omega
    simp only [append_assoc]
    refine (size.reads _).bind_relays ((size.reads_size _ _).bind_relays ?_)
    rw [if_neg (by simpa using nonempty)]
    refine relays_relayExact.bind ((reads_readDelimiter _).bind_relays ?_)
    exact ih rounds (by omega)

theorem length_le_flatMap_crlf (lines : List Bytes) :
    lines.length ≤ (lines.flatMap (· ++ crlf)).length := by
  induction lines with
  | nil => simp
  | cons line lines ih =>
    have hcrlf : crlf.length = 2 := rfl
    rw [flatMap_cons, length_append, length_append, length_cons]
    omega

theorem ChunkedWire.relays_sse (h : ChunkedWire limits wire content trailers)
    (hrounds : wire.length < rounds) {rest} :
    Relays (streamSseChunks rounds : RelayM υ Bytes Unit) (wire ++ rest) content () rest := by
  obtain _ | rounds := rounds
  · omega
  induction h generalizing rounds with
  | @last line lines trailers size ending =>
    have hlines := length_le_flatMap_crlf lines
    simp only [length_append] at hrounds
    simp only [append_assoc]
    refine (size.reads _).bind_relays ((size.reads_size _ _).bind_relays ?_)
    have hcrlf : crlf.length = 2 := rfl
    exact relays_skipTrailers ending.spelled (by omega)
  | @chunk line data wire content trailers size nonempty _ ih =>
    have hpos := length_pos_iff.mpr nonempty
    simp only [length_append] at hrounds
    obtain _ | rounds := rounds
    · omega
    simp only [append_assoc]
    refine (size.reads _).bind_relays ((size.reads_size _ _).bind_relays ?_)
    rw [if_neg (by simpa using nonempty)]
    refine reads_readExact.bind_relays ((reads_readDelimiter _).bind_relays ?_)
    exact (relays_emit nonempty).bind (ih rounds (by omega))

end Streams

end RsProxy.Engine
