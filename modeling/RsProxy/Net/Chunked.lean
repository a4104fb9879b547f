import RsProxy.Net.Decode
import RsProxy.Data.Results

/-!
# The chunked coding, written and read back

`chunkedBody` is the wire form of a body in fragments with its trailers. The reader gets the
fragments back one after the other and the trailers with their values trimmed. The encoders of the
engine meet the reader here.
-/

namespace RsProxy.Net

open Text Io List Nat
open Data (do_eq_ok)
open Rules (usizeMax saturatingAdd isHttpTokenChar)

/-! ### The wire form -/

def chunk (data : Bytes) : Bytes := utf8 (upperHex data.length) ++ crlf ++ data ++ crlf

/-- A trailer on a line of its own, without the line end. -/
def trailerLine (field : Str × Str) : Str := field.1 ++ ": " ++ field.2

def lastChunk (trailers : Headers) : Bytes :=
  utf8 "0" ++ crlf ++ trailers.flatMap (fun field => utf8 (trailerLine field) ++ crlf) ++ crlf

/-- A chunk for every fragment that has any data, then the last chunk. -/
def chunkedBody (fragments : List Bytes) (trailers : Headers) : Bytes :=
  (fragments.filter fun data => !data.isEmpty).flatMap chunk ++ lastChunk trailers

/-- Limits a line of the coding always fits: sixteen digits of a size, and room in a word. -/
structure HeaderLimits.Workable (limits : HeaderLimits) : Prop where
  digits : 16 ≤ limits.maxHeaderSize
  word : limits.maxHeaderSize < usizeMax

theorem HeaderLimits.Workable.fits {limits : HeaderLimits} (h : limits.Workable) {n}
    (hn : n ≤ 16 + 2 ∨ n ≤ limits.maxHeaderSize) : n ≤ saturatingAdd limits.maxHeaderSize 2 := by
  have hsmall : 16 + 2 ≤ usizeMax := by decide
  have := h.digits
  have := h.word
  unfold saturatingAdd
  omega

/-! ### Lines -/

variable {line : Str} {b : UInt8}

theorem notMem_utf8 (hb : b.toNat < 128) (hline : Char.ofNat b.toNat ∉ line) : b ∉ utf8 line :=
  fun h => hline (mem_of_mem_utf8 h hb)

variable {buf : Bytes}

theorem isSuffixOf_crlf :
    crlf.isSuffixOf (buf ++ [b]) ↔ b = 10 ∧ ∃ before, buf = before ++ [13] := by
  rw [isSuffixOf_iff_suffix]
  constructor
  · rintro ⟨before, h⟩
    have h : (before ++ [13]) ++ [10] = buf ++ [b] := by rw [← h, append_assoc]; rfl
    obtain ⟨h1, h2⟩ := append_inj' h rfl
    exact ⟨(singleton_inj.mp h2).symm, before, h1.symm⟩
  · rintro ⟨rfl, before, rfl⟩
    exact ⟨before, by simp [crlf]⟩

variable {rounds : Nat} {limit : Nat} {rest : Bytes}

theorem readCrlfLineLoop_cons (hlen : buf.length < saturatingAdd limit 2) :
    readCrlfLineLoop limit (rounds + 1) buf (b :: rest) =
      if crlf.isSuffixOf (buf ++ [b]) then
        match fromUtf8 ((buf ++ [b]).take ((buf ++ [b]).length - 2)) with
        | some line => (.ok line, rest)
        | none => (.error (invalidData "request chunk line is not UTF-8"), rest)
      else readCrlfLineLoop limit rounds (buf ++ [b]) rest := by
  have hread : readExact 1 (b :: rest) = (.ok [b], rest) := by simp [readExact_bytes]
  have hfits : ¬ saturatingAdd limit 2 < (buf ++ [b]).length := by
    rw [length_append, length_singleton]
    omega
  rw [readCrlfLineLoop, ReadM.bind_ok hread, if_neg hfits]
  split
  · cases fromUtf8 ((buf ++ [b]).take ((buf ++ [b]).length - 2)) <;> rfl
  · rfl

/-- The loop passes over a line that holds no carriage return. -/
theorem readCrlfLineLoop_line {seen todo} (hline : utf8 line = seen ++ todo) (hcr : 13 ∉ utf8 line)
    (hlimit : (utf8 line).length + 2 ≤ saturatingAdd limit 2) (hrounds : todo.length + 2 ≤ rounds) :
    readCrlfLineLoop limit rounds seen (todo ++ crlf ++ rest) = (.ok line, rest) := by
  have hlen : (utf8 line).length = seen.length + todo.length := by rw [hline, length_append]
  obtain ⟨rounds, rfl⟩ : ∃ n, rounds = n + 2 := ⟨rounds - 2, by omega⟩
  induction todo generalizing seen rounds with
  | nil =>
    have hcr_open : ¬ crlf.isSuffixOf (seen ++ [13]) := by
      rw [isSuffixOf_crlf]
      exact fun h => absurd h.1 (by decide)
    have hend : crlf.isSuffixOf (seen ++ [13] ++ [10]) := isSuffixOf_crlf.mpr ⟨rfl, seen, rfl⟩
    have htake : (seen ++ [13] ++ [10]).take ((seen ++ [13] ++ [10]).length - 2) = utf8 line := by
      simp [hline]
    rw [nil_append, crlf, cons_append, singleton_append,
      readCrlfLineLoop_cons (by omega), if_neg hcr_open,
      readCrlfLineLoop_cons (by simp only [length_append, length_singleton]; omega),
      if_pos hend, htake, fromUtf8_utf8]
  | cons b todo ih =>
    have hopen : ¬ crlf.isSuffixOf (seen ++ [b]) := by
      rw [isSuffixOf_crlf]
      rintro ⟨-, before, rfl⟩
      exact hcr (by simp [hline])
    rw [cons_append, cons_append, readCrlfLineLoop_cons (by omega), if_neg hopen]
    rw [length_cons] at hlen hrounds
    obtain _ | rounds := rounds
    · omega
    refine ih (by rw [hline, append_assoc]; rfl) ?_ _ (by omega)
    rw [length_append, length_singleton]
    omega

theorem readCrlfLineLimited_line (rest : Bytes) (hcr : '\r' ∉ line)
    (hlimit : utf8Len line + 2 ≤ saturatingAdd limit 2) :
    readCrlfLineLimited limit (utf8 line ++ crlf ++ rest) = (.ok line, rest) := by
  rw [← length_utf8] at hlimit
  exact readCrlfLineLoop_line (nil_append _).symm (notMem_utf8 (by decide) hcr) hlimit (by omega)

/-! ### Chunks -/

variable {size : Nat} {name : Str}

section Chunks

variable {limits : HeaderLimits}

theorem readChunkSize_line (rest : Bytes) (hcr : '\r' ∉ line)
    (hlimit : utf8Len line + 2 ≤ saturatingAdd limits.maxHeaderSize 2)
    (hsize : parseChunkSize line = some size) :
    readChunkSize limits.maxHeaderSize (utf8 line ++ crlf ++ rest) = (.ok size, rest) := by
  rw [readChunkSize, ReadM.bind_ok (readCrlfLineLimited_line rest hcr hlimit), hsize]
  rfl

/-- A numeral is read as a chunk size as it stands. -/
theorem parseChunkSize_numeral (h : IsNumeral 16 line) :
    parseChunkSize line = parseHexUsize line := by
  rw [parseChunkSize, splitOn_of_notMem (h.notMem (by decide)), headD_cons, trim,
    trimMatches_of_forall (h.not_isWhitespace (by decide))]

theorem length_utf8_upperHex {n} (h : n ≤ usizeMax) : (utf8 (upperHex n)).length ≤ 16 := by
  have hascii : ∀ c ∈ upperHex n, c.toNat < 128 := by
    intro c hc
    have := range_of_digitOf (by decide) ((isNumeral_upperHex n).2 c hc)
    omega
  rw [length_utf8, utf8Len_of_ascii hascii]
  exact length_upperHex h

theorem readChunkSize_upperHex (hlimits : limits.Workable) (hsize : size ≤ usizeMax)
    (rest : Bytes) : readChunkSize limits.maxHeaderSize (utf8 (upperHex size) ++ crlf ++ rest) =
      (.ok size, rest) := by
  have hnum := isNumeral_upperHex size
  refine readChunkSize_line rest (hnum.notMem (by decide)) ?_
    ((parseChunkSize_numeral hnum).trans (parseHexUsize_upperHex hsize))
  rw [← length_utf8]
  exact hlimits.fits (.inl (Nat.add_le_add_right (length_utf8_upperHex hsize) 2))

/-- A chunk is read back, and decoding goes on behind it. -/
theorem decodeChunks_chunk (hlimits : limits.Workable) {data : Bytes} (hne : data ≠ [])
    (hlen : data.length ≤ usizeMax) :
    decodeChunks limits (rounds + 1) (chunk data ++ rest) =
      ⟨data ++ (decodeChunks limits rounds rest).data,
        (decodeChunks limits rounds rest).verdict⟩ := by
  have hsize := readChunkSize_upperHex hlimits hlen (data ++ (crlf ++ rest))
  have hwire : chunk data ++ rest =
      utf8 (upperHex data.length) ++ crlf ++ (data ++ (crlf ++ rest)) := by
    simp [chunk]
  have hend : readChunkEnd (crlf ++ rest) = (.ok (), rest) := by
    rfl
  rw [hwire, decodeChunks, hsize]
  dsimp only
  rw [if_neg (by simpa using hne), decodeChunk, if_neg (by simp), drop_left, hend, take_left]

end Chunks

/-! ### Trailers -/

theorem validateRequestTrailer_ok_iff {value} :
    validateRequestTrailer name value = .ok () ↔ name ≠ [] ∧ (∀ c ∈ name, isHttpTokenChar c) ∧
      requestTrailerForbidden name = false ∧ ∀ c ∈ value, breaksField c = false := by
  unfold validateRequestTrailer
  split
  next h =>
    refine iff_of_false nofun fun hok => ?_
    rw [Bool.or_eq_true, List.isEmpty_iff, Bool.not_eq_true', all_eq_false] at h
    rcases h with h | ⟨c, hc, h⟩
    · exact hok.1 h
    · exact h (hok.2.1 c hc)
  next h =>
    rw [Bool.or_eq_true, not_or, List.isEmpty_iff, Bool.not_eq_true', Bool.not_eq_false,
      all_eq_true] at h
    split
    next hforbidden => exact iff_of_false nofun fun hok => by simp [hforbidden] at hok
    next hforbidden =>
      split
      next hvalue =>
        refine iff_of_false nofun fun hok => ?_
        obtain ⟨c, hc, hbreaks⟩ := any_eq_true.mp hvalue
        rw [hok.2.2.2 c hc] at hbreaks
        cases hbreaks
      next hvalue =>
        refine iff_of_true rfl ⟨h.1, h.2, Bool.eq_false_iff.mpr hforbidden, fun c hc => ?_⟩
        exact Bool.eq_false_iff.mpr fun hbreaks => hvalue (any_eq_true.mpr ⟨c, hc, hbreaks⟩)

/-- What the checker charges for the trailers. -/
def trailerCharge (trailers : Headers) : Nat :=
  (trailers.map fun field => utf8Len field.1 + utf8Len field.2 + 32).sum

variable {trailers : Headers}

theorem validateRequestTrailers_ok {maxHeaderSize maxHeaderCount}
    (h : validateRequestTrailers trailers maxHeaderSize maxHeaderCount = .ok ()) :
    trailers.length ≤ maxHeaderCount ∧
      (∀ field ∈ trailers, validateRequestTrailer field.1 field.2 = .ok ()) ∧
      min (trailerCharge trailers) usizeMax ≤ maxHeaderSize := by
  have hfold : ∀ fields before total, before ≤ usizeMax →
      fields.foldlM (fun size field => do
        validateRequestTrailer field.1 field.2
        pure (saturatingAdd (saturatingAdd (saturatingAdd size (utf8Len field.1))
          (utf8Len field.2)) 32)) before = .ok total →
      (∀ field ∈ fields, validateRequestTrailer field.1 field.2 = .ok ()) ∧
        total = min (before + trailerCharge fields) usizeMax := by
    intro fields
    induction fields with
    | nil =>
      rintro before total hbefore h
      cases h
      exact ⟨nofun, by simp [trailerCharge, hbefore]⟩
    | cons field fields ih =>
      intro before total hbefore h
      obtain ⟨size, hsize, h⟩ := do_eq_ok.mp h
      obtain ⟨⟨⟩, hvalid, hsize⟩ := do_eq_ok.mp hsize
      cases hsize
      obtain ⟨hall, htotal⟩ := ih _ total (min_le_right _ _) h
      refine ⟨forall_mem_cons.mpr ⟨hvalid, hall⟩, ?_⟩
      rw [htotal]
      simp only [saturatingAdd, trailerCharge, map_cons, sum_cons]
      omega
  unfold validateRequestTrailers at h
  split_ifs at h with hcount
  obtain ⟨total, htotal, h⟩ := do_eq_ok.mp h
  obtain ⟨hall, rfl⟩ := hfold trailers 0 total (zero_le _) htotal
  split_ifs at h with hsize
  exact ⟨not_lt.mp hcount, hall, by omega⟩

theorem isWhitespace_of_isHttpTokenChar {c} (h : isHttpTokenChar c) : isWhitespace c = false := by
  rw [isHttpTokenChar, Bool.or_eq_true, contains_iff_mem] at h
  rcases h with h | h
  · rw [isAlphanum_iff] at h
    simp only [isWhitespace, Bool.or_eq_false_iff, Bool.and_eq_false_iff,
      decide_eq_false_iff_not, beq_eq_false_iff_ne]
    omega
  · revert c
    decide

theorem trim_token (h : ∀ c ∈ name, isHttpTokenChar c) : trim name = name :=
  trimMatches_of_forall fun c hc => isWhitespace_of_isHttpTokenChar (h c hc)

variable {field : Str × Str}

theorem colon_notMem (h : ∀ c ∈ name, isHttpTokenChar c) : ':' ∉ name :=
  fun hmem => absurd (h ':' hmem) (by decide)

/-- The name and the value of a line. -/
theorem splitOnce_trailerLine (h : ':' ∉ field.1) :
    splitOnce [':'] (trailerLine field) = some (field.1, [' '] ++ field.2) :=
  splitOnce_singleton.mpr ⟨by simp [trailerLine], h⟩

/-- A trailer that passes the check is read back from its line, its value trimmed. -/
theorem parseTrailer_line (h : validateRequestTrailer field.1 field.2 = .ok ()) :
    parseTrailer (trailerLine field) = .ok (field.1, trim field.2) := by
  obtain ⟨hne, htoken, hforbidden, hvalue⟩ := validateRequestTrailer_ok_iff.mp h
  have hvalid : validateRequestTrailer field.1 (trim field.2) = .ok () :=
    validateRequestTrailer_ok_iff.mpr ⟨hne, htoken, hforbidden,
      fun c hc => hvalue c (trimMatches_sublist.subset hc)⟩
  rw [parseTrailer, splitOnce_trailerLine (colon_notMem htoken)]
  dsimp only
  rw [trim_token htoken, trim_blank, if_neg (by simpa using hne), hvalid]
  rfl

variable {done : Headers}

section Trailers

variable {limits : HeaderLimits}

theorem utf8Len_append {a b} : utf8Len (a ++ b) = utf8Len a + utf8Len b := by
  simp [utf8Len]

theorem utf8Len_trailerLine :
    utf8Len (trailerLine field) = utf8Len field.1 + utf8Len field.2 + 2 := by
  have hcolon : utf8Len ": " = 2 := by decide
  rw [trailerLine, utf8Len_append, utf8Len_append]
  omega

/-- The checker charges 28 bytes more for a trailer than its line takes. -/
theorem sum_trailerLine (trailers : Headers) :
    (trailers.map fun field => utf8Len (trailerLine field) + 2).sum + 28 * trailers.length =
      trailerCharge trailers := by
  induction trailers with
  | nil => rfl
  | cons field fields ih =>
    rw [trailerCharge] at ih ⊢
    simp only [map_cons, sum_cons, length_cons, utf8Len_trailerLine] at ih ⊢
    omega

theorem notMem_trailerLine (htoken : ∀ c ∈ field.1, isHttpTokenChar c) (hvalue : '\r' ∉ field.2) :
    '\r' ∉ trailerLine field := by
  intro hmem
  rw [trailerLine, mem_append, mem_append] at hmem
  rcases hmem with (hmem | hmem) | hmem
  · exact absurd (htoken _ hmem) (by decide)
  · exact absurd hmem (by decide)
  · exact hvalue hmem

section

variable (hlimits : limits.Workable)

include hlimits

theorem readTrailersLoop_line {bs}
    (hline : readCrlfLineLimited limits.maxHeaderSize bs = (.ok line, rest))
    (hsize : size + utf8Len line + 2 ≤ limits.maxHeaderSize) :
    readTrailersLoop limits.maxHeaderSize limits.maxHeaderCount (rounds + 1) done size bs =
      if line.isEmpty then (.ok done, rest)
      else if limits.maxHeaderCount ≤ done.length then
        (.error (trailerCountExceeded limits.maxHeaderCount), rest)
      else
        match parseTrailer line with
        | .error e => (.error e, rest)
        | .ok field => readTrailersLoop limits.maxHeaderSize limits.maxHeaderCount rounds
            (done ++ [field]) (size + utf8Len line + 2) rest := by
  have htotal : saturatingAdd (saturatingAdd size (utf8Len line)) 2 = size + utf8Len line + 2 := by
    have := hlimits.word
    unfold saturatingAdd
    omega
  rw [readTrailersLoop, ReadM.bind_ok hline, htotal, if_neg (not_lt.mpr hsize)]
  split
  · rfl
  · split
    · rfl
    · cases parseTrailer line <;> rfl

/-- The trailers are read back one line after the other. -/
theorem readTrailersLoop_lines {fields : Headers}
    (hvalid : ∀ field ∈ fields, validateRequestTrailer field.1 field.2 = .ok ()) (rest : Bytes)
    (hrounds : fields.length < rounds)
    (hcount : done.length + fields.length ≤ limits.maxHeaderCount)
    (hsize : size + (fields.map fun field => utf8Len (trailerLine field) + 2).sum + 2 ≤
      limits.maxHeaderSize) :
    readTrailersLoop limits.maxHeaderSize limits.maxHeaderCount rounds done size
        (fields.flatMap (fun field => utf8 (trailerLine field) ++ crlf) ++ crlf ++ rest) =
      (.ok (done ++ fields.map fun field => (field.1, trim field.2)), rest) := by
  obtain _ | rounds := rounds
  · omega
  induction fields generalizing rounds size done with
  | nil =>
    have hline : readCrlfLineLimited limits.maxHeaderSize (utf8 [] ++ crlf ++ rest) =
        (.ok [], rest) :=
      readCrlfLineLimited_line rest not_mem_nil (hlimits.fits (.inl (by decide)))
    rw [flatMap_nil, ← utf8_nil, readTrailersLoop_line hlimits hline hsize]
    simp
  | cons field fields ih =>
    obtain ⟨hfield, hfields⟩ := forall_mem_cons.mp hvalid
    obtain ⟨-, htoken, -, hvalue⟩ := validateRequestTrailer_ok_iff.mp hfield
    rw [map_cons, sum_cons] at hsize
    rw [length_cons] at hcount hrounds
    obtain _ | rounds := rounds
    · omega
    have hline := readCrlfLineLimited_line
      (fields.flatMap (fun field => utf8 (trailerLine field) ++ crlf) ++ crlf ++ rest)
      (notMem_trailerLine htoken fun hmem => absurd (hvalue _ hmem) (by decide))
      (hlimits.fits (.inr (by omega : utf8Len (trailerLine field) + 2 ≤ limits.maxHeaderSize)))
    have hempty : (trailerLine field).isEmpty = false := by
      simp [trailerLine]
    have hwire : (field :: fields).flatMap (fun field => utf8 (trailerLine field) ++ crlf) ++
        crlf ++ rest = utf8 (trailerLine field) ++ crlf ++
          (fields.flatMap (fun field => utf8 (trailerLine field) ++ crlf) ++ crlf ++ rest) := by
      simp
    rw [hwire, readTrailersLoop_line hlimits hline (by omega), hempty, parseTrailer_line hfield]
    simp only [Bool.false_eq_true, if_false]
    rw [if_neg (by omega), ih hfields (by simp; omega) (by omega) _ (by omega)]
    simp

/-- The last chunk is read back with its trailers. -/
theorem decodeChunks_lastChunk
    (hvalid : validateRequestTrailers trailers limits.maxHeaderSize limits.maxHeaderCount = .ok ())
    (rounds : Nat) (rest : Bytes) :
    decodeChunks limits (rounds + 1) (lastChunk trailers ++ rest) =
      ⟨[], .ok (trailers.map fun field => (field.1, trim field.2), rest)⟩ := by
  obtain ⟨hcount, hall, hcharge⟩ := validateRequestTrailers_ok hvalid
  have hwire : lastChunk trailers ++ rest = utf8 "0" ++ crlf ++
      (trailers.flatMap (fun field => utf8 (trailerLine field) ++ crlf) ++ crlf ++ rest) := by
    simp [lastChunk]
  have hzero := readChunkSize_line
    (trailers.flatMap (fun field => utf8 (trailerLine field) ++ crlf) ++ crlf ++ rest)
    (by decide) (hlimits.fits (.inl (by decide)))
    (by decide : parseChunkSize "0" = some 0)
  have hsize : 0 + (trailers.map fun field => utf8Len (trailerLine field) + 2).sum + 2 ≤
      limits.maxHeaderSize := by
    have := hlimits.digits
    have := hlimits.word
    have hlines := sum_trailerLine trailers
    cases trailers with
    | nil => simpa using (by omega : 2 ≤ limits.maxHeaderSize)
    | cons field fields =>
      rw [length_cons] at hlines
      omega
  have htrailers : readTrailers limits.maxHeaderSize limits.maxHeaderCount
      (trailers.flatMap (fun field => utf8 (trailerLine field) ++ crlf) ++ crlf ++ rest) =
      (.ok (trailers.map fun field => (field.1, trim field.2)), rest) :=
    readTrailersLoop_lines hlimits hall rest (by omega) (by simpa using hcount) hsize
  rw [hwire, decodeChunks, hzero]
  dsimp only
  rw [if_pos rfl, htrailers]

/-- The wire form decodes to the body and the trailers, and nothing behind it is touched. -/
theorem decodeBody_chunkedBody {fragments} (hlengths : ∀ data ∈ fragments, data.length ≤ usizeMax)
    (hvalid : validateRequestTrailers trailers limits.maxHeaderSize limits.maxHeaderCount = .ok ())
    (rest : Bytes) :
    decodeBody limits .chunked (chunkedBody fragments trailers ++ rest) =
      ⟨fragments.flatten, .ok (trailers.map fun field => (field.1, trim field.2), rest)⟩ := by
  have hparts : ∀ (parts : List Bytes) rounds, (∀ data ∈ parts, data ≠ []) →
      (∀ data ∈ parts, data.length ≤ usizeMax) →
      decodeChunks limits (rounds + parts.length + 1)
          (parts.flatMap chunk ++ lastChunk trailers ++ rest) =
        ⟨parts.flatten, .ok (trailers.map fun field => (field.1, trim field.2), rest)⟩ := by
    intro parts rounds
    induction parts with
    | nil => exact fun _ _ => decodeChunks_lastChunk hlimits hvalid rounds rest
    | cons data parts ih =>
      intro hne hlen
      rw [forall_mem_cons] at hne hlen
      rw [flatMap_cons, append_assoc, append_assoc, length_cons,
        decodeChunks_chunk hlimits hne.1 hlen.1, ← append_assoc, ← add_assoc,
        ih hne.2 hlen.2, flatten_cons]
  have hflat : (fragments.filter fun data => !data.isEmpty).flatten = fragments.flatten := by
    induction fragments with
    | nil => rfl
    | cons data fragments ih =>
      have ih := ih fun d hd => hlengths d (mem_cons_of_mem data hd)
      cases data with
      | nil | cons => simpa using ih
  have hwhole := hparts (fragments.filter fun data => !data.isEmpty)
    (chunkedBody fragments trailers ++ rest).length
    (fun data hdata => by simpa using (mem_filter.mp hdata).2)
    (fun data hdata => hlengths data (mem_filter.mp hdata).1)
  rw [hflat] at hwhole
  rw [← hwhole]
  exact decodeChunks_rounds (lt_succ_self _) (by omega)

end

end Trailers

end RsProxy.Net
