import RsProxy.Net.Decode
import RsProxy.Data.Results

/-!
# Accepted framing and the message grammar

`Grammatical` states what HTTP/1.1 asks of the fields and chunk lines that frame a request. The
reader trims every Unicode whitespace, reads numbers that carry a sign and drops empty codings, so
an accepted request is grammatical exactly when none of that was needed (`Plain`).
-/

namespace RsProxy.Net

open Text Io List
open Data (do_eq_ok)

/-! ### Fields and chunk lines as they stand -/

/-- The optional whitespace of the grammar. -/
def isOws (c : Char) : Bool := c == ' ' || c == '\t'

/-- The two sides of the colon of each field line. -/
def rawFields (lines : List Str) : List (Str × Str) := lines.filterMap (splitOnce [':'])

def fieldsNamed (fields : List (Str × Str)) (name : Str) : List (Str × Str) :=
  fields.filter fun field => eqIgnoreAsciiCase (trim field.1) name

/-- The elements of the comma lists under a name, with the whitespace around them. -/
def rawElements (fields : List (Str × Str)) (name : Str) : List Str :=
  (fieldsNamed fields name).flatMap fun field => splitOn (· == ',') field.2

/-- The lines of a trailer section, up to the empty one. -/
def sectionLines (limits : HeaderLimits) : (rounds : Nat) → Bytes → List Str
  | 0, _ => []
  | rounds + 1, bs =>
    match readCrlfLineLimited limits.maxHeaderSize bs with
    | (.error _, _) => []
    | (.ok line, rest) => if line.isEmpty then [] else line :: sectionLines limits rounds rest

/-- The lines that give the chunk sizes of a body, up to the last chunk, and those behind it. -/
def chunkLines (limits : HeaderLimits) : (rounds : Nat) → Bytes → List Str × List Str
  | 0, _ => ([], [])
  | rounds + 1, bs =>
    match readCrlfLineLimited limits.maxHeaderSize bs with
    | (.error _, _) => ([], [])
    | (.ok line, rest) =>
      match parseChunkSize line with
      | some (size + 1) =>
        let (sizes, trailers) := chunkLines limits rounds ((rest.drop (size + 1)).drop 2)
        (line :: sizes, trailers)
      | _ => ([line], sectionLines limits rounds rest)

/-- What frames a request: the fields of its head and of its trailer section, and its chunk
lines. -/
structure RawFraming where
  fields : List (Str × Str)
  sizes : List Str
  trailers : List (Str × Str)

def rawFraming (head : Bytes) (limits : HeaderLimits) (framing : RequestBodyFraming) (bs : Bytes) :
    RawFraming :=
  let (sizes, trailers) := match framing with
    | .chunked => chunkLines limits (bs.length + 1) bs
    | _ => ([], [])
  ⟨rawFields (splitStr "\r\n" (fromUtf8Lossy head)).tail, sizes, rawFields trailers⟩

/-- A chunk line without its extension; blanks in front of the semicolon belong to the extension. -/
def sizeText (line : Str) : Str :=
  match splitOnce [';'] line with
  | some (size, _) => size.rdropWhile isOws
  | none => line

/-! ### The two readings -/

/-- What the grammar asks of the framing of a request. -/
structure Grammatical (raw : RawFraming) : Prop where
  lengths : ∀ v ∈ rawElements raw.fields "content-length".toList, IsNumeral 10 (trimMatches isOws v)
  agree : ∀ v ∈ rawElements raw.fields "content-length".toList,
    ∀ w ∈ rawElements raw.fields "content-length".toList,
      parseDigits (trimMatches isOws v) = parseDigits (trimMatches isOws w)
  exclusive : fieldsNamed raw.fields "content-length".toList = [] ∨
    fieldsNamed raw.fields "transfer-encoding".toList = []
  coding : fieldsNamed raw.fields "transfer-encoding".toList ≠ [] →
    (((rawElements raw.fields "transfer-encoding".toList).map (trimMatches isOws)).filter
      fun v => !v.isEmpty).map toAsciiLowercase = ["chunked".toList]
  sizes : ∀ line ∈ raw.sizes, IsNumeral 16 (sizeText line)
  names : ∀ field ∈ raw.fields ++ raw.trailers, ∀ c ∈ field.1, isWhitespace c = false

/-- Nothing the reader is lenient about: no sign, no whitespace to drop but the grammar's own, a
coding in every list of codings. -/
structure Plain (raw : RawFraming) : Prop where
  unsigned : ∀ v ∈ rawElements raw.fields "content-length", (trim v).head? ≠ some '+'
  lengthBlanks : ∀ v ∈ rawElements raw.fields "content-length", trim v = trimMatches isOws v
  codingBlanks : ∀ v ∈ rawElements raw.fields "transfer-encoding", trim v = trimMatches isOws v
  coded : fieldsNamed raw.fields "transfer-encoding" ≠ [] →
    ∃ v ∈ rawElements raw.fields "transfer-encoding", trim v ≠ []
  sizeBlanks : ∀ line ∈ raw.sizes, trim ((splitOn (· == ';') line).headD []) = sizeText line
  sizeUnsigned : ∀ line ∈ raw.sizes, (sizeText line).head? ≠ some '+'
  names : ∀ field ∈ raw.fields ++ raw.trailers, ∀ c ∈ field.1, isWhitespace c = false

/-! ### What was accepted -/

/-- The field list is the raw one, trimmed. -/
theorem parseHeadersLimited_ok {lines maxHeaderCount headers}
    (h : parseHeadersLimited lines maxHeaderCount = .ok headers) :
    headers = (rawFields lines).map fun field => (trim field.1, trim field.2) := by
  suffices ∀ count headers, parseHeadersLimited.go maxHeaderCount count lines = .ok headers →
      headers = (rawFields lines).map fun field => (trim field.1, trim field.2) from this 0 _ h
  clear h headers
  induction lines with
  | nil =>
    rintro count headers h
    cases h
    rfl
  | cons line lines ih =>
    intro count headers h
    rw [parseHeadersLimited.go] at h
    split at h
    next hempty =>
      rw [isEmpty_iff.mp hempty]
      exact ih _ _ h
    · split_ifs at h
      obtain ⟨rest, hrest, h⟩ := do_eq_ok.mp h
      split at h
      next hsplit =>
        cases h
        rw [ih _ _ hrest, rawFields, rawFields, filterMap_cons_some hsplit, map_cons]
      next hsplit =>
        cases h
        rw [ih _ _ hrest, rawFields, rawFields, filterMap_cons_none hsplit]

theorem listElements_eq {fields name} :
    listElements (fields.map fun field => (trim field.1, trim field.2)) name =
      (rawElements fields name).map trim := by
  unfold listElements rawElements
  rw [filter_map, flatMap_map, map_flatMap]
  congr 1
  funext field
  exact map_trimMatches_splitOn (by decide) field.2

theorem parse_ok {head maxHeaderCount request} (h : parse head maxHeaderCount = .ok request) :
    bodyFraming ((rawFields (splitStr "\r\n" (fromUtf8Lossy head)).tail).map
      fun field => (trim field.1, trim field.2)) = .ok request.body := by
  unfold parse at h
  dsimp only at h
  split_ifs at h
  obtain ⟨headers, hheaders, h⟩ := do_eq_ok.mp h
  obtain ⟨framing, hframing, h⟩ := do_eq_ok.mp h
  cases h
  rwa [← parseHeadersLimited_ok hheaders]

theorem contentLength_ok {headers length} (h : contentLength headers = .ok length) :
    (length = none → listElements headers "content-length" = []) ∧
      ∀ v ∈ listElements headers "content-length", parseUsize v = length := by
  unfold contentLength at h
  split at h
  next hvalues =>
    rw [hvalues]
    exact ⟨fun _ => rfl, nofun⟩
  next first values hvalues =>
    split at h
    · cases h
    next parsed hfirst =>
      split_ifs at h with hall
      cases h
      rw [hvalues]
      refine ⟨nofun, forall_mem_cons.mpr ⟨hfirst, fun v hv => ?_⟩⟩
      by_contra hne
      exact hall (any_eq_true.mpr ⟨v, hv, bne_iff_ne.mpr hne⟩)

/-- A head is accepted with one length or one coding. -/
theorem bodyFraming_ok {headers framing} (h : bodyFraming headers = .ok framing) :
    (∃ length, ∀ v ∈ listElements headers "content-length", parseUsize v = some length) ∧
      (transferCodings headers = [] ∨ transferCodings headers = ["chunked".toList] ∧
        listElements headers "content-length" = []) := by
  obtain ⟨length, hlength, h⟩ := do_eq_ok.mp h
  obtain ⟨hnone, hall⟩ := contentLength_ok hlength
  constructor
  · cases length with
    | none =>
      rw [hnone rfl]
      exact ⟨0, nofun⟩
    | some n => exact ⟨n, hall⟩
  · dsimp only at h
    split at h
    · cases h
    next hboth =>
      split at h
      next hempty => exact .inl (isEmpty_iff.mp hempty)
      next hne =>
        split_ifs at h with hchunked
        refine .inr ⟨hchunked, hnone ?_⟩
        cases length with
        | none => rfl
        | some n => simp_all

/-! ### Fields -/

section Fields

variable {fields : List (Str × Str)}

theorem isWhitespace_of_isOws {c} (h : isOws c) : isWhitespace c := by
  unfold isOws at h
  rw [Bool.or_eq_true, beq_iff_eq, beq_iff_eq] at h
  rcases h with rfl | rfl <;> decide

/-- Once the grammar's whitespace is gone from a text without any other, none is left. -/
theorem trim_eq_of_trimOws {v} (h : ∀ c ∈ trimMatches isOws v, isWhitespace c = false) :
    trim v = trimMatches isOws v := by
  rw [trim, ← trimMatches_trimMatches (fun _ => isWhitespace_of_isOws), trimMatches_of_forall h]

theorem rawElements_eq_nil_iff {name} :
    rawElements fields name = [] ↔ fieldsNamed fields name = [] := by
  unfold rawElements
  rw [flatMap_eq_nil_iff, eq_nil_iff_forall_not_mem]
  exact forall₂_congr fun field _ => iff_of_false splitOn_ne_nil id

/-- A length that is read is a numeral unless it has a sign or foreign whitespace. -/
theorem isNumeral_length_iff {v n} (h : parseUsize (trim v) = some n) :
    IsNumeral 10 (trimMatches isOws v) ↔
      (trim v).head? ≠ some '+' ∧ trim v = trimMatches isOws v := by
  constructor
  · intro hnum
    have htrim := trim_eq_of_trimOws (hnum.not_isWhitespace (by decide))
    rw [htrim]
    exact ⟨hnum.unsigned (by decide), rfl⟩
  · rintro ⟨hsign, htrim⟩
    rw [← htrim, ← isSome_parseDigits, parseUnsigned_of_unsigned h hsign]
    rfl

/-- The codings of a list that holds nothing but one chunked. -/
theorem trim_of_coding {values : List Str}
    (h : ((values.map (trimMatches isOws)).filter fun v => !v.isEmpty).map toAsciiLowercase =
      ["chunked".toList]) : ∀ v ∈ values, trim v = trimMatches isOws v := by
  intro v hv
  refine trim_eq_of_trimOws fun c hc => ?_
  have hlower : toAsciiLowercase (trimMatches isOws v) ∈ ["chunked".toList] := by
    rw [← h]
    refine mem_map_of_mem (mem_filter.mpr ⟨mem_map_of_mem hv, ?_⟩)
    simpa using ne_nil_of_mem hc
  have hmem : c.toLower ∈ "chunked".toList := by
    rw [← mem_singleton.mp hlower]
    exact mem_map_of_mem hc
  have hkept : ∀ d ∈ "chunked".toList, isWhitespace d = false := by decide
  rw [← isWhitespace_toLower]
  exact hkept _ hmem

end Fields

/-! ### Chunk lines -/

theorem isNumeral_size_iff {line n} (h : parseChunkSize line = some n) :
    IsNumeral 16 (sizeText line) ↔
      trim ((splitOn (· == ';') line).headD []) = sizeText line ∧
        (sizeText line).head? ≠ some '+' := by
  constructor
  · intro hnum
    refine ⟨?_, hnum.unsigned (by decide)⟩
    have htrim : trim (sizeText line) = sizeText line :=
      trimMatches_of_forall (hnum.not_isWhitespace (by decide))
    rw [← htrim, sizeText]
    cases hsplit : splitOnce [';'] line with
    | none =>
      have hmem : ';' ∉ line := by
        intro hmem
        obtain ⟨pre, post, rfl⟩ := append_of_mem hmem
        exact splitOnce_eq_none_iff.mp hsplit ⟨pre, post, by simp⟩
      rw [splitOn_of_notMem hmem]
      rfl
    | some cut =>
      obtain ⟨rfl, hmem⟩ := splitOnce_singleton.mp hsplit
      rw [splitOn_append_cons hmem]
      -- Blanks in front of the semicolon are whitespace too.
      conv_lhs => rw [← rdropWhile_append_rtakeWhile (p := isOws) (l := cut.1)]
      exact trimMatches_append_right
        (fun c hc => isWhitespace_of_isOws (mem_rtakeWhile_imp hc)) _
  · rintro ⟨htrim, hsign⟩
    rw [parseChunkSize, htrim] at h
    exact isNumeral_of_parseHexUsize h hsign

/-- Behind a chunk that decodes stands what `next` reads. -/
theorem decodeChunk_ok {next remaining bs result}
    (h : (decodeChunk next remaining bs).verdict = .ok result) :
    (next ((bs.drop remaining).drop 2)).verdict = .ok result := by
  rw [decodeChunk] at h
  split_ifs at h
  rw [readChunkEnd_bytes] at h
  split_ifs at h
  exact h

/-- Every chunk line of a body that decodes has a size. -/
theorem isSome_of_mem_chunkLines {limits rounds bs result}
    (h : (decodeChunks limits rounds bs).verdict = .ok result) :
    ∀ line ∈ (chunkLines limits rounds bs).1, (parseChunkSize line).isSome := by
  induction rounds generalizing bs with
  | zero => exact forall_mem_nil _
  | succ rounds ih =>
    rw [decodeChunks, readChunkSize] at h
    rw [chunkLines]
    cases hline : (readCrlfLineLimited limits.maxHeaderSize : ReadM Bytes Str) bs with
    | mk r rest =>
      cases r with
      | error e => exact forall_mem_nil _
      | ok line =>
        rw [ReadM.bind_ok hline] at h
        dsimp only
        cases hsize : parseChunkSize line with
        | none =>
          rw [hsize] at h
          cases h
        | some size =>
          cases size with
          | zero => simp [hsize]
          | succ size =>
            rw [hsize] at h
            exact forall_mem_cons.mpr ⟨by simp [hsize], ih (decodeChunk_ok h)⟩

/-! ### Accepted requests -/

theorem grammatical_iff_plain {raw : RawFraming} {length}
    (hlength : ∀ v ∈ rawElements raw.fields "content-length", parseUsize (trim v) = some length)
    (hcodings : transferCodings (raw.fields.map fun field => (trim field.1, trim field.2)) = [] ∨
      transferCodings (raw.fields.map fun field => (trim field.1, trim field.2)) =
        ["chunked"] ∧ rawElements raw.fields "content-length" = [])
    (hsizes : ∀ line ∈ raw.sizes, (parseChunkSize line).isSome) :
    Grammatical raw ↔ Plain raw := by
  have hsize : ∀ line ∈ raw.sizes, IsNumeral 16 (sizeText line) ↔
      trim ((splitOn (· == ';') line).headD []) = sizeText line ∧
        (sizeText line).head? ≠ some '+' := by
    intro line hline
    obtain ⟨n, hn⟩ := Option.isSome_iff_exists.mp (hsizes line hline)
    exact isNumeral_size_iff hn
  rw [transferCodings, listElements_eq] at hcodings
  constructor
  · intro h
    have hplain := fun v hv => (isNumeral_length_iff (hlength v hv)).mp (h.lengths v hv)
    refine ⟨fun v hv => (hplain v hv).1, fun v hv => (hplain v hv).2, ?_, ?_,
      fun line hline => ((hsize line hline).mp (h.sizes line hline)).1,
      fun line hline => ((hsize line hline).mp (h.sizes line hline)).2, h.names⟩
    · intro v hv
      refine trim_of_coding (h.coding fun hnone => ?_) v hv
      rw [rawElements_eq_nil_iff.mpr hnone] at hv
      cases hv
    · intro hsome
      have hcoding := h.coding hsome
      obtain ⟨code, hcode, -⟩ := mem_map.mp (hcoding ▸ mem_singleton_self _)
      obtain ⟨hmem, hne⟩ := mem_filter.mp hcode
      obtain ⟨v, hv, rfl⟩ := mem_map.mp hmem
      refine ⟨v, hv, ?_⟩
      rw [trim_of_coding hcoding v hv]
      simpa using hne
  · intro h
    rw [map_congr_left h.codingBlanks] at hcodings
    -- With a coding in the list, the head was accepted for it.
    have hchunked : fieldsNamed raw.fields "transfer-encoding" ≠ [] →
        (((rawElements raw.fields "transfer-encoding").map (trimMatches isOws)).filter
          fun v => !v.isEmpty).map toAsciiLowercase = ["chunked"] ∧
        rawElements raw.fields "content-length" = [] := by
      intro hsome
      refine hcodings.resolve_left fun hnone => ?_
      obtain ⟨v, hv, hne⟩ := h.coded hsome
      rw [map_eq_nil_iff, filter_eq_nil_iff] at hnone
      refine hnone _ (mem_map_of_mem hv) ?_
      rw [← h.codingBlanks v hv]
      simpa using hne
    have hdigits : ∀ v ∈ rawElements raw.fields "content-length",
        parseDigits (trimMatches isOws v) = some length := by
      intro v hv
      rw [← h.lengthBlanks v hv]
      exact parseUnsigned_of_unsigned (hlength v hv) (h.unsigned v hv)
    refine ⟨fun v hv => ?_, fun v hv w hw => ?_, ?_, fun hsome => (hchunked hsome).1,
      fun line hline => (hsize line hline).mpr ⟨h.sizeBlanks line hline, h.sizeUnsigned line hline⟩,
      h.names⟩
    · rw [← isSome_parseDigits, hdigits v hv]
      rfl
    · rw [hdigits v hv, hdigits w hw]
    · by_cases hsome : fieldsNamed raw.fields "transfer-encoding" = []
      · exact .inr hsome
      · exact .inl (rawElements_eq_nil_iff.mp (hchunked hsome).2)

end RsProxy.Net
