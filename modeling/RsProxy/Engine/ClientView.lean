import RsProxy.Engine.ResponseHeaders

/-!
# What a client makes of the writes

A client that gets a chunked response skips the chunks and then reads the lines of the trailer
section. `trailerLines` are the lines it finds in what the proxy wrote, up to the head of the next
response.
-/

namespace RsProxy.Engine

open Text Io Net List Option

variable {line : Bytes} {trailers : Headers} {more : List Output}

/-- The bytes behind a head, up to the next head. -/
def bytesBehind : List Output → Bytes
  | .data bytes :: outputs => bytes ++ bytesBehind outputs
  | _ => []

/-- A line without its end, and what is behind it. -/
def cutLine : Bytes → Option (Bytes × Bytes)
  | [] => none
  | b :: bs =>
    if crlf.isPrefixOf (b :: bs) then some ([], bs.drop 1)
    else (cutLine bs).map fun cut => (b :: cut.1, cut.2)

/-- The size on a line of hexadecimal digits. -/
def hexSize (line : Str) : Option Nat :=
  if line.isEmpty then none else (line.mapM (digitOf 16)).map (ofDigits 16)

/-- What is behind the line of the last chunk. -/
def trailerSection : (rounds : Nat) → Bytes → Option Bytes
  | 0, _ => none
  | rounds + 1, bs =>
    match cutLine bs with
    | none => none
    | some (line, rest) =>
      match hexSize (fromUtf8Lossy line) with
      | none => none
      | some size =>
        if size = 0 then some rest
        else if (rest.drop size).take 2 = crlf then trailerSection rounds (rest.drop (size + 2))
        else none

/-- The lines up to an empty one. -/
def sectionLines (bs : Bytes) : List Str :=
  (splitStr "\r\n" (fromUtf8Lossy bs)).takeWhile fun line => !line.isEmpty

def trailerLines : List Output → List Str
  | .head head :: outputs =>
    if hasChunkedTransferEncoding head.headers then
      match trailerSection ((bytesBehind outputs).length + 1) (bytesBehind outputs) with
      | some bs => sectionLines bs
      | none => []
    else []
  | _ => []

/-! ### Chunks -/

theorem cutLine_line (h : 13 ∉ line) {rest} :
    cutLine (line ++ (crlf ++ rest)) = some (line, rest) := by
  induction line with
  | nil => simp [cutLine, crlf]
  | cons b line ih =>
    rw [mem_cons, not_or] at h
    have hb : ¬ crlf.isPrefixOf (b :: (line ++ (crlf ++ rest))) := by
      simp [crlf, h.1]
    rw [cons_append, cutLine, if_neg hb, ih h.2]
    rfl

/-- A line goes up to the first line end. -/
theorem cutLine_eq_some {bs rest} (h : cutLine bs = some (line, rest)) :
    bs = line ++ (crlf ++ rest) ∧ ¬ crlf <:+: line ++ [13] := by
  induction bs generalizing line with
  | nil => cases h
  | cons b bs ih =>
    rw [cutLine] at h
    split at h
    next hcrlf =>
      cases h
      obtain ⟨more, hmore⟩ := isPrefixOf_iff_prefix.mp hcrlf
      obtain ⟨rfl, rfl⟩ := cons.inj hmore
      exact ⟨rfl, by decide⟩
    next hopen =>
      obtain ⟨⟨line', rest'⟩, hcut, heq⟩ := map_eq_some_iff.mp h
      cases heq
      obtain ⟨rfl, hnot⟩ := ih hcut
      refine ⟨rfl, ?_⟩
      rw [cons_append, infix_cons_iff]
      rintro (hfront | hin)
      · -- a line end that starts at the first byte would have been found there
        obtain ⟨more, hmore⟩ := hfront
        apply hopen
        refine isPrefixOf_iff_prefix.mpr ?_
        obtain ⟨rfl, htail⟩ := cons.inj hmore
        cases line' with
        | nil => cases htail
        | cons c line' =>
          obtain ⟨rfl, -⟩ := cons.inj htail
          exact ⟨line' ++ (crlf ++ rest'), rfl⟩
      · exact hnot hin

theorem notMem_upperHex {n} : 13 ∉ utf8 (upperHex n) :=
  notMem_utf8 (by decide) ((isNumeral_upperHex n).notMem (by decide))

theorem hexSize_upperHex {n} : hexSize (upperHex n) = some n := by
  obtain ⟨ds, hds, hn⟩ := exists_upperHex n
  rw [hexSize, if_neg (by simpa using (isNumeral_upperHex n).1), hds, map_some, hn]

theorem trailerSection_chunk {data : Bytes} (hne : data ≠ []) {rounds rest} :
    trailerSection (rounds + 1) (chunk data ++ rest) = trailerSection rounds rest := by
  have hcut : cutLine (chunk data ++ rest) =
      some (utf8 (upperHex data.length), data ++ (crlf ++ rest)) := by
    rw [chunk, append_assoc, append_assoc, append_assoc]
    exact cutLine_line notMem_upperHex
  have hzero : data.length ≠ 0 := Nat.ne_of_gt (length_pos_iff.mpr hne)
  rw [trailerSection, hcut]
  dsimp only
  rw [fromUtf8Lossy_utf8, hexSize_upperHex]
  dsimp only
  rw [if_neg hzero, ← drop_drop, drop_left]
  rfl

theorem trailerSection_chunks {fragments : List Bytes} (hne : ∀ data ∈ fragments, data ≠ [])
    {rounds} (hrounds : fragments.length < rounds) (rest : Bytes) :
    ∃ more, trailerSection rounds (fragments.flatMap chunk ++ rest) =
      trailerSection (more + 1) rest := by
  induction fragments generalizing rounds with
  | nil =>
    obtain ⟨more, rfl⟩ := Nat.exists_eq_succ_of_ne_zero (Nat.ne_of_gt hrounds)
    exact ⟨more, rfl⟩
  | cons data fragments ih =>
    obtain ⟨hdata, hrest⟩ := forall_mem_cons.mp hne
    obtain ⟨rounds, rfl⟩ := Nat.exists_eq_succ_of_ne_zero
      (Nat.ne_of_gt (Nat.zero_lt_of_lt hrounds))
    obtain ⟨more, hmore⟩ := ih hrest (Nat.lt_of_succ_lt_succ hrounds)
    refine ⟨more, ?_⟩
    rw [flatMap_cons, append_assoc, trailerSection_chunk hdata, hmore]

/-! ### Lines -/

/-- A trailer whose line has no line end in it. -/
def OneLine (field : Str × Str) : Prop := ¬ "\r\n" <:+: trailerLine field

theorem sectionLines_lines (h : ∀ field ∈ trailers, OneLine field) :
    sectionLines (trailers.flatMap (fun field => utf8 (trailerLine field) ++ crlf) ++ crlf) =
      trailers.map trailerLine := by
  have hcrlf : utf8 "\r\n" = crlf := by decide
  have hnonempty : ∀ field, (!(trailerLine field).isEmpty) := by
    simp [trailerLine]
  -- the section as text: the lines, an empty line, and nothing behind its end
  have htext : ∀ lines,
      lines.flatMap (fun line => utf8 line ++ crlf) ++ crlf =
        utf8 ((lines ++ [[], []]).headD [] ++ (lines ++ [[], []]).tail.flatMap ("\r\n" ++ ·)) := by
    intro lines
    induction lines with
    | nil => decide
    | cons line lines ih =>
      rw [flatMap_cons, append_assoc, ih, append_assoc, ← hcrlf, ← utf8_append]
      cases lines <;> simp
  have hlines := htext (trailers.map trailerLine)
  rw [flatMap_map] at hlines
  have hfree : ∀ line ∈ trailers.map trailerLine ++ [[], []], ¬ "\r\n" <:+: line := by
    intro line hline
    rw [mem_append] at hline
    rcases hline with hline | hline
    · obtain ⟨field, hfield, rfl⟩ := mem_map.mp hline
      exact h field hfield
    · revert line
      decide
  rw [sectionLines, hlines, fromUtf8Lossy_utf8]
  obtain ⟨first, rest, hpieces⟩ := exists_cons_of_ne_nil
    (show trailers.map trailerLine ++ [[], []] ≠ [] by simp)
  rw [hpieces] at hfree ⊢
  rw [headD_cons, tail_cons, splitStr_append_flatMap (by decide) (by decide)
    (hfree first mem_cons_self) (fun line hline => hfree line (mem_cons_of_mem _ hline)),
    ← hpieces, takeWhile_append_of_pos]
  · simp
  · intro line hline
    obtain ⟨field, -, rfl⟩ := mem_map.mp hline
    exact hnonempty field

/-! ### Chunked responses -/

section Responses

variable {head : RawResponseHead} {outputs : List Output} {fragments : List Bytes}

theorem length_le_flatMap_chunk (fragments : List Bytes) :
    fragments.length ≤ (fragments.flatMap chunk).length := by
  induction fragments with
  | nil => exact Nat.zero_le _
  | cons data fragments ih =>
    simp only [flatMap_cons, length_append, length_cons, chunk, crlf]
    omega

/-- Chunks without a last one have no trailers behind them. -/
theorem trailerLines_chunks (hne : ∀ data ∈ fragments, data ≠ [])
    (hbytes : bytesBehind outputs = fragments.flatMap chunk) :
    trailerLines (.head head :: outputs) = [] := by
  have hlen := length_le_flatMap_chunk fragments
  rw [trailerLines]
  split
  · obtain ⟨more, hmore⟩ := trailerSection_chunks hne
      (show fragments.length < (bytesBehind outputs).length + 1 by rw [hbytes]; omega) []
    rw [append_nil, ← hbytes] at hmore
    rw [hmore]
    rfl
  · rfl

/-- The lines of a chunked response are those of its trailers. -/
theorem trailerLines_chunkedBody (hcoded : hasChunkedTransferEncoding head.headers)
    (hbytes : bytesBehind outputs = chunkedBody fragments trailers)
    (hlines : ∀ field ∈ trailers, OneLine field) :
    trailerLines (.head head :: outputs) = trailers.map trailerLine := by
  rw [chunkedBody] at hbytes
  have hne : ∀ data ∈ fragments.filter (fun data => !data.isEmpty), data ≠ [] := by
    simp
  have hlen := length_le_flatMap_chunk (fragments.filter fun data => !data.isEmpty)
  obtain ⟨more, hmore⟩ := trailerSection_chunks hne
    (show _ < (bytesBehind outputs).length + 1 by rw [hbytes, length_append]; omega)
    (lastChunk trailers)
  rw [← hbytes] at hmore
  rw [trailerLines, if_pos hcoded, hmore]
  exact sectionLines_lines hlines

theorem trailerLines_of_not_chunked (h : hasChunkedTransferEncoding head.headers = false) :
    trailerLines (.head head :: outputs) = [] := by
  rw [trailerLines, if_neg (by rw [h]; exact Bool.false_ne_true)]

end Responses

/-- Writes that start with a head, if there are any. -/
def StartsWithHead (outputs : List Output) : Prop :=
  ∀ bytes ∈ outputs.head?, ∃ head, bytes = .head head

theorem bytesBehind_append (h : StartsWithHead more) {outputs} :
    bytesBehind (outputs ++ more) = bytesBehind outputs := by
  induction outputs with
  | nil =>
    cases more with
    | nil => rfl
    | cons output more =>
      obtain ⟨head, rfl⟩ := h output rfl
      rfl
  | cons output outputs ih =>
    cases output with
    | head head => rfl
    | data bytes => rw [cons_append, bytesBehind, bytesBehind, ih]

/-- A second response changes nothing about the trailers of the first. -/
theorem trailerLines_append {outputs} (h : StartsWithHead more) :
    trailerLines (outputs ++ more) =
      if outputs = [] then trailerLines more else trailerLines outputs := by
  cases outputs with
  | nil => rfl
  | cons output outputs =>
    rw [if_neg (cons_ne_nil _ _)]
    cases output with
    | head head =>
      rw [cons_append, trailerLines, trailerLines, bytesBehind_append h]
    | data bytes => rfl

end RsProxy.Engine
