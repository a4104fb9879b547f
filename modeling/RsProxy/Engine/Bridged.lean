import Mathlib.Algebra.Order.BigOperators.Group.List
import RsProxy.Engine.H2Bridge
import RsProxy.Engine.UpstreamWire
import RsProxy.Net.ResponseWire

/-!
# What an HTTP/2 client gets

The bytes of a response, cut into writes in any way, bring one head, data that adds up to the body,
and the trailers. The argument runs along the bytes that are still to come: in every state they are
the rest of the message from there on (`Owes`), a round of the writer either finds the next unit of
the message in its buffer and takes it, or leaves the buffer alone because that unit is not
complete.
-/

namespace RsProxy.Engine

open Text Io Net List RelayM Bool Nat
open Rules (usizeMax saturatingAdd)
open H2ResponseWriter

/-! ### What is to be delivered -/

/-- A field that ends with the connection. -/
def isHopByHop (headers : Headers) (field : Str × Str) : Bool :=
  (hopByHopNames ++ connectionNames headers).any fun name => named name field

/-- The head for an HTTP/2 client: the fields that do not end with the connection, and no length
where there can be no content. -/
def h2Head (head : RawResponseHead) : DownstreamH2ResponseHead :=
  ⟨head.status, head.headers.filter fun field => !isHopByHop head.headers field &&
    (statusCanSendContent head.status || !named "content-length" field)⟩

/-- The frames carry this content and these trailers. -/
inductive Carry : Bytes → Headers → List Delivery → Prop
  | nothing : Carry [] [] []
  | trailers {fields : Headers} (h : fields ≠ []) : Carry [] fields [.frame (.trailers fields)]
  | data (bytes : Bytes) {content fields deliveries}
      (h : Carry content fields deliveries) :
      Carry (bytes ++ content) fields (.frame (.data bytes) :: deliveries)

/-- One head, and then the body. -/
def Delivered (head : RawResponseHead) (content : Bytes) (trailers : Headers)
    (deliveries : List Delivery) : Prop :=
  ∃ frames, deliveries = .head (h2Head head) :: frames ∧ Carry content trailers frames

/-- Trailers that the limits hold. -/
structure TrailersFit (limits : HeaderLimits) (trailers : Headers) : Prop where
  fields : ∀ field ∈ trailers, FieldOk field
  count : trailers.length ≤ limits.maxHeaderCount
  size : (trailers.map fun field => utf8Len field.1 + utf8Len field.2 + 5).sum ≤
    limits.maxHeaderSize

/-- The bytes of a body behind this head, its content and its trailers. -/
inductive FinalBody (limits : HeaderLimits) (method : Str) (head : RawResponseHead) :
    (wire content : Bytes) → (trailers : Headers) → Prop
  | bodyless (h : responseHasFramedBody method head.status = false) {length}
      (hlength : contentLengthOf head.headers = .ok length) : FinalBody limits method head [] [] []
  | chunked (hframed : responseHasFramedBody method head.status) {length}
      (hlength : contentLengthOf head.headers = .ok length)
      (hcoded : headerContainsToken head.headers "transfer-encoding" "chunked")
      {fragments} (hlengths : ∀ data ∈ fragments, data.length ≤ usizeMax)
      {trailers} (hfit : TrailersFit limits trailers) :
      FinalBody limits method head (chunkedBody fragments trailers) fragments.flatten
        (trailers.map trimmed)
  | fixed (hframed : responseHasFramedBody method head.status)
      (hplain : headerContainsToken head.headers "transfer-encoding" "chunked" = false)
      {content} (hlength : contentLengthOf head.headers = .ok (some content.length)) :
      FinalBody limits method head content content []
  | toTheEnd (hframed : responseHasFramedBody method head.status)
      (hplain : headerContainsToken head.headers "transfer-encoding" "chunked" = false)
      (hnone : contentLengthOf head.headers = .ok none) (content : Bytes) :
      FinalBody limits method head content content []

/-! ### Units of a message in a buffer -/

variable {unit tail : Bytes}

/-- A unit at the front of the bytes to come is in the buffer, or a part of it is all there is. -/
theorem unit_cases {buffer rest} (h : buffer ++ rest = unit ++ tail) :
    (∃ behind, buffer = unit ++ behind ∧ behind ++ rest = tail) ∨
      ∃ missing, missing ≠ [] ∧ unit = buffer ++ missing ∧ rest = missing ++ tail := by
  rcases append_eq_append_iff.mp h with ⟨missing, hunit, hrest⟩ | ⟨behind, hbuffer, htail⟩
  · cases missing with
    | nil =>
      refine .inl ⟨[], ?_, ?_⟩
      · rw [hunit, append_nil, append_nil]
      · rw [hrest]
        rfl
    | cons b missing => exact .inr ⟨b :: missing, cons_ne_nil _ _, hunit, hrest⟩
  · exact .inl ⟨behind, hbuffer, htail.symm⟩

variable {missing : Bytes}

/-- A part of a unit is a part of it without its last byte. -/
theorem prefix_of_missing {buffer} (last : UInt8) (hne : missing ≠ [])
    (h : unit ++ [last] = buffer ++ missing) : buffer <+: unit := by
  rcases eq_nil_or_concat missing with rfl | ⟨missing, b, rfl⟩
  · exact absurd rfl hne
  · rw [concat_eq_append, ← append_assoc] at h
    exact ⟨missing, (append_inj' h rfl).1.symm⟩

theorem position_missing {buffer text} (hfirst : ¬ terminator <:+: text ++ [13, 10, 13])
    (hne : missing ≠ []) (h : text ++ terminator = buffer ++ missing) : position buffer = none := by
  refine position_eq_none_iff.mpr fun hin => hfirst (hin.trans (IsPrefix.isInfix ?_))
  refine prefix_of_missing 10 hne ?_
  rw [← h, append_assoc]
  rfl

variable {line : Bytes}

theorem cutLine_missing {buffer} (hline : 13 ∉ line) (hne : missing ≠ [])
    (h : line ++ crlf = buffer ++ missing) : cutLine buffer = none := by
  cases hcut : cutLine buffer with
  | none => rfl
  | some cut =>
    obtain ⟨hbuffer, -⟩ := cutLine_eq_some hcut
    have hin : crlf <:+: buffer := ⟨cut.1, cut.2, by rw [hbuffer, append_assoc]⟩
    have hopen : buffer <+: line ++ [13] := by
      refine prefix_of_missing 10 hne ?_
      rw [← h, append_assoc]
      rfl
    exact absurd (hin.trans hopen.isInfix) (crlf_not_inside hline)

variable {part : Bytes}

/-- No part of some lines starts with a line end, where the first line has anything on it. -/
theorem crlf_notFront (hne : line ≠ []) (h : 13 ∉ line) {more : Bytes}
    (hpart : part <+: line ++ more) : crlf.isPrefixOf part = false := by
  rw [eq_false_iff, ne_eq, isPrefixOf_iff_prefix]
  intro hcrlf
  obtain ⟨b, line, rfl⟩ := exists_cons_of_ne_nil hne
  have hb := (cons_prefix_cons.mp (hcrlf.trans hpart)).1
  exact h (hb ▸ mem_cons_self)

/-! ### The bytes to come -/

section Owed

variable (method : Str) (limits : HeaderLimits)

/-- The wire form of what is left of a chunked body at the front of a chunk. -/
inductive ChunkTail : (wire content : Bytes) → (trailers : Headers) → Prop
  | last {trailers} (hfit : TrailersFit limits trailers) :
      ChunkTail (lastChunk trailers) [] (trailers.map trimmed)
  | chunk {data : Bytes} (hne : data ≠ []) (hlength : data.length ≤ usizeMax)
      {wire content trailers} (h : ChunkTail wire content trailers) :
      ChunkTail (chunk data ++ wire) (data ++ content) trailers

/-- The lines of trailers, and the empty line behind them. -/
def trailerWire (trailers : Headers) : Bytes :=
  trailers.flatMap (fun field => utf8 (trailerLine field) ++ crlf) ++ crlf

/-- In this state, with these bytes to come, these are the deliveries to come. -/
inductive Owes : ResponseState → Bytes → (List Delivery → Prop) → Prop
  | head {head} (hok : HeadOk head) (hstatus : head.status ≠ 101)
      (hsize : (Output.head head).wire.length ≤ limits.maxHeaderSize)
      (hcount : head.headers.length ≤ limits.maxHeaderCount) {wire content trailers}
      (hbody : FinalBody limits method (readBack head) wire content trailers) :
      Owes .head ((Output.head head).wire ++ wire) (Delivered (readBack head) content trailers)
  | sized (content : Bytes) : Owes (.contentLength content.length) content (Carry content [])
  | size {wire content trailers} (h : ChunkTail limits wire content trailers) :
      Owes .chunkSize wire (Carry content trailers)
  | data {data : Bytes} (hne : data ≠ []) {wire content trailers}
      (h : ChunkTail limits wire content trailers) :
      Owes (.chunkData data.length) (data ++ (crlf ++ wire)) (Carry (data ++ content) trailers)
  | terminator {wire content trailers}
      (h : ChunkTail limits wire content trailers) :
      Owes .chunkTerminator (crlf ++ wire) (Carry content trailers)
  | trailers {trailers} (hfit : TrailersFit limits trailers) :
      Owes .chunkTrailers (trailerWire trailers) (Carry [] (trailers.map trimmed))
  | toTheEnd (content : Bytes) : Owes .closeDelimited content (Carry content [])
  | discard : Owes .discard [] (· = [])
  | done : Owes .done [] (· = [])

/-- A writer in this state, with the channels it has there. -/
def writer (state : ResponseState) (buffer : Bytes) : H2ResponseWriter :=
  ⟨state = .head, state ≠ .done ∧ state ≠ .discard, state, buffer, method, limits⟩

/-- Rounds that are left to go. -/
def rank (state : ResponseState) (buffer : Bytes) : Nat :=
  buffer.length + match state with
    | .contentLength _ => 1
    | _ => 0

omit method limits in
theorem rank_le (state : ResponseState) (buffer : Bytes) :
    rank state buffer ≤ buffer.length + 1 := by
  unfold rank
  split <;> omega

section

variable (state : ResponseState) (buffer rest : Bytes) (owed : List Delivery → Prop)

/-- A round leaves everything as it is, because the message is over or the next unit of it is not in
the buffer yet. -/
def Rests : Prop :=
  drainStep (writer method limits state buffer) =
      (([], .done false), writer method limits state buffer) ∧
    (rest = [] → owed [] ∧ buffer = [] ∧
      (state = .done ∨ state = .closeDelimited ∨ state = .discard))

/-- A round takes a unit off the buffer and delivers it. -/
def Advances : Prop :=
  ∃ deliveries state' buffer' owed',
    drainStep (writer method limits state buffer) =
      ((deliveries, .done true), writer method limits state' buffer') ∧
    rank state' buffer' < rank state buffer ∧ Owes method limits state' (buffer' ++ rest) owed' ∧
    ∀ more, owed' more → owed (deliveries ++ more)

/-- A round goes on or finds that it cannot. -/
def Steps : Prop :=
  Rests method limits state buffer rest owed ∨ Advances method limits state buffer rest owed

end

end Owed

/-! ### One round -/

section Primitives

variable {α : Type} (w : H2ResponseWriter) (k : Unit → M α)

@[simp] theorem drop_bind {size} :
    (drop size >>= k) w = k () { w with buffer := w.buffer.drop size } := update_bind

@[simp] theorem setState_bind {state} :
    (setState state >>= k) w = k () { w with state := state } := update_bind

@[simp] theorem closeBody_bind : (closeBody >>= k) w = k () { w with bodySender := false } :=
  update_bind

theorem sendBody_bind {frame} (hopen : w.bodySender) :
    (sendBody frame >>= k) w = ((.frame frame :: (k () w).1.1, (k () w).1.2), (k () w).2) := by
  have hsend : sendBody frame w = (([.frame frame], .done ()), w) := if_pos hopen
  rw [bind_done hsend]
  rfl

theorem sendHead_bind {head} (hopen : w.headSender) :
    (sendHead head >>= k) w =
      ((.head head :: (k () { w with headSender := false }).1.1,
        (k () { w with headSender := false }).1.2), (k () { w with headSender := false }).2) := by
  have hsend : sendHead head w = (([.head head], .done ()), { w with headSender := false }) :=
    if_pos hopen
  rw [bind_done hsend]
  rfl

omit w k in
theorem ofExcept_ok_bind {β a} {k : α → M β} {w} :
    (ofExcept (.ok a) >>= k) w = k a w :=
  bind_done rfl k

end Primitives

variable {content wire : Bytes} {trailers : Headers} {owed : List Delivery → Prop}
  {state : ResponseState} {field : Str × Str}

variable {head : RawResponseHead}

section Rounds

variable {method : Str} {limits : HeaderLimits} {buffer rest : Bytes}

/-- The rest of a unit is still to come. -/
theorem steps_of_missing
    (hstep : drainStep (writer method limits state buffer) =
      (([], .done false), writer method limits state buffer)) (hmissing : missing ≠ [])
    (hrest : rest = missing ++ tail) :
    Steps method limits state buffer rest owed := by
  refine .inl ⟨hstep, fun hnil => ?_⟩
  rw [hnil] at hrest
  simp [hmissing] at hrest

theorem step_closeDelimited (h : buffer ++ rest = content) :
    Steps method limits .closeDelimited buffer rest (Carry content []) := by
  subst h
  cases buffer with
  | nil =>
    refine .inl ⟨rfl, ?_⟩
    rintro rfl
    exact ⟨.nothing, rfl, .inr (.inl rfl)⟩
  | cons b buffer =>
    refine .inr ⟨[.frame (.data (b :: buffer))], .closeDelimited, [], Carry rest [], ?_, ?_,
      .toTheEnd rest, fun more hmore => .data (b :: buffer) hmore⟩
    · simp [drainStep, writer, sendBody_bind]
    · simp [rank]

theorem step_contentLength (h : buffer ++ rest = content) :
    Steps method limits (.contentLength content.length) buffer rest (Carry content []) := by
  subst h
  cases buffer with
  | nil =>
    cases rest with
    | nil =>
      refine .inr ⟨[], .done, [], (· = []), ?_, ?_, .done, ?_⟩
      · simp [drainStep, writer]
      · simp [rank]
      · rintro more rfl
        exact .nothing
    | cons b rest => exact .inl ⟨by simp [drainStep, writer], nofun⟩
  | cons b buffer =>
    refine .inr ⟨[.frame (.data (b :: buffer))], .contentLength rest.length, [], Carry rest [],
      ?_, ?_, .sized rest, fun more hmore => .data (b :: buffer) hmore⟩
    · simp [drainStep, writer, sendBody_bind]
    · simp [rank]

/-- Data of a chunk, up to its end or to the end of the buffer. -/
theorem step_chunkData {data : Bytes} (hne : data ≠ [])
    (htail : ChunkTail limits wire content trailers) (h : buffer ++ rest = data ++ (crlf ++ wire)) :
    Steps method limits (.chunkData data.length) buffer rest
      (Carry (data ++ content) trailers) := by
  rcases unit_cases h with ⟨behind, rfl, hbehind⟩ | ⟨missing, hmissing, rfl, hrest⟩
  · refine .inr ⟨[.frame (.data data)], .chunkTerminator, behind, Carry content trailers, ?_, ?_,
      hbehind ▸ .terminator htail, fun more hmore => .data data hmore⟩
    · simp [drainStep, writer, sendBody_bind, hne]
    · have := length_pos_iff.mpr hne
      simp [rank]
      omega
  · cases buffer with
    | nil => exact steps_of_missing (by simp [drainStep, writer]) hmissing hrest
    | cons b buffer =>
      refine .inr ⟨[.frame (.data (b :: buffer))], .chunkData missing.length, [],
        Carry (missing ++ content) trailers, ?_, ?_, hrest ▸ .data hmissing htail, ?_⟩
      · simp [drainStep, writer, sendBody_bind, hmissing]
      · simp [rank]
      · intro more hmore
        rw [append_assoc]
        exact .data (b :: buffer) hmore

theorem step_chunkTerminator (htail : ChunkTail limits wire content trailers)
    (h : buffer ++ rest = crlf ++ wire) :
    Steps method limits .chunkTerminator buffer rest (Carry content trailers) := by
  rcases unit_cases h with ⟨behind, rfl, hbehind⟩ | ⟨missing, hmissing, hunit, hrest⟩
  · refine .inr ⟨[], .chunkSize, behind, Carry content trailers, ?_, ?_, hbehind ▸ .size htail,
      fun more hmore => hmore⟩
    · have hlong : ¬ behind.length + 1 + 1 < 2 := by omega
      simp [drainStep, writer, crlf, hlong]
    · show behind.length + 0 < behind.length + 2 + 0
      omega
  · have hlength := congrArg length hunit
    have := length_pos_iff.mpr hmissing
    have hshort : buffer.length < 2 := by simp [crlf] at hlength; omega
    exact steps_of_missing (by simp [drainStep, writer, hshort]) hmissing hrest

/-- The line with the size of a chunk, whatever comes behind it. -/
theorem step_chunkSize (hlimits : 17 ≤ limits.maxHeaderSize) {size} (hsize : size ≤ usizeMax)
    (howed : Owes method limits state tail owed)
    (hstate : state = if size = 0 then .chunkTrailers else .chunkData size)
    (h : buffer ++ rest = (utf8 (upperHex size) ++ crlf) ++ tail) :
    Steps method limits .chunkSize buffer rest owed := by
  subst hstate
  rcases unit_cases h with ⟨behind, rfl, rfl⟩ | ⟨missing, hmissing, hunit, hrest⟩
  · have hcut : cutLine (utf8 (upperHex size) ++ crlf ++ behind) =
        some (utf8 (upperHex size), behind) := by
      rw [append_assoc]
      exact cutLine_line notMem_upperHex
    have hparse : parseHexUsize (chunkSizeText (upperHex size)) = some size :=
      (parseChunkSize_numeral (isNumeral_upperHex size)).trans (parseHexUsize_upperHex hsize)
    refine .inr ⟨[], _, behind, owed, ?_, ?_, howed, fun more hmore => hmore⟩
    · simp only [drainStep, writer, hcut, fromUtf8_utf8, update_bind, hparse]
      split <;> simp
    · split <;> simp [rank, crlf] <;> omega
  · have hshort : ¬ limits.maxHeaderSize < buffer.length := by
      have hlength := congrArg length hunit
      have hdigits := length_utf8_upperHex hsize
      have := length_pos_iff.mpr hmissing
      simp [crlf] at hlength
      omega
    have hcut := cutLine_missing notMem_upperHex hmissing hunit
    exact steps_of_missing (by simp [drainStep, writer, hcut, hshort]) hmissing hrest

/-! ### Trailers -/

theorem parseTrailerLines_lines (hfields : ∀ field ∈ trailers, FieldOk field) {seen}
    (hcount : seen.length + trailers.length ≤ limits.maxHeaderCount) {size}
    (hsize : size + (trailers.map fun field => utf8Len field.1 + utf8Len field.2 + 5).sum ≤
      limits.maxHeaderSize) :
    parseTrailerLines limits (trailers.map trailerLine) seen size =
      .ok (seen ++ trailers.map trimmed) := by
  induction trailers generalizing seen size with
  | nil => exact congrArg Except.ok (append_nil seen).symm
  | cons field trailers ih =>
    obtain ⟨hfield, hfields⟩ := forall_mem_cons.mp hfields
    rw [length_cons] at hcount
    rw [map_cons, sum_cons] at hsize
    have hlength : utf8Len ([' '] ++ field.2) = utf8Len field.2 + 1 := by
      rw [add_comm]
      rfl
    have hadd : saturatingAdd (saturatingAdd (saturatingAdd size (utf8Len field.1))
        (utf8Len ([' '] ++ field.2))) 4 ≤ size + (utf8Len field.1 + utf8Len field.2 + 5) := by
      unfold saturatingAdd
      omega
    rw [map_cons, parseTrailerLines, if_neg (by omega),
      splitOnce_trailerLine (colon_notMem hfield.tokens)]
    dsimp only
    rw [if_neg (by omega), trim_token hfield.tokens, trim_blank,
      ih hfields (by simp; omega) (by omega)]
    simp [trimmed]

theorem trailerWire_cons (field : Str × Str) (trailers : Headers) :
    trailerWire (field :: trailers) =
      utf8 (linesText (trailerLine field) trailers) ++ terminator := by
  rw [← utf8_lines_terminated, trailerWire, flatMap_cons]

theorem parseTrailers_text (hfit : TrailersFit limits (field :: trailers)) :
    parseTrailers limits (utf8 (linesText (trailerLine field) trailers)) =
      .ok ((field :: trailers).map trimmed) := by
  obtain ⟨hfield, hfields⟩ := forall_mem_cons.mp hfit.fields
  have hlines := splitStr_linesText hfield.notMem_line hfields
  have hkept : ((field :: trailers).map trailerLine).filter (fun line => !line.isEmpty) =
      (field :: trailers).map trailerLine := by
    refine filter_eq_self.mpr fun line hline => ?_
    obtain ⟨field', -, rfl⟩ := mem_map.mp hline
    simp [trailerLine]
  rw [parseTrailers, fromUtf8_utf8]
  dsimp only
  rw [hlines, ← map_cons, hkept,
    parseTrailerLines_lines hfit.fields (by simpa using hfit.count) (by simpa using hfit.size)]
  rfl

theorem length_trailerWire : (trailerWire trailers).length =
    (trailers.map fun field => utf8Len field.1 + utf8Len field.2 + 4).sum + 2 := by
  have hline : ∀ field, (utf8 (trailerLine field) ++ crlf).length =
      utf8Len field.1 + utf8Len field.2 + 4 := by
    intro field
    rw [length_append, length_utf8, utf8Len_trailerLine]
    rfl
  rw [trailerWire, length_append, length_flatMap]
  simp only [hline]
  rfl

/-- A part of the trailers fits the limit for all of them. -/
theorem TrailersFit.length_le (hfit : TrailersFit limits trailers)
    (hword : limits.maxHeaderSize < usizeMax) (hmissing : missing ≠ [])
    (h : trailerWire trailers = part ++ missing) :
    ¬ saturatingAdd limits.maxHeaderSize 4 < part.length := by
  have hlength := congrArg length h
  rw [length_trailerWire, length_append] at hlength
  have hless : (trailers.map fun field => utf8Len field.1 + utf8Len field.2 + 4).sum ≤
      (trailers.map fun field => utf8Len field.1 + utf8Len field.2 + 5).sum :=
    sum_le_sum fun field _ => by omega
  have := hfit.size
  have := length_pos_iff.mpr hmissing
  unfold saturatingAdd
  omega

/-- Behind the last chunk come the trailers, or the empty line at once. -/
theorem step_chunkTrailers (hword : limits.maxHeaderSize < usizeMax)
    (hfit : TrailersFit limits trailers) (h : buffer ++ rest = trailerWire trailers) :
    Steps method limits .chunkTrailers buffer rest (Carry [] (trailers.map trimmed)) := by
  cases trailers with
  | nil =>
    rcases unit_cases (h.trans (append_nil _).symm) with
      ⟨behind, rfl, hbehind⟩ | ⟨missing, hmissing, hunit, hrest⟩
    · obtain ⟨rfl, rfl⟩ := append_eq_nil_iff.mp hbehind
      refine .inr ⟨[], .done, [], (· = []), ?_, ?_, .done, ?_⟩
      · simp [drainStep, writer, trailerWire, crlf]
      · simp [rank, trailerWire, crlf]
      · rintro more rfl
        exact .nothing
    · -- the buffer is empty, or holds the first byte of the line end
      have hpart : buffer <+: [13] := prefix_of_missing 10 hmissing hunit
      have hopen : crlf.isPrefixOf buffer = false ∧ position buffer = none := by
        rcases prefix_cons_iff.mp hpart with rfl | ⟨part, rfl, hnone⟩
        · decide
        · rw [prefix_nil.mp hnone]
          decide
      have hshort := hfit.length_le hword hmissing hunit
      exact steps_of_missing (by simp [drainStep, writer, hopen.1, hopen.2, hshort]) hmissing hrest
  | cons field trailers =>
    obtain ⟨hfield, hfields⟩ := forall_mem_cons.mp hfit.fields
    have hfirst := not_terminator_linesText hfield.notMem_line hfields
    have hfront : ∀ {bytes}, bytes <+: trailerWire (field :: trailers) →
        crlf.isPrefixOf bytes = false := by
      intro bytes hbytes
      rw [trailerWire, flatMap_cons, append_assoc, append_assoc] at hbytes
      exact crlf_notFront utf8_trailerLine_ne_nil (notMem_utf8 (by decide) hfield.notMem_line)
        hbytes
    rcases unit_cases (h.trans (append_nil _).symm) with
      ⟨behind, rfl, hbehind⟩ | ⟨missing, hmissing, hunit, hrest⟩
    · obtain ⟨rfl, rfl⟩ := append_eq_nil_iff.mp hbehind
      have hopen := hfront (prefix_refl _)
      have hposition : position (trailerWire (field :: trailers)) =
          some (utf8 (linesText (trailerLine field) trailers)).length := by
        have hfound := position_append hfirst []
        rwa [append_nil, ← trailerWire_cons] at hfound
      have htake : (trailerWire (field :: trailers)).take
          (utf8 (linesText (trailerLine field) trailers)).length =
          utf8 (linesText (trailerLine field) trailers) := by
        rw [trailerWire_cons, take_left]
      have hdrop : (trailerWire (field :: trailers)).drop
          ((utf8 (linesText (trailerLine field) trailers)).length + 4) = [] := by
        rw [trailerWire_cons]
        simp [terminator]
      refine .inr ⟨[.frame (.trailers ((field :: trailers).map trimmed))], .done, [], (· = []), ?_,
        ?_, .done, ?_⟩
      · simp [drainStep, writer, hopen, hposition, htake, hdrop, parseTrailers_text hfit,
          ofExcept_ok_bind, sendBody_bind]
      · simp [rank, trailerWire, crlf]
      · rintro more rfl
        exact .trailers (cons_ne_nil _ _)
    · have hopen := hfront ⟨missing, hunit.symm⟩
      have hposition : position buffer = none := by
        rw [trailerWire_cons] at hunit
        exact position_missing hfirst hmissing hunit
      have hshort := hfit.length_le hword hmissing hunit
      exact steps_of_missing (by simp [drainStep, writer, hopen, hposition, hshort]) hmissing hrest

/-! ### The head -/

theorem foldl_removeHeader_eq {names : List Str} {headers} :
    names.foldl removeHeader headers =
      headers.filter fun field => !names.any fun name => named name field := by
  induction names generalizing headers with
  | nil => simp
  | cons name names ih =>
    rw [foldl_cons, ih, removeHeader, filter_filter]
    apply filter_congr
    intro field _
    rw [any_cons, Bool.not_or, Bool.and_comm]

theorem prepareH2ClientResponseHeaders_eq :
    prepareH2ClientResponseHeaders head.headers head.status = (h2Head head).headers := by
  have hstrip : stripHopByHopHeaders head.headers =
      head.headers.filter fun field => !isHopByHop head.headers field := by
    rw [stripHopByHopHeaders_eq, foldl_removeHeader_eq, foldl_removeHeader_eq, filter_filter]
    apply filter_congr
    intro field _
    rw [isHopByHop, any_append, Bool.not_or]
  unfold prepareH2ClientResponseHeaders h2Head
  rw [hstrip]
  cases statusCanSendContent head.status with
  | true => simp
  | false =>
    rw [Bool.not_false, if_pos rfl, removeHeader, filter_filter]
    apply filter_congr
    intro field _
    rw [Bool.false_or, Bool.and_comm]

theorem chunkTail_chunkedBody {fragments} (hlengths : ∀ data ∈ fragments, data.length ≤ usizeMax)
    (hfit : TrailersFit limits trailers) :
    ChunkTail limits (chunkedBody fragments trailers) fragments.flatten (trailers.map trimmed) := by
  induction fragments with
  | nil => exact .last hfit
  | cons data fragments ih =>
    rw [forall_mem_cons] at hlengths
    cases data with
    | nil => exact ih hlengths.2
    | cons b data =>
      have hchunk := ChunkTail.chunk (cons_ne_nil b data) hlengths.1 (ih hlengths.2)
      rwa [chunkedBody, ← append_assoc] at hchunk

/-- The state behind a head owes the body. -/
theorem FinalBody.owes (h : FinalBody limits method head wire content trailers) :
    ∃ length owed, contentLengthOf head.headers = .ok length ∧
      Owes method limits (bodyState method head length) wire owed ∧
      ∀ more, owed more → Carry content trailers more := by
  cases h with
  | @bodyless hbodyless length hlength =>
    refine ⟨length, (· = []), hlength, ?_, ?_⟩
    · unfold bodyState
      rw [hbodyless]
      exact .discard
    · rintro more rfl
      exact .nothing
  | @chunked hframed length hlength hcoded fragments hlengths trailers hfit =>
    refine ⟨length, _, hlength, ?_, fun more hmore => hmore⟩
    unfold bodyState
    rw [hframed, hcoded]
    exact .size (chunkTail_chunkedBody hlengths hfit)
  | fixed hframed hplain hlength =>
    refine ⟨_, _, hlength, ?_, fun more hmore => hmore⟩
    rw [bodyState, hframed, hplain]
    exact .sized _
  | toTheEnd hframed hplain hnone =>
    refine ⟨none, _, hnone, ?_, fun more hmore => hmore⟩
    rw [bodyState, hframed, hplain]
    exact .toTheEnd _

theorem bodyState_cases (method : Str) (head : RawResponseHead) (length : Option Nat) :
    bodyState method head length ≠ .head ∧ bodyState method head length ≠ .done := by
  unfold bodyState
  split
  · decide
  · split
    · decide
    · split <;> exact ⟨nofun, nofun⟩

theorem step_head (hword : limits.maxHeaderSize < usizeMax) (hok : HeadOk head)
    (hstatus : head.status ≠ 101) (hsize : (Output.head head).wire.length ≤ limits.maxHeaderSize)
    (hcount : head.headers.length ≤ limits.maxHeaderCount)
    (hbody : FinalBody limits method (readBack head) wire content trailers)
    (h : buffer ++ rest = (Output.head head).wire ++ wire) :
    Steps method limits .head buffer rest (Delivered (readBack head) content trailers) := by
  rcases unit_cases h with ⟨behind, rfl, rfl⟩ | ⟨missing, hmissing, hunit, hrest⟩
  · obtain ⟨length, owed, hlength, howes, hcarry⟩ := hbody.owes
    have hposition : position ((Output.head head).wire ++ behind) =
        some (utf8 (headText head)).length := by
      rw [wire_head, append_assoc]
      exact position_append hok.not_terminator_infix behind
    have hfour : (utf8 (headText head)).length + 4 = (Output.head head).wire.length := by
      rw [wire_head, length_append]
      rfl
    obtain ⟨s, hread, -⟩ := hok.readsAs.bytewise hsize hcount
      delivers_bytes
    rw [append_nil] at hread
    have hstatus : ¬ (readBack head).status = 101 := hstatus
    have hstates := bodyState_cases method (readBack head) length
    have hparse : parseHead ((utf8 (headText head)).length + 4)
        (writer method limits .head ((Output.head head).wire ++ behind)) =
        (([.head (h2Head (readBack head))], .done ()),
          writer method limits (bodyState method (readBack head) length) behind) := by
      rw [hfour]
      simp only [parseHead, writer, drop_bind, take_left, hread, ofExcept_ok_bind,
        if_neg hstatus, hlength, setState_bind, prepareH2ClientResponseHeaders_eq]
      rw [sendHead_bind _ _ (by rfl)]
      split
      next hdiscard => simp [closeBody, update, hdiscard, h2Head]
      next hbody => simp [hstates, hbody, h2Head]
    refine .inr ⟨[.head (h2Head (readBack head))], _, behind, owed, ?_, ?_, howes, ?_⟩
    · simp only [drainStep, writer, hposition]
      exact bind_done hparse _
    · have hrank := rank_le (bodyState method (readBack head) length) behind
      have hlong : rank .head ((Output.head head).wire ++ behind) =
        ((Output.head head).wire ++ behind).length := rfl
      rw [length_append] at hlong
      omega
    · exact fun more hmore => ⟨more, rfl, hcarry more hmore⟩
  · have hposition : position buffer = none := by
      rw [wire_head] at hunit
      exact position_missing hok.not_terminator_infix hmissing hunit
    have hshort : ¬ saturatingAdd limits.maxHeaderSize 4 < buffer.length := by
      have hlength := congrArg length hunit
      rw [length_append] at hlength
      unfold saturatingAdd
      omega
    exact steps_of_missing (by simp [drainStep, writer, hposition, hshort]) hmissing hrest

/-! ### Whole runs -/

theorem Owes.step (hlimits : 17 ≤ limits.maxHeaderSize) (hword : limits.maxHeaderSize < usizeMax)
    (h : Owes method limits state (buffer ++ rest) owed) :
    Steps method limits state buffer rest owed := by
  generalize hbytes : buffer ++ rest = bytes at h
  cases h with
  | head hok hstatus hsize hcount hbody =>
    exact step_head hword hok hstatus hsize hcount hbody hbytes
  | sized => exact step_contentLength hbytes
  | size htail =>
    cases htail with
    | last hfit =>
      refine step_chunkSize hlimits (zero_le usizeMax) (.trailers hfit) rfl ?_
      rw [hbytes]
      rfl
    | @chunk data hne hlength _ _ _ htail =>
      have hpos : data.length ≠ 0 := ne_of_gt (length_pos_iff.mpr hne)
      refine step_chunkSize hlimits hlength (.data hne htail) (if_neg hpos).symm ?_
      rw [hbytes, chunk]
      simp
  | data hne htail => exact step_chunkData hne htail hbytes
  | terminator htail => exact step_chunkTerminator htail hbytes
  | trailers hfit => exact step_chunkTrailers hword hfit hbytes
  | toTheEnd => exact step_closeDelimited hbytes
  | discard =>
    obtain ⟨rfl, rfl⟩ := append_eq_nil_iff.mp hbytes
    exact .inl ⟨rfl, fun _ => ⟨rfl, rfl, .inr (.inr rfl)⟩⟩
  | done =>
    obtain ⟨rfl, rfl⟩ := append_eq_nil_iff.mp hbytes
    exact .inl ⟨rfl, fun _ => ⟨rfl, rfl, .inl rfl⟩⟩

/-- A run takes what it can off the buffer and delivers it. When all bytes have come, nothing is
owed any more. -/
def Runs (run : M Unit) (w : H2ResponseWriter) (method : Str) (limits : HeaderLimits) (rest : Bytes)
    (owed : List Delivery → Prop) : Prop :=
  ∃ deliveries state buffer owed',
    run w = ((deliveries, .done ()), writer method limits state buffer) ∧
    Owes method limits state (buffer ++ rest) owed' ∧
    (rest = [] → owed' [] ∧ buffer = [] ∧
      (state = .done ∨ state = .closeDelimited ∨ state = .discard)) ∧
    ∀ more, owed' more → owed (deliveries ++ more)

variable (hlimits : 17 ≤ limits.maxHeaderSize) (hword : limits.maxHeaderSize < usizeMax)

include hlimits hword

theorem runs_drainLoop (h : Owes method limits state (buffer ++ rest) owed) {rounds}
    (hrounds : rank state buffer < rounds) :
    Runs (drainLoop rounds) (writer method limits state buffer) method limits rest owed := by
  induction rounds generalizing state buffer owed with
  | zero => omega
  | succ rounds ih =>
    rcases h.step hlimits hword with ⟨hstep, hrest⟩ |
      ⟨deliveries, state', buffer', owed', hstep, hrank, howes, hmore⟩
    · refine ⟨[], state, buffer, owed, ?_, h, hrest, fun more hmore => hmore⟩
      exact bind_done hstep _
    · obtain ⟨later, state'', buffer'', owed'', hrun, howes'', hrest, hlater⟩ := ih howes (by omega)
      refine ⟨deliveries ++ later, state'', buffer'', owed'', ?_, howes'', hrest, ?_⟩
      · refine (bind_done hstep _).trans ?_
        rw [if_pos rfl, hrun]
      · intro more howed
        rw [append_assoc]
        exact hmore _ (hlater more howed)

theorem runs_drain (h : Owes method limits state (buffer ++ rest) owed) :
    Runs drain (writer method limits state buffer) method limits rest owed :=
  runs_drainLoop hlimits hword h (lt_succ_of_le (rank_le state buffer))

/-- However the bytes are cut. -/
theorem writeAll_owes {writes : List Bytes}
    (h : Owes method limits state (buffer ++ writes.flatten) owed) :
    ∃ deliveries state' buffer' owed',
      writeAll writes (writer method limits state buffer) =
        ((deliveries, .done ()), writer method limits state' buffer') ∧
      Owes method limits state' buffer' owed' ∧ ∀ more, owed' more → owed (deliveries ++ more) := by
  induction writes generalizing state buffer owed with
  | nil =>
    rw [flatten_nil, append_nil] at h
    exact ⟨[], state, buffer, owed, rfl, h, fun more hmore => hmore⟩
  | cons bytes writes ih =>
    rw [flatten_cons, ← append_assoc] at h
    obtain ⟨deliveries, state', buffer', owed', hrun, howes, -, hmore⟩ := runs_drain hlimits hword h
    have hwrite : write bytes (writer method limits state buffer) =
        ((deliveries, .done ()), writer method limits state' buffer') :=
      (if_neg (by rintro rfl; cases h)).trans hrun
    obtain ⟨later, state'', buffer'', owed'', hrun, howes, hlater⟩ := ih howes
    refine ⟨deliveries ++ later, state'', buffer'', owed'', ?_, howes, ?_⟩
    · refine (bind_done hwrite _).trans ?_
      rw [hrun]
    · intro more howed
      rw [append_assoc]
      exact hmore _ (hlater more howed)

/-- At the end everything has been delivered. -/
theorem finish_owes (h : Owes method limits state buffer owed) :
    ∃ deliveries w', H2ResponseWriter.finish (writer method limits state buffer) =
      ((deliveries, .done ()), w') ∧ owed deliveries := by
  rw [← append_nil buffer] at h
  obtain ⟨deliveries, state', buffer', owed', hrun, -, hsettled, hmore⟩ :=
    runs_drain hlimits hword h
  obtain ⟨hnothing, rfl, hstate⟩ := hsettled rfl
  have howed := hmore [] hnothing
  rw [append_nil] at howed
  have hclose : (close (writer method limits state' [])).1 = ([], .done ()) := by
    rcases hstate with rfl | rfl | rfl <;> rfl
  refine ⟨deliveries, (close (writer method limits state' [])).2, ?_, howed⟩
  rw [H2ResponseWriter.finish, bind_done hrun, hclose, append_nil]

end Rounds

/-! ### The bridge -/

def continueHead : RawResponseHead := ⟨"HTTP/1.1", 100, "Continue", []⟩

/-- The head that is delivered first stays the first one. -/
theorem processH2Request_continue {request limits}
    (hexpects : (request.body.hasBody && requestExpectsContinue request.request)) {deliveries w}
    (hfirst : write continueLine (.new request.request.method limits) = ((deliveries, .done ()), w))
    {writes} :
    ∃ more, (processH2Request request limits writes).1 = deliveries ++ more := by
  have hrun : writeAll ([continueLine] ++ writes) (.new request.request.method limits) =
      ((deliveries ++ (writeAll writes w).1.1, (writeAll writes w).1.2), (writeAll writes w).2) :=
    bind_done hfirst _
  rw [processH2Request, if_pos hexpects, hrun]
  rcases writeAll writes w with ⟨⟨later, ⟨⟩ | e | -⟩, w'⟩
  · exact ⟨later ++ (H2ResponseWriter.finish w').1.1, append_assoc _ _ _⟩
  · exact ⟨later ++ (signalError e w').1.1, append_assoc _ _ _⟩
  · exact ⟨later, rfl⟩

section Bridge

variable {limits : HeaderLimits} (hlimits : continueLine.length ≤ limits.maxHeaderSize)
  (hword : limits.maxHeaderSize < usizeMax)

include hlimits hword

theorem deliveredContinue {method} :
    ∃ deliveries w, write continueLine (.new method limits) = ((deliveries, .done ()), w) ∧
      Delivered (readBack continueHead) [] [] deliveries := by
  have hwire : (Output.head continueHead).wire = continueLine := by decide
  have hok : HeadOk continueHead := ⟨.inr rfl, by decide, by decide, forall_mem_nil _⟩
  have hframed : responseHasFramedBody method 100 = false := by
    simp [responseHasFramedBody, isInformational]
  have hbody : FinalBody limits method (readBack continueHead) [] [] [] :=
    .bodyless hframed (by rfl : contentLengthOf [] = .ok none)
  have howes : Owes method limits .head (continueLine ++ [])
      (Delivered (readBack continueHead) [] []) := by
    rw [← hwire]
    exact .head hok (by decide) (by rwa [hwire]) (zero_le _) hbody
  have h17 : 17 ≤ limits.maxHeaderSize := le_trans (by decide) hlimits
  obtain ⟨deliveries, state, buffer, owed, hrun, -, hsettled, hmore⟩ := runs_drain h17 hword howes
  refine ⟨deliveries, _, hrun, ?_⟩
  have hdelivered := hmore [] (hsettled rfl).1
  rwa [append_nil] at hdelivered

end Bridge

section Examples

def bridgeLimits : HeaderLimits := ⟨512, 16⟩

/-- A request with a body of five bytes and these fields. -/
def postHead (headers : Headers) : RequestHead :=
  ⟨⟨"POST", "/", "HTTP/2", headers, [], []⟩, .contentLength 5⟩

def expecting : Headers := [("expect", "100-continue")]

def hiHead : RawResponseHead :=
  ⟨"HTTP/1.1", 200, "OK",
    [("X-A", "a"), ("Content-Length", "2"),
      ("Connection", "close")]⟩

/-- The bytes of the response, cut inside the blank line behind the head and inside the body. -/
def hiWrites : List Bytes :=
  [(Output.head hiHead).wire.take 60, (Output.head hiHead).wire.drop 60 ++ utf8 "h",
    utf8 "i"]

/-- What the client of `hiWrites` is to get. -/
def HiDelivered (request : RequestHead) : Prop :=
  ∃ deliveries, processH2Request request bridgeLimits hiWrites = (deliveries, .done ()) ∧
    Delivered (readBack hiHead) (utf8 "hi") [] deliveries

end Examples

end RsProxy.Engine
