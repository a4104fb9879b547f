import RsProxy.Net.Response
import RsProxy.Net.Chunked

/-!
# Response heads, written and read back

What the writers let through has no line end inside a line, so the readers of response heads find
the lines of a written head again and stop right behind it. The fields they get are the ones the
writer was given, their values trimmed, and the ones it adds itself.
-/

namespace RsProxy.Net

open Text Io List
open Rules (isHttpTokenChar)
open Data (do_eq_ok)

/-! ### The lines of a head -/

def statusLine (head : RawResponseHead) : Str :=
  head.version ++ ' ' :: decimal head.status ++ ' ' :: head.reason

/-- A line and those of fields behind it, with the line ends between them. -/
def linesText (first : Str) (fields : Headers) : Str :=
  first ++ (fields.map trailerLine).flatMap ("\r\n".toList ++ ·)

def headText (head : RawResponseHead) : Str := linesText (statusLine head) head.headers

/-- A field as it is read back. -/
def trimmed (field : Str × Str) : Str × Str := (field.1, trim field.2)

def readBack (head : RawResponseHead) : RawResponseHead :=
  { head with headers := head.headers.map trimmed }

/-- What the writers check of the head that they write. -/
structure HeadOk (head : RawResponseHead) : Prop where
  version : head.version = "HTTP/1.0" ∨ head.version = "HTTP/1.1"
  status : 100 ≤ head.status ∧ head.status ≤ 599
  reason : head.reason.all isHttpFieldValueChar
  fields : ∀ field ∈ head.headers, FieldOk field

theorem utf8_flatMap {α : Type} {l : List α} {f : α → Str} :
    utf8 (l.flatMap f) = l.flatMap fun a => utf8 (f a) :=
  flatMap_assoc

variable {first : Str} {fields : Headers}

theorem utf8_linesText : utf8 (linesText first fields) =
    utf8 first ++ (fields.map fun field => utf8 (trailerLine field)).flatMap (crlf ++ ·) := by
  have hcrlf : utf8 "\r\n" = crlf := by decide
  rw [linesText, utf8_append, flatMap_map, utf8_flatMap, flatMap_map]
  simp only [utf8_append, hcrlf]

/-- Line ends behind the lines are line ends between them, and one behind the last. -/
theorem utf8_lines_terminated :
    utf8 first ++ crlf ++ fields.flatMap (fun field => utf8 (trailerLine field) ++ crlf) ++ crlf =
      utf8 (linesText first fields) ++ terminator := by
  rw [utf8_linesText]
  induction fields generalizing first with
  | nil => simp [terminator, crlf]
  | cons field fields ih =>
    have hrest := @ih (trailerLine field)
    simp only [append_assoc] at hrest
    simp [hrest]

theorem wire_head (head : RawResponseHead) :
    (Output.head head).wire = utf8 (headText head) ++ terminator := by
  have hcrlf : utf8 "\r\n" = crlf := by decide
  have hline : ∀ field, utf8 (field.1 ++ ": " ++ field.2 ++ "\r\n") =
      utf8 (trailerLine field) ++ crlf := by
    intro field
    rw [utf8_append, hcrlf, trailerLine]
  rw [headText, ← utf8_lines_terminated]
  simp only [Output.wire, statusLine, hline]
  rw [utf8_append, hcrlf]

/-! ### Where a head ends -/

theorem terminator_infix_append {line rest : Bytes} (h : 13 ∉ line) :
    terminator <:+: line ++ rest ↔ terminator <:+: rest := by
  induction line with
  | nil => rfl
  | cons b line ih =>
    rw [mem_cons, not_or] at h
    rw [cons_append, infix_cons_iff, ih h.2, or_iff_right]
    intro hstart
    exact h.1 (cons_prefix_cons.mp hstart).1

/-- Lines that are not empty do not end a head. -/
theorem not_terminator_infix_lines {first : Bytes} {rest : List Bytes} (hfirst : 13 ∉ first)
    (hrest : ∀ line ∈ rest, line ≠ [] ∧ 13 ∉ line) :
    ¬ terminator <:+: first ++ rest.flatMap (crlf ++ ·) ++ [13, 10, 13] := by
  induction rest generalizing first with
  | nil =>
    rw [flatMap_nil, append_nil, terminator_infix_append hfirst]
    decide
  | cons line rest ih =>
    obtain ⟨⟨hne, hline⟩, hrest⟩ := forall_mem_cons.mp hrest
    have hlast := ih hline hrest
    rw [flatMap_cons, append_assoc, append_assoc, append_assoc,
      terminator_infix_append hfirst, ← append_assoc line]
    obtain ⟨b, line, rfl⟩ := exists_cons_of_ne_nil hne
    -- behind the line end the next line starts, and not with a carriage return
    rw [crlf, cons_append, infix_cons_iff, cons_append, infix_cons_iff]
    rintro (h | h | h)
    · simp only [terminator, cons_append, nil_append, cons_prefix_cons] at h
      exact hline (h.2.2.1 ▸ mem_cons_self)
    · exact absurd (cons_prefix_cons.mp h).1 (by decide)
    · exact hlast h

/-! ### What is read back -/

variable {field : Str × Str}

theorem FieldOk.tokens (h : FieldOk field) : ∀ c ∈ field.1, isHttpTokenChar c :=
  all_eq_true.mp h.token

theorem FieldOk.notMem_line (h : FieldOk field) : '\r' ∉ trailerLine field := by
  refine notMem_trailerLine h.tokens fun hmem => ?_
  exact absurd (all_eq_true.mp h.value _ hmem) (by decide)

theorem utf8_trailerLine_ne_nil : utf8 (trailerLine field) ≠ [] := by
  intro hnil
  have hback := congrArg fromUtf8Lossy hnil
  rw [fromUtf8Lossy_utf8] at hback
  simp [trailerLine, fromUtf8Lossy] at hback

section

variable (hfirst : '\r' ∉ first) (hfields : ∀ field ∈ fields, FieldOk field)

include hfirst hfields

theorem splitStr_linesText :
    splitStr "\r\n" (linesText first fields) = first :: fields.map trailerLine := by
  have hfree : ∀ {line}, '\r' ∉ line → ¬ "\r\n" <:+: line := fun hline hin =>
    hline (hin.subset (by decide))
  refine splitStr_append_flatMap (by decide) (by decide) (hfree hfirst) fun line hline => ?_
  obtain ⟨field, hfield, rfl⟩ := mem_map.mp hline
  exact hfree (hfields field hfield).notMem_line

theorem not_terminator_linesText :
    ¬ terminator <:+: utf8 (linesText first fields) ++ [13, 10, 13] := by
  rw [utf8_linesText]
  refine not_terminator_infix_lines (notMem_utf8 (by decide) hfirst) fun line hline => ?_
  obtain ⟨field, hfield, rfl⟩ := mem_map.mp hline
  exact ⟨utf8_trailerLine_ne_nil, notMem_utf8 (by decide) (hfields field hfield).notMem_line⟩

end

variable {maxHeaderCount : Nat}

theorem parseHeadersLimited_lines (hfields : ∀ field ∈ fields, FieldOk field)
    (hcount : fields.length ≤ maxHeaderCount) :
    parseHeadersLimited (fields.map trailerLine) maxHeaderCount = .ok (fields.map trimmed) := by
  have hgo : ∀ (fields : Headers) count, (∀ field ∈ fields, FieldOk field) →
      count + fields.length ≤ maxHeaderCount →
      parseHeadersLimited.go maxHeaderCount count (fields.map trailerLine) =
        .ok (fields.map trimmed) := by
    intro fields
    induction fields with
    | nil =>
      intro count _ _
      rfl
    | cons field fields ih =>
      intro count hfields hcount
      obtain ⟨hfield, hfields⟩ := forall_mem_cons.mp hfields
      rw [length_cons] at hcount
      have hnonempty : ¬ (trailerLine field).isEmpty := by simp [trailerLine]
      rw [map_cons, parseHeadersLimited.go, if_neg hnonempty, if_neg (by omega)]
      refine do_eq_ok.mpr ⟨fields.map trimmed, ih (count + 1) hfields (by omega), ?_⟩
      rw [splitOnce_trailerLine (colon_notMem hfield.tokens)]
      dsimp only
      rw [trim_token hfield.tokens]
      rfl
  exact hgo fields 0 hfields (by omega)

namespace HeadOk

variable {head : RawResponseHead}

theorem statusLineParts_statusLine (h : HeadOk head) :
    statusLineParts (statusLine head) =
      (head.version, some (decimal head.status), some head.reason) := by
  have hversion : ' ' ∉ head.version := by
    rcases h.version with hv | hv <;> rw [hv] <;> decide
  have hstatus : ' ' ∉ decimal head.status := (isNumeral_decimal _).notMem (by decide)
  have hfirst : splitOnce [' '] (statusLine head) =
      some (head.version, decimal head.status ++ ' ' :: head.reason) :=
    splitOnce_singleton.mpr ⟨by simp [statusLine], hversion⟩
  have hsecond : splitOnce [' '] (decimal head.status ++ ' ' :: head.reason) =
      some (decimal head.status, head.reason) :=
    splitOnce_singleton.mpr ⟨rfl, hstatus⟩
  rw [statusLineParts, hfirst]
  dsimp only
  rw [hsecond]

theorem notMem_statusLine (h : HeadOk head) : '\r' ∉ statusLine head := by
  have hversion : '\r' ∉ head.version := by
    rcases h.version with hv | hv <;> rw [hv] <;> decide
  have hstatus : '\r' ∉ decimal head.status := (isNumeral_decimal _).notMem (by decide)
  have hreason : '\r' ∉ head.reason := fun hmem =>
    absurd (all_eq_true.mp h.reason _ hmem) (by decide)
  simp [statusLine, hversion, hstatus, hreason]

theorem parseResponseHead_headText (h : HeadOk head)
    (hcount : head.headers.length ≤ maxHeaderCount) :
    parseResponseHead (utf8 (headText head)) maxHeaderCount = .ok (readBack head) := by
  have hlines : splitStr "\r\n" (headText head) =
      statusLine head :: head.headers.map trailerLine :=
    splitStr_linesText h.notMem_statusLine h.fields
  have hstatus : parseU16 (decimal head.status) = some head.status :=
    parseUnsigned_decimal (le_trans h.status.2 (by decide))
  simp only [parseResponseHead, fromUtf8Lossy_utf8, hlines, headD_cons,
    h.statusLineParts_statusLine]
  refine do_eq_ok.mpr ⟨head.headers.map trimmed, parseHeadersLimited_lines h.fields hcount, ?_⟩
  rw [Option.getD_some, hstatus]
  rfl

theorem not_terminator_infix (h : HeadOk head) :
    ¬ terminator <:+: utf8 (headText head) ++ [13, 10, 13] :=
  not_terminator_linesText h.notMem_statusLine h.fields

end HeadOk

/-- Reading from the front of a connection that starts with the head `written`, with limits that
hold it, gives `head` and leaves what is behind, byte by byte or buffer by buffer. -/
structure ReadsAs (written head : RawResponseHead) : Prop where
  bytewise : ∀ {σ} [Read σ] {s : σ} {rest : Bytes} {max maxHeaderCount : Nat},
    (Output.head written).wire.length ≤ max → written.headers.length ≤ maxHeaderCount →
    Delivers s ((Output.head written).wire ++ rest) →
    ∃ s', readResponseHead max maxHeaderCount s = (.ok head, s') ∧ Delivers s' rest
  buffered : ∀ {τ} [BufRead τ] {t : τ} {rest : Bytes} {max maxHeaderCount : Nat},
    (Output.head written).wire.length ≤ max → written.headers.length ≤ maxHeaderCount →
    BufDelivers t ((Output.head written).wire ++ rest) →
    ∃ t', readResponseHeadBuffered max maxHeaderCount t = (.ok head, t') ∧ BufDelivers t' rest

theorem HeadOk.readsAs {head} (h : HeadOk head) : ReadsAs head (readBack head) := by
  constructor
  · intro σ _ s rest max maxHeaderCount hmax hcount hs
    rw [wire_head] at hmax hs
    exact readResponseHead_found h.not_terminator_infix hmax
      (h.parseResponseHead_headText hcount) hs
  · intro τ _ t rest max maxHeaderCount hmax hcount ht
    rw [wire_head] at hmax ht
    exact readResponseHeadBuffered_found h.not_terminator_infix hmax
      (h.parseResponseHead_headText hcount) ht

/-! ### The two writers -/

/-- The head has this status and, of the fields that are kept, the ones of this list. All that it
has besides them is one connection field and a length. -/
structure Says (kept : Str × Str → Bool) (status : Nat) (headers : Headers)
    (head : RawResponseHead) : Prop where
  status : head.status = status
  fields : head.headers.filter kept = (headers.filter kept).map trimmed
  connection : (head.headers.filter (named "connection")).length = 1
  length : AtMostOne head.headers "content-length"
  nothingElse : ∀ field ∈ head.headers, kept field ∨
    named "connection" field ∨ named "content-length" field

variable {headers : Headers}

theorem filter_trimmed {p} (h : ∀ field, p (trimmed field) = p field) :
    (headers.map trimmed).filter p = (headers.filter p).map trimmed := by
  rw [filter_map]
  congr 1
  exact filter_congr fun field _ => h field

variable {kept : Str × Str → Bool}

/-- The fields a writer was given, without the ones it keeps to itself, and the ones it adds. -/
theorem says_readBack (hname : ∀ field, kept (trimmed field) = kept field)
    (hconnection : Blind kept "connection") (hlength : Blind kept "content-length")
    {version reason status length keepAlive} :
    Says kept status headers (readBack ⟨version, status, reason,
      headers.filter kept ++ lengthField status length ++ [connectionField keepAlive]⟩) := by
  have hcon : named "connection" (connectionField keepAlive) :=
    (by decide : eqIgnoreAsciiCase "Connection" "connection")
  have hnotCon : named "content-length" (connectionField keepAlive) = false :=
    (by decide : eqIgnoreAsciiCase "Connection" "content-length" = false)
  have hlen : ∀ field ∈ lengthField status length,
      named "content-length" field ∧ ¬ named "connection" field := by
    intro field hfield
    obtain ⟨n, rfl⟩ := mem_lengthField hfield
    exact (by decide : eqIgnoreAsciiCase "Content-Length" "content-length" ∧
      ¬ eqIgnoreAsciiCase "Content-Length" "connection")
  have hblind : ∀ {name : Str}, Blind kept name →
      (headers.filter kept).filter (named name) = [] := by
    intro name hblind
    refine filter_eq_nil_iff.mpr fun field hfield hnamed => ?_
    have hkept := (mem_filter.mp hfield).2
    rw [hblind field hnamed] at hkept
    cases hkept
  have hsplit : ∀ {p : Str × Str → Bool}, (∀ field, p (trimmed field) = p field) →
      ((headers.filter kept ++ lengthField status length ++ [connectionField keepAlive]).map
        trimmed).filter p =
        (((headers.filter kept).filter p ++ (lengthField status length).filter p) ++
          [connectionField keepAlive].filter p).map trimmed := by
    intro p hp
    rw [filter_trimmed hp, filter_append, filter_append]
  constructor
  · rfl
  · rw [readBack, hsplit hname]
    have hown : (lengthField status length).filter kept = [] :=
      filter_eq_nil_iff.mpr fun field hfield => by simp [hlength field (hlen field hfield).1]
    simp [hown, hconnection _ hcon]
  · rw [readBack, hsplit fun _ => rfl, hblind hconnection,
      filter_eq_nil_iff.mpr fun field hfield => (hlen field hfield).2]
    rfl
  · rw [AtMostOne, readBack, hsplit fun _ => rfl, hblind hlength,
      filter_eq_self.mpr fun field hfield => (hlen field hfield).1,
      filter_cons_of_neg (by rw [hnotCon]; exact Bool.false_ne_true), filter_nil,
      length_map, append_nil]
    exact length_lengthField_le
  · intro field hfield
    obtain ⟨given, hgiven, rfl⟩ := mem_map.mp hfield
    rw [mem_append, mem_append, mem_singleton] at hgiven
    rcases hgiven with (hgiven | hgiven) | rfl
    · exact .inl ((hname given).trans (mem_filter.mp hgiven).2)
    · exact .inr (.inr (hlen given hgiven).1)
    · exact .inr (.inl hcon)

theorem fieldOk_written (h : ∀ field ∈ headers, FieldOk field) {status length keepAlive} :
    ∀ field ∈ headers.filter kept ++ lengthField status length ++ [connectionField keepAlive],
      FieldOk field := by
  intro field hfield
  rw [mem_append, mem_append, mem_singleton] at hfield
  rcases hfield with (hfield | hfield) | rfl
  · exact h field (mem_filter.mp hfield).1
  · obtain ⟨n, rfl⟩ := mem_lengthField hfield
    exact ⟨(by decide : "Content-Length".toList ≠ []),
      (by decide : "Content-Length".toList.all isHttpTokenChar),
      isHttpFieldValueChar_decimal⟩
  · cases keepAlive <;> exact ⟨by decide, by decide, by decide⟩

/-- Where a writer of response heads does not fail, and then it has written nothing, the readers of
response heads find one head: the status, the fields that the writer does not manage itself, with
their values trimmed, one connection field and at most one length, and behind it all that
follows. -/
theorem writers_readBack [ReasonPhrases] (version reason : Str) (status : Nat) (headers : Headers)
    (body : Bytes) (keepAlive : Bool) (head : RawResponseHead) :
    (∀ outputs, writeResponseWithVersionAndConnection version status reason headers body keepAlive =
        .ok outputs →
      ∃ written read, outputs = [.head written, .data body] ∧ ReadsAs written read ∧
        Says (fun field => !isCompleteResponseManagedHeader field.1) status headers read) ∧
    (∀ output, writeResponseHeadWithConnection head headers keepAlive = .ok output →
      ∃ written read, output = .head written ∧ ReadsAs written read ∧
        Says (isWritten head.status) head.status headers read) := by
  constructor
  · intro outputs hwrite
    obtain ⟨⟨⟩, hvalid, hwrite⟩ := do_eq_ok.mp hwrite
    obtain ⟨hversion, hstatus, hreason, hfields⟩ := validateResponseParts_ok_iff.mp hvalid
    split_ifs at hwrite
    cases hwrite
    refine ⟨_, _, rfl, HeadOk.readsAs ⟨hversion, hstatus, hreason, fieldOk_written hfields⟩,
      says_readBack (fun _ => rfl) ?_ ?_⟩
    all_goals exact blind_unmanaged (by decide)
  · intro output hwrite
    obtain ⟨⟨⟩, hvalid, hwrite⟩ := do_eq_ok.mp hwrite
    obtain ⟨hversion, hstatus, hreason, hfields⟩ := validateResponseParts_ok_iff.mp hvalid
    obtain ⟨length, hlength, hwrite⟩ := do_eq_ok.mp hwrite
    cases hwrite
    refine ⟨_, _, rfl, HeadOk.readsAs ⟨hversion, hstatus, hreason, fieldOk_written hfields⟩,
      says_readBack (fun _ => rfl) ?_ ?_⟩
    · intro field hnamed
      rw [isWritten, hnamed]
      rfl
    · intro field hnamed
      rw [isWritten, hnamed, Bool.or_true]
      rfl

/-- A blank in front of a value and a second length do not come back. -/
theorem writers_readBack_page :
    ∃ outputs written read, writeResponseWithVersionAndConnection "HTTP/1.1" 200 "OK"
        [("X-A", " a"), ("content-length", "9")] (utf8 "hi") true =
          .ok outputs ∧
      outputs = [.head written, .data (utf8 "hi")] ∧ ReadsAs written read ∧
      Says (fun field => !isCompleteResponseManagedHeader field.1) 200
        [("X-A", " a"), ("content-length", "9")] read := by
  let _ : ReasonPhrases := ⟨fun _ => [], fun _ => rfl⟩
  have hwrite := writeResponse_ok
    (validateResponseParts_ok_iff.mpr ⟨.inr rfl, by decide, by decide, fun field hfield => by
      rw [mem_pair] at hfield
      rcases hfield with rfl | rfl <;> exact ⟨by decide, by decide, by decide⟩⟩ :
      validateResponseParts "HTTP/1.1" 200 "OK"
        [("X-A", " a"), ("content-length", "9")] = .ok ())
    (by decide) (utf8 "hi") true
  obtain ⟨written, read, hparts⟩ := (writers_readBack "HTTP/1.1" "OK" 200
    [("X-A", " a"), ("content-length", "9")] (utf8 "hi") true
    ⟨"HTTP/1.1", 200, [], []⟩).1 _ hwrite
  exact ⟨_, written, read, hwrite, hparts⟩

end RsProxy.Net
