import RsProxy.Net.Response
import RsProxy.Rules.Url

/-!
# Mocks from files

The path below a mock directory that a request's URL stands for, and the head and the body of a raw
mock. Paths are those of Unix, so that no component is a Windows prefix.
-/

namespace RsProxy.Engine

open Text Io Data Net List
open Rules (UrlParts)

/-! ### Paths -/

inductive Component where
  | rootDir
  | curDir
  | parentDir
  | normal (name : Str)
deriving DecidableEq

/-- A piece between slashes; an empty one and `.` are skipped. -/
def component (piece : Str) : Option Component :=
  if piece = [] ∨ piece = "." then none
  else if piece = ".." then some .parentDir
  else some (.normal piece)

/-- What a path begins with. A leading `.` is kept. -/
def leading (path : Str) : List Component :=
  if path.head? = some '/' then [.rootDir]
  else if (splitOn (· == '/') path).head? = some ['.'] then [.curDir]
  else []

def components (path : Str) : List Component :=
  leading path ++ (splitOn (· == '/') path).filterMap component

/-- `PathBuf::push`; an absolute path takes the place of the old one. -/
def push (path piece : Str) : Str :=
  if piece.head? = some '/' then piece
  else if path = [] ∨ path.getLast? = some '/' then path ++ piece
  else path ++ '/' :: piece

def isSafePathSegment (segment : Str) : Bool :=
  match components segment with
  | [.normal _] => true
  | _ => false

def pushSegment (out segment : Str) : Except IoError Str :=
  let segment := trim segment
  if segment.isEmpty then .ok out
  else if segment = "." ∨ segment = ".." ∨ segment.any (['\\', ':', '\x00'].contains ·) ∨
      !isSafePathSegment segment then
    .error ⟨.invalidInput, "unsafe mock directory URL path segment `" ++ segment ++ "`"⟩
  else .ok (push out segment)

def mockDirectoryRelativePath (url : Str) : Except IoError Str := do
  let path := match UrlParts.parse url with
    | .ok url => url.path
    | .error _ => ['/']
  let out ← (splitOn (· == '/') path).foldlM pushSegment []
  .ok (if out.isEmpty ∨ path.getLast? = some '/' then push out "index.html" else out)

/-- All components are names. -/
def Descends (path : Str) : Prop := ∀ c ∈ components path, ∃ name, c = .normal name

theorem splitOn_append_sep {s t : Str} :
    splitOn (· == '/') (s ++ '/' :: t) = splitOn (· == '/') s ++ splitOn (· == '/') t := by
  induction s with
  | nil => rfl
  | cons c s ih =>
    rw [cons_append, Text.splitOn, Text.splitOn, ih]
    split
    · rfl
    · cases hs : splitOn (· == '/') s with
      | nil => exact absurd hs splitOn_ne_nil
      | cons w ws => rfl

theorem Descends.leading_eq {path} (h : Descends path) : leading path = [] := by
  refine eq_nil_iff_forall_not_mem.mpr fun c hc => ?_
  obtain ⟨name, rfl⟩ := h c (mem_append_left _ hc)
  unfold leading at hc
  split_ifs at hc <;> simp at hc

theorem components_append_sep {path : Str} {piece : Str} (hne : path ≠ []) :
    components (path ++ '/' :: piece) =
      components path ++ (splitOn (· == '/') piece).filterMap component := by
  have hleading : leading (path ++ '/' :: piece) = leading path := by
    rw [leading, leading, splitOn_append_sep, head?_append_of_ne_nil _ hne,
      head?_append_of_ne_nil _ splitOn_ne_nil]
  rw [components, components, hleading, splitOn_append_sep, filterMap_append, append_assoc]

/-- Below a directory, a plain path adds its own components. -/
theorem components_push {piece} (h : Descends piece) (path : Str) :
    components (push path piece) = components path ++ components piece := by
  have hleading := h.leading_eq
  have hrelative : piece.head? ≠ some '/' := by
    intro hroot
    rw [leading, if_pos hroot] at hleading
    cases hleading
  have hpiece : components piece = (splitOn (· == '/') piece).filterMap component := by
    rw [components, hleading, nil_append]
  rw [push, if_neg hrelative, hpiece]
  split_ifs with hends
  · rcases eq_nil_or_concat path with rfl | ⟨path, last, rfl⟩
    · exact hpiece
    · rw [concat_eq_append]
      obtain rfl : last = '/' := by simpa using hends
      rw [append_assoc, singleton_append]
      cases path with
      | nil => simp [components, Text.splitOn, leading, component]
      | cons c path =>
        rw [components_append_sep (cons_ne_nil _ _), components_append_sep (cons_ne_nil _ _)]
        simp [Text.splitOn, component]
  · exact components_append_sep fun hnil => hends (.inl hnil)

theorem Descends.push {path piece} (h : Descends path) (hpiece : Descends piece) :
    Descends (push path piece) := by
  intro c hc
  rw [components_push hpiece, mem_append] at hc
  exact hc.elim (h c) (hpiece c)

theorem descends_of_eq {path name} (h : components path = [.normal name]) : Descends path := by
  rw [Descends, h]
  exact forall_mem_singleton.mpr ⟨name, rfl⟩

theorem descends_pushSegment {out out' segment} (hout : Descends out)
    (h : pushSegment out segment = .ok out') : Descends out' := by
  simp only [pushSegment] at h
  split_ifs at h with _ hunsafe
  · cases h
    exact hout
  · cases h
    refine hout.push ?_
    simp only [isSafePathSegment] at hunsafe
    split at hunsafe
    next name hname => exact descends_of_eq hname
    · simp at hunsafe

/-- The path of a mock consists of names, and below any directory it is those names behind the
components of the directory. -/
theorem mock_path_inside (url path : Str) (h : mockDirectoryRelativePath url = .ok path) :
    (∀ c ∈ components path, ∃ name, c = .normal name ∧ name ≠ []) ∧
      ∀ dir, components (push dir path) = components dir ++ components path := by
  obtain ⟨out, hout, h⟩ := do_eq_ok.mp h
  have hplain : Descends out := invariant_of_foldlM (fun _ _ => descends_pushSegment)
    (fun _ hc => by cases hc) hout
  have hpath : Descends path := by
    cases h
    split_ifs
    · exact hplain.push (descends_of_eq (by decide : _ = [Component.normal "index.html"]))
    · exact hplain
  refine ⟨fun c hc => ?_, components_push hpath⟩
  obtain ⟨name, rfl⟩ := hpath c hc
  rw [components, hpath.leading_eq] at hc
  obtain ⟨piece, -, hpiece⟩ := mem_filterMap.mp hc
  unfold component at hpiece
  split_ifs at hpiece with hskip <;> cases hpiece
  exact ⟨_, rfl, fun hnil => hskip (.inl hnil)⟩

/-- The path `/api/` of a request below the directory `mocks`. -/
theorem mock_path_api :
    components (push "mocks" "api/index.html") =
      components "mocks" ++ components "api/index.html" :=
  (mock_path_inside "http://example.test/api/" "api/index.html" (by decide +kernel)).2 "mocks"

/-! ### Raw mocks -/

structure MockResponse where
  status : Nat
  reason : Str
  headers : Headers
  body : Bytes
deriving DecidableEq

/-- The place of the first `needle`. -/
def findBytes (needle : Bytes) : Bytes → Option Nat
  | [] => none
  | b :: bs => if needle.isPrefixOf (b :: bs) then some 0 else (findBytes needle bs).map (· + 1)

def crlfBlank : Bytes := [13, 10, 13, 10]

def lfBlank : Bytes := [10, 10]

/-- The head and the body of a raw mock. -/
def splitRawMock (bytes : Bytes) : Option (Bytes × Bytes) :=
  match findBytes crlfBlank bytes with
  | some idx => some (bytes.take idx, bytes.drop (idx + 4))
  | none => (findBytes lfBlank bytes).map fun idx => (bytes.take idx, bytes.drop (idx + 2))

/-- The field of a line. A blank line has none, and neither has one without a name or that of the
connection. -/
def rawMockField (line : Str) : Except IoError (Option (Str × Str)) :=
  let line := line.rdropWhile (· == '\r')
  if (trim line).isEmpty then .ok none
  else
    match splitOnce [':'] line with
    | none => .error (invalidData ("mock.raw invalid header `" ++ line ++ "`"))
    | some (name, value) =>
      let name := trim name
      if name.isEmpty || eqIgnoreAsciiCase name "connection" then .ok none
      else .ok (some (name, trimStart value))

def parseRawMockResponse [ReasonPhrases] (bytes : Bytes) : Except IoError MockResponse :=
  match splitRawMock bytes with
  | none =>
    .error (invalidData "mock.raw must include status line, headers, blank line, and body")
  | some (head, body) =>
    match lines (fromUtf8Lossy head) with
    | [] => .error (invalidData "mock.raw missing status line")
    | statusLine :: rest =>
      let (version, status, reason) := statusLineParts (statusLine.rdropWhile (· == '\r'))
      if ¬ (version = "HTTP/1.0" ∨ version = "HTTP/1.1") then
        .error (invalidData "mock.raw status line must use HTTP/1.0 or HTTP/1.1")
      else
        match status.bind parseU16 with
        | none => .error (invalidData "mock.raw invalid status")
        | some status => do
          let reason := (reason.filter fun reason => !(trim reason).isEmpty).getD
            (ReasonPhrases.phrase status)
          let fields ← rest.mapM rawMockField
          .ok ⟨status, reason, fields.reduceOption, body⟩

/-- The bytes are cut around a needle, and none stands further to the front. -/
def CutAtFirst (needles : List Bytes) (bytes head body : Bytes) : Prop :=
  (∃ needle ∈ needles, bytes = head ++ (needle ++ body)) ∧
    ∀ needle ∈ needles, ∀ head' body', bytes = head' ++ (needle ++ body') →
      head.length ≤ head'.length

variable {needle bytes head body : Bytes}

theorem cutAtFirst_of_findBytes {i} (h : findBytes needle bytes = some i) :
    CutAtFirst [needle] bytes (bytes.take i) (bytes.drop (i + needle.length)) := by
  simp only [CutAtFirst, mem_singleton, exists_eq_left, forall_eq]
  induction bytes generalizing i with
  | nil => cases h
  | cons b bs ih =>
    rw [findBytes] at h
    split at h
    next hhere =>
      cases h
      rw [Nat.zero_add]
      have hfront := isPrefixOf_iff_prefix.mp hhere
      exact ⟨(prefix_iff_eq_append.mp hfront).symm, by simp⟩
    next hhere =>
      obtain ⟨i, hi, rfl⟩ := Option.map_eq_some_iff.mp h
      obtain ⟨hcut, hfirst⟩ := ih hi
      rw [take_succ_cons, Nat.succ_add, drop_succ_cons, cons_append, ← hcut]
      refine ⟨rfl, fun head' body' heq => ?_⟩
      cases head' with
      | nil =>
        apply absurd _ hhere
        exact isPrefixOf_iff_prefix.mpr ⟨body', heq.symm⟩
      | cons c head' =>
        cases heq
        exact Nat.succ_le_succ (hfirst head' body' rfl)

theorem findBytes_eq_none_iff (hne : needle ≠ []) :
    findBytes needle bytes = none ↔ ¬ needle <:+: bytes := by
  induction bytes with
  | nil => simp [findBytes, hne]
  | cons b bs ih =>
    rw [findBytes, infix_cons_iff, not_or, ← ih, ← isPrefixOf_iff_prefix]
    split <;> simp_all

theorem cutAtFirst_of_splitRawMock (h : splitRawMock bytes = some (head, body)) :
    CutAtFirst [crlfBlank] bytes head body ∨
      ¬ crlfBlank <:+: bytes ∧ CutAtFirst [lfBlank] bytes head body := by
  rw [splitRawMock] at h
  split at h
  next idx hidx =>
    cases h
    exact .inl (cutAtFirst_of_findBytes hidx)
  next hnone =>
    obtain ⟨idx, hidx, h⟩ := Option.map_eq_some_iff.mp h
    cases h
    exact .inr ⟨(findBytes_eq_none_iff (by decide)).mp hnone, cutAtFirst_of_findBytes hidx⟩

theorem crlfBlank_infix_of_le {a b} (h : head ++ (crlfBlank ++ body) = a ++ (lfBlank ++ b))
    (hle : head.length ≤ a.length) : crlfBlank <:+: a ++ [10] := by
  obtain ⟨t, rfl⟩ := prefix_of_prefix_length_le ⟨_, rfl⟩ ⟨_, h.symm⟩ hle
  rw [append_assoc, append_cancel_left_eq] at h
  have hlong : 3 ≤ t.length := by
    rcases t with _ | ⟨x, _ | ⟨y, _ | ⟨z, t⟩⟩⟩ <;> simp [crlfBlank, lfBlank] at h ⊢
  have hfront : t ++ [10] <+: crlfBlank ++ body := ⟨10 :: b, by simp [h, lfBlank]⟩
  have hprefix := prefix_of_prefix_length_le (prefix_append crlfBlank body) hfront
    (by simpa [crlfBlank] using hlong)
  rw [append_assoc]
  exact hprefix.isInfix.trans (suffix_append head _).isInfix

theorem le_of_crlfBlank_first {a b} (h : head ++ (crlfBlank ++ body) = a ++ (lfBlank ++ b))
    (hfirst : crlfBlank <:+: b → crlfBlank <:+: a ++ [10]) (hhead : ¬ crlfBlank <:+: head) :
    head.length ≤ a.length := by
  by_contra hlt
  obtain ⟨t, rfl⟩ := prefix_of_prefix_length_le ⟨_, h.symm⟩ ⟨_, rfl⟩ (le_of_not_ge hlt)
  rcases t with _ | ⟨x, _ | ⟨y, t⟩⟩
  · simp at hlt
  · simp [crlfBlank, lfBlank] at h
  · obtain ⟨rfl, rfl, rfl⟩ : x = 10 ∧ y = 10 ∧ t ++ (crlfBlank ++ body) = b := by
      simpa [lfBlank] using h
    exact hhead ((hfirst ⟨t, body, append_assoc ..⟩).trans ⟨[], 10 :: t, by simp⟩)

/-- A mock that is read has the body behind the blank line where it is cut and the fields of the
lines in front of it. It is cut if there is one, and at the first one if and only if no LF blank
line stands in front of the first CRLF blank line. -/
theorem rawMock_cut_iff [ReasonPhrases] (bytes : Bytes) :
    (∀ response, parseRawMockResponse bytes = .ok response → ∃ head fields,
      splitRawMock bytes = some (head, response.body) ∧
      (lines (fromUtf8Lossy head)).tail.mapM rawMockField = .ok fields ∧
      response.headers = fields.reduceOption) ∧
    (splitRawMock bytes = none ↔ ¬ crlfBlank <:+: bytes ∧ ¬ lfBlank <:+: bytes) ∧
    ∀ head body, splitRawMock bytes = some (head, body) →
      (CutAtFirst [crlfBlank, lfBlank] bytes head body ↔
        ∀ a b, bytes = a ++ (lfBlank ++ b) → crlfBlank <:+: b → crlfBlank <:+: a ++ [10]) := by
  refine ⟨fun response h => ?_, ?_, fun head body h => ?_⟩
  · unfold parseRawMockResponse at h
    split at h
    · cases h
    next head body hsplit =>
      split at h
      · cases h
      next line rest hlines =>
        dsimp only at h
        split_ifs at h
        split at h
        · cases h
        · obtain ⟨fields, hfields, h⟩ := do_eq_ok.mp h
          cases h
          exact ⟨head, fields, hsplit, by rw [hlines]; exact hfields, rfl⟩
  · rw [← findBytes_eq_none_iff (by decide), ← findBytes_eq_none_iff (by decide), splitRawMock]
    split <;> simp_all
  · rw [CutAtFirst, forall_mem_cons, forall_mem_singleton]
    rcases cutAtFirst_of_splitRawMock h with ⟨hcut, hfirst⟩ | ⟨hnone, hcut, hfirst⟩ <;>
      simp only [mem_singleton, exists_eq_left, forall_eq] at hcut hfirst
    · refine ⟨fun hblank a b heq _ => crlfBlank_infix_of_le (hcut.symm.trans heq)
        (hblank.2.2 a b heq), fun hcond => ⟨⟨crlfBlank, by simp, hcut⟩, hfirst, fun a b heq => ?_⟩⟩
      refine le_of_crlfBlank_first (hcut.symm.trans heq) (hcond a b heq) ?_
      rintro ⟨x, y, rfl⟩
      have hle := hfirst x (y ++ (crlfBlank ++ body)) (by simp [hcut])
      simp [crlfBlank] at hle
    · refine iff_of_true ⟨⟨lfBlank, by simp, hcut⟩, ?_, hfirst⟩ ?_
      · rintro a b rfl
        exact absurd ⟨a, b, append_assoc ..⟩ hnone
      · rintro a b rfl hb
        exact absurd (hb.trans ⟨a ++ lfBlank, [], by simp⟩) hnone

/-- The blank line behind the status line is one with LF, and the body has one with CRLF. -/
theorem rawMock_cut_in_body :
    let bytes := utf8 "HTTP/1.1 200 OK\n\nnote: body\r\n\r\nrest"
    @parseRawMockResponse ⟨fun _ => [], fun _ => rfl⟩ bytes =
      .ok ⟨200, "OK", [("note", "body")], utf8 "rest"⟩ ∧
    ¬ CutAtFirst [crlfBlank, lfBlank] bytes (utf8 "HTTP/1.1 200 OK\n\nnote: body")
      (utf8 "rest") := by
  refine ⟨by decide +kernel, fun h => ?_⟩
  have hle := h.2 lfBlank (by simp) (utf8 "HTTP/1.1 200 OK")
    (utf8 "note: body\r\n\r\nrest") (by decide +kernel)
  exact absurd hle (by decide +kernel)

end RsProxy.Engine
