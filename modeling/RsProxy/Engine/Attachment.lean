import RsProxy.Engine.ResponseActions
import RsProxy.Text.Percent

/-!
# File names in `Content-Disposition`

The value the `attachment` action writes, read by a recipient: a disposition type and parameters
whose values are plain or quoted. The name is that of `filename*` where there is one.
-/

namespace RsProxy.Engine

open List Text

/-! ### A recipient -/

/-- The text of a quoted string whose opening quote has been read, and what is behind it. -/
def readQuoted : Str → Option (Str × Str)
  | '"' :: rest => some ([], rest)
  | '\\' :: c :: rest => (readQuoted rest).map fun (text, rest) => (c :: text, rest)
  | c :: rest => (readQuoted rest).map fun (text, rest) => (c :: text, rest)
  | [] => none

/-- Every round reads a parameter. -/
def readParameters : (rounds : Nat) → Str → Option (List (Str × Str))
  | _, [] => some []
  | rounds + 1, ';' :: rest =>
    let (name, rest) := (trimStart rest).span (· != '=')
    match rest with
    | '=' :: '"' :: rest => do
      let (value, rest) ← readQuoted rest
      let parameters ← readParameters rounds rest
      some ((name, value) :: parameters)
    | '=' :: rest => do
      let parameters ← readParameters rounds (rest.dropWhile (· != ';'))
      some ((name, rest.takeWhile (· != ';')) :: parameters)
    | _ => none
  | _, _ => none

def readDisposition (value : Str) : Option (Str × List (Str × Str)) :=
  (readParameters value.length (value.dropWhile (· != ';'))).map (value.takeWhile (· != ';'), ·)

/-! ### What the action writes -/

/-- A character in the quoted parameter, where only ASCII stands. -/
def fallbackChar (c : Char) : Char := if c.toNat < 128 then c else '_'

def escapeChar (c : Char) : Str :=
  if c = '"' || c = '\\' then ['\\', c] else if c.toNat < 128 then [c] else ['_']

variable {c d : Char} {filename rest text value : Str} {bytes : Bytes}

theorem readQuoted_escapeChar : readQuoted (escapeChar c ++ rest) =
    (readQuoted rest).map fun (text, rest) => (fallbackChar c :: text, rest) := by
  by_cases hescaped : c = '"' ∨ c = '\\'
  · obtain rfl | rfl := hescaped <;> rfl
  · obtain ⟨hquote, hslash⟩ := not_or.mp hescaped
    have hplain : escapeChar c = [fallbackChar c] := by
      rw [escapeChar, if_neg (by simpa using hescaped), fallbackChar]
      split_ifs <;> rfl
    have hne : fallbackChar c ≠ '"' ∧ fallbackChar c ≠ '\\' := by
      unfold fallbackChar
      split_ifs
      · exact ⟨hquote, hslash⟩
      · decide
    rw [hplain, singleton_append, readQuoted]
    · exact hne.1
    · exact fun _ _ h => absurd h hne.2

theorem readQuoted_escaped : readQuoted (filename.flatMap escapeChar ++ '"' :: rest) =
    some (filename.map fallbackChar, rest) := by
  induction filename with
  | nil => rfl
  | cons c filename ih =>
    rw [flatMap_cons, append_assoc, readQuoted_escapeChar, ih]
    rfl

/-- The bytes an extended parameter holds as they are. -/
def keptBytes (byte : UInt8) : Bool := percentByte byte = [Char.ofNat byte.toNat]

theorem percentByte_spec : ∀ byte, (keptBytes byte → byte ≠ 37) ∧
    utf8 (percentByte byte) = percentEncode keptBytes [byte] ∧
    ∀ c ∈ percentByte byte, c ≠ ';' ∧ isControl c = false :=
  forall_byte (by decide +kernel)

theorem unescape_percentBytes : unescape id (utf8 (bytes.flatMap percentByte)) = bytes := by
  have hbytes : utf8 (bytes.flatMap percentByte) = percentEncode keptBytes bytes := by
    induction bytes with
    | nil => rfl
    | cons byte bytes ih =>
      rw [flatMap_cons, utf8_append, ih, (percentByte_spec byte).2.1]
      exact flatMap_append.symm
  rw [hbytes]
  exact unescape_percentEncode (fun byte h => ⟨(percentByte_spec byte).1 h, rfl⟩) bytes

theorem readDisposition_quoted {text name rest parameters}
    (hquoted : readQuoted text = some (name, rest))
    (hrest : readParameters (text.length + 21) rest = some parameters) :
    readDisposition ("attachment; filename=\"" ++ text) =
      some ⟨"attachment", ("filename", name) :: parameters⟩ := by
  have hkind : readDisposition ("attachment; filename=\"" ++ text) =
      (readParameters (text.length + 22) ("; filename=\"" ++ text)).map (⟨"attachment", ·⟩) := rfl
  have hparameter : readParameters (text.length + 22) ("; filename=\"" ++ text) =
      (readQuoted text).bind fun quoted =>
        (readParameters (text.length + 21) quoted.2).bind fun parameters =>
          some (⟨"filename", quoted.1⟩ :: parameters) := rfl
  rw [hkind, hparameter, hquoted, Option.bind_some, hrest]
  rfl

theorem readParameters_extended {rounds} (h : ∀ c ∈ text, c ≠ ';') :
    readParameters (rounds + 1) ("; filename*=UTF-8''" ++ text) =
      some [⟨"filename*", "UTF-8''" ++ text⟩] := by
  have hall : ∀ c ∈ "UTF-8''".toList ++ text, (c != ';') = true := by
    simp only [mem_append, bne_iff_ne]
    rintro c (hc | hc)
    · revert c
      decide +kernel
    · exact h c hc
  change Option.bind (readParameters rounds (("UTF-8''".toList ++ text).dropWhile (· != ';')))
    (fun parameters => some
      (("filename*".toList, ("UTF-8''".toList ++ text).takeWhile (· != ';')) :: parameters)) = _
  rw [dropWhile_eq_nil_iff.mpr hall, takeWhile_eq_self_iff.mpr hall, readParameters]
  rfl

theorem mem_escapeChar (h : c ∈ escapeChar d) : c = d ∨ c = '\\' ∨ c = '_' := by
  unfold escapeChar at h
  split_ifs at h <;> simp only [mem_cons, not_mem_nil, or_false] at h <;> grind

/-- What stands behind the quoted parameter. -/
def extended (filename : Str) : Str :=
  if filename.all (·.toNat < 128) then []
  else "; filename*=UTF-8''" ++ (utf8 filename).flatMap percentByte

theorem attachment_value (h : contentDispositionAttachment filename = .ok value) :
    (∀ c ∈ filename, isControl c = false) ∧ value =
      "attachment; filename=\"" ++ (filename.flatMap escapeChar ++ '"' :: extended filename) := by
  unfold contentDispositionAttachment at h
  split_ifs at h with hbad hascii
  all_goals
    rw [Bool.or_eq_true, not_or, any_eq_true] at hbad
    have hname : ∀ c ∈ filename, isControl c = false :=
      fun c hc => Bool.eq_false_iff.mpr fun hcontrol => hbad.2 ⟨c, hc, hcontrol⟩
    cases h
  · rw [extended, if_pos hascii]
    exact ⟨hname, append_assoc ..⟩
  · rw [extended, if_neg hascii, append_assoc, append_assoc]
    exact ⟨hname, rfl⟩

/-- A recipient reads the name back, and no character of it ends the field. -/
theorem attachment_read_back (h : contentDispositionAttachment filename = .ok value) :
    (∀ c ∈ value, isControl c = false) ∧
    if filename.all (·.toNat < 128) then
      readDisposition value = some ⟨"attachment", [("filename", filename)]⟩
    else ∃ text, readDisposition value = some ⟨"attachment",
        [("filename", filename.map fallbackChar), ("filename*", "UTF-8''" ++ text)]⟩ ∧
      fromUtf8Lossy (unescape id (utf8 text)) = filename := by
  obtain ⟨hname, rfl⟩ := attachment_value h
  have hpercent : ∀ c ∈ (utf8 filename).flatMap percentByte, c ≠ ';' ∧ isControl c = false := by
    intro c hc
    obtain ⟨byte, -, hc⟩ := mem_flatMap.mp hc
    exact (percentByte_spec byte).2.2 c hc
  refine ⟨?_, ?_⟩
  · simp only [mem_append, mem_cons, mem_flatMap]
    rintro c (hc | ⟨d, hd, hc⟩ | rfl | hc)
    · revert c
      decide +kernel
    · obtain rfl | rfl | rfl := mem_escapeChar hc
      · exact hname c hd
      all_goals rfl
    · rfl
    · unfold extended at hc
      split_ifs at hc
      · cases hc
      obtain hc | hc := mem_append.mp hc
      · exact (by decide +kernel : ∀ c ∈ "; filename*=UTF-8''".toList, isControl c = false) c hc
      · exact (hpercent c hc).2
  split_ifs with hascii
  · have hsame : filename.map fallbackChar = filename :=
      (map_congr_left fun c hc => if_pos (by simpa using all_eq_true.mp hascii c hc)).trans
        (map_id _)
    rw [readDisposition_quoted readQuoted_escaped (by rw [extended, if_pos hascii, readParameters]),
      hsame]
  · refine ⟨(utf8 filename).flatMap percentByte, readDisposition_quoted readQuoted_escaped ?_, ?_⟩
    · rw [extended, if_neg hascii]
      exact readParameters_extended fun c hc => (hpercent c hc).1
    · rw [unescape_percentBytes, fromUtf8Lossy_utf8]

theorem quote_read_back :
    let value := "attachment; filename=\"\\\"\"".toList
    contentDispositionAttachment ['"'] = .ok value ∧
      readDisposition value = some ⟨"attachment", [("filename", ['"'])]⟩ := by
  have h : contentDispositionAttachment ['"'] = .ok "attachment; filename=\"\\\"\"".toList := by
    decide +kernel
  exact ⟨h, (attachment_read_back h).2⟩

end RsProxy.Engine
