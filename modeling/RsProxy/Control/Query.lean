import RsProxy.Text.Percent

/-!
# Query texts of the control interface

The command-line client escapes what it puts into a query and the control server decodes it. The
decoder walks over the bytes of the text but slices the text for the two digits, so it panics when
the slice ends inside a character, and the number parser it hands the slice to takes a sign.
-/

namespace RsProxy.Control

open List RsProxy.Text Option

/-- The bytes the client's `percent_encode` lets stand. -/
def kept (byte : UInt8) : Bool :=
  let c := Char.ofNat byte.toNat
  c.isAlphanum || c == '-' || c == '_' || c == '.' || c == '~'

def percentEncode (input : Str) : Bytes := Text.percentEncode kept (utf8 input)

/-- `u8::from_str_radix(s, 16)` on two bytes. -/
def parseHexByte (a b : UInt8) : Option UInt8 :=
  if a = 43 then (hexOf b).map UInt8.ofNat else hexPair a b

/-- A slice that ends in front of `rest` ends inside a character. -/
def InsideChar (rest : Bytes) : Prop := ∃ byte ∈ rest.head?, 128 ≤ byte ∧ byte < 192

instance : DecidablePred InsideChar := fun rest =>
  inferInstanceAs (Decidable (∃ byte ∈ rest.head?, _))

def plusToSpace (byte : UInt8) : UInt8 := if byte = 43 then 32 else byte

/-- The output of `percent_decode`'s loop, `none` when it panics. -/
def percentBytes : Bytes → Option Bytes
  | 37 :: a :: b :: rest =>
    if InsideChar rest then none
    else
      match parseHexByte a b with
      | some hex => (percentBytes rest).map (hex :: ·)
      | none => (percentBytes (a :: b :: rest)).map (37 :: ·)
  | byte :: rest => (percentBytes rest).map (plusToSpace byte :: ·)
  | [] => some []

def percentDecode (input : Bytes) : Option Str := (percentBytes input).map fromUtf8Lossy

/-- Behind a `%`: a slice that ends inside a character, or a sign and one hexadecimal digit. -/
def Misread (a b : UInt8) (rest : Bytes) : Prop := InsideChar rest ∨ a = 43 ∧ hexOf b ≠ none

def Legible (input : Bytes) : Prop :=
  ∀ a b rest, 37 :: a :: b :: rest <:+ input → ¬ Misread a b rest

variable {a b byte : UInt8} {rest input out exact bytes : Bytes}

theorem legible_nil : Legible [] := fun _ _ _ h => absurd h.length_le (by simp)

theorem legible_cons : Legible (byte :: input) ↔
    (∀ a b rest, byte :: input = 37 :: a :: b :: rest → ¬ Misread a b rest) ∧ Legible input := by
  simp only [Legible, suffix_cons_iff]
  grind

theorem legible_pair (h : hexPair a b = some byte) :
    Legible (37 :: a :: b :: rest) ↔ ¬ InsideChar rest ∧ Legible rest := by
  obtain ⟨x, hx, hb⟩ := bind_eq_some_iff.mp h
  obtain ⟨y, hy, -⟩ := map_eq_some_iff.mp hb
  have ha : a ≠ 37 ∧ a ≠ 43 := by constructor <;> rintro rfl <;> cases hx
  have hb : b ≠ 37 := by rintro rfl; cases hy
  rw [legible_cons, legible_cons, legible_cons]
  grind [Misread]

/-- The first byte that is not as it should be is a control character in the place of a `%`. -/
def Misplaces (out exact : Bytes) : Prop :=
  ∃ pre control more more', out = pre ++ control :: more ∧ exact = pre ++ 37 :: more' ∧
    control.toNat < 16

/-- The loop is exact, or it stops at an escape it misreads, or takes it for a control character. -/
def Reads (input : Bytes) (result : Option Bytes) (exact : Bytes) : Prop :=
  Legible input ∧ result = some exact ∨ ¬ Legible input ∧ ∀ out ∈ result, Misplaces out exact

/-- A byte that is read as it should be changes nothing about what follows. -/
theorem Reads.cons {result} (h : Reads rest result exact)
    (hlegible : Legible input ↔ Legible rest) :
    Reads input (result.map (byte :: ·)) (byte :: exact) := by
  refine h.imp (fun ⟨hrest, hresult⟩ => ⟨hlegible.mpr hrest, ?_⟩) fun ⟨hrest, hresult⟩ =>
    ⟨fun h => hrest (hlegible.mp h), fun out hout => ?_⟩
  · rw [hresult]
    rfl
  · obtain ⟨out, hmem, rfl⟩ := map_eq_some_iff.mp hout
    obtain ⟨pre, control, more, more', rfl, rfl, hlt⟩ := hresult out hmem
    exact ⟨byte :: pre, control, more, more', rfl, rfl, hlt⟩

theorem reads_percentBytes (input : Bytes) :
    Reads input (percentBytes input) (unescape plusToSpace input) := by
  fun_induction percentBytes input with
  | case1 a b rest hinside => exact .inr ⟨fun h => h a b rest suffix_rfl (.inl hinside), nofun⟩
  | case2 a b rest hinside hex hparse ih =>
    unfold parseHexByte at hparse
    split_ifs at hparse with ha
    · have hnone : hexPair a b = none := by rw [ha]; rfl
      obtain ⟨y, hy, rfl⟩ := map_eq_some_iff.mp hparse
      have hlt : y < 16 := by
        unfold hexOf digitOf at hy
        grind
      rw [unescape, hnone]
      refine .inr ⟨fun h => h a b rest suffix_rfl (.inr ⟨ha, by simp [hy]⟩), fun out hout => ?_⟩
      obtain ⟨more, -, rfl⟩ := map_eq_some_iff.mp hout
      exact ⟨[], .ofNat y, more, _, rfl, rfl, by rw [UInt8.toNat_ofNat']; omega⟩
    · rw [unescape, hparse]
      exact ih.cons ((legible_pair hparse).trans (and_iff_right hinside))
  | case3 a b rest hinside hparse ih =>
    unfold parseHexByte at hparse
    have hnone : hexPair a b = none := by
      split_ifs at hparse with ha
      · rw [ha]
        rfl
      · exact hparse
    have hmis : ¬ Misread a b rest := by
      rintro (h | ⟨ha, hb⟩)
      · exact hinside h
      · exact hb (by simpa [ha] using hparse)
    rw [unescape, hnone]
    refine ih.cons (legible_cons.trans (and_iff_right ?_))
    grind
  | case4 byte rest hpct ih =>
    rw [unescape_cons hpct]
    refine ih.cons (legible_cons.trans (and_iff_right ?_))
    grind
  | case5 => exact .inl ⟨legible_nil, rfl⟩

theorem percentBytes_of_legible (h : Legible input) :
    percentBytes input = some (unescape plusToSpace input) := by
  rcases reads_percentBytes input with ⟨-, hexact⟩ | ⟨hnot, -⟩
  · exact hexact
  · exact absurd h hnot

/-- Decoding the bytes as text does not hide a control character in the place of a `%`. -/
theorem Misplaces.utf8_ne (h : Misplaces out exact) : utf8 (fromUtf8Lossy out) ≠ exact := by
  obtain ⟨pre, control, more, more', rfl, rfl, hlt⟩ := h
  intro heq
  have hascii : control.toNat < 128 := by omega
  obtain ⟨front, rfl⟩ := exists_utf8_of_append heq (by decide)
  rw [fromUtf8Lossy_utf8_append, fromUtf8Lossy_one hascii, utf8_append, append_cancel_left_eq,
    utf8_cons, encode_one (by rwa [toNat_ofNat_ascii hascii]), toNat_ofNat_ascii hascii,
    UInt8.ofNat_toNat] at heq
  have hcontrol : control = 37 := (cons.inj heq).1
  rw [hcontrol] at hlt
  exact absurd hlt (by decide)

theorem kept_byte : ∀ byte, kept byte → (byte ≠ 37 ∧ plusToSpace byte = byte) ∧ byte < 128 :=
  forall_byte (by decide +kernel)

theorem not_insideChar_percentEncode : ¬ InsideChar (Text.percentEncode kept bytes) := by
  rintro ⟨byte, hhead, hle, -⟩
  cases bytes with
  | nil => cases hhead
  | cons first bytes =>
    unfold Text.percentEncode at hhead
    rw [flatMap_cons] at hhead
    split_ifs at hhead with h
    · cases hhead
      exact absurd (kept_byte _ h).2 (UInt8.not_lt.mpr hle)
    · cases hhead
      exact absurd hle (by decide)

theorem legible_percentEncode {bytes} : Legible (Text.percentEncode kept bytes) := by
  induction bytes with
  | nil => exact legible_nil
  | cons byte bytes ih =>
    unfold Text.percentEncode at ih ⊢
    rw [flatMap_cons]
    split_ifs with h
    · exact legible_cons.mpr ⟨fun a b rest h' => absurd (cons.inj h').1 (kept_byte _ h).1.1, ih⟩
    · exact (legible_pair (hexPair_upperDigit _)).mpr ⟨not_insideChar_percentEncode, ih⟩

/-- Decoding is exact where no escape is misread and the bytes that come out are text; and what the
client sends is read back. -/
theorem percentDecode_exact_iff (input s : Str) :
    ((percentDecode (utf8 input)).map utf8 = some (unescape plusToSpace (utf8 input)) ↔
      (∀ a b rest, 37 :: a :: b :: rest <:+ utf8 input → ¬ Misread a b rest) ∧
        ∃ text, utf8 text = unescape plusToSpace (utf8 input)) ∧
    percentDecode (percentEncode s) = some s := by
  refine ⟨⟨fun h => ?_, fun ⟨hlegible, text, htext⟩ => ?_⟩, ?_⟩
  · obtain ⟨decoded, hdecoded, hexact⟩ := map_eq_some_iff.mp h
    refine ⟨?_, decoded, hexact⟩
    obtain ⟨out, hout, rfl⟩ := map_eq_some_iff.mp hdecoded
    rcases reads_percentBytes (utf8 input) with ⟨hlegible, -⟩ | ⟨-, hmisplaces⟩
    · exact hlegible
    · exact absurd hexact (hmisplaces out hout).utf8_ne
  · rw [percentDecode, percentBytes_of_legible hlegible, ← htext, map_some, map_some,
      fromUtf8Lossy_utf8]
  · rw [percentDecode, percentEncode, percentBytes_of_legible legible_percentEncode,
      unescape_percentEncode fun _ h => (kept_byte _ h).1, map_some, fromUtf8Lossy_utf8]

theorem percentDecode_misreads :
    percentDecode (utf8 "%aé") = none ∧
    (percentDecode (utf8 "%+f")).map utf8 = some [15] ∧
      unescape plusToSpace (utf8 "%+f") = utf8 "% f" ∧
    (percentDecode (utf8 "%ff")).map utf8 = some [0xef, 0xbf, 0xbd] ∧
      unescape plusToSpace (utf8 "%ff") = [0xff] := by
  decide +kernel

end RsProxy.Control
