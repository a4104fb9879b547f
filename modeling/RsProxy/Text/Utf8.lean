import RsProxy.Text.Basic

/-!
# Bytes and characters

`utf8` is the byte form of a `Str`. `fromUtf8Lossy` goes the other way for bytes nobody promised
anything about: every maximal ill-formed part becomes one replacement character and decoding goes
on at the byte that broke the sequence.
-/

namespace RsProxy.Text

open List
open String (utf8EncodeChar)

abbrev Bytes := List UInt8

def utf8 (s : Str) : Bytes := s.flatMap utf8EncodeChar

@[simp] theorem utf8_nil : utf8 [] = [] := rfl

@[simp] theorem utf8_append {a b} : utf8 (a ++ b) = utf8 a ++ utf8 b := by
  simp [utf8]

/-! ### Lossy decoding -/

/-- The replacement character `U+FFFD`. -/
def replacement : Char := '�'

/-- What a lead byte above `0x7F` asks for: the range of the second byte, and how many
continuation bytes follow that one. `none` for a byte that starts nothing. -/
def leadByte (b : UInt8) : Option (UInt8 × UInt8 × Nat) :=
  if 0xC2 ≤ b ∧ b ≤ 0xDF then some (0x80, 0xBF, 0)
  else if b = 0xE0 then some (0xA0, 0xBF, 1)
  else if b = 0xED then some (0x80, 0x9F, 1)
  else if 0xE1 ≤ b ∧ b ≤ 0xEF then some (0x80, 0xBF, 1)
  else if b = 0xF0 then some (0x90, 0xBF, 2)
  else if 0xF1 ≤ b ∧ b ≤ 0xF3 then some (0x80, 0xBF, 2)
  else if b = 0xF4 then some (0x80, 0x8F, 2)
  else none

def isContinuation (b : UInt8) : Bool := 0x80 ≤ b && b ≤ 0xBF

/-- The low six bits of a continuation byte. -/
def payload (b : UInt8) : Nat := b.toNat % 64

/-- Decode bytes that may be ill formed. -/
def fromUtf8Lossy : Bytes → Str
  | [] => []
  | b0 :: t0 =>
    if b0 < 0x80 then Char.ofNat b0.toNat :: fromUtf8Lossy t0
    else match leadByte b0 with
      | none => replacement :: fromUtf8Lossy t0
      | some (lo, hi, more) =>
        match t0 with
        | [] => [replacement]
        | b1 :: t1 =>
          if lo ≤ b1 ∧ b1 ≤ hi then
            match more with
            | 0 => Char.ofNat (b0.toNat % 32 * 64 + payload b1) :: fromUtf8Lossy t1
            | more + 1 =>
              match t1 with
              | [] => [replacement]
              | b2 :: t2 =>
                if isContinuation b2 then
                  match more with
                  | 0 =>
                    Char.ofNat ((b0.toNat % 16 * 64 + payload b1) * 64 + payload b2) ::
                      fromUtf8Lossy t2
                  | _ + 1 =>
                    match t2 with
                    | [] => [replacement]
                    | b3 :: t3 =>
                      if isContinuation b3 then
                        Char.ofNat (((b0.toNat % 8 * 64 + payload b1) * 64 + payload b2) * 64 +
                          payload b3) :: fromUtf8Lossy t3
                      else replacement :: fromUtf8Lossy (b3 :: t3)
                else replacement :: fromUtf8Lossy (b2 :: t2)
          else replacement :: fromUtf8Lossy (b1 :: t1)

/-- `String::from_utf8`: bytes are well formed when decoding loses none of them. -/
def fromUtf8 (bs : Bytes) : Option Str :=
  let s := fromUtf8Lossy bs
  if utf8 s = bs then some s else none

/-! ### Decoding what was encoded -/

variable {b0 : UInt8} {rest : Bytes}

theorem fromUtf8Lossy_one (h0 : b0.toNat < 128) :
    fromUtf8Lossy (b0 :: rest) = Char.ofNat b0.toNat :: fromUtf8Lossy rest := by
  have hlt : b0 < 0x80 := UInt8.lt_iff_toNat_lt.mpr h0
  rw [fromUtf8Lossy.eq_def]
  simp [if_pos hlt]

/-- The table of lead bytes in numbers. -/
theorem leadByte_eq {b} : leadByte b =
    if 194 ≤ b.toNat ∧ b.toNat ≤ 223 then some (0x80, 0xBF, 0)
    else if b.toNat = 224 then some (0xA0, 0xBF, 1)
    else if b.toNat = 237 then some (0x80, 0x9F, 1)
    else if 225 ≤ b.toNat ∧ b.toNat ≤ 239 then some (0x80, 0xBF, 1)
    else if b.toNat = 240 then some (0x90, 0xBF, 2)
    else if 241 ≤ b.toNat ∧ b.toNat ≤ 243 then some (0x80, 0xBF, 2)
    else if b.toNat = 244 then some (0x80, 0x8F, 2)
    else none := by
  simp only [leadByte, ← UInt8.toNat_inj]
  rfl

theorem leadByte_not_lt {want} (h : leadByte b0 = some want) : ¬ b0 < 0x80 := by
  intro hlt
  have hlt : b0.toNat < 128 := UInt8.lt_iff_toNat_lt.mp hlt
  rw [leadByte_eq] at h
  repeat rw [if_neg (by omega)] at h
  cases h

variable {b1 lo hi : UInt8}

theorem fromUtf8Lossy_two (hlead : leadByte b0 = some (lo, hi, 0)) (h1 : lo ≤ b1 ∧ b1 ≤ hi) :
    fromUtf8Lossy (b0 :: b1 :: rest) =
      Char.ofNat (b0.toNat % 32 * 64 + payload b1) :: fromUtf8Lossy rest := by
  rw [fromUtf8Lossy.eq_def]
  simp [if_neg (leadByte_not_lt hlead), hlead, if_pos h1]

variable {b2 : UInt8}

theorem fromUtf8Lossy_three (hlead : leadByte b0 = some (lo, hi, 1)) (h1 : lo ≤ b1 ∧ b1 ≤ hi)
    (h2 : isContinuation b2) :
    fromUtf8Lossy (b0 :: b1 :: b2 :: rest) =
      Char.ofNat ((b0.toNat % 16 * 64 + payload b1) * 64 + payload b2) :: fromUtf8Lossy rest := by
  rw [fromUtf8Lossy.eq_def]
  simp [if_neg (leadByte_not_lt hlead), hlead, if_pos h1, if_pos h2]

theorem fromUtf8Lossy_four {b3} (hlead : leadByte b0 = some (lo, hi, 2)) (h1 : lo ≤ b1 ∧ b1 ≤ hi)
    (h2 : isContinuation b2) (h3 : isContinuation b3) :
    fromUtf8Lossy (b0 :: b1 :: b2 :: b3 :: rest) =
      Char.ofNat (((b0.toNat % 8 * 64 + payload b1) * 64 + payload b2) * 64 + payload b3) ::
        fromUtf8Lossy rest := by
  rw [fromUtf8Lossy.eq_def]
  simp [if_neg (leadByte_not_lt hlead), hlead, if_pos h1, if_pos h2, if_pos h3]

/-- A continuation byte with these six bits. -/
theorem isContinuation_ofNat {n} : isContinuation (UInt8.ofNat (n % 64 + 128)) := by
  unfold isContinuation
  simp only [UInt8.le_iff_toNat_le]
  simp
  omega

theorem payload_ofNat {n} : payload (UInt8.ofNat (n % 64 + 128)) = n % 64 := by
  unfold payload
  rw [UInt8.toNat_ofNat']
  omega

variable {v : Nat}

/-- The second byte of a character of three bytes is in the range its lead byte asks for. -/
theorem leadByte_three (h : 0x800 ≤ v ∧ v ≤ 0xFFFF) (hvalid : v < 0xD800 ∨ 0xDFFF < v) :
    ∃ lo hi, leadByte (UInt8.ofNat (v / 4096 % 16 + 224)) = some (lo, hi, 1) ∧
      lo ≤ UInt8.ofNat (v / 64 % 64 + 128) ∧ UInt8.ofNat (v / 64 % 64 + 128) ≤ hi := by
  simp only [leadByte_eq, UInt8.le_iff_toNat_le, UInt8.toNat_ofNat']
  rw [if_neg (by omega)]
  by_cases hlow : v < 0x1000
  · refine ⟨0xA0, 0xBF, if_pos (by omega), ?_⟩
    simp
    omega
  rw [if_neg (by omega)]
  by_cases hsurrogates : 0xD000 ≤ v ∧ v < 0xE000
  · refine ⟨0x80, 0x9F, if_pos (by omega), ?_⟩
    simp
    omega
  · refine ⟨0x80, 0xBF, ?_, ?_⟩
    · rw [if_neg (by omega), if_pos (by omega)]
    · simp
      omega

theorem leadByte_four (h : 0x10000 ≤ v ∧ v < 0x110000) :
    ∃ lo hi, leadByte (UInt8.ofNat (v / 262144 % 8 + 240)) = some (lo, hi, 2) ∧
      lo ≤ UInt8.ofNat (v / 4096 % 64 + 128) ∧ UInt8.ofNat (v / 4096 % 64 + 128) ≤ hi := by
  simp only [leadByte_eq, UInt8.le_iff_toNat_le, UInt8.toNat_ofNat']
  rw [if_neg (by omega), if_neg (by omega), if_neg (by omega), if_neg (by omega)]
  by_cases hlow : v < 0x40000
  · refine ⟨0x90, 0xBF, if_pos (by omega), ?_⟩
    simp
    omega
  by_cases hhigh : 0x100000 ≤ v
  · refine ⟨0x80, 0x8F, ?_, ?_⟩
    · rw [if_neg (by omega), if_neg (by omega), if_pos (by omega)]
    · simp
      omega
  · refine ⟨0x80, 0xBF, ?_, ?_⟩
    · rw [if_neg (by omega), if_pos (by omega)]
    · simp
      omega

variable (c : Char)

theorem fromUtf8Lossy_encode :
    fromUtf8Lossy (utf8EncodeChar c ++ rest) = c :: fromUtf8Lossy rest := by
  have hvalid : c.val.toNat < 0xD800 ∨ (0xDFFF < c.val.toNat ∧ c.val.toNat < 0x110000) := c.valid
  have hc : Char.ofNat c.val.toNat = c := Char.ofNat_toNat c
  unfold utf8EncodeChar
  generalize c.val.toNat = v at hvalid hc ⊢
  dsimp only
  split
  next h1 =>
    have hv : (UInt8.ofNat v).toNat = v := by
      rw [UInt8.toNat_ofNat']
      omega
    rw [singleton_append, fromUtf8Lossy_one (by omega), hv, hc]
  next h1 =>
    split
    next h2 =>
      have hlead : leadByte (UInt8.ofNat (v / 64 % 32 + 192)) = some (0x80, 0xBF, 0) := by
        rw [leadByte_eq, UInt8.toNat_ofNat', if_pos (by omega)]
      rw [cons_append, singleton_append,
        fromUtf8Lossy_two hlead (by simpa [isContinuation] using isContinuation_ofNat),
        payload_ofNat, UInt8.toNat_ofNat']
      rw [show (v / 64 % 32 + 192) % 2 ^ 8 % 32 * 64 + v % 64 = v by omega, hc]
    next h2 =>
      split
      next h3 =>
        obtain ⟨lo, hi, hlead, hrange⟩ := leadByte_three (v := v) (by omega) (by omega)
        rw [cons_append, cons_append, singleton_append,
          fromUtf8Lossy_three hlead hrange isContinuation_ofNat, payload_ofNat, payload_ofNat,
          UInt8.toNat_ofNat']
        rw [show ((v / 4096 % 16 + 224) % 2 ^ 8 % 16 * 64 + v / 64 % 64) * 64 + v % 64 = v by omega,
          hc]
      next h3 =>
        obtain ⟨lo, hi, hlead, hrange⟩ := leadByte_four (v := v) (by omega)
        rw [cons_append, cons_append, cons_append, singleton_append,
          fromUtf8Lossy_four hlead hrange isContinuation_ofNat isContinuation_ofNat,
          payload_ofNat, payload_ofNat, payload_ofNat, UInt8.toNat_ofNat']
        rw [show (((v / 262144 % 8 + 240) % 2 ^ 8 % 8 * 64 + v / 4096 % 64) * 64 + v / 64 % 64) *
          64 + v % 64 = v by omega, hc]

@[simp] theorem fromUtf8Lossy_utf8 {s} : fromUtf8Lossy (utf8 s) = s := by
  induction s with
  | nil => rfl
  | cons c s ih =>
    change fromUtf8Lossy (utf8EncodeChar c ++ utf8 s) = c :: s
    rw [fromUtf8Lossy_encode, ih]

theorem fromUtf8Lossy_utf8_append {s bs} :
    fromUtf8Lossy (utf8 s ++ bs) = s ++ fromUtf8Lossy bs := by
  induction s with
  | nil => rfl
  | cons c s ih =>
    change fromUtf8Lossy (utf8EncodeChar c ++ utf8 s ++ bs) = c :: (s ++ fromUtf8Lossy bs)
    rw [append_assoc, fromUtf8Lossy_encode, ih]

@[simp] theorem fromUtf8_utf8 {s} : fromUtf8 (utf8 s) = some s := by
  simp [fromUtf8]

theorem length_utf8 {s} : (utf8 s).length = utf8Len s := by
  induction s with
  | nil => rfl
  | cons c s ih =>
    rw [utf8, flatMap_cons, length_append, String.length_utf8EncodeChar]
    change _ + (utf8 s).length = c.utf8Size + utf8Len s
    rw [ih]

variable {s : Str}

theorem utf8Len_of_ascii (h : ∀ c ∈ s, c.toNat < 128) : utf8Len s = s.length := by
  induction s with
  | nil => rfl
  | cons c s ih =>
    obtain ⟨hc, hs⟩ := forall_mem_cons.mp h
    have hsize : c.utf8Size = 1 := Char.utf8Size_eq_one_iff.mpr (Nat.le_of_lt_succ hc)
    change c.utf8Size + utf8Len s = _
    rw [hsize, ih hs, length_cons, Nat.add_comm]

variable {b : UInt8}

/-- A byte below `0x80` is a character of its own. -/
theorem mem_of_mem_utf8 (hb : b ∈ utf8 s) (hascii : b.toNat < 128) : Char.ofNat b.toNat ∈ s := by
  obtain ⟨c, hc, hb⟩ := mem_flatMap.mp hb
  have hchar : Char.ofNat c.val.toNat = c := Char.ofNat_toNat c
  unfold utf8EncodeChar at hb
  dsimp only at hb
  have hv : ∀ n, 128 ≤ n % 2 ^ 8 → b ≠ UInt8.ofNat n := by
    rintro n hn rfl
    rw [UInt8.toNat_ofNat'] at hascii
    omega
  split at hb
  next h1 =>
    rwa [mem_singleton.mp hb, UInt8.toNat_ofNat', Nat.mod_eq_of_lt (by omega), hchar]
  · split at hb
    · simp only [mem_cons, not_mem_nil, or_false] at hb
      rcases hb with hb | hb <;> exact absurd hb (hv _ (by omega))
    · split at hb
      · simp only [mem_cons, not_mem_nil, or_false] at hb
        rcases hb with hb | hb | hb <;> exact absurd hb (hv _ (by omega))
      · simp only [mem_cons, not_mem_nil, or_false] at hb
        rcases hb with hb | hb | hb | hb <;> exact absurd hb (hv _ (by omega))

/-! ### Where the characters of a decoded text come from -/

theorem toNat_ofNat_of_valid (h : v.isValidChar) : (Char.ofNat v).val.toNat = v := by
  rw [Char.ofNat, dif_pos h]
  rfl

theorem toNat_ofNat_ascii (h : b.toNat < 128) : (Char.ofNat b.toNat).toNat = b.toNat :=
  toNat_ofNat_of_valid (.inl (by omega))

theorem isContinuation_iff : isContinuation b ↔ 128 ≤ b.toNat ∧ b.toNat ≤ 191 := by
  unfold isContinuation
  simp only [Bool.and_eq_true, decide_eq_true_eq]
  rfl

theorem uint8_eq_ofNat {n} (h : b.toNat = n) : UInt8.ofNat n = b := by
  rw [← h]
  exact UInt8.ofNat_toNat

/-- What a lead byte and the byte behind it say about the value, in numbers. -/
theorem leadByte_cases {more} (hlead : leadByte b0 = some (lo, hi, more)) (h1 : lo ≤ b1 ∧ b1 ≤ hi) :
    (128 ≤ b1.toNat ∧ b1.toNat ≤ 191) ∧
    ((more = 0 ∧ 194 ≤ b0.toNat ∧ b0.toNat ≤ 223) ∨
      (more = 1 ∧ 224 ≤ b0.toNat ∧ b0.toNat ≤ 239 ∧ (b0.toNat = 224 → 160 ≤ b1.toNat) ∧
        (b0.toNat = 237 → b1.toNat ≤ 159)) ∨
      (more = 2 ∧ 240 ≤ b0.toNat ∧ b0.toNat ≤ 244 ∧ (b0.toNat = 240 → 144 ≤ b1.toNat) ∧
        (b0.toNat = 244 → b1.toNat ≤ 143))) := by
  rw [leadByte_eq] at hlead
  rw [UInt8.le_iff_toNat_le, UInt8.le_iff_toNat_le] at h1
  split_ifs at hlead <;> cases hlead <;> simp at h1 <;> omega

theorem encode_one {c} (h : c.toNat < 128) : utf8EncodeChar c = [UInt8.ofNat c.toNat] := by
  have hle : c.val.toNat ≤ 127 := Nat.le_of_lt_succ h
  unfold utf8EncodeChar
  rw [if_pos hle]
  rfl

theorem encode_two (hlead : leadByte b0 = some (lo, hi, 0)) (h1 : lo ≤ b1 ∧ b1 ≤ hi) :
    utf8EncodeChar (Char.ofNat (b0.toNat % 32 * 64 + payload b1)) = [b0, b1] := by
  have hcases := leadByte_cases hlead h1
  unfold payload
  have hval : (Char.ofNat (b0.toNat % 32 * 64 + b1.toNat % 64)).val.toNat =
      b0.toNat % 32 * 64 + b1.toNat % 64 :=
    toNat_ofNat_of_valid (.inl (by omega))
  unfold utf8EncodeChar
  rw [if_neg (by omega), if_pos (by omega), uint8_eq_ofNat (b := b0) (by omega),
    uint8_eq_ofNat (b := b1) (by omega)]

theorem encode_three (hlead : leadByte b0 = some (lo, hi, 1)) (h1 : lo ≤ b1 ∧ b1 ≤ hi)
    (h2 : isContinuation b2) :
    utf8EncodeChar (Char.ofNat ((b0.toNat % 16 * 64 + payload b1) * 64 + payload b2)) =
      [b0, b1, b2] := by
  have hcases := leadByte_cases hlead h1
  rw [isContinuation_iff] at h2
  unfold payload
  have hval : (Char.ofNat ((b0.toNat % 16 * 64 + b1.toNat % 64) * 64 + b2.toNat % 64)).val.toNat =
      (b0.toNat % 16 * 64 + b1.toNat % 64) * 64 + b2.toNat % 64 := by
    apply toNat_ofNat_of_valid
    by_cases hlow : (b0.toNat % 16 * 64 + b1.toNat % 64) * 64 + b2.toNat % 64 < 0xD800
    · exact .inl hlow
    · exact .inr (by omega)
  unfold utf8EncodeChar
  rw [if_neg (by omega), if_neg (by omega), if_pos (by omega), uint8_eq_ofNat (b := b0) (by omega),
    uint8_eq_ofNat (b := b1) (by omega), uint8_eq_ofNat (b := b2) (by omega)]

theorem encode_four {b3} (hlead : leadByte b0 = some (lo, hi, 2)) (h1 : lo ≤ b1 ∧ b1 ≤ hi)
    (h2 : isContinuation b2) (h3 : isContinuation b3) :
    utf8EncodeChar
      (Char.ofNat (((b0.toNat % 8 * 64 + payload b1) * 64 + payload b2) * 64 + payload b3)) =
      [b0, b1, b2, b3] := by
  have hcases := leadByte_cases hlead h1
  rw [isContinuation_iff] at h2 h3
  unfold payload
  have hval : (Char.ofNat (((b0.toNat % 8 * 64 + b1.toNat % 64) * 64 + b2.toNat % 64) * 64 +
      b3.toNat % 64)).val.toNat =
      ((b0.toNat % 8 * 64 + b1.toNat % 64) * 64 + b2.toNat % 64) * 64 + b3.toNat % 64 :=
    toNat_ofNat_of_valid (.inr (by omega))
  unfold utf8EncodeChar
  rw [if_neg (by omega), if_neg (by omega), if_neg (by omega), uint8_eq_ofNat (b := b0) (by omega),
    uint8_eq_ofNat (b := b1) (by omega), uint8_eq_ofNat (b := b2) (by omega),
    uint8_eq_ofNat (b := b3) (by omega)]

/-- One step of decoding: a byte and the continuation bytes behind it are taken off, either a whole
character or a part that becomes a replacement character. -/
theorem fromUtf8Lossy_step (b0 : UInt8) (t0 : Bytes) :
    ∃ c tail rest, t0 = tail ++ rest ∧ (∀ b ∈ tail, isContinuation b) ∧
      fromUtf8Lossy (b0 :: t0) = c :: fromUtf8Lossy rest ∧
      (c = replacement ∨ utf8EncodeChar c = b0 :: tail) := by
  rw [fromUtf8Lossy.eq_def]
  dsimp only
  split
  next hone =>
    have hb : b0.toNat < 128 := UInt8.lt_iff_toNat_lt.mp hone
    refine ⟨_, [], t0, rfl, by simp, rfl, .inr ?_⟩
    have hc := toNat_ofNat_ascii hb
    rw [encode_one (by omega), hc, UInt8.ofNat_toNat]
  · split
    · exact ⟨_, [], t0, rfl, by simp, rfl, .inl rfl⟩
    next lo hi more hlead =>
      split
      · exact ⟨_, [], [], rfl, by simp, rfl, .inl rfl⟩
      next b1 t1 =>
        split
        next h1 =>
          have hb1 : isContinuation b1 := isContinuation_iff.mpr (leadByte_cases hlead h1).1
          have hmore := leadByte_cases hlead h1
          split
          · exact ⟨_, [b1], t1, rfl, by simpa using hb1, rfl, .inr (encode_two hlead h1)⟩
          next more =>
            split
            · exact ⟨_, [b1], [], rfl, by simpa using hb1, rfl, .inl rfl⟩
            next b2 t2 =>
              split
              next h2 =>
                split
                · exact ⟨_, [b1, b2], t2, rfl, by simpa using ⟨hb1, h2⟩, rfl,
                    .inr (encode_three hlead h1 h2)⟩
                next more =>
                  split
                  · exact ⟨_, [b1, b2], [], rfl, by simpa using ⟨hb1, h2⟩, rfl, .inl rfl⟩
                  next b3 t3 =>
                    split
                    next h3 =>
                      obtain rfl : more = 0 := by omega
                      exact ⟨_, [b1, b2, b3], t3, rfl, by simpa using ⟨hb1, h2, h3⟩, rfl,
                        .inr (encode_four hlead h1 h2 h3)⟩
                    · exact ⟨_, [b1, b2], b3 :: t3, rfl, by simpa using ⟨hb1, h2⟩, rfl, .inl rfl⟩
              · exact ⟨_, [b1], b2 :: t2, rfl, by simpa using hb1, rfl, .inl rfl⟩
        · exact ⟨_, [], b1 :: t1, rfl, by simp, rfl, .inl rfl⟩

variable {bs : Bytes}

/-! ### Searching in a decoded text -/

/-- The first byte of a character continues nothing. -/
theorem exists_encode_eq_cons :
    ∃ b tail, utf8EncodeChar c = b :: tail ∧ isContinuation b = false := by
  have hcontinues : ∀ {n}, ¬ (128 ≤ n % 2 ^ 8 ∧ n % 2 ^ 8 ≤ 191) →
      isContinuation (UInt8.ofNat n) = false := by
    intro n hn
    rwa [Bool.eq_false_iff, Ne, isContinuation_iff]
  unfold utf8EncodeChar
  dsimp only
  split
  · exact ⟨_, [], rfl, hcontinues (by omega)⟩
  · split
    · exact ⟨_, _, rfl, hcontinues (by omega)⟩
    · split <;> exact ⟨_, _, rfl, hcontinues (by omega)⟩

theorem utf8_cons (s : Str) : utf8 (c :: s) = utf8EncodeChar c ++ utf8 s := rfl

/-- In front of a byte of ASCII a text is a text. -/
theorem exists_utf8_of_append {pre post : Bytes} (h : utf8 s = pre ++ b :: post)
    (hb : b.toNat < 128) : ∃ front, pre = utf8 front := by
  induction s generalizing pre with
  | nil => simp at h
  | cons c s ih =>
    rw [utf8_cons] at h
    rcases append_eq_append_iff.mp h with ⟨mid, hpre, hmid⟩ | ⟨mid, hchar, hmid⟩
    · obtain ⟨front, rfl⟩ := ih hmid
      exact ⟨c :: front, hpre⟩
    · cases mid with
      | nil => exact ⟨[c], by rw [utf8_cons, hchar, utf8_nil, append_nil, append_nil]⟩
      | cons x mid =>
        obtain ⟨rfl, -⟩ := cons.inj hmid
        -- a character with a byte of ASCII in it is that byte
        have hmem : b ∈ utf8 [c] := by
          rw [utf8_cons, hchar]
          simp
        have hc : c = Char.ofNat b.toNat := (mem_singleton.mp (mem_of_mem_utf8 hmem hb)).symm
        have hone : utf8EncodeChar c = [b] := by
          rw [hc, encode_one (by rwa [toNat_ofNat_ascii hb]), toNat_ofNat_ascii hb,
            UInt8.ofNat_toNat]
        cases pre with
        | nil => exact ⟨[], rfl⟩
        | cons => simp [hone] at hchar

/-- Characters other than the replacement character have not been made up. -/
theorem utf8_prefix_of_prefix_fromUtf8Lossy (hs : replacement ∉ s) (h : s <+: fromUtf8Lossy bs) :
    utf8 s <+: bs := by
  induction s generalizing bs with
  | nil => exact nil_prefix
  | cons c s ih =>
    cases bs with
    | nil => exact absurd (prefix_nil.mp h) (cons_ne_nil _ _)
    | cons b0 t0 =>
      obtain ⟨d, tail, rest, rfl, -, hstep, hfront⟩ := fromUtf8Lossy_step b0 t0
      rw [hstep, cons_prefix_cons] at h
      obtain ⟨rfl, hrest⟩ := h
      have hencode := hfront.resolve_left fun heq => hs (heq ▸ mem_cons_self)
      rw [utf8_cons, hencode, cons_append, cons_prefix_cons, prefix_append_right_inj]
      exact ⟨rfl, ih (fun hmem => hs (mem_cons_of_mem _ hmem)) hrest⟩

theorem utf8_infix_of_infix_fromUtf8Lossy (hs : replacement ∉ s) (h : s <:+: fromUtf8Lossy bs) :
    utf8 s <:+: bs := by
  induction hlen : bs.length using Nat.strongRecOn generalizing bs with
  | _ n ih =>
    cases bs with
    | nil =>
      rw [infix_nil.mp h]
      exact nil_infix
    | cons b0 t0 =>
      obtain ⟨d, tail, rest, rfl, -, hstep, -⟩ := fromUtf8Lossy_step b0 t0
      rw [hstep, infix_cons_iff] at h
      rcases h with h | h
      · rw [← hstep] at h
        exact (utf8_prefix_of_prefix_fromUtf8Lossy hs h).isInfix
      · have hshorter : rest.length < n := by
          rw [← hlen, length_cons, length_append]
          omega
        have hrest := ih rest.length hshorter h rfl
        exact hrest.trans (suffix_append (b0 :: tail) rest).isInfix

/-- A step of decoding does not run past the start of a character. -/
theorem append_of_step {tail pre post : Bytes} (htail : ∀ x ∈ tail, isContinuation x)
    (hb : isContinuation b = false) (h : tail ++ rest = pre ++ b :: post) :
    ∃ pre', rest = pre' ++ b :: post := by
  rcases append_eq_append_iff.mp h with ⟨pre', -, hrest⟩ | ⟨mid, htail', hmid⟩
  · exact ⟨pre', hrest⟩
  · cases mid with
    | nil => exact ⟨[], hmid.symm⟩
    | cons x mid =>
      cases hmid
      have hx := htail b (by rw [htail']; simp)
      rw [hb] at hx
      cases hx

/-- Decoding finds every character that is there, whatever stands in front of it. -/
theorem infix_fromUtf8Lossy_of_utf8_infix (h : utf8 s <:+: bs) : s <:+: fromUtf8Lossy bs := by
  cases s with
  | nil => exact nil_infix
  | cons c s =>
    obtain ⟨pre, post, rfl⟩ := h
    induction hlen : pre.length using Nat.strongRecOn generalizing pre with
    | _ n ih =>
      cases pre with
      | nil =>
        rw [nil_append, fromUtf8Lossy_utf8_append]
        exact (prefix_append _ _).isInfix
      | cons b0 pre =>
        obtain ⟨b, encoded, hencode, hb⟩ := exists_encode_eq_cons c
        obtain ⟨d, tail, rest, hsplit, htail, hstep, -⟩ :=
          fromUtf8Lossy_step b0 (pre ++ utf8 (c :: s) ++ post)
        have hsplit' : tail ++ rest = pre ++ b :: (encoded ++ utf8 s ++ post) := by
          rw [← hsplit, utf8_cons, hencode]
          simp
        obtain ⟨pre', hrest⟩ := append_of_step htail hb hsplit'
        have hrest' : rest = pre' ++ utf8 (c :: s) ++ post := by
          rw [hrest, utf8_cons, hencode]
          simp
        have hshorter : pre'.length < n := by
          have hlength := congrArg length hsplit'
          rw [hrest] at hlength
          simp only [length_append, length_cons] at hlength hlen
          omega
        rw [cons_append, cons_append, hstep, hrest']
        exact (ih pre'.length hshorter pre' rfl).trans (suffix_cons _ _).isInfix

theorem infix_fromUtf8Lossy_iff (hs : replacement ∉ s) : s <:+: fromUtf8Lossy bs ↔ utf8 s <:+: bs :=
  ⟨utf8_infix_of_infix_fromUtf8Lossy hs, infix_fromUtf8Lossy_of_utf8_infix⟩

/-- Two characters of ASCII behind one another are two bytes behind one another. -/
theorem infix_of_infix_fromUtf8Lossy {a} (ha : 0 < a.toNat ∧ a.toNat < 128)
    (hb : 0 < b.toNat ∧ b.toNat < 128)
    (h : [Char.ofNat a.toNat, Char.ofNat b.toNat] <:+: fromUtf8Lossy bs) : [a, b] <:+: bs := by
  have hascii : ∀ {x}, x.toNat < 128 →
      replacement ≠ Char.ofNat x.toNat ∧ utf8EncodeChar (Char.ofNat x.toNat) = [x] := by
    intro x hx
    have hc := toNat_ofNat_ascii hx
    refine ⟨fun heq => ?_, ?_⟩
    · rw [← heq] at hc
      have hlarge : replacement.toNat = 65533 := rfl
      omega
    · rw [encode_one (by omega), hc, UInt8.ofNat_toNat]
  obtain ⟨hane, haencode⟩ := hascii ha.2
  obtain ⟨hbne, hbencode⟩ := hascii hb.2
  have hbytes := utf8_infix_of_infix_fromUtf8Lossy (by simp [hane, hbne]) h
  simpa [utf8, haencode, hbencode] using hbytes

end RsProxy.Text
