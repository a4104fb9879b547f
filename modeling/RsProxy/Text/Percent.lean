import RsProxy.Text.Net
import RsProxy.Text.Utf8

/-!
# Percent encoding

A byte that may not stand for itself is written as `%` and two hexadecimal digits. `unescape` reads
such bytes back; how the others are copied is up to the caller.
-/

namespace RsProxy.Text

open List

def hexOf (byte : UInt8) : Option Nat := digitOf 16 (Char.ofNat byte.toNat)

def hexPair (a b : UInt8) : Option UInt8 :=
  (hexOf a).bind fun x => (hexOf b).map fun y => UInt8.ofNat (x * 16 + y)

def upperDigit (n : UInt8) : UInt8 := if n < 10 then 48 + n else 55 + n

/-- `format!("%{byte:02X}")`, and the bytes in `keep` as they are. -/
def percentEncode (keep : UInt8 → Bool) (bytes : Bytes) : Bytes :=
  bytes.flatMap fun byte =>
    if keep byte then [byte] else [37, upperDigit (byte / 16), upperDigit (byte % 16)]

/-- Each `%` with two hexadecimal digits behind it is that byte. -/
def unescape (copy : UInt8 → UInt8) : Bytes → Bytes
  | 37 :: a :: b :: rest =>
    match hexPair a b with
    | some byte => byte :: unescape copy rest
    | none => copy 37 :: unescape copy (a :: b :: rest)
  | byte :: rest => copy byte :: unescape copy rest
  | [] => []

variable {copy : UInt8 → UInt8} {keep : UInt8 → Bool} {byte : UInt8} {rest : Bytes}

theorem forall_byte {P : UInt8 → Prop} (h : ∀ n < 256, P (UInt8.ofNat n)) (byte : UInt8) :
    P byte := by
  simpa using h byte.toNat byte.toNat_lt

theorem hexPair_upperDigit :
    ∀ byte, hexPair (upperDigit (byte / 16)) (upperDigit (byte % 16)) = some byte :=
  forall_byte (by decide +kernel)

theorem unescape_cons (h : ∀ a b more, byte = 37 → rest = a :: b :: more → False) :
    unescape copy (byte :: rest) = copy byte :: unescape copy rest := by
  rw [unescape]
  exact h

theorem unescape_percentEncode (hkeep : ∀ byte, keep byte → byte ≠ 37 ∧ copy byte = byte)
    (bytes : Bytes) :
    unescape copy (percentEncode keep bytes) = bytes := by
  induction bytes with
  | nil => rfl
  | cons byte bytes ih =>
    unfold percentEncode at ih ⊢
    rw [flatMap_cons]
    split_ifs with h
    · rw [singleton_append, unescape_cons fun _ _ _ h' => absurd h' (hkeep byte h).1,
        (hkeep byte h).2, ih]
    · rw [cons_append, cons_append, cons_append, nil_append, unescape, hexPair_upperDigit, ih]

end RsProxy.Text
