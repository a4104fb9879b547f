import RsProxy.Text.Basic
import Mathlib.Data.Nat.Digits.Defs

/-!
# Numbers and network addresses in text

`parseUnsigned` and `parseInt` follow `str::parse` for the integer types: an optional sign, at least
one decimal digit, no overflow. The address parsers follow `std::net`: four dotted octets without
leading zeros, eight hexadecimal groups with at most one `::` and an optional dotted tail, and
socket addresses `v4:port` and `[v6%scope]:port`.

The address readers consume a prefix of their input and hand back what is left; the public parsers
ask for nothing to be left.
-/

namespace RsProxy.Text

open List Nat

/-! ### Integers -/

/-- The value of a digit character in a radix up to sixteen. -/
def digitOf (radix : Nat) (c : Char) : Option Nat :=
  let v :=
    if '0' ≤ c ∧ c ≤ '9' then c.toNat - '0'.toNat
    else if 'a' ≤ c ∧ c ≤ 'f' then c.toNat - 'a'.toNat + 10
    else if 'A' ≤ c ∧ c ≤ 'F' then c.toNat - 'A'.toNat + 10
    else 16
  if v < radix then some v else none

def ofDigits (radix : Nat) (ds : List Nat) : Nat := ds.foldl (fun acc d => acc * radix + d) 0

/-- A non-empty run of decimal digits, nothing else. -/
def parseDigits (s : Str) : Option Nat :=
  if s.isEmpty then none
  else (s.mapM (digitOf 10)).map (ofDigits 10)

/-- `str::parse` for an unsigned type whose greatest value is `max`. -/
def parseUnsigned (max : Nat) (s : Str) : Option Nat :=
  let body := match s with
    | '+' :: ds => ds
    | _ => s
  (parseDigits body).filter (· ≤ max)

def parseU16 (s : Str) : Option Nat := parseUnsigned (2 ^ 16 - 1) s

def parseU64 (s : Str) : Option Nat := parseUnsigned (2 ^ 64 - 1) s

/-- `usize::from_str_radix(s, 16)`. -/
def parseHexUsize (s : Str) : Option Nat :=
  let body := match s with
    | '+' :: ds => ds
    | _ => s
  if body.isEmpty then none
  else ((body.mapM (digitOf 16)).map (ofDigits 16)).filter (· ≤ 2 ^ 64 - 1)

/-- `str::parse::<i32>`. -/
def parseI32 (s : Str) : Option Int :=
  match s with
  | '-' :: ds => ((parseDigits ds).filter (· ≤ 2 ^ 31)).map fun n => -(n : Int)
  | _ => (parseUnsigned (2 ^ 31 - 1) s).map fun n => (n : Int)

def decimal (n : Nat) : Str := toDigits 10 n

def lowerHex (n : Nat) : Str := toDigits 16 n

/-- The `{:X}` form. -/
def upperHex (n : Nat) : Str := toAsciiUppercase (lowerHex n)

/-! ### Reading a prefix -/

def readChar (c : Char) : Str → Option Str
  | d :: ds => if d = c then some ds else none
  | [] => none

/-- The leading digits of the input and what follows them. -/
def spanDigits (radix : Nat) : Str → List Nat × Str
  | [] => ([], [])
  | c :: cs =>
    match digitOf radix c with
    | some d => let (ds, rest) := spanDigits radix cs; (d :: ds, rest)
    | none => ([], c :: cs)

/-- A number of at most `maxDigits` digits (when given) and at most `max`. -/
def readNumber (radix : Nat) (maxDigits : Option Nat) (allowZeroPrefix : Bool) (max : Nat)
    (s : Str) : Option (Nat × Str) :=
  let (ds, rest) := spanDigits radix s
  if ds.isEmpty then none
  else if maxDigits.any (· < ds.length) then none
  else if !allowZeroPrefix && ds.head? == some 0 && 1 < ds.length then none
  else if max < ofDigits radix ds then none
  else some (ofDigits radix ds, rest)

/-- In front of every element but the first stands the separator. -/
def readSeparator (c : Char) (index : Nat) (s : Str) : Option Str :=
  if index = 0 then some s else readChar c s

/-! ### IPv4 -/

structure Ipv4Addr where
  octets : Nat × Nat × Nat × Nat
  deriving DecidableEq, Repr

def readIpv4Addr (s : Str) : Option (Ipv4Addr × Str) := do
  let (a, s) ← readNumber 10 (some 3) false 255 s
  let s ← readChar '.' s
  let (b, s) ← readNumber 10 (some 3) false 255 s
  let s ← readChar '.' s
  let (c, s) ← readNumber 10 (some 3) false 255 s
  let s ← readChar '.' s
  let (d, s) ← readNumber 10 (some 3) false 255 s
  return (⟨a, b, c, d⟩, s)

def Ipv4Addr.display (ip : Ipv4Addr) : Str :=
  let (a, b, c, d) := ip.octets
  decimal a ++ '.' :: decimal b ++ '.' :: decimal c ++ '.' :: decimal d

/-! ### IPv6 -/

/-- Eight groups of sixteen bits. -/
structure Ipv6Addr where
  segments : List Nat
  deriving DecidableEq, Repr

/-- Read up to `fuel` groups, `index` of which were read before. A dotted tail counts for two
groups and ends the run. The flag tells whether it did. -/
def readGroups : (fuel index : Nat) → Str → List Nat × Bool × Str
  | 0, _, s => ([], false, s)
  | fuel + 1, index, s =>
    let dotted :=
      if fuel = 0 then none
      else (readSeparator ':' index s).bind readIpv4Addr
    match dotted with
    | some (⟨a, b, c, d⟩, rest) => ([a * 256 + b, c * 256 + d], true, rest)
    | none =>
      match (readSeparator ':' index s).bind (readNumber 16 (some 4) true 0xFFFF) with
      | some (g, rest) =>
        let (gs, v4, rest) := readGroups fuel (index + 1) rest
        (g :: gs, v4, rest)
      | none => ([], false, s)

def readIpv6Addr (s : Str) : Option (Ipv6Addr × Str) :=
  let (head, headV4, rest) := readGroups 8 0 s
  if head.length = 8 then some (⟨head⟩, rest)
  else if headV4 then none
  else do
    let rest ← readChar ':' rest
    let rest ← readChar ':' rest
    -- `::` stands for at least one group, so the tail is shorter than what the head left open.
    let (tail, _, rest) := readGroups (8 - (head.length + 1)) 0 rest
    return (⟨head ++ replicate (8 - head.length - tail.length) 0 ++ tail⟩, rest)

/-- `str::parse::<Ipv6Addr>`. -/
def parseIpv6 (s : Str) : Option Ipv6Addr :=
  match readIpv6Addr s with
  | some (ip, []) => some ip
  | _ => none

/-- Start and length of the first longest run of zero groups. -/
def zeroSpan (segments : List Nat) : Nat × Nat :=
  let step := fun st iv =>
    let (longest, current) := st
    if iv.2 = 0 then
      let current := if current.2 = 0 then (iv.1, 1) else (current.1, current.2 + 1)
      (if longest.2 < current.2 then current else longest, current)
    else (longest, (0, 0))
  ((zip (range segments.length) segments).foldl step ((0, 0), (0, 0))).1

def hexGroups (segments : List Nat) : Str :=
  [':'].intercalate (segments.map lowerHex)

def Ipv6Addr.display (ip : Ipv6Addr) : Str :=
  match ip.segments with
  | [0, 0, 0, 0, 0, 0xFFFF, x, y] =>
    "::ffff:" ++ Ipv4Addr.display ⟨x / 256, x % 256, y / 256, y % 256⟩
  | segments =>
    let (start, len) := zeroSpan segments
    if 1 < len then
      hexGroups (segments.take start) ++ "::" ++ hexGroups (segments.drop (start + len))
    else hexGroups segments

/-! ### Socket addresses -/

inductive IpAddr where
  | v4 (ip : Ipv4Addr)
  | v6 (ip : Ipv6Addr)
  deriving DecidableEq, Repr

def IpAddr.display : IpAddr → Str
  | .v4 ip => ip.display
  | .v6 ip => ip.display

def readPort (s : Str) : Option (Nat × Str) := do
  let s ← readChar ':' s
  readNumber 10 none true 0xFFFF s

def readSocketAddrV4 (s : Str) : Option (IpAddr × Str) := do
  let (ip, s) ← readIpv4Addr s
  let (_, s) ← readPort s
  return (.v4 ip, s)

/-- An optional `%` and a decimal scope. -/
def readScopeId (s : Str) : Str :=
  match (readChar '%' s).bind (readNumber 10 none true 0xFFFFFFFF) with
  | some (_, rest) => rest
  | none => s

def readSocketAddrV6 (s : Str) : Option (IpAddr × Str) := do
  let s ← readChar '[' s
  let (ip, s) ← readIpv6Addr s
  let s ← readChar ']' (readScopeId s)
  let (_, s) ← readPort s
  return (.v6 ip, s)

/-- The address part of `str::parse::<SocketAddr>`. -/
def parseSocketAddrIp (s : Str) : Option IpAddr :=
  match (readSocketAddrV4 s).orElse fun _ => readSocketAddrV6 s with
  | some (ip, []) => some ip
  | _ => none

/-! ### Numerals -/

/-- One digit or more, nothing else. -/
def IsNumeral (radix : Nat) (s : Str) : Prop := s ≠ [] ∧ ∀ c ∈ s, (digitOf radix c).isSome

instance (radix : Nat) (s : Str) : Decidable (IsNumeral radix s) :=
  inferInstanceAs (Decidable (_ ∧ _))

variable {c : Char}

theorem IsNumeral.notMem {radix s} (h : IsNumeral radix s) (hc : (digitOf radix c).isSome = false) :
    c ∉ s := by
  intro hmem
  cases hc.symm.trans (h.2 c hmem)

theorem range_of_digitOf {radix} (hradix : radix ≤ 16) (h : (digitOf radix c).isSome) :
    (48 ≤ c.toNat ∧ c.toNat ≤ 57) ∨ (97 ≤ c.toNat ∧ c.toNat ≤ 102) ∨
      (65 ≤ c.toNat ∧ c.toNat ≤ 70) := by
  unfold digitOf at h
  by_cases h1 : '0' ≤ c ∧ c ≤ '9'
  · exact .inl h1
  by_cases h2 : 'a' ≤ c ∧ c ≤ 'f'
  · exact .inr (.inl h2)
  by_cases h3 : 'A' ≤ c ∧ c ≤ 'F'
  · exact .inr (.inr h3)
  · simp only [if_neg h1, if_neg h2, if_neg h3, if_neg (not_lt.mpr hradix)] at h
    cases h

theorem isWhitespace_of_digitOf {radix} (hradix : radix ≤ 16) (h : (digitOf radix c).isSome) :
    isWhitespace c = false := by
  have := range_of_digitOf hradix h
  simp only [isWhitespace, Bool.or_eq_false_iff, Bool.and_eq_false_iff, decide_eq_false_iff_not,
    beq_eq_false_iff_ne]
  omega

theorem isDigit_of_digitOf (h : (digitOf 10 c).isSome) : c.isDigit := by
  unfold digitOf at h
  by_cases h1 : '0' ≤ c ∧ c ≤ '9'
  · have h1 : 48 ≤ c.val ∧ c.val ≤ 57 := h1
    simpa [Char.isDigit] using h1
  · have hlarge : ¬ (if 'a' ≤ c ∧ c ≤ 'f' then c.toNat - 'a'.toNat + 10
        else if 'A' ≤ c ∧ c ≤ 'F' then c.toNat - 'A'.toNat + 10 else 16) < 10 := by
      split
      · omega
      · split <;> omega
    simp only [if_neg h1, if_neg hlarge] at h
    cases h

namespace IsNumeral

variable {radix : Nat} {s : Str}

theorem not_isWhitespace (h : IsNumeral radix s) (hradix : radix ≤ 16) :
    ∀ c ∈ s, isWhitespace c = false :=
  fun c hc => isWhitespace_of_digitOf hradix (h.2 c hc)

theorem unsigned (h : IsNumeral radix s) (hradix : radix ≤ 16) : s.head? ≠ some '+' := by
  intro hhead
  have := range_of_digitOf hradix (h.2 '+' (mem_of_mem_head? hhead))
  revert this
  decide

end IsNumeral

theorem isSome_mapM {α β : Type} {f : α → Option β} {l : List α} :
    (l.mapM f).isSome ↔ ∀ a ∈ l, (f a).isSome := by
  induction l with
  | nil => simp
  | cons a l ih =>
    rw [forall_mem_cons, ← ih]
    rw [mapM_cons]
    cases f a with
    | none => simp
    | some b => cases l.mapM f <;> simp

theorem isSome_parseDigits {s} : (parseDigits s).isSome ↔ IsNumeral 10 s := by
  unfold parseDigits IsNumeral
  cases s with
  | nil => simp
  | cons c s =>
    rw [← isSome_mapM]
    simp only [isEmpty_cons, if_false, Option.isSome_map, ne_eq, reduceCtorEq,
      not_false_eq_true, true_and]

variable {n max : Nat}

/-- Without a sign, a number is what its digits say. -/
theorem parseUnsigned_of_unsigned {s} (h : parseUnsigned max s = some n)
    (hsign : s.head? ≠ some '+') : parseDigits s = some n := by
  unfold parseUnsigned at h
  split at h
  · simp at hsign
  · exact (Option.filter_eq_some_iff.mp h).1

theorem le_of_parseUnsigned {s} (h : parseUnsigned max s = some n) : n ≤ max := by
  simpa using (Option.filter_eq_some_iff.mp h).2

theorem le_of_parseHexUsize {s} (h : parseHexUsize s = some n) : n ≤ 2 ^ 64 - 1 := by
  unfold parseHexUsize at h
  dsimp only at h
  split_ifs at h
  simpa using (Option.filter_eq_some_iff.mp h).2

theorem isNumeral_of_parseHexUsize {s} (h : parseHexUsize s = some n) (hsign : s.head? ≠ some '+') :
    IsNumeral 16 s := by
  unfold parseHexUsize at h
  split at h
  · simp at hsign
  · cases s with
    | nil => cases h
    | cons c s =>
      have h := (Option.filter_eq_some_iff.mp h).1
      refine ⟨cons_ne_nil c s, isSome_mapM.mp ?_⟩
      obtain ⟨ds, hds, -⟩ := Option.map_eq_some_iff.mp h
      rw [hds]
      rfl

/-- Reading the digits that were written, however their letters were cased, gives the number. -/
theorem exists_digits {radix} (hradix : 1 < radix) {f}
    (hf : ∀ d < radix, digitOf radix (f d.digitChar) = some d) (n : Nat) :
    ∃ ds, ((toDigits radix n).map f).mapM (digitOf radix) = some ds ∧ ofDigits radix ds = n := by
  induction n using Nat.strong_induction_on with
  | _ n ih =>
    rw [toDigits_eq_if hradix]
    split
    next hlt => exact ⟨[n], by simp [hf n hlt], by simp [ofDigits]⟩
    next hge =>
      have hpos : 0 < n := by omega
      obtain ⟨ds, hds, hn⟩ := ih (n / radix) (div_lt_self hpos hradix)
      refine ⟨ds ++ [n % radix], ?_, ?_⟩
      · simp [hds, hf _ (mod_lt n (by omega))]
      · rw [ofDigits, foldl_append, ← ofDigits, hn, foldl_cons, foldl_nil, div_add_mod']

theorem isNumeral_of_mapM {radix} {s : Str} {ds} (hne : s ≠ [])
    (h : s.mapM (digitOf radix) = some ds) : IsNumeral radix s :=
  ⟨hne, isSome_mapM.mp (by rw [h]; rfl)⟩

theorem exists_upperHex (n : Nat) :
    ∃ ds, (upperHex n).mapM (digitOf 16) = some ds ∧ ofDigits 16 ds = n :=
  exists_digits (by decide) (by decide) n

theorem isNumeral_upperHex (n : Nat) : IsNumeral 16 (upperHex n) := by
  obtain ⟨ds, hds, -⟩ := exists_upperHex n
  exact isNumeral_of_mapM (by simp [upperHex, lowerHex, toAsciiUppercase]) hds

theorem length_upperHex (h : n ≤ 2 ^ 64 - 1) : (upperHex n).length ≤ 16 := by
  rw [upperHex, toAsciiUppercase, length_map]
  exact toDigits_length 16 n 16 (by decide) (by omega)

theorem isNumeral_decimal (n : Nat) : IsNumeral 10 (decimal n) := by
  obtain ⟨ds, hds, -⟩ := exists_digits (by decide : 1 < 10) (f := id) (by decide) n
  rw [map_id] at hds
  exact isNumeral_of_mapM (by simp [decimal]) hds

theorem parseUnsigned_decimal (h : n ≤ max) : parseUnsigned max (decimal n) = some n := by
  obtain ⟨ds, hds, hn⟩ := exists_digits (by decide : 1 < 10) (f := id) (by decide) n
  rw [map_id] at hds
  have hnum := isNumeral_decimal n
  unfold parseUnsigned
  split
  next hplus => exact absurd (by rw [hplus]; rfl) (hnum.unsigned (by decide))
  · change (decimal n).mapM (digitOf 10) = some ds at hds
    have hdigits : parseDigits (decimal n) = some n := by
      rw [parseDigits, if_neg (by simpa using hnum.1), hds, Option.map_some, hn]
    dsimp only
    rw [hdigits]
    simpa using h

theorem parseHexUsize_upperHex (h : n ≤ 2 ^ 64 - 1) : parseHexUsize (upperHex n) = some n := by
  obtain ⟨ds, hds, hn⟩ := exists_upperHex n
  have hnum := isNumeral_upperHex n
  unfold parseHexUsize
  split
  next hplus => exact absurd (by rw [hplus]; rfl) (hnum.unsigned (by decide))
  · rw [if_neg (by simpa using hnum.1), hds, Option.map_some, hn]
    simpa using h

/-! ### Characters of a displayed address -/

theorem mem_toDigits {b} (hb : 0 < b) (h : c ∈ toDigits b n) :
    ∃ d < b, c = digitChar d := by
  have hcore : ∀ fuel n (ds : List Char), (∀ c ∈ ds, ∃ d < b, c = digitChar d) →
      ∀ c ∈ toDigitsCore b fuel n ds, ∃ d < b, c = digitChar d := by
    intro fuel
    induction fuel with
    | zero => exact fun _ _ hds => hds
    | succ fuel ih =>
      intro n ds hds
      have hcons : ∀ c ∈ digitChar (n % b) :: ds, ∃ d < b, c = digitChar d :=
        forall_mem_cons.mpr ⟨⟨n % b, mod_lt n hb, rfl⟩, hds⟩
      rw [toDigitsCore]
      split
      · exact hcons
      · exact ih _ _ hcons
  exact hcore _ _ [] nofun c h

def IsAddressChar (c : Char) : Prop := c = '.' ∨ c = ':' ∨ ∃ d < 16, c = digitChar d

theorem isAddressChar_of_mem_decimal (h : c ∈ decimal n) : IsAddressChar c := by
  obtain ⟨d, hd, rfl⟩ := mem_toDigits (by decide) h
  exact .inr (.inr ⟨d, by omega, rfl⟩)

theorem isAddressChar_of_mem_hexGroups {segments} (h : c ∈ hexGroups segments) :
    IsAddressChar c := by
  unfold hexGroups at h
  have hgroup : ∀ n, c ∈ lowerHex n → IsAddressChar c := by
    intro n hn
    obtain ⟨d, hd, rfl⟩ := mem_toDigits (by decide) hn
    exact .inr (.inr ⟨d, hd, rfl⟩)
  induction segments with
  | nil => cases h
  | cons n segments ih =>
    cases segments with
    | nil =>
      have h' : c ∈ lowerHex n := by simpa using h
      exact hgroup n h'
    | cons m segments =>
      have h' : c ∈ lowerHex n ∨ c = ':' ∨
          c ∈ [':'].intercalate ((m :: segments).map lowerHex) := by
        simpa using h
      rcases h' with h' | rfl | h'
      · exact hgroup n h'
      · exact .inr (.inl rfl)
      · exact ih h'

variable {ip : Ipv4Addr}

theorem isAddressChar_of_mem_display_v4 (h : c ∈ ip.display) : IsAddressChar c := by
  unfold Ipv4Addr.display at h
  simp only [mem_append, mem_cons] at h
  rcases h with ((h | rfl | h) | rfl | h) | rfl | h
  all_goals first | exact .inl rfl | exact isAddressChar_of_mem_decimal h

theorem isAddressChar_of_mem_display {ip : IpAddr} (h : c ∈ ip.display) : IsAddressChar c := by
  cases ip with
  | v4 ip => exact isAddressChar_of_mem_display_v4 h
  | v6 ip =>
    have hcolons : ∀ d ∈ "::".toList, IsAddressChar d := by
      intro d hd
      have hd' : d = ':' := by simpa using hd
      exact .inr (.inl hd')
    change c ∈ Ipv6Addr.display ip at h
    unfold Ipv6Addr.display at h
    split at h
    · rcases mem_append.mp h with h | h
      · have hmapped : ∀ d ∈ "::ffff:".toList, d = ':' ∨ d = 'f' := by decide
        rcases hmapped c h with rfl | rfl
        · exact .inr (.inl rfl)
        · exact .inr (.inr ⟨15, by decide, rfl⟩)
      · exact isAddressChar_of_mem_display_v4 h
    · dsimp only at h
      split at h
      · rcases mem_append.mp h with h | h
        · rcases mem_append.mp h with h | h
          · exact isAddressChar_of_mem_hexGroups h
          · exact hcolons c h
        · exact isAddressChar_of_mem_hexGroups h
      · exact isAddressChar_of_mem_hexGroups h

/-! ### What a reader takes from its input -/

/-- The input without some characters of `P` at its front. -/
def Takes (P : Char → Prop) (s rest : Str) : Prop := ∃ taken, s = taken ++ rest ∧ ∀ c ∈ taken, P c

namespace Takes

variable {P : Char → Prop} {s rest : Str}

theorem refl (s : Str) : Takes P s s := ⟨[], rfl, forall_mem_nil _⟩

theorem trans {mid} (h : Takes P s mid) (h' : Takes P mid rest) : Takes P s rest := by
  obtain ⟨taken, rfl, htaken⟩ := h
  obtain ⟨taken', rfl, htaken'⟩ := h'
  exact ⟨taken ++ taken', by simp, forall_mem_append.mpr ⟨htaken, htaken'⟩⟩

theorem mono {Q} (h : Takes P s rest) (hPQ : ∀ c, P c → Q c) : Takes Q s rest := by
  obtain ⟨taken, rfl, htaken⟩ := h
  exact ⟨taken, rfl, fun c hc => hPQ c (htaken c hc)⟩

theorem readChar (h : readChar c s = some rest) (hc : P c) : Takes P s rest := by
  cases s with
  | nil => cases h
  | cons d ds =>
    simp only [readChar, Option.ite_none_right_eq_some, Option.some.injEq] at h
    obtain ⟨rfl, rfl⟩ := h
    exact ⟨[d], rfl, by simpa using hc⟩

theorem readSeparator {index} (h : readSeparator c index s = some rest) (hc : P c) :
    Takes P s rest := by
  unfold Text.readSeparator at h
  split at h
  · cases h
    exact refl s
  · exact readChar h hc

theorem spanDigits (radix : Nat) (s : Str) :
    Takes (fun c => (digitOf radix c).isSome) s (spanDigits radix s).2 := by
  induction s with
  | nil => exact refl []
  | cons c cs ih =>
    unfold Text.spanDigits
    cases hc : digitOf radix c with
    | none => exact refl _
    | some d =>
      refine trans ⟨[c], rfl, ?_⟩ ih
      simp [hc]

theorem readNumber {radix maxDigits allowZeroPrefix}
    (h : readNumber radix maxDigits allowZeroPrefix max s = some (n, rest)) :
    Takes (fun c => (digitOf radix c).isSome) s rest := by
  unfold Text.readNumber at h
  dsimp only at h
  split_ifs at h
  cases h
  exact spanDigits radix s

end Takes

/-- The characters an IPv6 address is written with. -/
def IsIpv6Char (c : Char) : Prop := c = '.' ∨ c = ':' ∨ (digitOf 16 c).isSome

theorem isSome_digitOf_mono (h : (digitOf 10 c).isSome) : (digitOf 16 c).isSome := by
  unfold digitOf at h ⊢
  generalize (if '0' ≤ c ∧ c ≤ '9' then c.toNat - '0'.toNat else _ : Nat) = value at h ⊢
  dsimp only at h ⊢
  split at h
  next hlt => rw [if_pos (by omega)]; rfl
  · cases h

theorem takes_readIpv4Addr {s rest} (h : readIpv4Addr s = some (ip, rest)) :
    Takes IsIpv6Char s rest := by
  have hnumber : ∀ {s rest} {n}, readNumber 10 (some 3) false 255 s = some (n, rest) →
      Takes IsIpv6Char s rest := fun h =>
    (Takes.readNumber h).mono fun c hc => .inr (.inr (isSome_digitOf_mono hc))
  simp only [readIpv4Addr, Option.bind_eq_bind, Option.bind_eq_some_iff, Prod.exists] at h
  obtain ⟨a, s₁, ha, s₂, hdot, b, s₃, hb, s₄, hdot', c, s₅, hc, s₆, hdot'', d, s₇, hd, h⟩ := h
  cases h
  exact (hnumber ha).trans <| (Takes.readChar hdot (.inl rfl)).trans <| (hnumber hb).trans <|
    (Takes.readChar hdot' (.inl rfl)).trans <| (hnumber hc).trans <|
    (Takes.readChar hdot'' (.inl rfl)).trans (hnumber hd)

theorem takes_readGroups (fuel index : Nat) (s : Str) :
    Takes IsIpv6Char s (readGroups fuel index s).2.2 := by
  induction fuel generalizing index s with
  | zero => exact .refl s
  | succ fuel ih =>
    unfold readGroups
    dsimp only
    split
    next a b c d rest hdotted =>
      split_ifs at hdotted
      obtain ⟨s', hsep, hip⟩ := Option.bind_eq_some_iff.mp hdotted
      exact (Takes.readSeparator hsep (.inr (.inl rfl))).trans (takes_readIpv4Addr hip)
    · split
      next g rest hgroup =>
        obtain ⟨s', hsep, hnumber⟩ := Option.bind_eq_some_iff.mp hgroup
        refine (Takes.readSeparator hsep (.inr (.inl rfl))).trans (Takes.trans ?_ (ih _ rest))
        exact (Takes.readNumber hnumber).mono fun c hc => .inr (.inr hc)
      · exact .refl s

theorem isIpv6Char_of_parseIpv6 {s ip} (h : parseIpv6 s = some ip) : ∀ c ∈ s, IsIpv6Char c := by
  have htakes : Takes IsIpv6Char s [] := by
    unfold parseIpv6 at h
    split at h
    next ip' hread =>
      unfold readIpv6Addr at hread
      dsimp only at hread
      split_ifs at hread
      · have hrest : (readGroups 8 0 s).2.2 = [] := (Prod.mk.inj (Option.some.inj hread)).2
        rw [← hrest]
        exact takes_readGroups 8 0 s
      · simp only [Option.bind_eq_bind, Option.bind_eq_some_iff] at hread
        obtain ⟨s₁, hcolon, s₂, hcolon', hread⟩ := hread
        have hrest := (Prod.mk.inj (Option.some.inj hread)).2
        rw [← hrest]
        exact (takes_readGroups 8 0 s).trans <| (Takes.readChar hcolon (.inr (.inl rfl))).trans <|
          (Takes.readChar hcolon' (.inr (.inl rfl))).trans (takes_readGroups _ 0 s₂)
    · cases h
  obtain ⟨taken, hs, htaken⟩ := htakes
  rwa [hs, append_nil]

end RsProxy.Text
