import Mathlib.Algebra.GroupWithZero.Nat
import Mathlib.Data.List.DropRight
import Mathlib.Data.List.Infix

/-!
# Text, the way the standard library cuts it

A `Str` is the list of characters of a string. This file holds the slicing operations every
scanner of the development is written with: trimming, stripping, splitting at a first or last
occurrence, cutting into lines. Each one follows the documented behaviour of the string method it
is named after, Unicode whitespace included.

Nothing here fails: an operation that may not find its pattern returns an `Option`.
-/

namespace RsProxy.Text

abbrev Str := List Char

/-- A literal stands for its characters. -/
instance : Coe String Str := ⟨String.toList⟩

/-- A property of all characters of a text is decided along the text, not over all characters. -/
instance (priority := 2000) decidableForallMemChar (P : Char → Prop) [DecidablePred P] (s : Str) :
    Decidable (∀ c ∈ s, P c) :=
  List.decidableBAll P s

/-! ### Character classes -/

/-- The Unicode `White_Space` property. -/
def isWhitespace (c : Char) : Bool :=
  let n := c.toNat
  (9 ≤ n && n ≤ 13) || n == 0x20 || n == 0x85 || n == 0xA0 || n == 0x1680 ||
    (0x2000 ≤ n && n ≤ 0x200A) || n == 0x2028 || n == 0x2029 || n == 0x202F ||
    n == 0x205F || n == 0x3000

/-- The Unicode general category `Cc`. -/
def isControl (c : Char) : Bool :=
  let n := c.toNat
  n < 0x20 || (0x7F ≤ n && n < 0xA0)

/-! ### ASCII case -/

def toAsciiLowercase (s : Str) : Str := s.map Char.toLower

def toAsciiUppercase (s : Str) : Str := s.map Char.toUpper

def eqIgnoreAsciiCase (a b : Str) : Bool := toAsciiLowercase a == toAsciiLowercase b

/-! ### Trimming -/

/-- Drop every leading and trailing character that satisfies `p`. -/
def trimMatches (p : Char → Bool) (s : Str) : Str := (s.dropWhile p).rdropWhile p

def trimStart (s : Str) : Str := s.dropWhile isWhitespace

def trim (s : Str) : Str := trimMatches isWhitespace s

/-! ### Stripping a fixed affix -/

def stripPrefix (p s : Str) : Option Str :=
  if p.isPrefixOf s then some (s.drop p.length) else none

def stripSuffix (p s : Str) : Option Str :=
  if p.isSuffixOf s then some (s.take (s.length - p.length)) else none

/-- Cut `s` around the first occurrence of `pat`. -/
def splitOnce (pat : Str) : Str → Option (Str × Str)
  | [] => if pat.isEmpty then some ([], []) else none
  | c :: cs =>
    if pat.isPrefixOf (c :: cs) then some ([], (c :: cs).drop pat.length)
    else (splitOnce pat cs).map fun ab => (c :: ab.1, ab.2)

/-- Cut `s` around the last occurrence of the character `c`. -/
def rsplitOnce (c : Char) : Str → Option (Str × Str)
  | [] => none
  | d :: ds =>
    match rsplitOnce c ds with
    | some ab => some (d :: ab.1, ab.2)
    | none => if d = c then some ([], ds) else none

/-- Cut `s` in front of the first character that satisfies `p`, which stays with the second half. -/
def splitAtFirst (p : Char → Bool) : Str → Option (Str × Str)
  | [] => none
  | c :: cs =>
    if p c then some ([], c :: cs)
    else (splitAtFirst p cs).map fun ab => (c :: ab.1, ab.2)

/-- Every piece of `s` between the characters that satisfy `p`; always at least one piece. -/
def splitOn (p : Char → Bool) : Str → List Str
  | [] => [[]]
  | c :: cs =>
    if p c then [] :: splitOn p cs
    else match splitOn p cs with
      | [] => [[c]]
      | w :: ws => (c :: w) :: ws

/-- Every piece of `s` between the occurrences of `pat`, taken one after the other. -/
def splitStr (pat s : Str) : List Str := go (s.length + 1) s
where
  go : (rounds : Nat) → Str → List Str
    | 0, s => [s]
    | rounds + 1, s =>
      match splitOnce pat s with
      | none => [s]
      | some (piece, rest) => piece :: go rounds rest

/-- The pieces between runs of whitespace. -/
def splitWhitespace (s : Str) : List Str := (splitOn isWhitespace s).filter fun w => !w.isEmpty

/-- Does `pat` occur in `s`? -/
def containsStr (pat s : Str) : Bool := (splitOnce pat s).isSome

theorem splitOnce_eq_none_iff {pat s} : splitOnce pat s = none ↔ ¬ pat <:+: s := by
  induction s with
  | nil =>
    rw [splitOnce]
    cases pat <;> simp
  | cons c cs ih =>
    rw [splitOnce, List.infix_cons_iff, not_or, ← ih, ← List.isPrefixOf_iff_prefix]
    split
    next hp => simp [hp]
    next hp => simp [hp]

theorem rsplitOnce_eq_none_iff {c s} : rsplitOnce c s = none ↔ c ∉ s := by
  induction s with
  | nil => simp [rsplitOnce]
  | cons d ds ih =>
    rw [rsplitOnce, List.mem_cons, not_or, ← ih]
    cases rsplitOnce c ds with
    | none => simp [eq_comm]
    | some ab => simp

theorem splitOn_ne_nil {p s} : splitOn p s ≠ [] := by
  cases s with
  | nil => simp [splitOn]
  | cons c cs =>
    rw [splitOn]
    split
    · simp
    · split <;> simp

/-! ### Lines -/

/-- Drop the carriage return a line feed left behind. -/
def chopCr (line : Str) : Str :=
  match stripSuffix ['\r'] line with
  | some l => l
  | none => line

/-- The lines of a text: the line feed that ends a line is dropped together with a carriage return
in front of it, and a final line feed starts no further line. A last line without a line feed keeps
its carriage return. -/
def lines (s : Str) : List Str :=
  let pieces := splitOn (· == '\n') s
  match pieces.getLast? with
  | some [] => pieces.dropLast.map chopCr
  | some l => pieces.dropLast.map chopCr ++ [l]
  | none => []

/-! ### Size in bytes -/

/-- Length in bytes of the UTF-8 form. -/
def utf8Len (s : Str) : Nat := (s.map Char.utf8Size).sum

end RsProxy.Text
