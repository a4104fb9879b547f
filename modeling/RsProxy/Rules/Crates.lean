import RsProxy.Regex.Fragment
import RsProxy.Regex.Hir

/-!
# The engines the rules crate is built on

Regular expressions, their parser and the multi-literal search come from other crates. They enter
the model as functions from their inputs to their results, and what the proofs rely on is stated
next to them, as the part of their documentation that is needed.

Compiling is a function of the pattern and its options, so a compiled expression is not stored in
the model: it is looked up again where the code keeps a handle to it.
-/

namespace RsProxy.Rules

open Text Regex

/-- `regex::Regex::captures`: the leftmost match. -/
abbrev LinearRegex := Str → Option Match

/-- `fancy_regex::Regex::captures`, which can give up at run time. -/
abbrev FancyRegex := Str → Except Unit (Option Match)

class Crates where
  /-- `RegexBuilder::new(pattern).case_insensitive(..).size_limit(..).build()`. -/
  linearRegex (pattern : Str) (caseInsensitive : Bool) (sizeLimit : Option Nat) :
    Except String LinearRegex
  /-- `fancy_regex::RegexBuilder::new(pattern).backtrack_limit(..).build()`. -/
  fancyRegex (pattern : Str) (backtrackLimit : Nat) : Except String FancyRegex
  /-- `regex_syntax::parse`. -/
  regexSyntax (pattern : Str) : Option Hir
  /-- An Aho-Corasick automaton: the numbers of the patterns, one for each overlapping
  occurrence in the text. -/
  ahoCorasick (asciiCaseInsensitive : Bool) (patterns : List Str) : Option (Str → List Nat)

/-! ### Occurrences of a literal -/

def lowerByte (b : UInt8) : UInt8 := if 65 ≤ b ∧ b ≤ 90 then b + 32 else b

/-- Bytes with ASCII letters in lower case. -/
def lowerBytes (bs : Bytes) : Bytes := bs.map lowerByte

/-- The literal occurs in the text, byte for byte or up to ASCII case. -/
def Occurs (asciiCaseInsensitive : Bool) (literal text : Str) : Prop :=
  if asciiCaseInsensitive then lowerBytes (utf8 literal) <:+: lowerBytes (utf8 text)
  else utf8 literal <:+: utf8 text

instance (ci : Bool) (literal text : Str) : Decidable (Occurs ci literal text) :=
  match ci with
  | true => inferInstanceAs (Decidable (lowerBytes (utf8 literal) <:+: lowerBytes (utf8 text)))
  | false => inferInstanceAs (Decidable (utf8 literal <:+: utf8 text))

/-! ### What is known about the engines -/

variable [Crates]

/-- An overlapping search reports exactly the literals that occur. -/
def SearchIsExact : Prop :=
  ∀ ci patterns search, Crates.ahoCorasick ci patterns = some search →
    ∀ text i, i ∈ search text ↔ ∃ p, patterns[i]? = some p ∧ Occurs ci p text

/-- A case-sensitive expression that the parser of the regular expression crate can read matches
only where its parsed form does. -/
structure FollowsHir : Prop where
  linear : ∀ pattern limit regex hir, Crates.linearRegex pattern false limit = .ok regex →
    Crates.regexSyntax pattern = some hir →
    ∀ text m, regex text = some m → hir.MatchesIn (utf8 text)
  fancy : ∀ pattern limit regex hir, Crates.fancyRegex pattern limit = .ok regex →
    Crates.regexSyntax pattern = some hir →
    ∀ text m, regex text = .ok (some m) → hir.MatchesIn (utf8 text)

/-- Expressions of the anchored lazy fragment have their leftmost-first meaning. -/
def RunsFragment : Prop :=
  ∀ source items limit regex, parse source = some items →
    Crates.linearRegex source false limit = .ok regex →
    ∀ text, regex text = exec items text

end RsProxy.Rules
