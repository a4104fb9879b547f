import RsProxy.Text.Utf8

/-!
# High-level intermediate representation of regular expressions

The parsed form of a regular expression and the byte strings it matches. A match sits between a
text in front of it and a text behind it, which the look-around assertions can see.

Character classes and assertions are given by what they hold of; how they are written is of no
concern here.
-/

namespace RsProxy.Regex

open Text

inductive Hir where
  | empty
  | literal (bytes : Bytes)
  /-- One member of a class, as bytes. -/
  | cls (member : Bytes → Bool)
  /-- An assertion about what stands in front and behind. -/
  | look (holds : Bytes → Bytes → Bool)
  | repetition (min : Nat) (max : Option Nat) (sub : Hir)
  | capture (sub : Hir)
  | concat (parts : List Hir)
  | alternation (parts : List Hir)

mutual

/-- The expression matches `mid` between `pre` and `post`. -/
inductive Hir.Matches : Hir → Bytes → Bytes → Bytes → Prop where
  | empty {pre post} : Hir.Matches .empty pre [] post
  | literal {b pre post} : Hir.Matches (.literal b) pre b post
  | cls {member pre b post} : member b = true → Hir.Matches (.cls member) pre b post
  | look {holds pre post} : holds pre post = true → Hir.Matches (.look holds) pre [] post
  | repetition {min max sub pre mid post} (n : Nat) : min ≤ n → (∀ m, max = some m → n ≤ m) →
      Hir.MatchesSeq (List.replicate n sub) pre mid post →
      Hir.Matches (.repetition min max sub) pre mid post
  | capture {sub pre mid post} :
      Hir.Matches sub pre mid post → Hir.Matches (.capture sub) pre mid post
  | concat {parts pre mid post} :
      Hir.MatchesSeq parts pre mid post → Hir.Matches (.concat parts) pre mid post
  | alternation {parts part pre mid post} : part ∈ parts → Hir.Matches part pre mid post →
      Hir.Matches (.alternation parts) pre mid post

/-- The expressions match one after the other. -/
inductive Hir.MatchesSeq : List Hir → Bytes → Bytes → Bytes → Prop where
  | nil {pre post} : Hir.MatchesSeq [] pre [] post
  | cons {h hs pre mid mid' post} : Hir.Matches h pre mid (mid' ++ post) →
      Hir.MatchesSeq hs (pre ++ mid) mid' post → Hir.MatchesSeq (h :: hs) pre (mid ++ mid') post

end

/-- Every part of a sequence matches somewhere inside what the sequence matches. -/
theorem Hir.MatchesSeq.part {hs h pre mid post} (hseq : Hir.MatchesSeq hs pre mid post)
    (hmem : h ∈ hs) :
    ∃ pre' mid' post', Hir.Matches h pre' mid' post' ∧ mid' <:+: mid := by
  induction hs generalizing pre mid with
  | nil => cases hmem
  | cons h₀ hs ih =>
    cases hseq with
    | cons hfirst hrest =>
      rcases List.mem_cons.mp hmem with rfl | hmem
      · exact ⟨_, _, _, hfirst, List.infix_append' [] _ _⟩
      · obtain ⟨pre', mid', post', hpart, hin⟩ := ih hrest hmem
        exact ⟨pre', mid', post', hpart, hin.trans (List.suffix_append _ _).isInfix⟩

/-- The expression matches somewhere in the text. -/
def Hir.MatchesIn (h : Hir) (text : Bytes) : Prop :=
  ∃ pre mid post, text = pre ++ mid ++ post ∧ h.Matches pre mid post

end RsProxy.Regex
