import RsProxy.Rules.GlobPrograms
import RsProxy.Rules.Reference

/-!
# Translating globs

A glob is compiled by writing the source text of a regular expression and giving it to the regular
expression crate. This file is about the text: when there is one, what it means as a regular
expression, and which part of a text each of its groups holds.
-/

namespace RsProxy.Rules

open Text Regex Option Glob

/-- The source text that is written for a glob. -/
def globSource (pattern : Str) (sep : Char) : Option Str :=
  globSourceLoop sep pattern 0 "(?s)\\A"

variable (pattern : Str) {sep : Char}

theorem globSource_eq :
    globSource pattern sep = (tokens pattern).map fun ts =>
      source (items sep maxRuleGlobCaptures ts) :=
  globSourceLoop_eq sep

theorem compileGlobRegex_eq [Crates] :
    compileGlobRegex pattern sep = (globSource pattern sep).bind fun source =>
      (Crates.linearRegex source false (some globRegexSizeLimit)).toOption :=
  rfl

theorem globSource_eq_none_iff : globSource pattern sep = none ↔ Glob.DanglingEscape pattern := by
  rw [globSource_eq, map_eq_none_iff, tokens_eq_none_iff]

/-- The report of a search with the expression of a glob, in terms of the glob. -/
theorem exec_items {ts text} :
    exec (items sep maxRuleGlobCaptures ts) text =
      (find sep ts text).map fun pieces =>
        ⟨some text :: (pieces.take maxRuleGlobCaptures).map some, []⟩ := by
  rw [exec, run_items, map_map]
  rfl

variable {ts : List Glob.Token}

theorem exec_items_isSome_iff {sep text} :
    (exec (items sep maxRuleGlobCaptures ts) text).isSome ↔
      ∃ pieces, Glob.Splits sep ts text pieces := by
  rw [exec_items, isSome_map, find_isSome_iff]

/-- The groups hold what the first nine wildcards stand for in the non-greedy match. -/
theorem groups_of_exec_items {sep text m}
    (h : exec (items sep maxRuleGlobCaptures ts) text = some m) :
    ∃ pieces, Glob.Splits sep ts text pieces ∧
      (∀ others, Glob.Splits sep ts text others → Glob.NoLonger pieces others) ∧
      m.groups = some text :: (pieces.take maxRuleGlobCaptures).map some := by
  rw [exec_items, map_eq_some_iff] at h
  obtain ⟨pieces, hfind, rfl⟩ := h
  refine ⟨pieces, splits_of_find hfind, ?_, rfl⟩
  intro others hothers
  exact noLonger_of_find hfind hothers

/-- A glob is rejected exactly when it ends in a dangling escape or the regular expression crate
refuses the text, and otherwise the text is an expression that matches what the glob matches. Its
groups, nine at most, hold what the wildcards stand for. -/
theorem globSource_exact [Crates] (pattern : Str) (sep : Char) :
    (globSource pattern sep = none ↔ Glob.DanglingEscape pattern) ∧
    (compileGlobRegex pattern sep = none ↔ Glob.DanglingEscape pattern ∨
      ∃ source error, globSource pattern sep = some source ∧
        Crates.linearRegex source false (some globRegexSizeLimit) = .error error) ∧
    ∀ source, globSource pattern sep = some source →
      ∃ ts items, tokens pattern = some ts ∧ parse source = some items ∧
        ∀ text,
          ((exec items text).isSome ↔ ∃ pieces, Glob.Splits sep ts text pieces) ∧
          ∀ m, exec items text = some m →
            ∃ pieces, Glob.Splits sep ts text pieces ∧
              (∀ others, Glob.Splits sep ts text others → Glob.NoLonger pieces others) ∧
              m.groups = some text :: (pieces.take 9).map some ∧ m.groups.length ≤ 1 + 9 := by
  refine ⟨globSource_eq_none_iff pattern, ?_, ?_⟩
  · rw [compileGlobRegex_eq, ← globSource_eq_none_iff pattern]
    cases hsource : globSource pattern sep with
    | none => simp
    | some source =>
      cases hresult : Crates.linearRegex source false (some globRegexSizeLimit) with
      | error | ok => simp [hresult, Except.toOption]
  · intro source hsource
    rw [globSource_eq, map_eq_some_iff] at hsource
    obtain ⟨ts, hts, rfl⟩ := hsource
    refine ⟨ts, items sep maxRuleGlobCaptures ts, hts, parse_source _, fun text => ?_⟩
    refine ⟨exec_items_isSome_iff, fun m hm => ?_⟩
    obtain ⟨pieces, hsplits, hleast, hgroups⟩ := groups_of_exec_items hm
    refine ⟨pieces, hsplits, hleast, hgroups, ?_⟩
    rw [hgroups, List.length_cons, List.length_map, List.length_take, Nat.add_comm]
    exact Nat.add_le_add_left (Nat.min_le_left _ _) 1

/-- The source of `*.b` matches `a.b`. -/
theorem globSource_exact_label :
    ∃ items pieces, parse "(?s)\\A([^\\.]*?)\\.b\\z" = some items ∧
      Glob.Splits '.' [.star, .lit '.', .lit 'b'] "a.b" pieces ∧
      (exec items "a.b").map (·.groups) = some (some "a.b".toList :: (pieces.take 9).map some) := by
  obtain ⟨ts, items, hts, hparse, hexec⟩ :=
    (@globSource_exact reference "*.b" '.').2.2 "(?s)\\A([^\\.]*?)\\.b\\z" (by decide)
  cases (show tokens "*.b" = some [.star, .lit '.', .lit 'b'] by decide).symm.trans hts
  have hsplits : Glob.Splits '.' [.star, .lit '.', .lit 'b'] "a.b" ["a"] :=
    Splits.star (w := "a") (by decide) (.lit (.lit .nil))
  obtain ⟨m, hm⟩ := isSome_iff_exists.mp ((hexec "a.b").1.mpr ⟨_, hsplits⟩)
  obtain ⟨pieces, hpieces, -, hgroups, -⟩ := (hexec "a.b").2 m hm
  refine ⟨items, pieces, hparse, hpieces, ?_⟩
  rw [hm, map_some, hgroups]

end RsProxy.Rules
