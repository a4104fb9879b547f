import RsProxy.Rules.Crates
import RsProxy.Rules.Model

/-!
# A concrete set of engines

Small engines that satisfy everything the development assumes about the real ones: expressions of
the anchored lazy fragment and plain literals compile, everything else is rejected, and a search
for several literals tries each of them. Parsing and resolution can be run with them on concrete
rules.
-/

namespace RsProxy.Rules

open Text Regex List

/-- A plain `GET` request. -/
def RequestMeta.get (url : Str) : RequestMeta := ⟨"GET", url, [], [], none, none⟩

/-- A pattern that spells exactly the text it matches. -/
def isPlainPattern (pattern : Str) : Bool := pattern.all fun c => !isMeta c

def literalSearch (pattern : Str) : LinearRegex := fun text =>
  if containsStr pattern text then some ⟨[some pattern], []⟩ else none

variable {source : Str} {items : List Item}

@[reducible] def reference : Crates where
  linearRegex pattern caseInsensitive _ :=
    if caseInsensitive then .error "case-insensitive expressions are not supported"
    else if isPlainPattern pattern then .ok (literalSearch pattern)
    else
      match parse pattern with
      | some items => .ok (exec items)
      | none => .error "expression outside the supported fragment"
  fancyRegex _ _ := .error "no backtracking engine"
  regexSyntax pattern := if isPlainPattern pattern then some (.literal (utf8 pattern)) else none
  ahoCorasick asciiCaseInsensitive patterns := some fun text =>
    (range patterns.length).filter fun i =>
      patterns[i]?.any fun p => Occurs asciiCaseInsensitive p text

/-- A source of the fragment starts with a parenthesis, which is no plain character. -/
theorem not_isPlainPattern_of_parse (h : parse source = some items) :
    isPlainPattern source = false := by
  obtain ⟨body, hbody, -⟩ := Option.bind_eq_some_iff.mp h
  rw [stripPrefix_eq_some.mp hbody]
  rfl

theorem reference_linearRegex_plain {pattern} (h : isPlainPattern pattern) {limit} :
    reference.linearRegex pattern false limit = .ok (literalSearch pattern) := by
  change (if isPlainPattern pattern then _ else _) = _
  rw [if_pos h]

theorem reference_linearRegex_fragment (h : parse source = some items) {limit} :
    reference.linearRegex source false limit = .ok (exec items) := by
  change (if isPlainPattern source then _ else match parse source with
    | some items => Except.ok (exec items)
    | none => _) = _
  rw [not_isPlainPattern_of_parse h, h]
  rfl

theorem reference_runsFragment : @RunsFragment reference := by
  intro source items limit regex hparse hcompile text
  rw [reference_linearRegex_fragment hparse] at hcompile
  cases hcompile
  rfl

theorem reference_followsHir : @FollowsHir reference := by
  refine @FollowsHir.mk reference ?_ ?_
  · intro pattern limit regex hir hcompile hparse text m hm
    change (if isPlainPattern pattern then some (Hir.literal (utf8 pattern)) else none) =
      _ at hparse
    split at hparse
    next hplain =>
      cases hparse
      rw [reference_linearRegex_plain hplain] at hcompile
      cases hcompile
      simp only [literalSearch] at hm
      split at hm
      next hin =>
        obtain ⟨a, b, hab⟩ := infix_of_containsStr hin
        refine ⟨utf8 a, utf8 pattern, utf8 b, ?_, .literal⟩
        rw [← hab, utf8_append, utf8_append]
      · cases hm
    · cases hparse
  · intro pattern limit regex hir hcompile
    cases hcompile

theorem reference_searchIsExact : @SearchIsExact reference := by
  intro ci patterns search hbuild text i
  cases hbuild
  rw [mem_filter, mem_range]
  constructor
  · rintro ⟨hi, hocc⟩
    simpa [getElem?_eq_getElem hi] using hocc
  · rintro ⟨p, hp, hocc⟩
    exact ⟨(List.getElem?_eq_some_iff.mp hp).1, by simpa [hp] using hocc⟩

end RsProxy.Rules
