import RsProxy.Rules.Index
import RsProxy.Text.Case

/-!
# Body literals

The literals of all body conditions are searched for in one pass over the body. A condition asks
for the number of its literal, and the answer is whether the literal occurs, up to ASCII case.
-/

namespace RsProxy.Rules

open Text Data List SortedMap

/-! ### Case of bytes -/

theorem lowerBytes_append {a b} : lowerBytes (a ++ b) = lowerBytes a ++ lowerBytes b :=
  map_append

theorem lowerBytes_encode_toLower {c} :
    lowerBytes (String.utf8EncodeChar c.toLower) = lowerBytes (String.utf8EncodeChar c) := by
  by_cases hupper : 65 ≤ c.toNat ∧ c.toNat ≤ 90
  · -- The 26 upper-case letters.
    have hall : ∀ n ∈ range 26,
        lowerBytes (String.utf8EncodeChar (Char.ofNat (n + 65)).toLower) =
          lowerBytes (String.utf8EncodeChar (Char.ofNat (n + 65))) := by decide
    have hc : Char.ofNat (c.toNat - 65 + 65) = c := by
      rw [Nat.sub_add_cancel hupper.1]
      exact Char.ofNat_toNat c
    rw [← hc]
    exact hall _ (mem_range.mpr (by omega))
  · have hc : c.toLower = c := by
      apply Char.toNat_inj.mp
      rw [toNat_toLower, if_neg hupper]
    rw [hc]

theorem lowerBytes_utf8_toAsciiLowercase {s} :
    lowerBytes (utf8 (toAsciiLowercase s)) = lowerBytes (utf8 s) := by
  induction s with
  | nil => rfl
  | cons c cs ih =>
    change lowerBytes (String.utf8EncodeChar c.toLower ++ utf8 (toAsciiLowercase cs)) =
      lowerBytes (String.utf8EncodeChar c ++ utf8 cs)
    rw [lowerBytes_append, lowerBytes_append, lowerBytes_encode_toLower, ih]

/-- The windows of a text hold its infixes. -/
theorem mem_windows {α n} {l w : List α} : w ∈ windows n l ↔ w <:+: l ∧ w.length = n := by
  unfold windows
  rw [mem_map]
  constructor
  · rintro ⟨t, ht, rfl⟩
    obtain ⟨ht, hlen⟩ := mem_filter.mp ht
    have hwindow : t.take n <+: t := take_prefix n t
    refine ⟨hwindow.isInfix.trans ((mem_tails _ _).mp ht).isInfix, ?_⟩
    rw [length_take]
    exact min_eq_left (of_decide_eq_true hlen)
  · rintro ⟨⟨a, b, rfl⟩, rfl⟩
    refine ⟨w ++ b, mem_filter.mpr ⟨(mem_tails _ _).mpr ⟨a, by simp⟩, ?_⟩, by simp⟩
    simp

/-- An occurrence up to ASCII case is the occurrence of bytes that differ in case only. -/
theorem lowerBytes_infix_iff {l text} :
    lowerBytes l <:+: lowerBytes text ↔ ∃ w, w <:+: text ∧ lowerBytes w = lowerBytes l := by
  constructor
  · rintro ⟨a, b, hab⟩
    obtain ⟨x, y, htext, hx, rfl⟩ := map_eq_append_iff.mp hab.symm
    obtain ⟨x, w, rfl, rfl, hw⟩ := map_eq_append_iff.mp hx
    exact ⟨w, ⟨x, y, htext.symm⟩, hw⟩
  · rintro ⟨w, ⟨a, b, hab⟩, hw⟩
    rw [← hw, ← hab]
    exact ⟨lowerBytes a, lowerBytes b, by simp [lowerBytes]⟩

variable {literal : Str}

theorem containsAsciiCaseInsensitive_iff {text} :
    containsAsciiCaseInsensitive text literal ↔
      lowerBytes (utf8 literal) <:+: lowerBytes (utf8 text) := by
  unfold containsAsciiCaseInsensitive
  split
  next hempty =>
    rw [isEmpty_iff.mp hempty]
    simp [lowerBytes]
  · rw [any_eq_true, lowerBytes_infix_iff]
    refine exists_congr fun w => ?_
    rw [mem_windows, beq_iff_eq]
    constructor
    · rintro ⟨⟨hw, -⟩, heq⟩
      exact ⟨hw, heq⟩
    · rintro ⟨hw, heq⟩
      refine ⟨⟨hw, ?_⟩, heq⟩
      have hlength := congrArg length heq
      rwa [lowerBytes, lowerBytes, length_map, length_map] at hlength

/-- A literal is searched for in lower case. -/
theorem occurs_toAsciiLowercase {text} :
    Occurs true (toAsciiLowercase literal) text ↔ containsAsciiCaseInsensitive text literal := by
  rw [containsAsciiCaseInsensitive_iff, ← lowerBytes_utf8_toAsciiLowercase]
  rfl

/-! ### The scan -/

variable {set : CompiledBodyContainsSet} {rules : List Rule}

namespace CompiledBodyContainsSet

/-- The loop marks what is reported. It may stop early, but only when everything is marked. -/
theorem scanLoop_eq_true {found matched remaining} (h : remaining = matched.count false) {j} :
    (scanLoop found matched remaining)[j]? = some true ↔
      matched[j]? = some true ∨ (j ∈ found ∧ j < matched.length) := by
  induction found generalizing matched remaining with
  | nil => simp [scanLoop]
  | cons i found ih =>
    rw [scanLoop]
    split
    next hi =>
      obtain ⟨hlt, hget⟩ := List.getElem?_eq_some_iff.mp hi
      have hset : (matched.set i true)[j]? = some true ↔ matched[j]? = some true ∨ j = i := by
        rw [getElem?_set]
        split
        next heq => simp [heq]
        next hne => simp [Ne.symm hne]
      have hcount : (matched.set i true).count false = remaining - 1 := by
        rw [count_set hlt, h, hget]
        simp
      split
      next hdone =>
        have hall : ∀ b ∈ matched.set i true, b := by
          rw [hdone, count_eq_zero] at hcount
          intro b hb
          cases b with
          | true => rfl
          | false => exact absurd hb hcount
        constructor
        · intro hj
          rcases hset.mp hj with hj | rfl
          · exact .inl hj
          · exact .inr ⟨mem_cons_self, hlt⟩
        · intro hj
          have hjlt : j < (matched.set i true).length := by
            rw [length_set]
            rcases hj with hj | hj
            · exact (List.getElem?_eq_some_iff.mp hj).1
            · exact hj.2
          rw [getElem?_eq_getElem hjlt, hall _ (getElem_mem hjlt)]
      · rw [ih hcount.symm, hset, length_set, mem_cons]
        constructor
        · rintro ((hj | rfl) | ⟨hj, hjlt⟩)
          · exact .inl hj
          · exact .inr ⟨.inl rfl, hlt⟩
          · exact .inr ⟨.inr hj, hjlt⟩
        · rintro (hj | ⟨rfl | hj, hjlt⟩)
          · exact .inl (.inl hj)
          · exact .inl (.inr rfl)
          · exact .inr ⟨hj, hjlt⟩
    next hi =>
      rw [ih h, mem_cons]
      constructor
      · rintro (hj | ⟨hj, hjlt⟩)
        · exact .inl hj
        · exact .inr ⟨.inr hj, hjlt⟩
      · rintro (hj | ⟨rfl | hj, hjlt⟩)
        · exact .inl hj
        · -- The literal was marked before.
          left
          rw [getElem?_eq_getElem hjlt] at hi ⊢
          cases hb : matched[j] with
          | false => exact absurd (congrArg some hb) hi
          | true => rfl
        · exact .inr ⟨hj, hjlt⟩

theorem matchesId_scan {search} (hsearch : set.matcher = some search) {text i}
    (hi : i < set.literals.length) :
    matchesId i (set.scan text) ↔ i ∈ search text := by
  have hscan : set.scan text = scanLoop (search text) (replicate set.literals.length false)
      (replicate set.literals.length false).length := by
    unfold scan
    rw [hsearch]
  have hgetD : ∀ l, matchesId i l ↔ l[i]? = some true := by
    intro l
    unfold matchesId
    cases l[i]? <;> simp
  rw [hgetD, hscan, scanLoop_eq_true (by simp)]
  simp [hi]

/-! ### The set of a list of rules -/

end CompiledBodyContainsSet

def Rule.bodyLiterals (rule : Rule) : List Str :=
  (rule.conditions.flatMap Condition.nodes).filterMap CompiledBodyContainsSet.bodyLiteralOf

theorem Rule.mem_bodyLiterals {rule : Rule} :
    literal ∈ rule.bodyLiterals ↔
      Condition.bodyContains literal ∈ rule.conditions.flatMap Condition.nodes := by
  unfold Rule.bodyLiterals
  rw [mem_filterMap]
  constructor
  · rintro ⟨c, hc, hliteral⟩
    cases c with
    | bodyContains l =>
      cases hliteral
      exact hc
    | _ => cases hliteral
  · intro h
    exact ⟨_, h, rfl⟩

namespace CompiledBodyContainsSet

variable [Crates]

theorem build_eq (rules : List Rule) :
    build rules =
      fromLiterals ((rules.flatMap Rule.bodyLiterals).foldl insertKey .empty) := by
  unfold build
  congr 1
  rw [foldl_flatMap]
  congr 1
  funext literals rule
  unfold Rule.bodyLiterals
  rw [filterMap_flatMap, foldl_flatMap]
  rfl

/-- Every literal has a number, and the search for that number is the search for the literal in
lower case. -/
theorem build_spec (h : build rules = some set)
    (hliteral : literal ∈ rules.flatMap Rule.bodyLiterals) :
    ∃ i search, set.id literal = some i ∧ set.literals[i]? = some (toAsciiLowercase literal) ∧
      set.matcher = some search ∧ Crates.ahoCorasick true set.literals = some search := by
  rw [build_eq] at h
  unfold fromLiterals at h
  dsimp only at h
  set source := (rules.flatMap Rule.bodyLiterals).foldl insertKey .empty with hsource
  set literals := ((source.keys.map toAsciiLowercase).foldl insertKey .empty).keys
  have hkey : literal ∈ source.keys := by
    rw [mem_keys_foldl_insertKey]
    exact .inl hliteral
  have hlower : toAsciiLowercase literal ∈ literals := by
    rw [mem_keys_foldl_insertKey]
    exact .inl (mem_map_of_mem hkey)
  split at h
  next hempty =>
    rw [isEmpty_iff.mp hempty] at hlower
    cases hlower
  · obtain ⟨search, hsearch, rfl⟩ := Option.map_eq_some_iff.mp h
    refine ⟨literals.idxOf (toAsciiLowercase literal), search, ?_, ?_, rfl, hsearch⟩
    · rw [id]
      rw [get?_foldl_upsert fun literal => literals.idxOf (toAsciiLowercase literal),
        if_pos hkey]
    · rw [getElem?_eq_getElem (idxOf_lt_length_of_mem hlower), getElem_idxOf]

/-- The answer for a literal of the rules is whether it occurs in the body. -/
theorem matchesId_iff (hexact : SearchIsExact) (h : build rules = some set)
    (hliteral : literal ∈ rules.flatMap Rule.bodyLiterals) {i} (hi : set.id literal = some i)
    {text} :
    matchesId i (set.scan text) = containsAsciiCaseInsensitive text literal := by
  obtain ⟨i', search, hi', hget, hmatcher, hsearch⟩ := build_spec h hliteral
  rw [hi] at hi'
  cases hi'
  rw [Bool.eq_iff_iff, matchesId_scan hmatcher (List.getElem?_eq_some_iff.mp hget).1,
    hexact _ _ _ hsearch text i, ← occurs_toAsciiLowercase]
  constructor
  · rintro ⟨p, hp, hoccurs⟩
    rw [hget] at hp
    cases hp
    exact hoccurs
  · intro hoccurs
    exact ⟨_, hget, hoccurs⟩

end CompiledBodyContainsSet

end RsProxy.Rules
