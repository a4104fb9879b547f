import RsProxy.Text.Basic

/-!
# Lemmas about slicing

How the operations of `RsProxy.Text.Basic` act on a text that is given as a concatenation, and what
their results say about the text they were applied to.
-/

namespace RsProxy.Text

open List Option Nat

/-! ### Stripping -/

variable {s r : Str}

@[simp] theorem stripPrefix_append {p} : stripPrefix p (p ++ s) = some s := by
  simp [stripPrefix]

theorem stripPrefix_eq_some {p} : stripPrefix p s = some r ↔ s = p ++ r := by
  constructor
  · intro h
    unfold stripPrefix at h
    split_ifs at h with hp
    obtain ⟨t, rfl⟩ := isPrefixOf_iff_prefix.mp hp
    simpa using h
  · rintro rfl
    exact stripPrefix_append

theorem stripPrefix_eq_none {p} : stripPrefix p s = none ↔ ¬ p <+: s := by
  simp [stripPrefix]

variable {c : Char}

/-- A text that starts differently is not stripped. -/
theorem stripPrefix_cons_ne {d} (h : c ≠ d) {p : Str} : stripPrefix (c :: p) (d :: s) = none := by
  rw [stripPrefix_eq_none]
  intro hp
  exact h (cons_prefix_cons.mp hp).1

theorem stripSuffix_eq_some {p} : stripSuffix p s = some r ↔ s = r ++ p := by
  constructor
  · intro h
    unfold stripSuffix at h
    split_ifs at h with hp
    obtain ⟨t, rfl⟩ := isSuffixOf_iff_suffix.mp hp
    simp at h
    rw [h]
  · rintro rfl
    simp [stripSuffix]

/-! ### Trimming -/

theorem trimMatches_idem {p} : trimMatches p (trimMatches p s) = trimMatches p s := by
  unfold trimMatches
  -- Trimming the end leaves a prefix, so the first character stays as it is.
  have hfront : (rdropWhile p (s.dropWhile p)).dropWhile p =
      rdropWhile p (s.dropWhile p) := by
    rw [dropWhile_eq_self_iff]
    intro hlen
    have hpre := rdropWhile_prefix p (s.dropWhile p)
    rw [IsPrefix.getElem hpre hlen]
    exact dropWhile_get_zero_not p s _
  rw [hfront, rdropWhile_idempotent]

variable {p : Char → Bool}

/-- A change of characters that does not touch those to be trimmed commutes with trimming. -/
theorem trimMatches_map {f} (h : ∀ c, p (f c) = p c) (s : Str) :
    trimMatches p (s.map f) = (trimMatches p s).map f := by
  have hcomp : p ∘ f = p := funext h
  unfold trimMatches
  rw [dropWhile_map, rdropWhile, rdropWhile, ← map_reverse, dropWhile_map,
    hcomp, map_reverse]

theorem trimMatches_sublist : (trimMatches p s).Sublist s := by
  have hback : trimMatches p s <+: s.dropWhile p := rdropWhile_prefix p _
  exact hback.sublist.trans (dropWhile_suffix p).sublist

/-- A text is trimmed if neither of its ends is to be trimmed. -/
theorem trimMatches_eq_self_iff :
    trimMatches p s = s ↔ (∀ c ∈ s.head?, p c = false) ∧ ∀ c ∈ s.getLast?, p c = false := by
  have hfront : s.dropWhile p = s ↔ ∀ c ∈ s.head?, p c = false := by
    cases s with
    | nil | cons => simp
  have hback : s.rdropWhile p = s ↔ ∀ c ∈ s.getLast?, p c = false := by
    rw [rdropWhile_eq_self_iff]
    constructor
    · intro h c hc
      have hne : s ≠ [] := by
        rintro rfl
        cases hc
      rw [getLast?_eq_some_getLast hne] at hc
      cases hc
      exact Bool.eq_false_iff.mpr (h hne)
    · intro h hne
      exact Bool.eq_false_iff.mp (h _ (getLast?_eq_some_getLast hne))
  rw [← hfront, ← hback]
  unfold trimMatches
  constructor
  · intro h
    -- Nothing is lost in the end, so nothing is lost in the first step.
    have hlen : (s.dropWhile p).length = s.length := by
      refine le_antisymm (dropWhile_suffix p).length_le ?_
      have hback : (s.dropWhile p).rdropWhile p <+: s.dropWhile p := rdropWhile_prefix p _
      rw [h] at hback
      exact hback.length_le
    have hdrop : s.dropWhile p = s := (dropWhile_suffix p).eq_of_length hlen
    rw [hdrop] at h
    exact ⟨hdrop, h⟩
  · rintro ⟨hdrop, hrdrop⟩
    rw [hdrop, hrdrop]

theorem trimMatches_of_forall (h : ∀ c ∈ s, p c = false) : trimMatches p s = s :=
  trimMatches_eq_self_iff.mpr ⟨fun c hc => h c (mem_of_mem_head? hc),
    fun c hc => h c (mem_of_mem_getLast? hc)⟩

theorem trimMatches_append_left {pre} (hpre : ∀ c ∈ pre, p c) (s : Str) :
    trimMatches p (pre ++ s) = trimMatches p s := by
  unfold trimMatches
  rw [dropWhile_append_of_pos hpre]

theorem trim_blank (s : Str) : trim ([' '] ++ s) = trim s := trimMatches_append_left (by decide) s

theorem trimMatches_append_right {post} (hpost : ∀ c ∈ post, p c) (s : Str) :
    trimMatches p (s ++ post) = trimMatches p s := by
  unfold trimMatches
  rw [dropWhile_append]
  split
  next hempty =>
    rw [isEmpty_iff.mp hempty, dropWhile_eq_nil_iff.mpr hpost]
  · rw [rdropWhile, reverse_append, dropWhile_append_of_pos (by simpa using hpost),
      rdropWhile]

/-- What is trimmed off stands at the two ends. -/
theorem exists_trimMatches (p : Char → Bool) (s : Str) : ∃ pre post,
    s = pre ++ trimMatches p s ++ post ∧ (∀ c ∈ pre, p c) ∧ ∀ c ∈ post, p c := by
  refine ⟨s.takeWhile p, (s.dropWhile p).rtakeWhile p, ?_, fun c hc => mem_takeWhile_imp hc,
    fun c hc => mem_rtakeWhile_imp hc⟩
  unfold trimMatches
  rw [append_assoc, rdropWhile_append_rtakeWhile, takeWhile_append_dropWhile]

/-- Trimming less first makes no difference. -/
theorem trimMatches_trimMatches {q} (h : ∀ c, q c → p c) :
    trimMatches p (trimMatches q s) = trimMatches p s := by
  obtain ⟨pre, post, hs, hpre, hpost⟩ := exists_trimMatches q s
  conv_rhs => rw [hs]
  rw [trimMatches_append_right fun c hc => h c (hpost c hc),
    trimMatches_append_left fun c hc => h c (hpre c hc)]

/-! ### Splitting -/

variable {pat a b : Str}

/-- The first occurrence: no other one ends before it does. -/
theorem splitOnce_eq_some_iff : splitOnce pat s = some (a, b) ↔
    s = a ++ (pat ++ b) ∧ ∀ x y, a ++ pat = x ++ (pat ++ y) → y = [] := by
  have hself : ∀ x y, [] ++ pat = x ++ (pat ++ y) → y = [] := by
    intro x y h
    have := congrArg length h
    simp only [length_append, length_nil] at this
    exact length_eq_zero_iff.mp (by omega)
  induction s generalizing a b with
  | nil =>
    rw [splitOnce]
    constructor
    · intro h
      split_ifs at h with hp
      cases h
      exact ⟨by simp [isEmpty_iff.mp hp], hself⟩
    · rintro ⟨h, -⟩
      simp at h
      simp [h]
  | cons d ds ih =>
    rw [splitOnce]
    split
    next hp =>
      obtain ⟨t, ht⟩ := isPrefixOf_iff_prefix.mp hp
      rw [← ht, drop_left]
      constructor
      · rintro ⟨⟩
        exact ⟨rfl, hself⟩
      · rintro ⟨hab, hfirst⟩
        obtain ⟨y, hy⟩ : pat <+: a ++ pat := prefix_of_prefix_length_le (prefix_append pat t)
          ⟨b, by rw [append_assoc, ← hab]⟩ (by simp)
        obtain rfl := hfirst [] y hy.symm
        have ha : a = [] := by simpa using hy
        rw [ha] at hab ⊢
        rw [append_cancel_left hab]
    next hp =>
      replace hp : ¬ pat <+: _ := fun h => hp <| isPrefixOf_iff_prefix.mpr h
      simp only [map_eq_some_iff, Prod.exists, Prod.mk.injEq, ih]
      constructor
      · rintro ⟨a, b, ⟨rfl, hfirst⟩, rfl, rfl⟩
        refine ⟨rfl, fun x y h => ?_⟩
        cases x with
        | nil =>
          refine absurd ⟨y ++ b, ?_⟩ hp
          rw [← append_assoc, ← nil_append (pat ++ y), ← h]
          simp
        | cons e x => exact hfirst x y (cons.inj h).2
      · rintro ⟨h, hfirst⟩
        cases a with
        | nil => exact absurd ⟨b, h.symm⟩ hp
        | cons e a =>
          cases h
          exact ⟨a, b, ⟨rfl, fun x y h => hfirst (d :: x) y (congrArg (d :: ·) h)⟩, rfl, rfl⟩

theorem splitOnce_eq_some (h : splitOnce pat s = some (a, b)) : s = a ++ pat ++ b := by
  rw [append_assoc]
  exact (splitOnce_eq_some_iff.mp h).1

theorem infix_of_containsStr (h : containsStr pat s) : pat <:+: s := by
  obtain ⟨⟨a, b⟩, hab⟩ := isSome_iff_exists.mp h
  exact ⟨a, b, (splitOnce_eq_some hab).symm⟩

theorem containsStr_iff : containsStr pat s ↔ pat <:+: s := by
  rw [containsStr, isSome_iff_ne_none, ne_eq, splitOnce_eq_none_iff, not_not]

/-- Text added behind leaves the first occurrence where it is. -/
theorem splitOnce_append (h : splitOnce pat s = some (a, b)) (u : Str) :
    splitOnce pat (s ++ u) = some (a, b ++ u) := by
  rw [splitOnce_eq_some_iff] at h ⊢
  rw [h.1]
  exact ⟨by simp, h.2⟩

/-- A pattern without the character `c` that begins before a `c` also ends before it. -/
theorem prefix_of_prefix_append_cons {t : Str} (hc : c ∉ pat) (h : pat <+: s ++ c :: t) :
    pat <+: s := by
  rcases le_total pat.length s.length with hlen | hlen
  · exact prefix_of_prefix_length_le h (prefix_append s _) hlen
  · obtain ⟨r, rfl⟩ := prefix_of_prefix_length_le (prefix_append s _) h hlen
    cases r with
    | nil => simp
    | cons d ds =>
      rw [prefix_append_right_inj, cons_prefix_cons] at h
      simp [h.1] at hc

/-- When `pat` does not occur before a character it does not have, its first occurrence is the first
one behind that character. -/
theorem splitOnce_append_cons (hne : pat ≠ []) (hc : c ∉ pat) (hs : ¬ pat <:+: s) {t : Str} :
    splitOnce pat (s ++ c :: t) = (splitOnce pat t).map fun ab => (s ++ c :: ab.1, ab.2) := by
  induction s with
  | nil =>
    have hp : ¬ pat.isPrefixOf (c :: t) := by
      intro hp
      have hfront := isPrefixOf_iff_prefix.mp hp
      exact hne (prefix_nil.mp (prefix_of_prefix_append_cons hc hfront))
    rw [nil_append, splitOnce, if_neg hp]
    rfl
  | cons d ds ih =>
    rw [infix_cons_iff, not_or] at hs
    have hp : ¬ pat.isPrefixOf (d :: (ds ++ c :: t)) := by
      intro hp
      have hfront := isPrefixOf_iff_prefix.mp hp
      exact hs.1 (prefix_of_prefix_append_cons hc hfront)
    rw [cons_append, splitOnce, if_neg hp, ih hs.2, Option.map_map]
    rfl

/-- A pattern none of whose ends is one of its beginnings does not overlap itself: an occurrence
with none before it is the first one. -/
theorem splitOnce_append_self {q : Str} (hborder : ∀ k < pat.length, 0 < k → ¬ pat.drop k <+: pat)
    (hq : ¬ pat <:+: q) (b : Str) :
    splitOnce pat (q ++ (pat ++ b)) = some (q, b) := by
  refine splitOnce_eq_some_iff.mpr ⟨rfl, fun x y h => ?_⟩
  rw [← append_assoc] at h
  rcases append_eq_append_iff.mp h with ⟨z, hz, hpat⟩ | ⟨z, hz, -⟩
  · -- An earlier one ends inside this one, in an end of it that is one of its beginnings.
    by_contra hy
    have hlong := congrArg length hpat
    have hy := length_pos_iff.mpr hy
    rw [length_append] at hlong
    obtain ⟨w, hw⟩ : z <:+ pat :=
      suffix_of_suffix_length_le ⟨q, hz.symm⟩ (suffix_append x pat) (by omega)
    have hlength := congrArg length hw
    rw [length_append] at hlength
    rcases eq_or_ne z [] with rfl | hzne
    · exact hq ⟨x, [], by rw [hz, append_nil, append_nil]⟩
    · have := length_pos_iff.mpr hzne
      refine hborder w.length (by omega) (by omega) ?_
      rw [← hw, drop_left, hw]
      exact ⟨y, hpat.symm⟩
  · exact absurd ⟨x, z, hz.symm⟩ hq

/-- Pieces that a pattern stands between are what the text is split into, where no piece holds the
pattern and the pattern does not overlap itself. -/
theorem splitStr_append_flatMap {first : Str} {rest : List Str}
    (hborder : ∀ k < pat.length, 0 < k → ¬ pat.drop k <+: pat) (hne : pat ≠ [])
    (hfirst : ¬ pat <:+: first) (hrest : ∀ piece ∈ rest, ¬ pat <:+: piece) :
    splitStr pat (first ++ rest.flatMap (pat ++ ·)) = first :: rest := by
  have hgo : ∀ rounds, rest.length < rounds →
      splitStr.go pat rounds (first ++ rest.flatMap (pat ++ ·)) = first :: rest := by
    induction rest generalizing first with
    | nil =>
      intro rounds hrounds
      obtain ⟨rounds, rfl⟩ := exists_eq_succ_of_ne_zero (ne_of_gt hrounds)
      rw [flatMap_nil, append_nil, splitStr.go, splitOnce_eq_none_iff.mpr hfirst]
    | cons piece rest ih =>
      intro rounds hrounds
      obtain ⟨rounds, rfl⟩ := exists_eq_succ_of_ne_zero (ne_of_gt (zero_lt_of_lt hrounds))
      obtain ⟨hpiece, hrest⟩ := forall_mem_cons.mp hrest
      have hcut := splitOnce_append_self hborder hfirst (piece ++ rest.flatMap (pat ++ ·))
      rw [flatMap_cons, append_assoc, splitStr.go, hcut]
      dsimp only
      rw [ih hpiece hrest rounds (lt_of_succ_lt_succ hrounds)]
  have hlength : rest.length ≤ (rest.flatMap (pat ++ ·)).length := by
    have hpos := length_pos_iff.mpr hne
    clear hgo hrest
    induction rest with
    | nil => exact zero_le _
    | cons piece rest ih =>
      simp only [flatMap_cons, length_append, length_cons] at ih ⊢
      omega
  apply hgo
  rw [length_append]
  omega

/-- Nothing in front of the first occurrence is one. -/
theorem not_infix_of_splitOnce (hne : pat ≠ []) (h : splitOnce pat s = some (a, b)) :
    ¬ pat <:+: a := by
  rintro ⟨x, y, rfl⟩
  have hnil := (splitOnce_eq_some_iff.mp h).2 x (y ++ pat) (by simp)
  simp [hne] at hnil

theorem splitOnce_singleton : splitOnce [c] s = some (a, b) ↔ s = a ++ c :: b ∧ c ∉ a := by
  rw [splitOnce_eq_some_iff]
  refine and_congr_right fun _ => ⟨fun hfirst hmem => ?_, fun hmem x y h => ?_⟩
  · obtain ⟨x, y, rfl⟩ := append_of_mem hmem
    have hnil := hfirst x (y ++ [c]) (by simp)
    simp at hnil
  · rcases eq_nil_or_concat y with rfl | ⟨y, d, rfl⟩
    · rfl
    · refine absurd ?_ hmem
      rw [concat_eq_append, ← append_assoc, ← append_assoc] at h
      rw [(append_inj' h rfl).1]
      simp
/-- Texts are cut at the first occurrence of a character in one way. -/
theorem append_cons_inj {a' r' : Str} (ha : c ∉ a) (ha' : c ∉ a')
    (h : a ++ c :: r = a' ++ c :: r') : a = a' ∧ r = r' := by
  have hcut : splitOnce [c] (a ++ c :: r) = some (a, r) := splitOnce_singleton.mpr ⟨rfl, ha⟩
  rw [h, splitOnce_singleton.mpr ⟨rfl, ha'⟩] at hcut
  cases hcut
  exact ⟨rfl, rfl⟩

theorem rsplitOnce_append_cons (hb : c ∉ b) : rsplitOnce c (a ++ c :: b) = some (a, b) := by
  induction a with
  | nil => simp [rsplitOnce, rsplitOnce_eq_none_iff.mpr hb]
  | cons d ds ih => simp [rsplitOnce, ih]

theorem rsplitOnce_eq_some_iff : rsplitOnce c s = some (a, b) ↔ s = a ++ c :: b ∧ c ∉ b := by
  constructor
  · intro h
    induction s generalizing a with
    | nil => cases h
    | cons d ds ih =>
      rw [rsplitOnce] at h
      cases hr : rsplitOnce c ds with
      | some ab =>
        rw [hr] at h
        cases h
        obtain ⟨hds, hb⟩ := ih hr
        exact ⟨by rw [hds]; rfl, hb⟩
      | none =>
        simp only [hr, ite_none_right_eq_some] at h
        obtain ⟨rfl, rfl, rfl⟩ := h
        exact ⟨rfl, rsplitOnce_eq_none_iff.mp hr⟩
  · rintro ⟨rfl, hb⟩
    exact rsplitOnce_append_cons hb

/-! ### Texts cut at a character -/

/-- Every text is built from its last piece by putting pieces in front. -/
theorem cutInduction {motive : Str → Prop} (last : ∀ s, c ∉ s → motive s)
    (step : ∀ s t, c ∉ s → motive t → motive (s ++ c :: t)) (text : Str) : motive text := by
  induction hn : text.length using Nat.strong_induction_on generalizing text with
  | _ n ih =>
    by_cases hc : c ∈ text
    · obtain ⟨s, t, rfl, hs⟩ := eq_append_cons_of_mem hc
      refine step s t hs (ih t.length ?_ t rfl)
      rw [← hn, length_append, length_cons]
      omega
    · exact last text hc

theorem splitOn_of_notMem (hs : c ∉ s) : splitOn (· == c) s = [s] := by
  induction s with
  | nil => rfl
  | cons d ds ih =>
    rw [mem_cons, not_or] at hs
    simp [splitOn, Ne.symm hs.1, ih hs.2]

theorem splitOn_append_cons (hs : c ∉ s) (t : Str) :
    splitOn (· == c) (s ++ c :: t) = s :: splitOn (· == c) t := by
  induction s with
  | nil => simp [splitOn]
  | cons d ds ih =>
    rw [mem_cons, not_or] at hs
    simp [splitOn, Ne.symm hs.1, ih hs.2]

/-- Trimming a text that is then cut into pieces trims its first and its last piece. -/
theorem map_trimMatches_splitOn (hc : p c = false) (s : Str) :
    (splitOn (· == c) (trimMatches p s)).map (trimMatches p) =
      (splitOn (· == c) s).map (trimMatches p) := by
  obtain ⟨pre, post, hs, hpre, hpost⟩ := exists_trimMatches p s
  have hkept : ∀ {u : Str}, (∀ d ∈ u, p d) → c ∉ u := by
    intro u hu hmem
    rw [hu c hmem] at hc
    cases hc
  have hfront : ∀ t, (splitOn (· == c) (pre ++ t)).map (trimMatches p) =
      (splitOn (· == c) t).map (trimMatches p) := by
    intro t
    induction t using cutInduction (c := c) with
    | last t ht =>
      rw [splitOn_of_notMem (by simp [hkept hpre, ht]), splitOn_of_notMem ht]
      simp [trimMatches_append_left hpre]
    | step t rest ht _ =>
      rw [← append_assoc, splitOn_append_cons (by simp [hkept hpre, ht]), splitOn_append_cons ht]
      simp [trimMatches_append_left hpre]
  have hback : ∀ t, (splitOn (· == c) (t ++ post)).map (trimMatches p) =
      (splitOn (· == c) t).map (trimMatches p) := by
    intro t
    induction t using cutInduction (c := c) with
    | last t ht =>
      rw [splitOn_of_notMem (by simp [hkept hpost, ht]), splitOn_of_notMem ht]
      simp [trimMatches_append_right hpost]
    | step t rest ht ih =>
      rw [append_assoc, cons_append, splitOn_append_cons ht, splitOn_append_cons ht]
      simp [ih]
  conv_rhs => rw [hs]
  rw [hback, hfront]

theorem intercalate_splitOn (c : Char) (s : Str) : [c].intercalate (splitOn (· == c) s) = s := by
  induction s using cutInduction (c := c) with
  | last s hs => simp [splitOn_of_notMem hs]
  | step s t hs ih =>
    rw [splitOn_append_cons hs]
    cases h : splitOn (· == c) t with
    | nil => exact absurd h splitOn_ne_nil
    | cons w ws =>
      rw [h] at ih
      rw [← ih]
      simp

theorem notMem_and_subset_of_mem_splitOn {text piece} (h : piece ∈ splitOn (· == c) text) :
    c ∉ piece ∧ piece ⊆ text := by
  induction text using cutInduction with
  | last s hs =>
    rw [splitOn_of_notMem hs, mem_singleton] at h
    subst h
    exact ⟨hs, Subset.refl piece⟩
  | step s t hs ih =>
    rw [splitOn_append_cons hs, mem_cons] at h
    rcases h with rfl | h
    · exact ⟨hs, subset_append_left piece _⟩
    · exact (ih h).imp_right fun h => subset_append_of_subset_right s (subset_cons_of_subset c h)

/-- What holds of the characters of a separator and of the pieces holds of what they make up. -/
theorem forall_mem_intercalate {P : Char → Prop} {sep : Str} {pieces : List Str}
    (hsep : ∀ c ∈ sep, P c) (hpieces : ∀ piece ∈ pieces, ∀ c ∈ piece, P c) :
    ∀ c ∈ sep.intercalate pieces, P c := by
  induction pieces with
  | nil => nofun
  | cons piece pieces ih =>
    rw [forall_mem_cons] at hpieces
    cases pieces with
    | nil => simpa using hpieces.1
    | cons next pieces =>
      have hrest := ih hpieces.2
      exact forall_mem_append.mpr ⟨hpieces.1, forall_mem_append.mpr ⟨hsep, hrest⟩⟩

end RsProxy.Text
