import RsProxy.Regex.Fragment

/-!
# Glob patterns

A glob is a text in which `*` stands for any run of characters without the separator, `**` for any
run of characters and a backslash for the character after it. Wildcards are non-greedy: the first
one takes as little as it can, then the second one, and so on.

`Splits` says what a match is, `find` computes the non-greedy one, and `items` translates a glob
into an anchored lazy regular expression that finds the same texts for its first few wildcards.
Reading a pattern fails only for a backslash at its end that escapes nothing.
-/

namespace RsProxy.Regex.Glob

open Text List Option

inductive Token where
  | lit (c : Char)
  | star
  | dstar
  deriving DecidableEq, Repr

/-- Read a pattern; a backslash at its end escapes nothing and is rejected. -/
def tokens : Str → Option (List Token)
  | [] => some []
  | c :: cs =>
    if c = '\\' then
      match cs with
      | [] => none
      | d :: ds => (tokens ds).map (.lit d :: ·)
    else if c = '*' then
      match cs with
      | [] => some [.star]
      | d :: ds =>
        if d = '*' then (tokens ds).map (.dstar :: ·) else (tokens (d :: ds)).map (.star :: ·)
    else (tokens cs).map (.lit c :: ·)

theorem tokens_escape {d} {ds : Str} :
    tokens ('\\' :: d :: ds) = (tokens ds).map (.lit d :: ·) := by
  rfl

theorem tokens_star {d} (hd : d ≠ '*') {ds : Str} :
    tokens ('*' :: d :: ds) = (tokens (d :: ds)).map (.star :: ·) := by
  rw [tokens.eq_def]
  simp [hd]

variable {c : Char}

theorem tokens_lit (hescape : c ≠ '\\') (hstar : c ≠ '*') {cs : Str} :
    tokens (c :: cs) = (tokens cs).map (.lit c :: ·) := by
  rw [tokens.eq_def]
  simp [hescape, hstar]

/-! ### Patterns that cannot be read -/

/-- The length of the run of backslashes a pattern ends in. -/
def trailingEscapes (pattern : Str) : Nat := (pattern.reverse.takeWhile (· == '\\')).length

/-- The pattern ends in a backslash that no backslash in front of it escapes. -/
def DanglingEscape (pattern : Str) : Prop := trailingEscapes pattern % 2 = 1

instance (pattern : Str) : Decidable (DanglingEscape pattern) :=
  inferInstanceAs (Decidable (trailingEscapes pattern % 2 = 1))

theorem trailingEscapes_le (pattern : Str) : trailingEscapes pattern ≤ pattern.length := by
  have h : pattern.reverse.takeWhile (· == '\\') <+: pattern.reverse := takeWhile_prefix _
  rw [← pattern.length_reverse]
  exact h.length_le

theorem trailingEscapes_cons (c : Char) (cs : Str) :
    trailingEscapes (c :: cs) =
      if trailingEscapes cs = cs.length ∧ c = '\\' then cs.length + 1 else trailingEscapes cs := by
  unfold trailingEscapes
  rw [reverse_cons, takeWhile_append]
  by_cases hall : (cs.reverse.takeWhile (· == '\\')).length = cs.length
  · by_cases hc : c = '\\' <;> simp [hall, hc]
  · simp [hall]

theorem danglingEscape_cons (hc : c ≠ '\\') (cs : Str) :
    DanglingEscape (c :: cs) ↔ DanglingEscape cs := by
  unfold DanglingEscape
  rw [trailingEscapes_cons, if_neg (fun h => hc h.2)]

/-- An escape pair at the front changes nothing: the run it may belong to is longer by two. -/
theorem danglingEscape_escape (d : Char) (ds : Str) :
    DanglingEscape ('\\' :: d :: ds) ↔ DanglingEscape ds := by
  unfold DanglingEscape
  have hle := trailingEscapes_le ds
  simp only [trailingEscapes_cons, length_cons, and_true]
  by_cases hds : trailingEscapes ds = ds.length ∧ d = '\\'
  · rw [if_pos hds, if_pos rfl]
    omega
  · rw [if_neg hds, if_neg (by omega)]

variable {pattern : Str}

theorem tokens_eq_none_iff : tokens pattern = none ↔ DanglingEscape pattern := by
  fun_induction tokens pattern with
  | case1 | case2 | case4 => decide
  | case3 d ds ih => rw [map_eq_none_iff, ih, danglingEscape_escape]
  | case5 ds _ ih =>
    rw [map_eq_none_iff, ih, danglingEscape_cons (by decide), danglingEscape_cons (by decide)]
  | case6 d ds _ _ ih => rw [map_eq_none_iff, ih, danglingEscape_cons (c := '*') (by decide)]
  | case7 c cs hescape _ ih => rw [map_eq_none_iff, ih, danglingEscape_cons hescape]

/-! ### Matches -/

/-- The text is the pattern with its wildcards replaced by the given pieces. -/
inductive Splits (sep : Char) : List Token → Str → List Str → Prop where
  | nil : Splits sep [] [] []
  | lit {c ts s ws} : Splits sep ts s ws → Splits sep (.lit c :: ts) (c :: s) ws
  | star {w ts s ws} : (∀ c ∈ w, c ≠ sep) → Splits sep ts s ws →
      Splits sep (.star :: ts) (w ++ s) (w :: ws)
  | dstar {w ts s ws} : Splits sep ts s ws → Splits sep (.dstar :: ts) (w ++ s) (w :: ws)

/-- The pieces of the non-greedy match. -/
def find (sep : Char) : List Token → Str → Option (List Str)
  | [], s => if s.isEmpty then some [] else none
  | .lit c :: ts, s =>
    match s with
    | d :: ds => if c = d then find sep ts ds else none
    | [] => none
  | .star :: ts, s =>
    (lazyScan (admits (some sep)) (find sep ts) s).map fun r => r.1 :: r.2
  | .dstar :: ts, s =>
    (lazyScan (admits none) (find sep ts) s).map fun r => r.1 :: r.2

variable {sep : Char}

theorem admits_some : admits (some sep) c ↔ c ≠ sep := by
  simp only [admits, bne_iff_ne, ne_eq, some.injEq]
  exact not_congr eq_comm

/-! ### The regular expression of a glob -/

/-- The items of a glob whose first `budget` wildcards are capturing groups. -/
def items (sep : Char) : Nat → List Token → List Item
  | _, [] => []
  | budget, .lit c :: ts => .chr c :: items sep budget ts
  | budget, .star :: ts => .lazy (0 < budget) (some sep) :: items sep (budget - 1) ts
  | budget, .dstar :: ts => .lazy (0 < budget) none :: items sep (budget - 1) ts

private theorem wildcard_take (budget : Nat) (w : Str) (ws : List Str) :
    (if decide (0 < budget) then w :: ws.take (budget - 1) else ws.take (budget - 1)) =
      (w :: ws).take budget := by
  cases budget <;> simp

/-- The expression matches what the glob matches, and its groups hold the first pieces. -/
theorem run_items (sep : Char) (budget : Nat) (ts : List Token) (s : Str) :
    run (items sep budget ts) s = (find sep ts s).map (·.take budget) := by
  induction ts generalizing budget s with
  | nil =>
    simp only [items, run, find]
    split <;> simp
  | cons t ts ih =>
    -- Both sides scan the same way; only the continuation differs, by the induction hypothesis.
    have hscan : ∀ p, lazyScan p (run (items sep (budget - 1) ts)) s =
        (lazyScan p (find sep ts) s).map fun r => (r.1, r.2.take (budget - 1)) := by
      intro p
      rw [← lazyScan_map]
      rw [funext (ih (budget - 1))]
    cases t with
    | lit c =>
      cases s with
      | nil => rfl
      | cons d ds =>
        simp only [items, run, find]
        split
        · exact ih budget ds
        · rfl
    | star | dstar =>
      simp only [items, run, find, hscan, Option.map_map]
      congr 1
      funext r
      exact wildcard_take budget r.1 r.2

/-! ### What is found -/

variable {p : Char → Bool} {s : Str} {w : Str}

private theorem lazyScan_some {α : Type} {k : Str → Option α} {a : α}
    (h : lazyScan p k s = some (w, a)) :
    ∃ rest, s = w ++ rest ∧ (∀ c ∈ w, p c) ∧ k rest = some a := by
  induction s generalizing w with
  | nil =>
    simp only [lazyScan, map_eq_some_iff] at h
    obtain ⟨b, hb, rfl, rfl⟩ := h
    exact ⟨[], rfl, by simp, hb⟩
  | cons c cs ih =>
    simp only [lazyScan] at h
    split at h
    next b hb =>
      cases h
      exact ⟨c :: cs, rfl, by simp, hb⟩
    next hk =>
      split_ifs at h with hp
      simp only [map_eq_some_iff] at h
      obtain ⟨⟨w', b⟩, hr, rfl, rfl⟩ := h
      obtain ⟨rest, rfl, hw, hb⟩ := ih hr
      exact ⟨rest, rfl, by simpa using ⟨hp, hw⟩, hb⟩

variable {rest : Str}

private theorem lazyScan_isSome {α : Type} {k : Str → Option α} (hw : ∀ c ∈ w, p c)
    (hk : (k rest).isSome) : (lazyScan p k (w ++ rest)).isSome := by
  induction w with
  | nil =>
    obtain ⟨a, ha⟩ := isSome_iff_exists.mp hk
    cases rest with
    | nil | cons => simp [lazyScan, ha]
  | cons c w ih =>
    have hc : p c := hw c (by simp)
    have hrec := ih fun d hd => hw d (by simp [hd])
    simp only [cons_append, lazyScan]
    split
    · rfl
    · simpa [hc] using hrec

variable {ts : List Token} {ws : List Str}

/-- What `find` returns is a match. -/
theorem splits_of_find (h : find sep ts s = some ws) : Splits sep ts s ws := by
  induction ts generalizing s ws with
  | nil =>
    simp only [find] at h
    split_ifs at h with hs
    cases h
    rw [isEmpty_iff.mp hs]
    exact .nil
  | cons t ts ih =>
    cases t with
    | lit c =>
      cases s with
      | nil => cases h
      | cons d ds =>
        simp only [find] at h
        split_ifs at h with hc
        subst hc; exact .lit (ih h)
    | star | dstar =>
      simp only [find, map_eq_some_iff] at h
      obtain ⟨⟨w, ws'⟩, hr, rfl⟩ := h
      obtain ⟨rest, rfl, hw, hk⟩ := lazyScan_some hr
      first
      | exact .star (fun c hc => admits_some.mp (hw c hc)) (ih hk)
      | exact .dstar (ih hk)

/-- Where there is a match, `find` returns one. -/
theorem find_isSome_of_splits (h : Splits sep ts s ws) : (find sep ts s).isSome := by
  induction h with
  | nil => rfl
  | lit _ ih => simpa [find] using ih
  | star hw _ ih =>
    simp only [find, isSome_map]
    exact lazyScan_isSome (fun c hc => admits_some.mpr (hw c hc)) ih
  | dstar _ ih =>
    simp only [find, isSome_map]
    exact lazyScan_isSome (fun c _ => by simp [admits]) ih

theorem find_isSome_iff : (find sep ts s).isSome ↔ ∃ ws, Splits sep ts s ws := by
  constructor
  · intro h
    obtain ⟨ws, hws⟩ := isSome_iff_exists.mp h
    exact ⟨ws, splits_of_find hws⟩
  · rintro ⟨ws, h⟩
    exact find_isSome_of_splits h

/-! ### The match that is found -/

/-- The part in front is the shortest after which the continuation succeeds. -/
private theorem lazyScan_shortest {α : Type} {k : Str → Option α} {a : α}
    (h : lazyScan p k s = some (w, a)) {v : Str} (hs : s = v ++ rest) (hk : (k rest).isSome) :
    w.length ≤ v.length := by
  induction s generalizing w v with
  | nil =>
    simp only [lazyScan, map_eq_some_iff] at h
    obtain ⟨b, hb, rfl, rfl⟩ := h
    exact Nat.zero_le _
  | cons c cs ih =>
    simp only [lazyScan] at h
    split at h
    next b hb =>
      cases h
      exact Nat.zero_le _
    next hnone =>
      split_ifs at h with hp
      simp only [map_eq_some_iff] at h
      obtain ⟨⟨w', b⟩, hr, rfl, rfl⟩ := h
      cases v with
      | nil =>
        -- Nothing in front: the scan has already tried to stop here.
        obtain rfl : c :: cs = rest := hs
        rw [hnone] at hk
        cases hk
      | cons d v => exact Nat.succ_le_succ (ih hr (cons.inj hs).2)

/-- The first texts are the shorter ones: at the first place where the lengths differ. -/
def NoLonger : List Str → List Str → Prop
  | [], _ => True
  | _ :: _, [] => False
  | w :: ws, v :: vs => w.length < v.length ∨ w.length = v.length ∧ NoLonger ws vs

variable {vs : List Str}

/-- What a wildcard takes is the least it can, and then the rest is matched in the same way. -/
private theorem noLonger_of_lazyScan (h : lazyScan p (find sep ts) s = some (w, ws))
    (ih : ∀ {s ws vs}, find sep ts s = some ws → Splits sep ts s vs → NoLonger ws vs) {v : Str}
    (hs : s = v ++ rest) (hv : Splits sep ts rest vs) :
    NoLonger (w :: ws) (v :: vs) := by
  have hle := lazyScan_shortest h hs (find_isSome_of_splits hv)
  obtain ⟨tail, rfl, -, htail⟩ := lazyScan_some h
  rcases Nat.lt_or_eq_of_le hle with hlt | heq
  · exact .inl hlt
  · obtain ⟨rfl, rfl⟩ := append_inj hs heq
    exact .inr ⟨heq, ih htail hv⟩

/-- Among all matches the one that is found has the shortest first piece, of those the shortest
second one, and so on. -/
theorem noLonger_of_find (h : find sep ts s = some ws) (hv : Splits sep ts s vs) :
    NoLonger ws vs := by
  induction ts generalizing s ws vs with
  | nil =>
    cases hv
    cases h
    trivial
  | cons t ts ih =>
    cases hv with
    | @lit c _ s _ hv =>
      simp only [find] at h
      exact ih h hv
    | star _ hv | dstar hv =>
      simp only [find, map_eq_some_iff] at h
      obtain ⟨⟨w, ws⟩, hscan, rfl⟩ := h
      exact noLonger_of_lazyScan hscan ih rfl hv

/-! ### Globs that match every text -/

def Token.isWild : Token → Bool
  | .lit _ => false
  | .star | .dstar => true

/-- A wildcard may stand for nothing. -/
theorem Splits.skip {t} (ht : t.isWild) (h : Splits sep ts s ws) :
    Splits sep (t :: ts) s ([] :: ws) := by
  cases t with
  | lit c => exact absurd ht Bool.false_ne_true
  | star => exact Splits.star (w := []) (by simp) h
  | dstar => exact Splits.dstar (w := []) h

theorem exists_splits_nil (h : ∀ t ∈ ts, t.isWild) : ∃ ws, Splits sep ts [] ws := by
  induction ts with
  | nil => exact ⟨[], .nil⟩
  | cons t ts ih =>
    rw [forall_mem_cons] at h
    obtain ⟨ws, hws⟩ := ih h.2
    exact ⟨[] :: ws, hws.skip h.1⟩

theorem exists_splits_of_wild (h : ∀ t ∈ ts, t.isWild) (hdstar : Token.dstar ∈ ts) :
    ∃ ws, Splits sep ts s ws := by
  induction ts with
  | nil => cases hdstar
  | cons t ts ih =>
    rw [forall_mem_cons] at h
    cases t with
    | lit c => exact absurd h.1 Bool.false_ne_true
    | star =>
      obtain ⟨ws, hws⟩ := ih h.2 ((mem_cons.mp hdstar).resolve_left nofun)
      exact ⟨[] :: ws, hws.skip rfl⟩
    | dstar =>
      -- The double wildcard takes everything.
      obtain ⟨ws, hws⟩ := exists_splits_nil h.2
      refine ⟨s :: ws, ?_⟩
      have := Splits.dstar (w := s) hws
      rwa [append_nil] at this

theorem isWild_of_splits_nil (h : Splits sep ts s ws) (hs : s = []) : ∀ t ∈ ts, t.isWild := by
  induction h with
  | nil => nofun
  | lit _ _ => cases hs
  | star _ _ ih | dstar _ ih => exact forall_mem_cons.mpr ⟨rfl, ih (append_eq_nil_iff.mp hs).2⟩

theorem not_mem_of_splits (h : Splits sep ts s ws) (hwild : ∀ t ∈ ts, t.isWild)
    (hdstar : Token.dstar ∉ ts) :
    sep ∉ s := by
  induction h with
  | nil => nofun
  | lit _ _ => exact absurd (hwild _ mem_cons_self) Bool.false_ne_true
  | star hw _ ih =>
    rw [mem_append]
    rintro (hmem | hmem)
    · exact hw sep hmem rfl
    · exact ih (forall_mem_cons.mp hwild).2 (fun h => hdstar (mem_cons_of_mem _ h)) hmem
  | dstar _ _ => exact absurd mem_cons_self hdstar

/-- A glob finds every text exactly when it has no literals and a double wildcard. -/
theorem find_all_iff : (∀ s, (find sep ts s).isSome) ↔ (∀ t ∈ ts, t.isWild) ∧ Token.dstar ∈ ts := by
  constructor
  · intro h
    obtain ⟨ws, hws⟩ := find_isSome_iff.mp (h [])
    have hwild := isWild_of_splits_nil hws rfl
    refine ⟨hwild, ?_⟩
    by_contra hdstar
    obtain ⟨ws, hws⟩ := find_isSome_iff.mp (h [sep])
    exact not_mem_of_splits hws hwild hdstar (mem_singleton_self sep)
  · rintro ⟨hwild, hdstar⟩ s
    exact find_isSome_iff.mpr (exists_splits_of_wild hwild hdstar)

theorem isWild_iff_of_tokens (h : tokens pattern = some ts) :
    (∀ t ∈ ts, t.isWild) ↔ ∀ c ∈ pattern, c = '*' := by
  fun_induction tokens pattern generalizing ts with
  | case1 =>
    cases h
    simp
  | case2 => cases h
  | case3 d ds ih =>
    obtain ⟨ts, hts, rfl⟩ := map_eq_some_iff.mp h
    simp [Token.isWild]
  | case4 =>
    cases h
    simp [Token.isWild]
  | case5 ds _ ih | case6 d ds _ _ ih =>
    obtain ⟨ts, hts, rfl⟩ := map_eq_some_iff.mp h
    rw [forall_mem_cons, ih hts]
    simp [Token.isWild]
  | case7 c cs _ hstar ih =>
    obtain ⟨ts, hts, rfl⟩ := map_eq_some_iff.mp h
    simp [Token.isWild, hstar]

/-- These are the runs of two or more asterisks. -/
theorem find_all_iff_of_tokens (h : tokens pattern = some ts) :
    (∀ s, (find sep ts s).isSome) ↔ (∀ c ∈ pattern, c = '*') ∧ 2 ≤ pattern.length := by
  rw [find_all_iff, isWild_iff_of_tokens h]
  refine and_congr_right fun hstars => ?_
  match pattern, h with
  | [], h =>
    cases h
    simp
  | [c], h =>
    obtain rfl : c = '*' := hstars c mem_cons_self
    cases h
    simp
  | c :: d :: ds, h =>
    obtain rfl : c = '*' := hstars c mem_cons_self
    obtain rfl : d = '*' := hstars d (by simp)
    obtain ⟨ts, hts, rfl⟩ := map_eq_some_iff.mp h
    simp

end RsProxy.Regex.Glob
