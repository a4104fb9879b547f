import RsProxy.Text.Lemmas

/-!
# Redaction of proxy credentials

`redactSecrets` looks for `socks5://` and `socks://` and replaces the credentials behind them. Each
scan goes from one `@` to the next, so it rewrites the pieces between them one by one.
-/

namespace RsProxy.Rules

open Text List

/-! ### The scan -/

def endsAuthority (c : Char) : Bool := isWhitespace c || c == ')' || c == ',' || c == ']'

/-- The scan for one scheme: `done` is the text before the place the search goes on from and `rest`
the text behind it. -/
def redactScheme (scheme : Str) : (fuel : Nat) → (done rest : Str) → Str
  | 0, done, rest => done ++ rest
  | fuel + 1, done, rest =>
    match splitOnce scheme rest with
    | none => done ++ rest
    | some (before, authority) =>
      match splitOnce ['@'] authority with
      | none => done ++ rest
      | some (credentials, behind) =>
        -- Without such a character the authority ends with the text.
        let authorityEnd := authority.findIdx endsAuthority
        if credentials.length < authorityEnd && credentials.contains ':'
            && !credentials.contains '/' then
          redactScheme scheme fuel (done ++ before ++ scheme ++ "auth@".toList) behind
        else
          redactScheme scheme fuel (done ++ before ++ scheme ++ credentials ++ ['@']) behind

/-- Every round of a scan leaves less text behind it, so the length of the text bounds the
rounds. -/
def redactSecrets (input : Str) : Str :=
  ["socks5://".toList, "socks://".toList].foldl
    (fun out scheme => redactScheme scheme (out.length + 1) [] out) input

/-! ### The scan piece by piece -/

/-- A character that keeps the credentials it stands in from being redacted. -/
def breaksCredentials (c : Char) : Bool := endsAuthority c || c == '/' || c == '@'

/-- What a scan makes of the text between two `@`. -/
def redactSegment (scheme seg : Str) : Str :=
  match splitOnce scheme seg with
  | none => seg
  | some (before, credentials) =>
    if credentials.contains ':' && !credentials.any breaksCredentials then
      before ++ scheme ++ "auth".toList
    else seg

/-- Every piece that an `@` ends is redacted and the last one stays. -/
def redactSegments (scheme : Str) : List Str → Str
  | [] => []
  | [seg] => seg
  | seg :: segs => redactSegment scheme seg ++ '@' :: redactSegments scheme segs

/-- The result of one whole scan. -/
def redactPass (scheme text : Str) : Str := redactSegments scheme (splitOn (· == '@') text)

variable {s : Str}

theorem redactPass_of_notMem {scheme} (hs : '@' ∉ s) : redactPass scheme s = s := by
  rw [redactPass, splitOn_of_notMem hs]
  rfl

theorem redactPass_append_cons {scheme} (hs : '@' ∉ s) {t : Str} :
    redactPass scheme (s ++ '@' :: t) = redactSegment scheme s ++ '@' :: redactPass scheme t := by
  rw [redactPass, splitOn_append_cons hs, redactPass]
  cases h : splitOn (· == '@') t with
  | nil => exact absurd h splitOn_ne_nil
  | cons seg segs => rfl

variable {credentials : Str}

/-- The end of the authority lies behind the `@` when no character before the `@` ends it. -/
theorem length_lt_findIdx_iff {behind : Str} :
    credentials.length < (credentials ++ '@' :: behind).findIdx endsAuthority ↔
      credentials.any endsAuthority = false := by
  rw [findIdx_append]
  by_cases h : credentials.any endsAuthority
  · have hlt : credentials.findIdx endsAuthority < credentials.length := by
      simpa using h
    rw [if_pos hlt, h]
    simp only [Bool.true_eq_false, iff_false]
    omega
  · have hge : ¬ credentials.findIdx endsAuthority < credentials.length := by
      simpa using h
    have hat : endsAuthority '@' = false := by decide
    rw [if_neg hge, findIdx_cons, hat]
    simp only [cond_false, Bool.not_eq_true] at h ⊢
    exact ⟨fun _ => h, fun _ => by omega⟩

/-- The test of the scan, on credentials that end at their first `@`. -/
theorem redactable_iff (hat : '@' ∉ credentials) {behind : Str} :
    (credentials.length < (credentials ++ '@' :: behind).findIdx endsAuthority &&
      credentials.contains ':' && !credentials.contains '/') =
    (credentials.contains ':' && !credentials.any breaksCredentials) := by
  have hany : credentials.any breaksCredentials =
      (credentials.any endsAuthority || credentials.contains '/') := by
    rw [Bool.eq_iff_iff]
    simp only [any_eq_true, breaksCredentials, Bool.or_eq_true, beq_iff_eq, contains_iff_mem]
    constructor
    · rintro ⟨c, hc, (h | rfl) | rfl⟩
      · exact .inl ⟨c, hc, h⟩
      · exact .inr hc
      · exact absurd hc hat
    · rintro (⟨c, hc, h⟩ | h)
      · exact ⟨c, hc, .inl (.inl h)⟩
      · exact ⟨'/', h, .inl (.inr rfl)⟩
  have hlt : decide (credentials.length < (credentials ++ '@' :: behind).findIdx endsAuthority) =
      !credentials.any endsAuthority := by
    rw [Bool.eq_iff_iff, decide_eq_true_iff, length_lt_findIdx_iff, Bool.not_eq_true']
  rw [hlt, hany, Bool.not_or, Bool.and_comm (!credentials.any endsAuthority), Bool.and_assoc]

variable {fuel : Nat}

theorem redactScheme_last {scheme done} (hs : '@' ∉ s) :
    redactScheme scheme fuel done s = done ++ s := by
  cases fuel with
  | zero => rfl
  | succ fuel =>
    rw [redactScheme]
    cases hsplit : splitOnce scheme s with
    | none => rfl
    | some ab =>
      have hb : splitOnce ['@'] ab.2 = none := by
        rw [splitOnce_eq_none_iff, singleton_infix_iff]
        intro hb
        apply hs
        rw [splitOnce_eq_some hsplit]
        simp [hb]
      simp [hb]

section Scan

variable {scheme : Str} (hne : scheme ≠ []) (hat : '@' ∉ scheme)
include hne hat

/-- A round of the scan, or none, takes it past the next `@`. -/
theorem redactScheme_segment {t : Str} (hs : '@' ∉ s) (hfuel : (s ++ '@' :: t).length < fuel)
    {done} :
    ∃ fuel', t.length < fuel' ∧ redactScheme scheme fuel done (s ++ '@' :: t) =
      redactScheme scheme fuel' (done ++ redactSegment scheme s ++ ['@']) t := by
  rw [length_append, length_cons] at hfuel
  cases fuel with
  | zero => omega
  | succ fuel =>
    cases hsplit : splitOnce scheme s with
    | none =>
      -- The search runs over this `@`: the same round belongs to the rest of the text.
      refine ⟨fuel + 1, by omega, ?_⟩
      have hseg : redactSegment scheme s = s := by rw [redactSegment, hsplit]
      rw [redactScheme, redactScheme, hseg,
        splitOnce_append_cons hne hat (splitOnce_eq_none_iff.mp hsplit)]
      cases splitOnce scheme t with
      | none => simp
      | some ab =>
        obtain ⟨a, b⟩ := ab
        simp only [Option.map_some]
        cases splitOnce ['@'] b with
        | none | some => simp
    | some ab =>
      obtain ⟨a, b⟩ := ab
      have hb : '@' ∉ b := by
        rw [splitOnce_eq_some hsplit] at hs
        simp only [mem_append, not_or] at hs
        exact hs.2
      refine ⟨fuel, by omega, ?_⟩
      rw [redactScheme, splitOnce_append hsplit, redactSegment, hsplit]
      simp only [splitOnce_singleton.mpr ⟨rfl, hb⟩, redactable_iff hb]
      split
      · simp
      · rw [splitOnce_eq_some hsplit]
        simp

theorem redactScheme_eq {text done} (hfuel : text.length < fuel) :
    redactScheme scheme fuel done text = done ++ redactPass scheme text := by
  induction text using cutInduction generalizing done fuel with
  | last s hs => rw [redactScheme_last hs, redactPass_of_notMem hs]
  | step s t hs ih =>
    obtain ⟨fuel', hlt, heq⟩ := redactScheme_segment hne hat hs hfuel
    rw [heq, ih hlt, redactPass_append_cons hs]
    simp

end Scan

theorem redactSecrets_eq {input} :
    redactSecrets input = redactPass "socks://" (redactPass "socks5://" input) := by
  simp only [redactSecrets, foldl_cons]
  rw [redactScheme_eq (by decide) (by decide) (Nat.lt_succ_self _),
    redactScheme_eq (by decide) (by decide) (Nat.lt_succ_self _)]
  rfl

/-! ### What a scan keeps -/

theorem redactSegment_filter (scheme seg : Str) :
    (redactSegment scheme seg).filter breaksCredentials = seg.filter breaksCredentials := by
  rw [redactSegment]
  cases hsplit : splitOnce scheme seg with
  | none => rfl
  | some ab =>
    obtain ⟨a, b⟩ := ab
    dsimp only
    split
    next h =>
      have hb : b.filter breaksCredentials = [] := by
        simpa using (Bool.and_eq_true_iff.mp h).2
      have hauth : "auth".toList.filter breaksCredentials = [] := by decide
      rw [splitOnce_eq_some hsplit]
      simp only [filter_append, hb, hauth]
    · rfl

theorem redactSegment_notMem {scheme seg} (hseg : '@' ∉ seg) : '@' ∉ redactSegment scheme seg := by
  have h := redactSegment_filter scheme seg
  intro hmem
  have hat : '@' ∈ (redactSegment scheme seg).filter breaksCredentials :=
    mem_filter.mpr ⟨hmem, by decide⟩
  rw [h, mem_filter] at hat
  exact hseg hat.1

theorem redactPass_filter {scheme text} :
    (redactPass scheme text).filter breaksCredentials = text.filter breaksCredentials := by
  induction text using cutInduction with
  | last s hs => rw [redactPass_of_notMem hs]
  | step s t hs ih =>
    rw [redactPass_append_cons hs, filter_append, filter_append, filter_cons,
      filter_cons, redactSegment_filter, ih]

/-- The characters that keep credentials from being redacted survive, in their order. -/
theorem redactSecrets_filter {text} :
    (redactSecrets text).filter breaksCredentials = text.filter breaksCredentials := by
  rw [redactSecrets_eq, redactPass_filter, redactPass_filter]

/-! ### One piece of a text -/

/-- A text that is empty or that an `@` ends. -/
def EndsCut (head : Str) : Prop := head = [] ∨ ∃ x, head = x ++ ['@']

theorem redactPass_append {head} (hhead : EndsCut head) {scheme} :
    ∃ head', EndsCut head' ∧ ∀ y, redactPass scheme (head ++ y) = head' ++ redactPass scheme y := by
  rcases hhead with rfl | ⟨x, rfl⟩
  · exact ⟨[], .inl rfl, fun _ => rfl⟩
  · induction x using cutInduction with
    | last s hs =>
      refine ⟨redactSegment scheme s ++ ['@'], .inr ⟨_, rfl⟩, fun y => ?_⟩
      simp [redactPass_append_cons hs]
    | step s t hs ih =>
      obtain ⟨head', hcut, h⟩ := ih
      refine ⟨redactSegment scheme s ++ '@' :: head', .inr ?_, fun y => ?_⟩
      · rcases hcut with rfl | ⟨x', rfl⟩
        · exact ⟨_, rfl⟩
        · exact ⟨redactSegment scheme s ++ '@' :: x', by simp⟩
      · have := h y
        simp only [append_assoc, cons_append] at this ⊢
        rw [redactPass_append_cons hs, this]

/-- A piece between two `@` is rewritten by itself, and so is the text around it. -/
theorem redactSecrets_segment {head} (hhead : EndsCut head) {tail : Str} :
    ∃ head' tail', ∀ seg, '@' ∉ seg → redactSecrets (head ++ (seg ++ '@' :: tail)) =
      head' ++ (redactSegment "socks://" (redactSegment "socks5://" seg) ++ '@' :: tail') := by
  obtain ⟨head₁, hcut₁, h₁⟩ := redactPass_append hhead
  obtain ⟨head₂, -, h₂⟩ := redactPass_append hcut₁
  refine ⟨head₂, redactPass "socks://" (redactPass "socks5://" tail), ?_⟩
  intro seg hseg
  rw [redactSecrets_eq, h₁, redactPass_append_cons hseg, h₂,
    redactPass_append_cons (redactSegment_notMem hseg)]

end RsProxy.Rules
