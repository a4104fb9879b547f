import RsProxy.Rules.Publish

/-!
# Scanning a body

The body of a request is decoded before the literals of the rules are searched for, and decoding
replaces what is not well formed. A literal is marked when it occurs in the decoded text. This file
compares that with the bytes of the body: the two agree for every body exactly when the literal has
no replacement character of its own.
-/

namespace RsProxy.Rules

open Text Data List Nat CompiledBodyContainsSet

/-! ### Case and encoding -/

variable {b : UInt8}

theorem lowerByte_of_le (h : 128 ≤ b.toNat) : lowerByte b = b := by
  unfold lowerByte
  rw [if_neg]
  rintro ⟨-, hle⟩
  have : b.toNat ≤ 90 := UInt8.le_iff_toNat_le.mp hle
  omega

theorem lowerByte_lt_iff : (lowerByte b).toNat < 128 ↔ b.toNat < 128 := by
  unfold lowerByte
  split
  next h =>
    have hle : b.toNat ≤ 90 := UInt8.le_iff_toNat_le.mp h.2
    change (b.toNat + 32) % 256 < 128 ↔ _
    omega
  · rfl

/-- Case is a matter of ASCII. -/
theorem eq_of_lowerBytes_eq {w v} (h : lowerBytes w = lowerBytes v) (hv : ∀ b ∈ v, 128 ≤ b.toNat) :
    w = v := by
  induction v generalizing w with
  | nil => exact map_eq_nil_iff.mp h
  | cons y v ih =>
    obtain ⟨hy, hv⟩ := forall_mem_cons.mp hv
    obtain ⟨x, w, rfl, hx, hw⟩ := map_eq_cons_iff.mp h
    have hle : 128 ≤ x.toNat := by
      rw [← not_lt, ← lowerByte_lt_iff, hx, lowerByte_lt_iff]
      omega
    rw [lowerByte_of_le hle, lowerByte_of_le hy] at hx
    rw [hx, ih hw hv]

theorem le_of_mem_encode {c} (hc : ¬ c.toNat < 128) (hb : b ∈ String.utf8EncodeChar c) :
    128 ≤ b.toNat := by
  by_contra hlt
  have hmem := mem_of_mem_utf8 (s := [c]) (by simpa [utf8] using hb) (by omega)
  rw [← mem_singleton.mp hmem, toNat_ofNat_ascii (by omega)] at hc
  omega

variable {literal : Str}

/-- Bytes that spell a text up to the case of its letters spell a text themselves. -/
theorem exists_utf8_of_lowerBytes_eq {w} (h : lowerBytes w = lowerBytes (utf8 literal)) :
    ∃ other, w = utf8 other ∧ (replacement ∈ other → replacement ∈ literal) := by
  induction literal generalizing w with
  | nil => exact ⟨[], map_eq_nil_iff.mp h, id⟩
  | cons c literal ih =>
    rw [utf8_cons, lowerBytes_append] at h
    obtain ⟨front, rest, rfl, hfront, hrest⟩ := map_eq_append_iff.mp h
    obtain ⟨other, rfl, hother⟩ := ih hrest
    by_cases hc : c.toNat < 128
    · -- One byte, which may be the letter in the other case.
      rw [encode_one hc] at hfront
      obtain ⟨b, hb, hlower⟩ := map_eq_singleton_iff.mp hfront
      have hascii : b.toNat < 128 := by
        rw [← lowerByte_lt_iff, hlower, lowerByte_lt_iff, UInt8.toNat_ofNat']
        omega
      have hchar := toNat_ofNat_ascii hascii
      refine ⟨Char.ofNat b.toNat :: other, ?_, ?_⟩
      · rw [utf8_cons, encode_one (by omega), hchar, UInt8.ofNat_toNat, hb]
      · intro hmem
        rcases mem_cons.mp hmem with heq | hmem
        · rw [← heq] at hchar
          have hlarge : replacement.toNat = 65533 := rfl
          omega
        · exact mem_cons_of_mem _ (hother hmem)
    · refine ⟨c :: other, ?_, ?_⟩
      · rw [eq_of_lowerBytes_eq hfront fun b => le_of_mem_encode hc, utf8_cons]
      · intro hmem
        rcases mem_cons.mp hmem with heq | hmem
        · exact heq ▸ mem_cons_self
        · exact mem_cons_of_mem _ (hother hmem)

/-! ### Occurrences in a decoded body -/

/-- Decoding a body neither hides a literal nor makes one up that has no replacement character. -/
theorem lowerBytes_infix_fromUtf8Lossy_iff (h : replacement ∉ literal) {body} :
    lowerBytes (utf8 literal) <:+: lowerBytes (utf8 (fromUtf8Lossy body)) ↔
      lowerBytes (utf8 literal) <:+: lowerBytes body := by
  rw [lowerBytes_infix_iff, lowerBytes_infix_iff]
  refine exists_congr fun w => and_congr_left fun hw => ?_
  obtain ⟨other, rfl, hother⟩ := exists_utf8_of_lowerBytes_eq hw
  have hmem : replacement ∉ other := fun hmem => h (hother hmem)
  rw [← infix_fromUtf8Lossy_iff hmem, ← infix_fromUtf8Lossy_iff hmem, fromUtf8Lossy_utf8]

/-- A text with every replacement character written as one byte that starts nothing. -/
def brokenBytes (s : Str) : Bytes :=
  s.flatMap fun c => if c = replacement then [0xFF] else String.utf8EncodeChar c

theorem fromUtf8Lossy_brokenBytes {s} : fromUtf8Lossy (brokenBytes s) = s := by
  induction s with
  | nil => rfl
  | cons c s ih =>
    rw [brokenBytes, flatMap_cons]
    change fromUtf8Lossy (_ ++ brokenBytes s) = c :: s
    split
    next hc =>
      rw [hc]
      exact congrArg (replacement :: ·) ih
    · rw [fromUtf8Lossy_encode, ih]

theorem length_brokenBytes_le (s : Str) : (brokenBytes s).length ≤ (utf8 s).length := by
  induction s with
  | nil => exact le_refl _
  | cons c s ih =>
    rw [brokenBytes, flatMap_cons, length_append, utf8_cons, length_append]
    refine Nat.add_le_add ?_ ih
    split
    next hc =>
      rw [hc]
      decide
    · exact le_refl _

theorem length_brokenBytes_lt {s} (h : replacement ∈ s) :
    (brokenBytes s).length < (utf8 s).length := by
  obtain ⟨a, b, rfl⟩ := append_of_mem h
  have ha := length_brokenBytes_le a
  have hb := length_brokenBytes_le b
  have hc : (String.utf8EncodeChar replacement).length = 3 := by decide
  have hsplit : brokenBytes (a ++ replacement :: b) = brokenBytes a ++ 0xFF :: brokenBytes b := by
    simp [brokenBytes]
  rw [hsplit, utf8_append, utf8_cons]
  simp only [length_append, length_cons]
  omega

/-! ### The scan of a snapshot -/

namespace RuleSet

variable [Crates]

/-- Is the literal with this number marked when the body is scanned? -/
def marks (rs : RuleSet) (id : Nat) (body : Bytes) : Bool :=
  matchesId id
    (rs.index.compiledBodyLiterals.scan (fromUtf8Lossy body))

/-- Every literal has a number, and it is marked exactly when it occurs in the decoded body, up to
ASCII case. For every body that is to occur in the bytes, if and only if the literal has no
replacement character. -/
theorem bodyScan_exact (hexact : SearchIsExact) (rs : RuleSet) {rule : Rule}
    (hrule : rule ∈ rs.rules) {literal : Str}
    (hliteral : Condition.bodyContains literal ∈ rule.conditions.flatMap Condition.nodes) :
    ∃ id, rs.index.compiledBodyLiterals.id literal = some id ∧
      (∀ body, rs.marks id body = true ↔
        lowerBytes (utf8 literal) <:+: lowerBytes (utf8 (fromUtf8Lossy body))) ∧
      ((∀ body, rs.marks id body = true ↔ lowerBytes (utf8 literal) <:+: lowerBytes body) ↔
        replacement ∉ literal) := by
  have hmem : literal ∈ rs.rules.flatMap Rule.bodyLiterals :=
    mem_flatMap_of_mem hrule (Rule.mem_bodyLiterals.mpr hliteral)
  have hbuild := rs.builtFrom.bodyLiterals
  obtain ⟨id, -, hid, -⟩ := build_spec hbuild hmem
  have hmarks : ∀ body, rs.marks id body = true ↔
      lowerBytes (utf8 literal) <:+: lowerBytes (utf8 (fromUtf8Lossy body)) := by
    intro body
    rw [marks, matchesId_iff hexact hbuild hmem hid,
      containsAsciiCaseInsensitive_iff]
  refine ⟨id, hid, hmarks, ?_, ?_⟩
  · intro hbytes hreplacement
    -- A body that decodes to the literal and is too short to hold it.
    have hmarked : rs.marks id (brokenBytes literal) = true := by
      rw [hmarks, fromUtf8Lossy_brokenBytes]
    have hlength := ((hbytes _).mp hmarked).length_le
    rw [lowerBytes, lowerBytes, length_map, length_map] at hlength
    exact not_lt.mpr hlength (length_brokenBytes_lt hreplacement)
  · intro hreplacement body
    rw [hmarks, lowerBytes_infix_fromUtf8Lossy_iff hreplacement]

omit [Crates] in
/-- A key is found behind a byte that starts nothing. -/
theorem bodyScan_of_key :
    let groups := [("g".toList, "a.test direct when body(~Key)".toList)]
    ∃ rs, @parseGroupsWithProfile reference groups false = some (.ok rs) ∧
      ∃ id, (@index reference rs).compiledBodyLiterals.id "Key" = some id ∧
        @marks reference rs id (0xFF :: utf8 "a KEY") = true := by
  intro groups
  obtain ⟨rs, hparse, rule, hrule, hliteral⟩ := @exists_of_parsesTo reference groups false
    (fun rs => ∃ rule ∈ @rules reference rs, "Key".toList ∈ rule.bodyLiterals) _ (by decide +kernel)
  obtain ⟨id, hid, -, hiff⟩ := @bodyScan_exact reference reference_searchIsExact rs rule hrule
    "Key" (Rule.mem_bodyLiterals.mp hliteral)
  exact ⟨rs, hparse, id, hid, (hiff.mpr (by decide) _).mpr (by decide +kernel)⟩

omit [Crates] in
/-- A replacement character is found in a body of one byte. -/
theorem bodyScan_of_replacement :
    let groups := [("g".toList, "a.test direct when body(~�)".toList)]
    ∃ rs, @parseGroupsWithProfile reference groups false = some (.ok rs) ∧
      ∃ rule ∈ @rules reference rs, "�".toList ∈ rule.bodyLiterals ∧
        ∃ id, (@index reference rs).compiledBodyLiterals.id "�" = some id ∧
          @marks reference rs id [0xFF] = true ∧
          ¬ lowerBytes (utf8 "�") <:+: lowerBytes [0xFF] := by
  intro groups
  obtain ⟨rs, hparse, ⟨rule, hrule, hliteral⟩, id, hid, hmarks⟩ :=
    @exists_of_parsesTo reference groups false
      (fun rs => (∃ rule ∈ @rules reference rs, "�".toList ∈ rule.bodyLiterals) ∧
        ∃ id ∈ (@index reference rs).compiledBodyLiterals.id "�",
          @marks reference rs id [0xFF] = true) _
      (by decide +kernel)
  exact ⟨rs, hparse, rule, hrule, hliteral, id, hid, hmarks, by decide⟩

end RuleSet

end RsProxy.Rules
