import RsProxy.Engine.ClientView

/-!
# Trailers that were read

The trailer readers cut their input at line ends and their lines at a colon, and look no further. So
the line of a trailer they return has no line end in it and its name no colon, but both may hold any
other character.
-/

namespace RsProxy.Engine

open Text Io Net List
open Data (do_eq_ok)

/-- A trailer as the readers return them. -/
structure CutTrailer (field : Str × Str) : Prop where
  oneLine : OneLine field
  name : ':' ∉ field.1

/-- A line end in a text stands on one side of any other character. -/
theorem infix_append_cons {α : Type} {pat a b} {c : α} (hc : c ∉ pat) :
    pat <:+: a ++ c :: b → pat <:+: a ∨ pat <:+: b := by
  rintro ⟨before, after, h⟩
  rw [append_assoc, append_eq_append_iff] at h
  obtain ⟨mid, ha, hrest⟩ | ⟨mid, rfl, hrest⟩ := h
  · rw [append_eq_append_iff] at hrest
    obtain ⟨more, rfl, -⟩ | ⟨more, rfl, hb⟩ := hrest
    · exact .inl ⟨before, more, by rw [ha, append_assoc]⟩
    · cases more with
      | nil => exact .inl ⟨before, [], by rw [ha]; simp⟩
      | cons d more =>
        obtain ⟨rfl, -⟩ := cons.inj hb
        exact absurd (by simp) hc
  · cases mid with
    | nil =>
      cases pat with
      | nil => exact .inl nil_infix
      | cons d pat =>
        obtain ⟨rfl, -⟩ := cons.inj hrest
        exact absurd mem_cons_self hc
    | cons d mid =>
      obtain ⟨-, rfl⟩ := cons.inj hrest
      exact .inr ⟨mid, after, by simp⟩

theorem cutTrailer_of_line {line name value : Str} (hline : ¬ "\r\n" <:+: line)
    (hcut : splitOnce [':'] line = some (name, value)) : CutTrailer (trim name, trim value) := by
  obtain ⟨rfl, hname⟩ := splitOnce_singleton.mp hcut
  have hinside : ∀ s, trim s <:+: s := fun s => by
    obtain ⟨pre, post, hs, -⟩ := exists_trimMatches isWhitespace s
    exact ⟨pre, post, hs.symm⟩
  refine ⟨fun hin => hline ?_, fun hmem => hname (trimMatches_sublist.subset hmem)⟩
  rw [trailerLine, append_assoc] at hin
  obtain hin | hin := infix_append_cons (by decide) hin
  · exact (hin.trans (hinside name)).trans ⟨[], ':' :: value, rfl⟩
  obtain hin | hin := infix_append_cons (a := []) (by decide) hin
  · exact absurd hin (by decide)
  · exact (hin.trans (hinside value)).trans ⟨name ++ [':'], [], by simp⟩

variable {rounds : Nat}

section Readers

variable {υ : Type} [Read υ]

/-- A line that is read has no line end in it. -/
theorem ensures_readLineLoop (hwithin : ReadsWithin υ) {limit tooLong decode P} {seen : Bytes}
    (hseen : ¬ crlf <:+: seen)
    (hdecode : ∀ bytes line, ¬ crlf <:+: bytes → decode bytes = .ok line → P line) :
    (readLineLoop limit tooLong decode rounds seen : ReadM υ Str).Ensures P := by
  induction rounds generalizing seen with
  | zero => exact ReadM.ensures_fail _
  | succ rounds ih =>
    refine (ensures_readExact_one hwithin).bind ?_
    rintro _ ⟨b, rfl⟩
    dsimp only
    split
    next hend =>
      intro s line s' h
      rw [liftExcept_apply] at h
      refine hdecode _ line (fun hin => hseen (hin.trans ?_)) (Prod.mk.inj h).1
      rw [length_append, length_singleton, take_append_of_le_length (by omega)]
      apply IsPrefix.isInfix
      exact take_prefix _ _
    next hopen =>
      split
      · exact ReadM.ensures_fail _
      · apply ih
        rw [infix_append_singleton]
        rintro (hin | hin)
        · exact hseen hin
        · exact hopen (isSuffixOf_iff_suffix.mpr hin)

theorem ensures_readCrlfLine (hwithin : ReadsWithin υ) :
    (readCrlfLine : ReadM υ Str).Ensures fun line => ¬ "\r\n" <:+: line := by
  refine ensures_readLineLoop hwithin (by decide) ?_
  rintro bytes line hbytes ⟨⟩
  exact fun hin => hbytes (infix_of_infix_fromUtf8Lossy (by decide) (by decide) hin)

omit [Read υ] in
theorem ensures_readResponseTrailersLoop {readLine : ReadM υ Str}
    (hline : readLine.Ensures fun line => ¬ "\r\n" <:+: line)
    {emptyName maxHeaderSize maxHeaderCount trailers size}
    (htrailers : ∀ field ∈ trailers, CutTrailer field) :
    (readResponseTrailersLoop readLine emptyName maxHeaderSize maxHeaderCount rounds trailers
      size).Ensures fun read => ∀ field ∈ read, CutTrailer field := by
  induction rounds generalizing trailers size with
  | zero => exact ReadM.ensures_fail _
  | succ rounds ih =>
    refine hline.bind fun line hfree => ?_
    dsimp only
    split
    · exact ReadM.ensures_pure htrailers
    split
    · exact ReadM.ensures_fail _
    split
    · exact ReadM.ensures_fail _
    next name value hcut =>
      split
      · exact ReadM.ensures_fail _
      · apply ih
        rw [forall_mem_append, forall_mem_singleton]
        exact ⟨htrailers, cutTrailer_of_line hfree hcut⟩

theorem ensures_relayChunked (hwithin : ReadsWithin υ) {limits} :
    (relayChunked limits rounds : RelayM υ Bytes Headers).Ensures
      fun trailers => ∀ field ∈ trailers, CutTrailer field := by
  induction rounds with
  | zero => nofun
  | succ rounds ih =>
    refine (RelayM.ensures_true _).bind fun line _ => (RelayM.ensures_true _).bind fun size _ => ?_
    split
    · apply ReadM.Ensures.ofRead
      exact ensures_readResponseTrailersLoop (ensures_readCrlfLine hwithin)
        (forall_mem_nil _)
    · exact (RelayM.ensures_true _).bind fun _ _ => (RelayM.ensures_true _).bind fun _ _ => ih

end Readers

end RsProxy.Engine
