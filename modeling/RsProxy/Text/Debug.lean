import RsProxy.Data.Delimited
import RsProxy.Text.Net

/-!
# Debug formatting

The `{:?}` form of strings, options, lists and structures. Which characters it writes by their
number, because they are not printable or extend the character in front of them, is a table of the
standard library and a parameter here. Whatever the table, each form says where it ends.
-/

namespace RsProxy.Text

open Data List

/-! ### The forms -/

/-- The letter behind the backslash, for characters that have one. -/
def simpleEscape (c : Char) : Option Char :=
  if c = '\x00' then some '0'
  else if c = '\t' then some 't'
  else if c = '\r' then some 'r'
  else if c = '\n' then some 'n'
  else if c = '"' then some '"'
  else if c = '\\' then some '\\'
  else none

def escapeDebug (hidden : Char → Bool) (c : Char) : Str :=
  match simpleEscape c with
  | some letter => ['\\', letter]
  | none => if hidden c then '\\' :: 'u' :: '{' :: (lowerHex c.toNat ++ ['}']) else [c]

def debugStr (hidden : Char → Bool) (s : Str) : Str :=
  '"' :: (s.flatMap (escapeDebug hidden) ++ ['"'])

def debugOption {α : Type} (item : α → Str) : Option α → Str
  | none => "None"
  | some a => "Some(" ++ (item a ++ [')'])

def debugList {α : Type} (item : α → Str) : List α → Str
  | [] => "[]"
  | a :: l => '[' :: (item a ++ (behindEach ", " item l ++ [']']))

/-- The named fields of a structure, already formatted. -/
def debugFields : List (Str × Str) → Str
  | [] => []
  | [(name, value)] => name ++ (": " ++ value)
  | (name, value) :: fields => name ++ (": " ++ (value ++ (", " ++ debugFields fields)))

def debugStruct (name : Str) (fields : List (Str × Str)) : Str :=
  name ++ (' ' :: '{' :: ' ' :: (debugFields fields ++ [' ', '}']))

/-! ### Numerals -/

variable {radix : Nat}

section

variable (hradix : 1 < radix) (hdigit : ∀ d < radix, digitOf radix d.digitChar = some d)

include hradix hdigit

theorem toDigits_injective :
    Function.Injective (Nat.toDigits radix) := by
  intro n n' h
  obtain ⟨ds, hds, hn⟩ := exists_digits hradix (f := id) hdigit n
  obtain ⟨ds', hds', hn'⟩ := exists_digits hradix (f := id) hdigit n'
  rw [h, hds'] at hds
  cases hds
  rw [← hn, hn']

theorem delimited_toDigits :
    Delimited (Stops fun c => (digitOf radix c).isSome) (Nat.toDigits radix) := by
  apply delimited_of_forall
  · intro n c hc
    obtain ⟨d, hd, rfl⟩ := mem_toDigits (by omega) hc
    rw [hdigit d hd]
    rfl
  · exact toDigits_injective hradix hdigit

end

theorem delimited_decimal : Delimited (Stops fun c => (digitOf 10 c).isSome) decimal :=
  delimited_toDigits (by decide) (by decide)

/-! ### Strings -/

theorem simpleEscape_ne_u {c} : simpleEscape c ≠ some 'u' := by
  unfold simpleEscape
  intro h
  split_ifs at h <;> revert h <;> decide

theorem simpleEscape_injective {c c' letter} (h : simpleEscape c = some letter)
    (h' : simpleEscape c' = some letter) : c = c' := by
  unfold simpleEscape at h h'
  split_ifs at h <;> cases h <;> split_ifs at h' <;> simp_all

section Strings

variable (hidden : Char → Bool)

/-- The forms a character can take: a letter behind a backslash, its number, or itself. -/
theorem escapeDebug_cases (c : Char) :
    (∃ letter, simpleEscape c = some letter ∧ escapeDebug hidden c = ['\\', letter]) ∨
    escapeDebug hidden c = '\\' :: 'u' :: '{' :: (lowerHex c.toNat ++ ['}']) ∨
    c ≠ '\\' ∧ c ≠ '"' ∧ escapeDebug hidden c = [c] := by
  unfold escapeDebug
  cases h : simpleEscape c with
  | some letter => exact .inl ⟨letter, rfl, rfl⟩
  | none =>
    dsimp only
    split
    · exact .inr (.inl rfl)
    · exact .inr (.inr ⟨(by rintro rfl; cases h), (by rintro rfl; cases h), rfl⟩)

theorem selfDelimited_escapeDebug : SelfDelimited (escapeDebug hidden) := by
  have hbrace : ∀ rest : Str, Stops (fun c => (digitOf 16 c).isSome) ('}' :: rest) :=
    stops_cons (by decide)
  intro c c' rest rest' _ _ heq
  rcases escapeDebug_cases hidden c with ⟨letter, hletter, hc⟩ | hc | ⟨hslash, -, hc⟩
  all_goals
    rcases escapeDebug_cases hidden c' with ⟨letter', hletter', hc'⟩ | hc' | ⟨hslash', -, hc'⟩
    all_goals rw [hc, hc'] at heq
  · obtain ⟨rfl, rfl⟩ : letter = letter' ∧ rest = rest' := by simpa using heq
    exact ⟨simpleEscape_injective hletter hletter', rfl⟩
  · obtain ⟨rfl, -⟩ : letter = 'u' ∧ _ := by simpa using heq
    exact absurd hletter simpleEscape_ne_u
  · exact absurd (List.cons.inj heq).1.symm hslash'
  · obtain ⟨rfl, -⟩ : letter' = 'u' ∧ _ := by simpa [eq_comm] using heq
    exact absurd hletter' simpleEscape_ne_u
  · have hhex : lowerHex c.toNat ++ '}' :: rest = lowerHex c'.toNat ++ '}' :: rest' := by
      simpa using heq
    obtain ⟨hnum, hrest⟩ :=
      delimited_toDigits (by decide) (by decide) (hbrace rest) (hbrace rest') hhex
    exact ⟨Char.toNat_inj.mp hnum, (List.cons.inj hrest).2⟩
  · exact absurd (List.cons.inj heq).1.symm hslash'
  · exact absurd (List.cons.inj heq).1 hslash
  · exact absurd (List.cons.inj heq).1 hslash
  · exact List.cons.inj heq

theorem selfDelimited_debugStr : SelfDelimited (debugStr hidden) := by
  have hwords : SelfDelimited fun s : Str => s.flatMap (escapeDebug hidden) ++ ['"'] := by
    apply delimited_flatMap (selfDelimited_escapeDebug hidden)
    · intro c
      rcases escapeDebug_cases hidden c with ⟨letter, -, hc⟩ | hc | ⟨-, -, hc⟩
      all_goals simp [hc]
    · intro c
      rcases escapeDebug_cases hidden c with ⟨letter, -, hc⟩ | hc | ⟨-, hquote, hc⟩
      · simp [hc]
      · simp [hc]
      · simpa [hc] using hquote
  intro s s' rest rest' _ _ heq
  exact hwords trivial trivial (cons.inj heq).2

end Strings

/-! ### Options, lists and structures -/

section Containers

variable {α : Type} {item : α → Str} {Next : Str → Prop}

theorem selfDelimited_debugOption (hitem : Delimited Next item)
    (hnext : ∀ rest, Next (')' :: rest)) : SelfDelimited (debugOption item) := by
  intro a a' rest rest' _ _ heq
  cases a with
  | none =>
    cases a' with
    | none => exact ⟨rfl, append_cancel_left heq⟩
    | some a' => simp [debugOption] at heq
  | some a =>
    cases a' with
    | none => simp [debugOption] at heq
    | some a' =>
      simp only [debugOption, append_assoc, append_cancel_left_eq] at heq
      obtain ⟨rfl, hrest⟩ := hitem (hnext rest) (hnext rest') heq
      exact ⟨rfl, (cons.inj hrest).2⟩

/-- The elements end before a comma or a bracket, and none of them begins with the closing
bracket. -/
theorem selfDelimited_debugList (hitem : Delimited Next item)
    (hnext : ∀ c rest, c = ',' ∨ c = ']' → Next (c :: rest))
    (hhead : ∀ a rest, (item a ++ rest).head? ≠ some ']') : SelfDelimited (debugList item) := by
  have htail : SelfDelimited fun l => behindEach ", " item l ++ [']'] :=
    delimited_behindEach hitem rfl (by decide) hnext
  have hbehind : ∀ l rest, Next (behindEach ", " item l ++ ([']'] ++ rest)) := by
    intro l rest
    cases l with
    | nil => exact hnext ']' rest (.inr rfl)
    | cons a l => exact hnext ',' _ (.inl rfl)
  intro l l' rest rest' _ _ heq
  cases l with
  | nil =>
    cases l' with
    | nil => exact ⟨rfl, append_cancel_left heq⟩
    | cons a' l' =>
      have hclose : ']' :: rest = item a' ++ ((behindEach ", " item l' ++ [']']) ++ rest') := by
        simpa [debugList] using heq
      exact absurd (congrArg head? hclose).symm (hhead a' _)
  | cons a l =>
    cases l' with
    | nil =>
      have hclose : item a ++ ((behindEach ", " item l ++ [']']) ++ rest) = ']' :: rest' := by
        simpa [debugList] using heq
      exact absurd (congrArg head? hclose) (hhead a _)
    | cons a' l' =>
      simp only [debugList, cons_append, append_assoc, cons.injEq, true_and] at heq
      obtain ⟨rfl, hrest⟩ := hitem (hbehind l rest) (hbehind l' rest') heq
      simp only [← append_assoc] at hrest
      obtain ⟨rfl, htails⟩ := htail trivial trivial hrest
      exact ⟨rfl, htails⟩

end Containers

/-- The name of a structure is the text in front of the first space. -/
theorem takeWhile_debugStruct {name} (hname : ∀ c ∈ name, (c != ' ')) {fields rest} :
    (debugStruct name fields ++ rest).takeWhile (· != ' ') = name := by
  rw [debugStruct, append_assoc, takeWhile_append_of_pos hname]
  simp

end RsProxy.Text
