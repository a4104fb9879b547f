import RsProxy.Io.Stream
import RsProxy.Text.Net
import RsProxy.Text.Case
import RsProxy.Rules.Language

/-!
# HTTP header lists

A header list keeps its fields in wire order, names as they came. Names are compared without regard
to ASCII case, and `setHeader` writes to the first field of a name only.
-/

namespace RsProxy.Net

open Text Io List

abbrev Headers := List (Str × Str)

def invalidData (message : Str) : IoError := ⟨.invalidData, message⟩

def invalidInput (message : Str) : IoError := ⟨.invalidInput, message⟩

/-- Does the field have this name? -/
def named (name : Str) (field : Str × Str) : Bool := eqIgnoreAsciiCase field.1 name

def canonicalHeaderName (name : Str) : Str :=
  ['-'].intercalate ((splitOn (· == '-') name).map fun part =>
    match part with
    | [] => []
    | first :: rest => first.toUpper :: rest)

/-- The first value under a name. -/
def header (headers : Headers) (name : Str) : Option Str :=
  (headers.find? (named name)).map Prod.snd

def setHeader (headers : Headers) (name value : Str) : Headers :=
  match headers with
  | [] => [(canonicalHeaderName name, value)]
  | field :: rest =>
    if named name field then (field.1, value) :: rest
    else field :: setHeader rest name value

def removeHeader (headers : Headers) (name : Str) : Headers :=
  headers.filter fun field => !named name field

def isHttpFieldValueChar (c : Char) : Bool := c == '\t' || (' ' ≤ c && c != '\x7F')

/-- Does a comma list under this name hold the token? -/
def headerContainsToken (headers : Headers) (name wanted : Str) : Bool :=
  (headers.filter (named name)).any fun field =>
    (splitOn (· == ',') field.2).any fun token => eqIgnoreAsciiCase (trim token) wanted

/-- The fields of the lines after the first. A line without a colon is counted and then skipped. -/
def parseHeadersLimited (lines : List Str) (maxHeaderCount : Nat) : Except IoError Headers :=
  go 0 lines
where
  go : (count : Nat) → List Str → Except IoError Headers
    | _, [] => .ok []
    | count, line :: lines =>
      if line.isEmpty then go count lines
      else if maxHeaderCount < count + 1 then
        .error (invalidData ("header count limit exceeded (limit " ++
          decimal maxHeaderCount ++ ")"))
      else do
        let rest ← go (count + 1) lines
        match splitOnce [':'] line with
        | some (name, value) => .ok ((trim name, trim value) :: rest)
        | none => .ok rest

/-! ### The fields of a name -/

/-- Putting a name into canonical case changes nothing but case. -/
theorem toAsciiLowercase_canonicalHeaderName {name} :
    toAsciiLowercase (canonicalHeaderName name) = toAsciiLowercase name := by
  rw [canonicalHeaderName, toAsciiLowercase_intercalate, intercalate_splitOn]
  intro part
  cases part with
  | nil => rfl
  | cons first rest =>
    simp only [toAsciiLowercase, map_cons, toLower_toUpper]

theorem named_canonicalHeaderName {name value} : named name (canonicalHeaderName name, value) := by
  simp [named, eqIgnoreAsciiCase, toAsciiLowercase_canonicalHeaderName]

variable {name other : Str} {field : Str × Str}

theorem named_comm (h : eqIgnoreAsciiCase name other = false) (hfield : named name field) :
    named other field = false := by
  simp only [named, eqIgnoreAsciiCase, beq_iff_eq] at *
  rwa [hfield]

/-- The predicate keeps no field of this name. -/
def Blind (keep : Str × Str → Bool) (name : Str) : Prop :=
  ∀ field, named name field → keep field = false

variable {keep : Str × Str → Bool}

theorem blind_named (h : eqIgnoreAsciiCase name other = false) : Blind (named other) name :=
  fun _ hfield => named_comm h hfield

theorem Blind.filter_removeHeader (h : Blind keep name) {headers} :
    (removeHeader headers name).filter keep = headers.filter keep := by
  rw [removeHeader, filter_filter]
  apply filter_congr
  intro field _
  cases hnamed : named name field with
  | false => simp
  | true => simp [h field hnamed]

theorem Blind.filter_setHeader (h : Blind keep name) {headers value} :
    (setHeader headers name value).filter keep = headers.filter keep := by
  induction headers with
  | nil =>
    simp [setHeader, h _ named_canonicalHeaderName]
  | cons field rest ih =>
    rw [setHeader]
    split
    next hfield =>
      have hset : named name (field.1, value) := hfield
      simp [h _ hfield, h _ hset]
    · rw [filter_cons, filter_cons, ih]

/-- Setting a field leaves the fields of every other name alone. -/
theorem filter_setHeader_of_ne (h : eqIgnoreAsciiCase name other = false) (headers : Headers)
    (value : Str) :
    (setHeader headers name value).filter (named other) = headers.filter (named other) :=
  (blind_named h).filter_setHeader

theorem filter_removeHeader_of_ne (h : eqIgnoreAsciiCase name other = false) (headers : Headers) :
    (removeHeader headers name).filter (named other) = headers.filter (named other) :=
  (blind_named h).filter_removeHeader

/-- Setting a field writes to the first of its name, or adds one. -/
theorem filter_setHeader_self {headers value} :
    (setHeader headers name value).filter (named name) =
      match headers.filter (named name) with
      | [] => [(canonicalHeaderName name, value)]
      | field :: rest => (field.1, value) :: rest := by
  induction headers with
  | nil =>
    simp [setHeader, named_canonicalHeaderName]
  | cons field rest ih =>
    rw [setHeader]
    split
    next hfield =>
      have hfield' : named name (field.1, value) := hfield
      simp [hfield, hfield']
    next hfield =>
      simp only [filter_cons, hfield, ih]
      simp

@[simp] theorem filter_removeHeader_self (headers : Headers) (name : Str) :
    (removeHeader headers name).filter (named name) = [] := by
  simp [removeHeader]

variable {headers : Headers}

section

variable (h : eqIgnoreAsciiCase name other)

include h

theorem named_congr : named name = named other := by
  funext field
  simp only [named, eqIgnoreAsciiCase, beq_iff_eq] at h ⊢
  rw [h]

theorem filter_setHeader_of_eq {value} :
    (setHeader headers name value).filter (named other) =
      match headers.filter (named other) with
      | [] => [(canonicalHeaderName name, value)]
      | field :: rest => (field.1, value) :: rest := by
  rw [← named_congr h, filter_setHeader_self]

theorem filter_setHeader_of_nil (hnone : headers.filter (named other) = []) (value : Str) :
    (setHeader headers name value).filter (named other) = [(canonicalHeaderName name, value)] := by
  rw [filter_setHeader_of_eq h, hnone]

theorem filter_setHeader_of_cons {rest : Headers}
    (hsome : headers.filter (named other) = field :: rest) (value : Str) :
    (setHeader headers name value).filter (named other) = (field.1, value) :: rest := by
  rw [filter_setHeader_of_eq h, hsome]

theorem filter_removeHeader_of_eq :
    (removeHeader headers name).filter (named other) = [] := by
  rw [← named_congr h, filter_removeHeader_self]

end

theorem header_isSome_iff : (header headers name).isSome ↔ headers.filter (named name) ≠ [] := by
  rw [header, Option.isSome_map, find?_isSome, ne_eq, filter_eq_nil_iff]
  push Not
  rfl

theorem header_eq_head? :
    header headers name = (headers.filter (named name)).head?.map Prod.snd := by
  rw [header, head?_filter]

theorem header_setHeader (h : eqIgnoreAsciiCase name other) {value} :
    header (setHeader headers name value) other = some value := by
  rw [header_eq_head?, filter_setHeader_of_eq h]
  split <;> rfl

theorem filter_foldl_removeHeader {names : List Str} (h : ∀ name ∈ names, Blind keep name) :
    (names.foldl removeHeader headers).filter keep = headers.filter keep := by
  induction names generalizing headers with
  | nil => rfl
  | cons name names ih =>
    rw [forall_mem_cons] at h
    rw [foldl_cons, ih h.2, h.1.filter_removeHeader]

theorem foldl_removeHeader_sublist (names : List Str) (headers : Headers) :
    (names.foldl removeHeader headers).Sublist headers := by
  induction names generalizing headers with
  | nil => exact Sublist.refl _
  | cons name names ih => exact (ih _).trans filter_sublist

variable {value : Str}

/-- What holds of a list and of the field that is set holds of the result. -/
theorem forall_mem_setHeader {P : Str × Str → Prop} (hall : ∀ field ∈ headers, P field)
    (hkept : ∀ field ∈ headers, P (field.1, value)) (hnew : P (canonicalHeaderName name, value)) :
    ∀ field ∈ setHeader headers name value, P field := by
  induction headers with
  | nil => simpa [setHeader] using hnew
  | cons field rest ih =>
    rw [forall_mem_cons] at hall hkept
    rw [setHeader]
    split
    · exact forall_mem_cons.mpr ⟨hkept.1, hall.2⟩
    · exact forall_mem_cons.mpr ⟨hall.1, ih hall.2 hkept.2⟩

/-- No two fields have this name. -/
def AtMostOne (headers : Headers) (name : Str) : Prop := (headers.filter (named name)).length ≤ 1

instance (headers : Headers) (name : Str) : Decidable (AtMostOne headers name) :=
  inferInstanceAs (Decidable (_ ≤ 1))

/-- Setting a field never adds a second one of its name, and never removes one. -/
theorem atMostOne_setHeader :
    AtMostOne (setHeader headers name value) other ↔ AtMostOne headers other := by
  unfold AtMostOne
  cases h : eqIgnoreAsciiCase name other with
  | false => rw [filter_setHeader_of_ne h]
  | true =>
    rw [filter_setHeader_of_eq h]
    split
    next hfields => simp [hfields]
    next hfields => simp [hfields]

theorem atMostOne_removeHeader :
    AtMostOne (removeHeader headers name) other ↔
      AtMostOne headers other ∨ eqIgnoreAsciiCase name other := by
  unfold AtMostOne
  cases h : eqIgnoreAsciiCase name other with
  | false => simp [filter_removeHeader_of_ne h]
  | true => simp [filter_removeHeader_of_eq h]

end RsProxy.Net
