import RsProxy.Text.Lemmas

/-!
# Anchored lazy regular expressions

The fragment of the regular expression language in which a pattern is a sequence of literal
characters and lazily repeated groups, anchored at both ends of the text:

    (?s)\A  item*  \z        item ::= c | \m | (.*?) | (?:.*?) | ([^c]*?) | (?:[^c]*?)

where `m` is one of the meta characters. `parse` reads such a source text, `run` is the
leftmost-first search with its usual priorities: a lazy repetition prefers to stop, and goes on by
one character only when the rest of the pattern cannot match where it stands.
-/

namespace RsProxy.Regex

open Text List Option

/-- What a search reports: the groups by number, the whole match first, and the named groups. -/
structure Match where
  groups : List (Option Str)
  named : List (Str × Option Str)
  deriving DecidableEq, Repr

/-! ### Searching shortest first -/

/-- Split the text where the continuation succeeds, the part in front as short as possible and made
of characters that satisfy `p`. -/
def lazyScan {α : Type} (p : Char → Bool) (k : Str → Option α) : Str → Option (Str × α)
  | [] => (k []).map ([], ·)
  | c :: cs =>
    match k (c :: cs) with
    | some a => some ([], a)
    | none => if p c then (lazyScan p k cs).map fun r => (c :: r.1, r.2) else none

/-- Post-processing the continuation's result is post-processing the scan's. -/
theorem lazyScan_map {α β} (p : Char → Bool) (k : Str → Option α) (f : α → β) (s : Str) :
    lazyScan p (fun t => (k t).map f) s = (lazyScan p k s).map fun r => (r.1, f r.2) := by
  induction s with
  | nil => simp [lazyScan]; rfl
  | cons c cs ih =>
    simp only [lazyScan]
    cases k (c :: cs) with
    | some a => rfl
    | none =>
      simp only [map_none]
      split
      · rw [ih]; simp only [Option.map_map]; rfl
      · rfl

/-! ### Items -/

/-- A literal character, or a lazy repetition of any character but the excepted one. -/
inductive Item where
  | chr (c : Char)
  | lazy (capturing : Bool) (except : Option Char)
  deriving DecidableEq, Repr

def admits (except : Option Char) (c : Char) : Bool := except != some c

/-- The texts of the capturing groups, when the items match the whole text. -/
def run : List Item → Str → Option (List Str)
  | [], s => if s.isEmpty then some [] else none
  | .chr c :: items, s =>
    match s with
    | d :: ds => if c = d then run items ds else none
    | [] => none
  | .lazy capturing except :: items, s =>
    (lazyScan (admits except) (run items) s).map fun r =>
      if capturing then r.1 :: r.2 else r.2

/-- The report of a search with the items, all of whose groups take part in a match. -/
def exec (items : List Item) (text : Str) : Option Match :=
  (run items text).map fun ws => ⟨some text :: ws.map some, []⟩

/-! ### Source text -/

/-- The characters that are escaped to stand for themselves. -/
def isMeta (c : Char) : Bool := c ∈ "\\.+*?()|[]\x7b\x7d^$#&-~".toList

def escape (c : Char) : Str := if isMeta c then ['\\', c] else [c]

/-- The inside of a group, with its closing parenthesis. -/
def classSource : Option Char → Str
  | none => ".*?)"
  | some c => "[^" ++ escape c ++ "]*?)"

def Item.source : Item → Str
  | .chr c => escape c
  | .lazy capturing except =>
    (if capturing then "(".toList else "(?:".toList) ++ classSource except

def source (items : List Item) : Str :=
  "(?s)\\A".toList ++ items.flatMap Item.source ++ "\\z".toList

def readLiteral : Str → Option (Char × Str)
  | [] => none
  | c :: rest =>
    if c = '\\' then
      match rest with
      | m :: rest => if isMeta m then some (m, rest) else none
      | [] => none
    else if isMeta c then none
    else some (c, rest)

def readClass (s : Str) : Option (Option Char × Str) :=
  match stripPrefix ".*?)" s with
  | some rest => some (none, rest)
  | none => do
    let s ← stripPrefix "[^" s
    let (c, s) ← readLiteral s
    let s ← stripPrefix "]*?)" s
    return (some c, s)

def readItem (s : Str) : Option (Item × Str) :=
  match stripPrefix "(?:" s with
  | some s => (readClass s).map fun r => (.lazy false r.1, r.2)
  | none =>
    match stripPrefix "(" s with
    | some s => (readClass s).map fun r => (.lazy true r.1, r.2)
    | none => (readLiteral s).map fun r => (.chr r.1, r.2)

/-- Every item takes at least one character, so the text's length is enough fuel. -/
def readItems : Nat → Str → Option (List Item)
  | 0, _ => none
  | fuel + 1, s =>
    if s = "\\z" then some []
    else (readItem s).bind fun r => (readItems fuel r.2).map (r.1 :: ·)

def parse (s : Str) : Option (List Item) :=
  (stripPrefix "(?s)\\A" s).bind fun body => readItems body.length body

/-! ### Reading back what was printed -/

theorem readLiteral_escape (c : Char) (rest : Str) :
    readLiteral (escape c ++ rest) = some (c, rest) := by
  unfold escape
  split
  next hm => simp [readLiteral, hm]
  next hm =>
    have hc : c ≠ '\\' := by rintro rfl; exact hm (by decide)
    simp [readLiteral, hm, hc]

/-- An escaped character never starts like a group. -/
theorem escape_ne_paren {c : Char} {cs s : Str} (h : escape c ++ cs = '(' :: s) : False := by
  unfold escape at h
  split at h
  · cases h
  next hm => cases h; exact hm (by decide)

theorem readClass_source (except : Option Char) (rest : Str) :
    readClass (classSource except ++ rest) = some (except, rest) := by
  cases except with
  | none => simp only [readClass, classSource, stripPrefix_append]
  | some c =>
    have hdot : stripPrefix ".*?)" (classSource (some c) ++ rest) = none :=
      stripPrefix_cons_ne (by decide)
    have hopen : classSource (some c) ++ rest = "[^" ++ (escape c ++ ("]*?)" ++ rest)) := by
      simp [classSource]
    simp only [readClass, hdot]
    simp only [hopen, readLiteral_escape, stripPrefix_append, bind_eq_bind,
      bind_some, Option.pure_def]

variable (item : Item)

theorem readItem_source (rest : Str) : readItem (item.source ++ rest) = some (item, rest) := by
  cases item with
  | chr c =>
    have hparen : ∀ p, stripPrefix ('(' :: p) (escape c ++ rest) = none := by
      intro p
      rw [stripPrefix_eq_none]
      rintro ⟨t, ht⟩
      exact escape_ne_paren ht.symm
    have hgroup : stripPrefix "(?:" (escape c ++ rest) = none := hparen "?:"
    have hcapture : stripPrefix "(" (escape c ++ rest) = none := hparen []
    simp only [Item.source, readItem, hgroup, hcapture, readLiteral_escape, map_some]
  | lazy capturing except =>
    have hclass := readClass_source except rest
    cases capturing with
    | false =>
      simp only [Item.source, readItem, Bool.false_eq_true, if_false, append_assoc,
        stripPrefix_append, hclass, map_some]
    | true =>
      -- `(` opens a group of either kind; what follows it here is not `?:`.
      have hgroup : stripPrefix "(?:" ("(" ++ (classSource except ++ rest)) = none := by
        rw [stripPrefix_eq_none]
        rintro ⟨t, ht⟩
        cases except <;> simp [classSource] at ht
      simp only [Item.source, readItem, if_true, append_assoc, hgroup,
        stripPrefix_append, hclass, map_some]

variable (items : List Item)

theorem readItems_source (fuel : Nat) (h : items.length < fuel) :
    readItems fuel (items.flatMap Item.source ++ "\\z") = some items := by
  induction items generalizing fuel with
  | nil =>
    cases fuel with
    | zero => cases h
    | succ fuel => simp [readItems]
  | cons item items ih =>
    cases fuel with
    | zero => cases h
    | succ fuel =>
      have hread := readItem_source item (items.flatMap Item.source ++ "\\z")
      have hend : item.source ++ (items.flatMap Item.source ++ "\\z") ≠ "\\z" := by
        intro heq
        have hz : readItem "\\z" = none := by decide
        simp only [heq, hz, reduceCtorEq] at hread
      simp only [flatMap_cons, append_assoc, readItems, if_neg hend, hread,
        bind_some, ih fuel (Nat.lt_of_succ_lt_succ h), map_some]

theorem Item.length_source_pos : 0 < item.source.length := by
  cases item with
  | chr c => simp only [Item.source, escape]; split <;> simp
  | lazy capturing except => cases capturing <;> simp [Item.source]

theorem length_le_flatMap_source : items.length ≤ (items.flatMap Item.source).length := by
  induction items with
  | nil => simp
  | cons item items ih =>
    have := item.length_source_pos
    simp only [flatMap_cons, length_append, length_cons]
    omega

/-- Every sequence of items is read back from its source text. -/
theorem parse_source : parse (source items) = some items := by
  have hfuel : items.length < (items.flatMap Item.source ++ "\\z").length := by
    have := length_le_flatMap_source items
    simp only [length_append, String.length_toList]
    have hz : "\\z".length = 2 := rfl
    omega
  unfold parse source
  simp only [append_assoc, stripPrefix_append]
  exact readItems_source items _ hfuel

end RsProxy.Regex
