import RsProxy.Engine.Boundaries

/-!
# What rule edits leave of a message

Actions set header fields, cookies and query parameters and take path segments away. For each of
them: when what was not named stays as it was, and what was named is as the rule says.
-/

namespace RsProxy.Engine

open Text Io Net List
open Data (do_eq_ok)
open Rules (Action CookieOp DeletePathSegment QueryOp ResolvedAction Value checkedAdd)

/-! ### Header fields -/

/-- The field that a request action sets, the source of its text, and what becomes of the text. -/
def requestField : Action → Option (Str × Value × (Str → Str))
  | .reqHeader (.set name value) => some (name, value, id)
  | .reqUa value => some ("User-Agent", value, id)
  | .reqReferer value => some ("Referer", value, id)
  | .reqAuth value => some ("Authorization", value, fun text => "Basic " ++ base64 (utf8 text))
  | .reqForwarded value => some ("X-Forwarded-For", value, forwardedForValue)
  | .reqType value => some ("Content-Type", value, id)
  | _ => none

def responseField : Action → Option (Str × Value × (Str → Str))
  | .resHeader (.set name value) => some (name, value, id)
  | .resType value => some ("Content-Type", value, id)
  | _ => none

/-- One field of the name is left and has the value; the fields of other names are what they
were. -/
def LeavesOne (headers headers' : Headers) (name value : Str) : Prop :=
  (∃ spelling, headers'.filter (named name) = [(spelling, value)]) ∧
    headers'.filter (fun field => !named name field) = headers.filter fun field => !named name field

variable {value : Str}

theorem leavesOne_setHeader {headers name} :
    LeavesOne headers (setHeader headers name value) name value ↔ AtMostOne headers name := by
  have hothers : (setHeader headers name value).filter (fun field => !named name field) =
      headers.filter fun field => !named name field :=
    Blind.filter_setHeader (fun field hfield => by simp [hfield])
  rw [LeavesOne, and_iff_left hothers, filter_setHeader_self, AtMostOne]
  cases headers.filter (named name) with
  | nil => simp
  | cons field rest => cases rest <;> simp

/-- A request action that sets a field leaves one of its name where there was at most one, and only
there; and so does a response action. -/
theorem setField_leavesOne_iff [ResponseValues] {config : ProxyConfig} {item : ResolvedAction}
    {name text : Str} {value : Value} {render : Str → Str}
    (htext : resolveValueTextBounded value item (ruleHeaderLimit config) = .ok text) :
    (requestField item.action = some (name, value, render) → ∀ bodyAvailable req, ∃ headers,
      applyRequestAction config bodyAvailable req item = .ok ({ req with headers }, false) ∧
        (LeavesOne req.headers headers name (render text) ↔ AtMostOne req.headers name)) ∧
    (responseField item.action = some (name, value, render) → ∀ before, ∃ headers,
      applyResponseHeaders config before item = .ok headers ∧
        (LeavesOne before headers name (render text) ↔ AtMostOne before name)) := by
  refine ⟨fun h bodyAvailable req => ⟨_, ?_, leavesOne_setHeader⟩,
    fun h before => ⟨_, ?_, leavesOne_setHeader⟩⟩
  · unfold requestField at h
    split at h <;> cases h <;> rename_i haction <;>
      simp [applyRequestAction, haction, applyHeaderOp, htext, bind, Except.bind]
  · unfold responseField at h
    split at h <;> cases h <;> rename_i haction <;>
      simp [applyResponseHeaders, haction, applyHeaderOp, htext, bind, Except.bind]

/-- The action `req.forwarded(10.0.0.1)`. -/
def setForwarded : ResolvedAction :=
  ⟨.reqForwarded (.inline "10.0.0.1"), ⟨"default", 1, "* req.forwarded(10.0.0.1)"⟩, .default, none⟩

/-- A request with these values of `X-Forwarded-For`. -/
def forwardedRequest (values : List Str) : RawRequest :=
  ⟨"GET", "/", "HTTP/1.1", values.map fun value => ("x-forwarded-for", value), [], []⟩

theorem setForwarded_leavesOne : ∃ headers,
    @applyRequestAction inlineValues ⟨4096, 64, 1024⟩ true (forwardedRequest ["6.6.6.6"])
      setForwarded = .ok ({ forwardedRequest ["6.6.6.6"] with headers }, false) ∧
    LeavesOne [("x-forwarded-for", "6.6.6.6")] headers "X-Forwarded-For" "10.0.0.1" := by
  obtain ⟨headers, heq, hiff⟩ :=
    (@setField_leavesOne_iff writtenValues ⟨4096, 64, 1024⟩ setForwarded
      "X-Forwarded-For" "10.0.0.1" _ forwardedForValue (by decide +kernel)).1 rfl true
      (forwardedRequest ["6.6.6.6"])
  exact ⟨headers, heq, hiff.mpr (by decide)⟩

/-- The second value a client sent stays. -/
theorem setForwarded_leaves_second : @applyRequestAction inlineValues ⟨4096, 64, 1024⟩ true
      (forwardedRequest ["1.1.1.1", "6.6.6.6"]) setForwarded =
      .ok (forwardedRequest ["10.0.0.1", "6.6.6.6"], false) ∧
    ¬ LeavesOne (forwardedRequest ["1.1.1.1", "6.6.6.6"]).headers
      (forwardedRequest ["10.0.0.1", "6.6.6.6"]).headers "X-Forwarded-For"
      "10.0.0.1" := by
  refine ⟨by decide +kernel, ?_⟩
  rintro ⟨⟨spelling, h⟩, -⟩
  have hlength := congrArg length h
  revert hlength
  rw [length_singleton]
  decide

/-! ### Edits of named values -/

theorem splitOn_intercalate {c} {pieces : List Str} (hne : pieces ≠ [])
    (h : ∀ piece ∈ pieces, c ∉ piece) : splitOn (· == c) ([c].intercalate pieces) = pieces := by
  induction pieces with
  | nil => exact absurd rfl hne
  | cons piece rest ih =>
    rw [forall_mem_cons] at h
    cases rest with
    | nil => rw [intercalate_singleton, splitOn_of_notMem h.1]
    | cons next rest =>
      rw [intercalate_cons_cons, append_assoc, singleton_append,
        splitOn_append_cons h.1, ih (cons_ne_nil _ _) h.2]

variable {text : Str}

def renderPair (pair : Str × Str) : Str := pair.1 ++ '=' :: pair.2

/-- One edit of a list of pairs: set the first of the name, as for cookies, or take all away. -/
def editPairs (pairs : List (Str × Str)) : Str × Option Str → List (Str × Str)
  | (name, some value) => setCookie pairs name value
  | (name, none) => pairs.filter fun pair => pair.1 != name

/-- What the last edit of a name leaves it with. -/
def lastEdit (edits : List (Str × Option Str)) (name : Str) : Option (Option Str) :=
  edits.reverse.lookup name

section Texts

variable (read : Str → Option (Str × Str)) (edits : List (Str × Option Str))

/-- Does no edit name what is read from the text? -/
def unedited (text : Str) : Bool := (read text).all fun pair => lastEdit edits pair.1 = none

/-- The texts that are not edited stay, and none of a name that was removed is left. -/
structure ExactEdit (before after : List Str) : Prop where
  others : after.filter (unedited read edits) = before.filter (unedited read edits)
  removed : ∀ pair ∈ after.filterMap read, lastEdit edits pair.1 ≠ some none

/-- Every text that is not edited is the one its pair is written as. -/
def Tidy (texts : List Str) : Prop :=
  ∀ text ∈ texts, unedited read edits text → (read text).map renderPair = some text

end Texts

theorem lastEdit_concat (edits : List (Str × Option Str)) (edit : Str × Option Str) (name : Str) :
    lastEdit (edits ++ [edit]) name =
      if name = edit.1 then some edit.2 else lastEdit edits name := by
  rw [lastEdit, reverse_concat, lookup_cons]
  split <;> simp_all [lastEdit]

variable {pair : Str × Str} {item : ResolvedAction} {limit : Nat}

section Pairs

variable {pairs : List (Str × Str)} {keep : Str × Str → Bool} {edit : Str × Option Str}

theorem filter_editPairs (h : ∀ value, keep (edit.1, value) = false) :
    (editPairs pairs edit).filter keep = pairs.filter keep := by
  obtain ⟨name, _ | value⟩ := edit
  · rw [editPairs, filter_filter]
    refine filter_congr fun pair _ => ?_
    by_cases hname : pair.1 = name
    · subst hname
      simp [h pair.2]
    · simp [hname]
  · rw [editPairs]
    induction pairs with
    | nil => simp [setCookie, h]
    | cons pair rest ih =>
      rw [setCookie]
      split
      next hname =>
        cases hname
        simp [h]
      · rw [filter_cons, filter_cons, ih]

variable (pairs) in
theorem filter_setCookie_self (name value : Str) :
    (setCookie pairs name value).filter (fun pair => pair.1 = name) =
      (name, value) :: (pairs.filter fun pair => pair.1 = name).tail := by
  induction pairs with
  | nil => simp [setCookie]
  | cons pair rest ih =>
    rw [setCookie]
    split
    next hname => simp [hname]
    next hname => simp [hname, ih]

variable (edits : List (Str × Option Str))

/-- The pairs that no edit names stay. -/
theorem filter_foldl_editPairs : ((edits.foldl editPairs pairs).filter
      fun pair => lastEdit edits pair.1 = none) =
    pairs.filter fun pair => lastEdit edits pair.1 = none := by
  induction edits using reverseRecOn with
  | nil => rfl
  | append_singleton edits edit ih =>
    have hsplit : ∀ pairs : List (Str × Str),
        pairs.filter (fun pair => lastEdit (edits ++ [edit]) pair.1 = none) =
          (pairs.filter fun pair => lastEdit edits pair.1 = none).filter
            fun pair => pair.1 ≠ edit.1 := by
      intro pairs
      rw [filter_filter]
      refine filter_congr fun pair _ => ?_
      by_cases hname : pair.1 = edit.1 <;> simp [lastEdit_concat, hname]
    rw [foldl_concat, filter_editPairs (by simp [lastEdit_concat]), hsplit, ih, ← hsplit]

/-- What the last edit of a name leaves of its pairs; behind the first there are only old ones. -/
def Remains (old : List (Str × Str)) (name : Str) : Option (Option Str) → List (Str × Str) → Prop
  | none, now => now ⊆ old
  | some none, now => now = []
  | some (some value), now => ∃ rest ⊆ old, now = (name, value) :: rest

theorem Remains.tail {name last now} (h : Remains pairs name last now) : now.tail ⊆ pairs := by
  obtain _ | _ | value := last
  · exact Subset.trans (tail_subset now) h
  · cases h
    exact nil_subset _
  · obtain ⟨rest, hrest, rfl⟩ := h
    exact hrest

variable (pairs) in
theorem remains_foldl_editPairs (name : Str) : Remains pairs name (lastEdit edits name)
    ((edits.foldl editPairs pairs).filter fun pair => pair.1 = name) := by
  induction edits using reverseRecOn with
  | nil => exact filter_subset_self _
  | append_singleton edits edit ih =>
    rw [foldl_concat, lastEdit_concat]
    by_cases hname : name = edit.1
    · obtain ⟨_, _ | value⟩ := edit <;> cases hname <;> rw [if_pos rfl, editPairs]
      · simp [Remains]
      · exact ⟨_, ih.tail, filter_setCookie_self _ _ _⟩
    · rwa [if_neg hname, filter_editPairs (by simpa using Ne.symm hname)]

/-- A pair was there before, or it was set and its value is the last one. -/
theorem mem_foldl_editPairs (h : pair ∈ edits.foldl editPairs pairs) :
    lastEdit edits pair.1 ≠ some none ∧
      (pair ∈ pairs ∨ lastEdit edits pair.1 = some (some pair.2)) := by
  have hremains := remains_foldl_editPairs pairs edits pair.1
  have hmem := mem_filter_of_mem (p := fun other => other.1 = pair.1) h (by simp)
  generalize (edits.foldl editPairs pairs).filter (fun other => other.1 = pair.1) = now at *
  generalize lastEdit edits pair.1 = last at *
  obtain _ | _ | value := last
  · exact ⟨nofun, .inl (hremains hmem)⟩
  · cases hremains
    cases hmem
  · obtain ⟨rest, hrest, rfl⟩ := hremains
    refine ⟨nofun, (mem_cons.mp hmem).symm.imp (hrest ·) fun heq => ?_⟩
    rw [heq]

/-- Keeping every element in its place, or losing some. -/
theorem filterMap_eq_self_iff {α : Type} {f} {l : List α} :
    l.filterMap f = l ↔ ∀ x ∈ l, f x = some x := by
  induction l with
  | nil => simp
  | cons x l ih =>
    rw [forall_mem_cons]
    cases hx : f x with
    | none =>
      rw [filterMap_cons_none hx]
      refine iff_of_false (fun h => ?_) (by simp)
      have hlen := length_filterMap_le f l
      rw [h, length_cons] at hlen
      omega
    | some y => simp [filterMap_cons_some hx, ih]

variable {read : Str → Option (Str × Str)} {before : List Str}

section Rewritten

variable (hread : ∀ pair ∈ edits.foldl editPairs (before.filterMap read),
  read (renderPair pair) = some pair)

include hread

theorem filterMap_rewritten :
    ((edits.foldl editPairs (before.filterMap read)).map renderPair).filterMap read =
      edits.foldl editPairs (before.filterMap read) := by
  rw [filterMap_map]
  exact (filterMap_congr hread).trans filterMap_some

/-- The texts of the edited pairs have all that was not edited where it is tidy. -/
theorem others_rewritten_iff :
    ((edits.foldl editPairs (before.filterMap read)).map renderPair).filter (unedited read edits) =
      before.filter (unedited read edits) ↔ Tidy read edits before := by
  have hnow : ((edits.foldl editPairs (before.filterMap read)).map renderPair).filter
      (unedited read edits) = (before.filter (unedited read edits)).filterMap
        fun text => (read text).map renderPair := by
    rw [filter_map, filter_congr,
      filter_foldl_editPairs, filter_filterMap, map_filterMap, filterMap_filter]
    · refine filterMap_congr fun text _ => ?_
      rw [unedited]
      cases read text with
      | none => simp
      | some pair => by_cases hlast : lastEdit edits pair.1 = none <;> simp [Option.filter]
    · intro pair hpair
      simp [unedited, hread pair hpair]
  rw [hnow, filterMap_eq_self_iff, Tidy]
  simp

/-- When the edit is exact, where more texts follow that are not rewritten. -/
theorem exactEdit_append_iff (rest : List Str) : ExactEdit read edits (before ++ rest)
      ((edits.foldl editPairs (before.filterMap read)).map renderPair ++ rest) ↔
    Tidy read edits before ∧ ∀ pair ∈ rest.filterMap read, lastEdit edits pair.1 ≠ some none := by
  rw [← others_rewritten_iff edits hread]
  refine ⟨fun h => ⟨?_, fun pair hpair => h.removed pair ?_⟩, fun h => ⟨?_, ?_⟩⟩
  · simpa using h.others
  · rw [filterMap_append]
    exact mem_append_right _ hpair
  · simpa using h.1
  · rw [filterMap_append, filterMap_rewritten edits hread]
    exact forall_mem_append.mpr ⟨fun pair hpair => (mem_foldl_editPairs edits hpair).1, h.2⟩

end Rewritten

end Pairs

/-! ### Query parameters -/

/-- The name and the value of a parameter; one without `=` has an empty value, and an empty text is
not read. -/
def readParameter (part : Str) : Option (Str × Str) :=
  if part.isEmpty then none else some ((splitOnce ['='] part).getD (part, []))

def parseQueryPairs (query : Str) : List (Str × Str) :=
  (splitOn (· == '&') query).filterMap readParameter

def queryPairsLength (pairs : List (Str × Str)) (limit : Nat) : Except IoError Nat :=
  pairs.foldlM (fun length pair =>
    match ((checkedAdd length (utf8Len pair.1)).bind (checkedAdd · 1)).bind
        (checkedAdd · (utf8Len pair.2)) with
    | none => .error (outputLimitError "query string" limit)
    | some length =>
      if limit < length then .error (outputLimitError "query string" limit) else .ok length)
    (pairs.length - 1)

/-- The query of these pairs; without any there is none. -/
def queryOfPairs (pairs : List (Str × Str)) : Option Str :=
  if pairs.isEmpty then none else some (['&'].intercalate (pairs.map renderPair))

/-- An operation with the text its value comes to. -/
def resolveQueryOp [RuleValues] (item : ResolvedAction) (limit : Nat) :
    QueryOp → Except IoError (Str × Option Str)
  | .set name value => do .ok (name, some (← resolveValueTextBounded value item limit))
  | .remove name => .ok (name, none)

/-- The query after the action `url.query`. -/
def applyUrlQuery [RuleValues] (config : ProxyConfig) (item : ResolvedAction) (query : Option Str)
    (ops : List QueryOp) : Except IoError (Option Str) := do
  let limit := ruleHeaderLimit config
  let pairs ← ops.foldlM (fun pairs op => do
    let pairs := editPairs pairs (← resolveQueryOp item limit op)
    let _ ← queryPairsLength pairs limit
    .ok pairs) (parseQueryPairs (query.getD []))
  let _ ← queryPairsLength pairs limit
  .ok (queryOfPairs pairs)

def deleteUrlParam (query : Option Str) (name : Str) : Option Str :=
  queryOfPairs (editPairs (parseQueryPairs (query.getD [])) (name, none))

/-- The texts of the parameters of a query. -/
def parameters : Option Str → List Str
  | none => []
  | some query => splitOn (· == '&') query

/-- The edits are exact, and the first parameter of a name that was set has the value. -/
def ExactQueryEdit (edits : List (Str × Option Str)) (before after : List Str) : Prop :=
  ExactEdit readParameter edits before after ∧
    ∀ name value, lastEdit edits name = some (some value) →
      ((after.filterMap readParameter).filter fun pair => pair.1 = name).head? = some (name, value)

/-- A pair that can be read back from a query. -/
def IsParameter (pair : Str × Str) : Prop := '=' ∉ pair.1 ∧ '&' ∉ renderPair pair

/-- What is set can be read back, and all other parameters are written with a `=`. -/
def QueryEditable (edits : List (Str × Option Str)) (before : List Str) : Prop :=
  (∀ name value, lastEdit edits name = some (some value) → IsParameter (name, value)) ∧
    Tidy readParameter edits before

theorem readParameter_renderPair (h : '=' ∉ pair.1) :
    readParameter (renderPair pair) = some pair := by
  rw [readParameter, renderPair, splitOnce_singleton.mpr ⟨rfl, h⟩]
  simp

theorem isParameter_of_mem {query} (h : pair ∈ (parameters query).filterMap readParameter) :
    IsParameter pair := by
  cases query with
  | none => cases h
  | some query =>
    obtain ⟨part, hpart, hpair⟩ := mem_filterMap.mp h
    have hclean := (notMem_and_subset_of_mem_splitOn hpart).1
    unfold readParameter at hpair
    split at hpair <;> cases hpair
    cases hcut : splitOnce ['='] part with
    | none =>
      rw [splitOnce_eq_none_iff, singleton_infix_iff] at hcut
      simpa [IsParameter, renderPair, hcut] using hclean
    | some cut =>
      obtain ⟨rfl, hname⟩ := splitOnce_singleton.mp hcut
      exact ⟨hname, hclean⟩

/-- Edits are exact for the queries they can be written into that have a `=` in all other
parameters. -/
theorem exactQueryEdit_iff (edits : List (Str × Option Str)) (query : Option Str) :
    ExactQueryEdit edits (parameters query)
      (parameters (queryOfPairs (edits.foldl editPairs (parseQueryPairs (query.getD []))))) ↔
    QueryEditable edits (parameters query) := by
  have hparse : parseQueryPairs (query.getD []) = (parameters query).filterMap readParameter := by
    cases query <;> rfl
  rw [hparse]
  have hset := remains_foldl_editPairs ((parameters query).filterMap readParameter) edits
  by_cases hsets : ∀ name value, lastEdit edits name = some (some value) → IsParameter (name, value)
  · have hclean : ∀ pair ∈ edits.foldl editPairs ((parameters query).filterMap readParameter),
        IsParameter pair := fun pair hpair =>
      (mem_foldl_editPairs edits hpair).2.elim isParameter_of_mem (hsets _ _)
    have hread := fun pair hpair => readParameter_renderPair (hclean pair hpair).1
    have hafter : ∀ {pairs}, (∀ pair ∈ pairs, IsParameter pair) →
        parameters (queryOfPairs pairs) = pairs.map renderPair := by
      intro pairs hclean
      cases pairs with
      | nil => rfl
      | cons pair rest =>
        exact splitOn_intercalate (cons_ne_nil _ _)
          (forall_mem_map.mpr fun pair hpair => (hclean pair hpair).2)
    have hexact := exactEdit_append_iff edits hread []
    rw [append_nil, append_nil, and_iff_left (by simp)] at hexact
    rw [hafter hclean, QueryEditable, and_iff_right hsets, ExactQueryEdit, hexact,
      filterMap_rewritten edits hread]
    refine and_iff_left fun name value hlast => ?_
    have hnow := hset name
    rw [hlast] at hnow
    obtain ⟨rest, -, hnow⟩ := hnow
    rw [hnow]
    rfl
  · refine iff_of_false (fun h => hsets fun name value hlast => ?_) fun h => hsets h.1
    exact isParameter_of_mem (mem_of_mem_filter (mem_of_head? (h.2 name value hlast)))

theorem foldlM_editPairs [RuleValues] {pairs ops result}
    (h : ops.foldlM (fun pairs op => do
      let pairs := editPairs pairs (← resolveQueryOp item limit op)
      let _ ← queryPairsLength pairs limit
      .ok pairs) pairs = (.ok result : Except IoError _)) :
    ∃ edits, List.Forall₂ (fun op edit => resolveQueryOp item limit op = .ok edit) ops edits ∧
      result = edits.foldl editPairs pairs := by
  induction ops generalizing pairs with
  | nil =>
    cases h
    exact ⟨[], .nil, rfl⟩
  | cons op ops ih =>
    obtain ⟨mid, hmid, h⟩ := do_eq_ok.mp h
    obtain ⟨edit, hedit, hmid⟩ := do_eq_ok.mp hmid
    obtain ⟨_, -, hmid⟩ := do_eq_ok.mp hmid
    cases hmid
    obtain ⟨edits, hedits, rfl⟩ := ih h
    exact ⟨edit :: edits, .cons hedit hedits, rfl⟩

/-- The edits of an action of the query, and of the removal of one parameter, are exact for the
queries that they can be written into and that have a `=` in all other parameters. -/
theorem query_edits_exact_iff [RuleValues] (config : ProxyConfig) (item : ResolvedAction)
    (query : Option Str) :
    (∀ ops result, applyUrlQuery config item query ops = .ok result → ∃ edits,
      List.Forall₂ (fun op edit => resolveQueryOp item (ruleHeaderLimit config) op = .ok edit)
        ops edits ∧
      (ExactQueryEdit edits (parameters query) (parameters result) ↔
        QueryEditable edits (parameters query))) ∧
    ∀ name, ExactQueryEdit [(name, none)] (parameters query)
        (parameters (deleteUrlParam query name)) ↔
      QueryEditable [(name, none)] (parameters query) := by
  refine ⟨fun ops result h => ?_, fun name => exactQueryEdit_iff [(name, none)] query⟩
  obtain ⟨pairs, hpairs, h⟩ := do_eq_ok.mp h
  obtain ⟨_, -, h⟩ := do_eq_ok.mp h
  cases h
  obtain ⟨edits, hedits, rfl⟩ := foldlM_editPairs hpairs
  exact ⟨edits, hedits, exactQueryEdit_iff edits query⟩

/-- The action `url.query(-a)`. -/
def removeA : ResolvedAction :=
  ⟨.urlQuery [.remove "a"], ⟨"default", 1, "* url.query(-a)"⟩, .default, none⟩

theorem removeA_exact : ExactQueryEdit [("a", none)] ["a=1", "b=2"] ["b=2"] := by
  obtain ⟨edits, hedits, hiff⟩ := (@query_edits_exact_iff inlineValues ⟨4096, 64, 1024⟩ removeA
    (some "a=1&b=2")).1 [.remove "a"] (some "b=2") (by decide +kernel)
  cases hedits with
  | cons hedit hnil =>
    cases hnil
    cases hedit
    refine hiff.mpr ⟨fun name value h => ?_, by unfold Tidy; decide +kernel⟩
    rw [lastEdit, reverse_singleton, lookup_cons] at h
    split at h <;> cases h

/-- The flag `b` and the empty parameter in front of it are not what they were. -/
theorem removeA_changes_others : @applyUrlQuery inlineValues ⟨4096, 64, 1024⟩ removeA
    (some "a=1&&b") [.remove "a"] = .ok (some "b=") := by
  decide +kernel

/-! ### Cookies -/

/-- The texts of the cookies of one field. -/
def cookieTexts (value : Str) : List Str :=
  ((splitOn (· == ';') value).map trim).filter (!·.isEmpty)

/-- The name and the value of a cookie; one without `=` has none. -/
def cookiePair (text : Str) : Option (Str × Str) :=
  (splitOnce ['='] text).map fun (name, value) => (trim name, trim value)

/-- The values of the cookie fields, in order. -/
def cookieFields (headers : Headers) : List Str := (headers.filter (named "cookie")).map Prod.snd

/-- The edit is exact, and a cookie that was set is there and has no other value. -/
def ExactCookieEdit (edit : Str × Option Str) (before after : List Str) : Prop :=
  ExactEdit cookiePair [edit] before after ∧ ∀ value, edit.2 = some value →
    ((after.filterMap cookiePair).filter fun pair => pair.1 = edit.1) ≠ [] ∧
    ∀ pair ∈ (after.filterMap cookiePair).filter fun pair => pair.1 = edit.1, pair.2 = value

/-- A pair that can be read back from a cookie field. -/
structure IsCookie (pair : Str × Str) : Prop where
  name : '=' ∉ pair.1
  separator : ';' ∉ renderPair pair
  trimmed : trim pair.1 = pair.1 ∧ trim pair.2 = pair.2

/-- The texts of the first field are tidy. A cookie that is set can be read back and has its value
wherever else it stands; one that is removed does not stand in other fields, unless nothing else is
left of the first one: then nothing else may stand there. -/
def CookiesEditable (first rest : List Str) (edit : Str × Option Str) : Prop :=
  Tidy cookiePair [edit] first ∧
  match edit with
  | (name, some value) => IsCookie (name, value) ∧
      ∀ pair ∈ ((first.filterMap cookiePair).filter fun pair => pair.1 = name).tail ++
        (rest.filterMap cookiePair).filter fun pair => pair.1 = name, pair.2 = value
  | (name, none) =>
      if (first.filterMap cookiePair).all (·.1 == name) then
        rest.filter (unedited cookiePair [edit]) = []
      else ∀ pair ∈ rest.filterMap cookiePair, pair.1 ≠ name

theorem parseCookieHeader_eq :
    parseCookieHeader value = (cookieTexts value).filterMap cookiePair := by
  unfold cookieTexts
  rw [filterMap_filter, filterMap_map]
  refine filterMap_congr fun part _ => ?_
  rw [Function.comp_apply]
  split
  · rfl
  next h =>
    have hempty : trim part = [] := by simpa using h
    rw [hempty]
    rfl

theorem cookiePair_renderPair (h : IsCookie pair) : cookiePair (renderPair pair) = some pair := by
  rw [cookiePair, renderPair, splitOnce_singleton.mpr ⟨rfl, h.name⟩]
  exact congrArg some (Prod.ext h.trimmed.1 h.trimmed.2)

theorem trim_renderPair (h : IsCookie pair) : trim (renderPair pair) = renderPair pair := by
  obtain ⟨name, value⟩ := pair
  have hname := (trimMatches_eq_self_iff.mp h.trimmed.1).1
  have hvalue := (trimMatches_eq_self_iff.mp h.trimmed.2).2
  refine trimMatches_eq_self_iff.mpr ⟨?_, ?_⟩
  · cases name with
    | nil => simp [renderPair, isWhitespace]
    | cons c cs => simpa [renderPair] using hname
  · rcases eq_nil_or_concat value with rfl | ⟨cs, c, rfl⟩
    · simp [renderPair, isWhitespace]
    · simpa [renderPair, getLast?_cons] using hvalue

theorem mem_cookieTexts (h : text ∈ cookieTexts value) : ';' ∉ text ∧ trim text = text := by
  obtain ⟨part, hpart, rfl⟩ := mem_map.mp (mem_of_mem_filter h)
  exact ⟨fun hmem => (notMem_and_subset_of_mem_splitOn hpart).1 (trimMatches_sublist.subset hmem),
    trimMatches_idem⟩

theorem isCookie_of_cookiePair (h : cookiePair text = some pair) (hclean : ';' ∉ text) :
    IsCookie pair := by
  obtain ⟨⟨name, value⟩, hsplit, rfl⟩ := Option.map_eq_some_iff.mp h
  obtain ⟨rfl, hname⟩ := splitOnce_singleton.mp hsplit
  refine ⟨fun hmem => hname (trimMatches_sublist.subset hmem), fun hmem => hclean ?_,
    trimMatches_idem, trimMatches_idem⟩
  rw [renderPair, mem_append, mem_cons] at hmem
  rw [mem_append, mem_cons]
  exact hmem.imp (fun h => trimMatches_sublist.subset h)
    (Or.imp id fun h => trimMatches_sublist.subset h)

theorem isCookie_of_mem {fields : List Str}
    (h : pair ∈ (fields.flatMap cookieTexts).filterMap cookiePair) :
    IsCookie pair := by
  obtain ⟨text, htext, hpair⟩ := mem_filterMap.mp h
  obtain ⟨field, -, htext⟩ := mem_flatMap.mp htext
  exact isCookie_of_cookiePair hpair (mem_cookieTexts htext).1

/-- Clean pairs are read back from the field they are written into. -/
theorem cookieTexts_intercalate {pairs : List (Str × Str)} (h : ∀ pair ∈ pairs, IsCookie pair) :
    cookieTexts ("; ".toList.intercalate (pairs.map renderPair)) = pairs.map renderPair := by
  have hblank : ∀ text, cookieTexts (' ' :: text) = cookieTexts text := by
    intro text
    have htrim := trim_blank text
    unfold cookieTexts trim at *
    rw [← map_trimMatches_splitOn (by decide) text, ← htrim, map_trimMatches_splitOn (by decide)]
    rfl
  induction pairs with
  | nil => rfl
  | cons pair rest ih =>
    rw [forall_mem_cons] at h
    have hne : (renderPair pair).isEmpty = false := by simp [renderPair]
    cases rest with
    | nil =>
      rw [map_singleton, intercalate_singleton, cookieTexts,
        splitOn_of_notMem h.1.separator, map_singleton, trim_renderPair h.1]
      simp [hne]
    | cons next rest =>
      have hsep : "; ".toList.intercalate ((pair :: next :: rest).map renderPair) =
          renderPair pair ++
            ';' :: ' ' :: "; ".toList.intercalate ((next :: rest).map renderPair) := by
        simp
      have hrest := ih h.2
      rw [← hblank] at hrest
      rw [hsep, cookieTexts, splitOn_append_cons h.1.separator, map_cons, trim_renderPair h.1,
        filter_cons, hne]
      exact congrArg (renderPair pair :: ·) hrest

theorem pushTextBounded_ok {out out' label} (h : pushTextBounded out text limit label = .ok out') :
    out' = out ++ text := by
  unfold pushTextBounded at h
  split at h
  · split at h <;> cases h
    rfl
  · cases h

variable {rendered : Str}

theorem renderRequestCookies_ok {cookies} (h : renderRequestCookies cookies limit = .ok rendered) :
    rendered = "; ".toList.intercalate (cookies.map renderPair) := by
  have hjoin : ∀ a b rest, "; ".toList.intercalate ((a ++ b) :: rest) =
      a ++ "; ".toList.intercalate (b :: rest) := by
    intro a b rest
    cases rest <;> simp
  have hrun : ∀ (cookies : List (Str × Str)) index (out : Str),
      (cookies.zipIdx index).foldlM (fun out entry => do
        let out ← if 0 < entry.2 then pushTextBounded out "; " limit "Cookie header"
          else .ok out
        let out ← pushTextBounded out entry.1.1 limit "Cookie header"
        let out ← pushTextBounded out "=" limit "Cookie header"
        pushTextBounded out entry.1.2 limit "Cookie header") out = .ok rendered →
      rendered = if index = 0 then out ++ "; ".toList.intercalate (cookies.map renderPair)
        else "; ".toList.intercalate (out :: cookies.map renderPair) := by
    intro cookies
    induction cookies with
    | nil =>
      rintro index out ⟨⟩
      simp
    | cons cookie cookies ih =>
      intro index out h
      obtain ⟨next, hnext, h⟩ := do_eq_ok.mp h
      dsimp only at hnext
      rw [ih _ _ h, if_neg (Nat.succ_ne_zero index)]
      split at hnext
      all_goals
        obtain ⟨first, hfirst, hnext⟩ := do_eq_ok.mp hnext
        obtain ⟨second, hsecond, hnext⟩ := do_eq_ok.mp hnext
        obtain ⟨third, hthird, hnext⟩ := do_eq_ok.mp hnext
        have hcookie : next = first ++ renderPair cookie := by
          rw [pushTextBounded_ok hnext, pushTextBounded_ok hthird, pushTextBounded_ok hsecond]
          simp [renderPair]
        rw [hcookie, hjoin]
      · rw [pushTextBounded_ok hfirst, if_neg (by omega), map_cons, intercalate_cons_cons]
      · cases hfirst
        rw [if_pos (by omega), map_cons]
  exact hrun cookies 0 [] h

/-- The cookie fields after an edit of the first one: all are gone where it has no pair left. -/
def editedFields (fields : List Str) (edit : Str × Option Str) : List Str :=
  let pairs := editPairs (parseCookieHeader (fields.headD [])) edit
  if pairs.isEmpty then [] else "; ".toList.intercalate (pairs.map renderPair) :: fields.tail

def resolveCookieOp [RuleValues] (item : ResolvedAction) (limit : Nat) :
    CookieOp → Except IoError (Str × Option Str)
  | .set name value _ => do .ok (name, some (← resolveValueTextBounded value item limit))
  | .remove name => .ok (name, none)

variable {headers : Headers}

theorem parseCookieHeader_header :
    ((header headers "cookie").map parseCookieHeader).getD [] =
      parseCookieHeader ((cookieFields headers).headD []) := by
  rw [header_eq_head?, cookieFields]
  cases headers.filter (named "cookie") <;> rfl

theorem cookieFields_edited {pairs : List (Str × Str)} :
    cookieFields (if pairs.isEmpty then removeHeader headers "cookie"
      else setHeader headers "Cookie" rendered) =
    if pairs.isEmpty then [] else rendered :: (cookieFields headers).tail := by
  unfold cookieFields
  split
  · rw [filter_removeHeader_self]
    rfl
  · rw [filter_setHeader_of_eq (by decide)]
    cases headers.filter (named "cookie") <;> rfl

theorem cookieFields_removeRequestCookie {name} :
    cookieFields (removeRequestCookie headers name) =
      editedFields (cookieFields headers) (name, none) := by
  unfold removeRequestCookie
  rw [parseCookieHeader_header]
  exact cookieFields_edited

theorem cookieFields_applyReqCookie [RuleValues] {config op headers'}
    (h : applyReqCookie config headers op item = .ok headers') :
    ∃ edit, resolveCookieOp item (ruleHeaderLimit config) op = .ok edit ∧
      cookieFields headers' = editedFields (cookieFields headers) edit := by
  obtain ⟨cookies, hcookies, h⟩ := do_eq_ok.mp h
  rw [parseCookieHeader_header] at hcookies
  obtain ⟨edit, hedit, rfl⟩ : ∃ edit, resolveCookieOp item (ruleHeaderLimit config) op = .ok edit ∧
      cookies = editPairs (parseCookieHeader ((cookieFields headers).headD [])) edit := by
    cases op with
    | set name value attrs =>
      obtain ⟨text, htext, hcookies⟩ := do_eq_ok.mp hcookies
      cases hcookies
      exact ⟨_, do_eq_ok.mpr ⟨text, htext, rfl⟩, rfl⟩
    | remove name =>
      cases hcookies
      exact ⟨_, rfl, rfl⟩
  refine ⟨edit, hedit, ?_⟩
  rw [editedFields, ← cookieFields_edited]
  split at h
  next hempty =>
    cases h
    rw [if_pos hempty]
  next hempty =>
    obtain ⟨rendered, hrendered, h⟩ := do_eq_ok.mp h
    cases h
    rw [if_neg hempty, renderRequestCookies_ok hrendered]

theorem lastEdit_singleton (edit : Str × Option Str) (name : Str) :
    lastEdit [edit] name = if name = edit.1 then some edit.2 else none :=
  lastEdit_concat [] edit name

/-- An edit of the cookies is exact where it can be written and finds nothing that it would lose. -/
theorem exactCookieEdit_iff {fields edit} :
    ExactCookieEdit edit (fields.flatMap cookieTexts)
      ((editedFields fields edit).flatMap cookieTexts) ↔
    CookiesEditable (cookieTexts (fields.headD [])) (fields.tail.flatMap cookieTexts) edit := by
  have hsplit : fields.flatMap cookieTexts =
      cookieTexts (fields.headD []) ++ fields.tail.flatMap cookieTexts := by
    cases fields <;> rfl
  have hold : ∀ pair ∈ ([fields.headD []].flatMap cookieTexts).filterMap cookiePair,
      IsCookie pair := fun pair => isCookie_of_mem
  have hafter : ∀ pair ∈ ((editedFields fields edit).flatMap cookieTexts).filterMap cookiePair,
      IsCookie pair := fun pair => isCookie_of_mem
  rw [flatMap_singleton] at hold
  rw [hsplit]
  rw [editedFields, parseCookieHeader_eq] at hafter ⊢
  generalize cookieTexts (fields.headD []) = first at *
  generalize fields.tail = fields at *
  obtain ⟨name, _ | value⟩ := edit
  · -- A cookie is removed.
    have hclean : ∀ pair ∈ editPairs (first.filterMap cookiePair) (name, none), IsCookie pair :=
      fun pair hpair => hold pair (mem_of_mem_filter hpair)
    have hread := fun pair hpair => cookiePair_renderPair (hclean pair hpair)
    have hempty : ∀ pairs,
        (editPairs pairs (name, none)).isEmpty = pairs.all (·.1 == name) := by
      intro pairs
      rw [editPairs, Bool.eq_iff_iff]
      simp
    rw [ExactCookieEdit, and_iff_left nofun, CookiesEditable, ← hempty]
    split
    next hnone =>
      have hothers := others_rewritten_iff [(name, none)] hread
      rw [foldl_cons, isEmpty_iff.mp hnone] at hothers
      rw [← hothers]
      refine ⟨fun h => ?_, fun h => ⟨?_, nofun⟩⟩
      · have hnil := append_eq_nil_iff.mp ((filter_append _ _).symm.trans h.others.symm)
        exact ⟨hnil.1.symm, hnil.2⟩
      · exact ((filter_append _ _).trans (by rw [← h.1, h.2]; rfl)).symm
    next =>
      rw [flatMap_cons, cookieTexts_intercalate hclean]
      refine (exactEdit_append_iff [(name, none)] hread _).trans (and_congr_right' ?_)
      simp [lastEdit_singleton]
  · -- A cookie is set.
    have hself := filter_setCookie_self (first.filterMap cookiePair) name value
    have hne : ¬ (editPairs (first.filterMap cookiePair) (name, some value)).isEmpty := by
      intro hempty
      rw [editPairs, List.isEmpty_iff] at hempty
      rw [hempty] at hself
      cases hself
    rw [if_neg hne] at hafter ⊢
    by_cases hpair : IsCookie (name, value)
    · have hclean : ∀ pair ∈ editPairs (first.filterMap cookiePair) (name, some value),
          IsCookie pair := by
        intro pair hmem
        rcases (mem_foldl_editPairs [(name, some value)] hmem).2 with hmem | hlast
        · exact hold pair hmem
        · rw [lastEdit_singleton] at hlast
          split at hlast <;> cases hlast
          rename_i hname
          cases hname
          exact hpair
      have hread := fun pair hmem => cookiePair_renderPair (hclean pair hmem)
      have hexact := exactEdit_append_iff [(name, some value)] hread
        (fields.flatMap cookieTexts)
      rw [and_iff_left (by simp [lastEdit_singleton])] at hexact
      have hpairs := filterMap_rewritten [(name, some value)] hread
      rw [foldl_cons, foldl_nil] at hexact hpairs
      rw [ExactCookieEdit, CookiesEditable, flatMap_cons, cookieTexts_intercalate hclean, hexact,
        and_iff_right hpair, filterMap_append, hpairs, filter_append, editPairs]
      rw [hself]
      refine and_congr_right' ⟨fun h => (forall_mem_cons.mp (h value rfl).2).2, ?_⟩
      rintro h _ ⟨⟩
      exact ⟨cons_ne_nil _ _, forall_mem_cons.mpr ⟨rfl, h⟩⟩
    · refine iff_of_false (fun h => hpair ?_) fun h => hpair h.2.1
      obtain ⟨hne, hall⟩ := h.2 value rfl
      obtain ⟨⟨key, old⟩, hmem⟩ := exists_mem_of_ne_nil _ hne
      cases hall _ hmem
      obtain ⟨hmem, hname⟩ := mem_filter.mp hmem
      cases of_decide_eq_true hname
      exact hafter _ hmem

/-- A request action on a cookie, and the removal of one, is exact where it can be written and finds
nothing that it would lose. -/
theorem cookie_edits_exact_iff [RuleValues] (config : ProxyConfig) (item : ResolvedAction)
    (headers : Headers) :
    (∀ op headers', applyReqCookie config headers op item = .ok headers' → ∃ edit,
      resolveCookieOp item (ruleHeaderLimit config) op = .ok edit ∧
      (ExactCookieEdit edit ((cookieFields headers).flatMap cookieTexts)
        ((cookieFields headers').flatMap cookieTexts) ↔
      CookiesEditable (cookieTexts ((cookieFields headers).headD []))
        ((cookieFields headers).tail.flatMap cookieTexts) edit)) ∧
    ∀ name, ExactCookieEdit (name, none) ((cookieFields headers).flatMap cookieTexts)
        ((cookieFields (removeRequestCookie headers name)).flatMap cookieTexts) ↔
      CookiesEditable (cookieTexts ((cookieFields headers).headD []))
        ((cookieFields headers).tail.flatMap cookieTexts) (name, none) := by
  refine ⟨fun op headers' h => ?_, fun name => ?_⟩
  · obtain ⟨edit, hedit, hfields⟩ := cookieFields_applyReqCookie h
    rw [hfields]
    exact ⟨edit, hedit, exactCookieEdit_iff⟩
  · rw [cookieFields_removeRequestCookie]
    exact exactCookieEdit_iff

/-- The action `req.cookie(-a)`. -/
def removeCookieA : ResolvedAction :=
  ⟨.reqCookie (.remove "a"), ⟨"default", 1, "* req.cookie(-a)"⟩, .default, none⟩

theorem removeCookieA_exact : ExactCookieEdit ("a", none) ["a=1", "b=2"] ["b=2"] := by
  obtain ⟨edit, hedit, hiff⟩ := (@cookie_edits_exact_iff inlineValues ⟨4096, 64, 1024⟩ removeCookieA
    [("Cookie", "a=1; b=2")]).1 (.remove "a") [("Cookie", "b=2")]
    (by decide +kernel)
  cases hedit
  refine hiff.mpr ?_
  unfold CookiesEditable Tidy
  decide +kernel

/-- The flag of the first field is lost and the cookie of the second field stays; where nothing is
left of the first field the second one goes with it. -/
theorem removeCookieA_inexact :
    @applyReqCookie inlineValues ⟨4096, 64, 1024⟩ [("cookie", "a=1; flag; b=2"),
      ("cookie", "a=3")] (.remove "a") removeCookieA =
      .ok [("cookie", "b=2"), ("cookie", "a=3")] ∧
    removeRequestCookie [("cookie", "a=1"), ("cookie", "b=2")] "a" = [] := by
  decide +kernel

/-! ### Path segments -/

/-- The segments of a path, behind its first slash. -/
def pathSegments (path : Str) : List Str := splitOn (· == '/') ((stripPrefix ['/'] path).getD path)

/-- The place a selector names among this many segments; from the end if it is negative. -/
def segmentIndex (len : Int) : DeletePathSegment → Int
  | .index i => if i < 0 then len + i else i
  | .last => len - 1

def deletePathSegments (path : Str) (operations : List DeletePathSegment) : Str :=
  let segments := pathSegments path
  let len : Int := segments.length
  let removed := (operations.map (segmentIndex len)).filter fun index => 0 ≤ index ∧ index < len
  let kept := (segments.zipIdx.filter fun segment => !removed.contains ↑segment.2).map Prod.fst
  let preserveTrailingSlash := operations.contains .last
  let kept := if preserveTrailingSlash && kept.getLast?.any (!·.isEmpty) then kept ++ [[]] else kept
  '/' :: ['/'].intercalate kept

/-- Does a selector ask for the segment at this place? By its number from the front or from the end,
or as the last segment that is not empty. -/
def asksFor (segments : List Str) (place : Nat) : DeletePathSegment → Bool
  | .index i => i = place || i + segments.length = place
  | .last => segments[place]? ≠ some [] && (segments.drop (place + 1)).all (· = [])

/-- The segments that no selector asks for stand in their order, each behind a slash. A slash closes
the path if nothing remains or `last` is used, unless there is one. -/
def remainingPath (path : Str) (operations : List DeletePathSegment) : Str :=
  let segments := pathSegments path
  let text := (segments.zipIdx.filter fun segment =>
    !operations.any (asksFor segments segment.2)).flatMap ('/' :: ·.1)
  if text.getLast? = some '/' ∨ text ≠ [] ∧ .last ∉ operations then text else text ++ ['/']

variable {segments kept : List Str} {place : Nat}

theorem join_eq (hne : kept ≠ []) : '/' :: ['/'].intercalate kept = kept.flatMap ('/' :: ·) := by
  induction kept with
  | nil => exact absurd rfl hne
  | cons first rest ih =>
    cases rest with
    | nil => simp
    | cons second rest =>
      rw [intercalate_cons_cons, flatMap_cons, ← ih (cons_ne_nil _ _)]
      simp

/-- The slash at the end is one of the text, not of the segments. -/
theorem join_closed (h : ∀ segment ∈ kept, '/' ∉ segment) (slash : Bool) :
    '/' :: ['/'].intercalate
        (if slash && kept.getLast?.any (!·.isEmpty) then kept ++ [[]] else kept) =
      let text := kept.flatMap ('/' :: ·)
      if text.getLast? = some '/' ∨ text ≠ [] ∧ slash = false then text else text ++ ['/'] := by
  rcases eq_nil_or_concat kept with rfl | ⟨init, last, rfl⟩
  · simp
  have hlast : last ≠ [] → last.getLast? ≠ some '/' := fun _ hslash =>
    h last (by simp) (mem_of_getLast? hslash)
  rw [join_eq (by split <;> simp)]
  cases last with
  | nil => simp
  | cons c last => cases slash <;> simp [hlast]

/-- Unless an empty segment is the last one, a selector asks for the segment that it names. -/
theorem asksFor_iff {operation} (hplace : place < segments.length)
    (hlast : operation = .last → segments.getLast? ≠ some []) :
    asksFor segments place operation ↔ segmentIndex segments.length operation = place := by
  cases operation with
  | index i =>
    simp only [asksFor, segmentIndex, Bool.or_eq_true, decide_eq_true_eq]
    split <;> omega
  | last =>
    have hlast := hlast rfl
    rw [getLast?_eq_getElem?] at hlast
    simp only [asksFor, segmentIndex, Bool.and_eq_true, decide_eq_true_eq, all_eq_true]
    constructor
    · rintro ⟨-, hafter⟩
      by_contra hne
      refine hlast (List.getElem?_eq_some_iff.mpr ⟨by omega, hafter _ ?_⟩)
      refine mem_drop_iff_getElem.mpr ⟨segments.length - 1 - (place + 1), by omega, ?_⟩
      congr 1
      omega
    · intro hplace'
      obtain rfl : place = segments.length - 1 := by omega
      rw [Nat.sub_add_cancel (by omega), drop_length]
      exact ⟨hlast, forall_mem_nil _⟩

end RsProxy.Engine
