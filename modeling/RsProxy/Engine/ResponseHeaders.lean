import RsProxy.Engine.Finish

/-!
# The header list of a response on its way to the client

What the proxy removes from the header list of an upstream response is about its own connections and
about the framing; every other field reaches the client. A list whose length fields agree can be
written again.
-/

namespace RsProxy.Engine

open Text Io Net List
open Data (do_eq_ok forall_of_foldlM_eq_ok)
open Rules (usizeMax isHttpTokenChar)

/-! ### Header lists on their way -/

/-- Fields that are not about the connection or the framing. -/
def endToEnd (headers : Headers) (field : Str × Str) : Bool :=
  !isCompleteResponseManagedHeader field.1 &&
    !(connectionNames headers).any fun name => eqIgnoreAsciiCase name field.1

variable {name : Str}

theorem blind_managed (h : isCompleteResponseManagedHeader name) {headers} :
    Blind (endToEnd headers) name := by
  intro field hfield
  rw [endToEnd, isCompleteResponseManagedHeader_congr hfield, h]
  rfl

theorem blind_nominated {headers} (h : name ∈ connectionNames headers) :
    Blind (endToEnd headers) name := by
  intro field hfield
  have hany : ((connectionNames headers).any fun name => eqIgnoreAsciiCase name field.1) := by
    refine any_eq_true.mpr ⟨name, h, ?_⟩
    simp only [named, eqIgnoreAsciiCase, beq_iff_eq] at hfield ⊢
    exact hfield.symm
  rw [endToEnd, hany, Bool.not_true, Bool.and_false]

/-- The names that are removed from every response. -/
def hopByHopNames : List Str :=
  ["connection", "keep-alive", "proxy-connection", "te", "trailer", "transfer-encoding",
    "upgrade"].map String.toList

theorem stripHopByHopHeaders_eq {headers} : stripHopByHopHeaders headers =
    hopByHopNames.foldl removeHeader ((connectionNames headers).foldl removeHeader headers) := by
  rfl

section

variable (headers : Headers)

theorem filter_strip :
    (stripHopByHopHeaders headers).filter (endToEnd headers) =
      headers.filter (endToEnd headers) := by
  have hmanaged : ∀ name ∈ hopByHopNames, isCompleteResponseManagedHeader name := by decide
  rw [stripHopByHopHeaders_eq,
    filter_foldl_removeHeader fun name hname => blind_managed (hmanaged name hname),
    filter_foldl_removeHeader fun name hname => blind_nominated hname]

theorem strip_sublist : (stripHopByHopHeaders headers).Sublist headers := by
  rw [stripHopByHopHeaders_eq]
  exact (foldl_removeHeader_sublist _ _).trans (foldl_removeHeader_sublist _ _)

/-- A name that was removed does not come back. -/
theorem filter_foldl_removeHeader_eq_nil {names : List Str} (h : name ∈ names) (headers : Headers) :
    (names.foldl removeHeader headers).filter (named name) = [] := by
  induction names generalizing headers with
  | nil => cases h
  | cons first names ih =>
    rcases mem_cons.mp h with rfl | h
    · exact eq_nil_of_sublist_nil
        (filter_removeHeader_self headers name ▸ (foldl_removeHeader_sublist names _).filter _)
    · exact ih h _

theorem strip_uncoded : (stripHopByHopHeaders headers).filter (named "transfer-encoding") = [] := by
  rw [stripHopByHopHeaders_eq]
  exact filter_foldl_removeHeader_eq_nil (by decide) _

theorem filter_prepareStreamingBody (original headers : Headers) :
    (prepareStreamingBodyHeaders headers).filter (endToEnd original) =
      headers.filter (endToEnd original) := by
  rw [prepareStreamingBodyHeaders, (blind_managed (by decide)).filter_removeHeader,
    (blind_managed (by decide)).filter_removeHeader,
    (blind_managed (by decide)).filter_removeHeader]

theorem prepareStreamingBody_sublist : (prepareStreamingBodyHeaders headers).Sublist headers :=
  (filter_sublist.trans filter_sublist).trans filter_sublist

theorem connectionNames_prepareStreamingBody :
    connectionNames (prepareStreamingBodyHeaders headers) = connectionNames headers := by
  have hblind : ∀ name, eqIgnoreAsciiCase name "connection" = false →
      Blind (named "connection") name := fun _ h => blind_named h
  rw [connectionNames, connectionNames, prepareStreamingBodyHeaders,
    (hblind _ (by decide)).filter_removeHeader, (hblind _ (by decide)).filter_removeHeader,
    (hblind _ (by decide)).filter_removeHeader]

theorem filter_strip_prepareStreamingBody :
    (stripHopByHopHeaders (prepareStreamingBodyHeaders headers)).filter (endToEnd headers) =
      headers.filter (endToEnd headers) := by
  have hsame : endToEnd (prepareStreamingBodyHeaders headers) = endToEnd headers := by
    funext field
    rw [endToEnd, endToEnd, connectionNames_prepareStreamingBody]
  have hstrip := filter_strip (prepareStreamingBodyHeaders headers)
  rw [hsame] at hstrip
  rw [hstrip, filter_prepareStreamingBody]

theorem uncoded_prepareStreamingBody :
    (prepareStreamingBodyHeaders headers).filter (named "transfer-encoding") = [] := by
  rw [prepareStreamingBodyHeaders, filter_removeHeader_of_ne (by decide), filter_removeHeader_self]

end

theorem not_hasChunked_of_uncoded {headers} (h : headers.filter (named "transfer-encoding") = []) :
    hasChunkedTransferEncoding headers = false := by
  rw [hasChunkedTransferEncoding, header_eq_head?, h]
  rfl

theorem hasChunked_of_coded {headers : Headers}
    (h : headers.filter (named "transfer-encoding") = [(name, "chunked".toList)]) :
    hasChunkedTransferEncoding headers := by
  rw [hasChunkedTransferEncoding, header_eq_head?, h]
  change ((splitOn (· == ',') "chunked").any fun part =>
    eqIgnoreAsciiCase (trim part) "chunked")
  decide

/-! ### Lengths -/

/-- Every length field of the list spells this length. -/
def DeclaresLength (headers : Headers) (length : Nat) : Prop :=
  ∀ field ∈ headers, named "content-length" field →
    IsNumeral 10 field.2 ∧ parseUsize field.2 = some length

variable {length : Nat}

theorem DeclaresLength.mono {headers smaller} (h : DeclaresLength headers length)
    (hsub : smaller.Sublist headers) :
    DeclaresLength smaller length :=
  fun field hfield => h field (hsub.subset hfield)

theorem fieldOk_of_validateHeaderBlock {config headers}
    (h : validateHeaderBlock config headers = .ok ()) : ∀ field ∈ headers, FieldOk field := by
  unfold validateHeaderBlock at h
  split_ifs at h
  obtain ⟨total, htotal, -⟩ := do_eq_ok.mp h
  refine forall_of_foldlM_eq_ok (fun bytes field total hstep => ?_) htotal
  unfold addHeaderBytes at hstep
  split at hstep
  · cases hstep
  next hname =>
    split_ifs at hstep with hvalue
    rw [Bool.or_eq_true, not_or, List.isEmpty_iff, Bool.not_eq_true', Bool.not_eq_false] at hname
    rw [Bool.not_eq_true', Bool.not_eq_false] at hvalue
    exact ⟨hname.1, hname.2, hvalue⟩

variable {value : Str}

/-- A numeral stands for itself in a list of elements. -/
theorem listElement_numeral (h : IsNumeral 10 value) :
    (splitOn (· == ',') value).map trim = [value] := by
  have hcomma : ',' ∉ value := by
    intro hmem
    have := range_of_digitOf (by decide) (h.2 ',' hmem)
    revert this
    decide
  rw [splitOn_of_notMem hcomma, map_singleton, trim,
    trimMatches_of_forall (h.not_isWhitespace (by decide))]

variable {declared : Option Nat}

theorem declareLength_numeral (hnum : IsNumeral 10 value) (hparse : parseUsize value = some length)
    (hdeclared : declared = none ∨ declared = some length) :
    declareLength declared value = .ok (some length) := by
  have hdigits : value.all Char.isDigit :=
    all_eq_true.mpr fun c hc => isDigit_of_digitOf (hnum.2 c hc)
  have hparse : parseU64 value = some length := hparse
  rw [declareLength, hdigits, hparse]
  rcases hdeclared with rfl | rfl <;> simp [hnum.1]

theorem foldlM_declareLength {values : List Str}
    (hvalues : ∀ value ∈ values, IsNumeral 10 value ∧ parseUsize value = some length)
    (hdeclared : declared = none ∨ declared = some length) :
    values.foldlM declareLength declared =
      .ok (if values.isEmpty then declared else some length) := by
  induction values generalizing declared with
  | nil => rfl
  | cons value values ih =>
    rw [forall_mem_cons] at hvalues
    rw [foldlM_cons, declareLength_numeral hvalues.1.1 hvalues.1.2 hdeclared]
    change values.foldlM declareLength (some length) = _
    rw [ih hvalues.2 (.inr rfl), ite_self]
    rfl

/-- The elements of a list of lengths are its fields. -/
theorem DeclaresLength.listElements {headers} (h : DeclaresLength headers length) :
    listElements headers "content-length" =
      (headers.filter (named "content-length")).map Prod.snd := by
  rw [map_eq_flatMap]
  apply flatMap_congr
  intro field hfield
  obtain ⟨hmem, hnamed⟩ := mem_filter.mp hfield
  exact listElement_numeral (h field hmem hnamed).1

theorem validateStreamingFraming_ok {headers} (hlength : DeclaresLength headers length)
    (hone : headers.filter (named "content-length") = [] ∨
      headers.filter (named "transfer-encoding") = []) :
    ∃ declared, validateStreamingFraming headers = .ok declared := by
  have hvalues : ∀ value ∈ (headers.filter (named "content-length")).map Prod.snd,
      IsNumeral 10 value ∧ parseUsize value = some length := by
    intro value hvalue
    obtain ⟨field, hfield, rfl⟩ := mem_map.mp hvalue
    obtain ⟨hmem, hnamed⟩ := mem_filter.mp hfield
    exact hlength field hmem hnamed
  rw [validateStreamingFraming, hlength.listElements, foldlM_declareLength hvalues (.inl rfl)]
  refine ⟨_, if_neg fun hboth => ?_⟩
  rw [Bool.and_eq_true] at hboth
  rcases hone with hnone | hnone
  · rw [hnone] at hboth
    exact absurd hboth.1 (by simp)
  · obtain ⟨field, hfield, hnamed⟩ := any_eq_true.mp hboth.2
    have hmem := mem_filter.mpr ⟨hfield, hnamed⟩
    rw [hnone] at hmem
    cases hmem

/-! ### Heads on their way -/

variable {keepAlive : Bool}

section Written

variable {keep : Str × Str → Bool}

theorem filter_lengthField (h : Blind keep "content-length") {status length} :
    (lengthField status length).filter keep = [] := by
  rw [filter_eq_nil_iff]
  intro field hmem
  obtain ⟨n, rfl⟩ := mem_lengthField hmem
  have hlength : named "content-length" ("Content-Length", decimal n) :=
    (by decide : eqIgnoreAsciiCase "Content-Length" "content-length")
  rw [h _ hlength]
  exact Bool.false_ne_true

theorem filter_connectionField (h : Blind keep "connection") :
    [connectionField keepAlive].filter keep = [] := by
  have hconnection : named "connection" (connectionField keepAlive) :=
    (by decide : eqIgnoreAsciiCase "Connection" "connection")
  rw [filter_singleton, h _ hconnection]
  rfl

/-- What a filter keeps of the fields of a head that is written. -/
theorem filter_written {written} {headers : Headers}
    (hkeep : ∀ field ∈ headers, keep field → written field) (hlength : Blind keep "content-length")
    (hconnection : Blind keep "connection") {status length} :
    (headers.filter written ++ lengthField status length ++
      [connectionField keepAlive]).filter keep = headers.filter keep := by
  have hfields : (headers.filter written).filter keep = headers.filter keep := by
    rw [filter_filter]
    apply filter_congr
    intro field hfield
    cases h : keep field with
    | false => rfl
    | true => rw [hkeep field hfield h]; rfl
  rw [filter_append, filter_append, hfields, filter_lengthField hlength,
    filter_connectionField hconnection, append_nil, append_nil]

/-- A response that is written whole goes out without a coding. -/
theorem uncoded_whole {headers : Headers} {status length} :
    (headers.filter (fun field => !isCompleteResponseManagedHeader field.1) ++
      lengthField status length ++ [connectionField keepAlive]).filter
        (named "transfer-encoding") = [] := by
  have hnone : (headers.filter fun field => !isCompleteResponseManagedHeader field.1).filter
      (named "transfer-encoding") = [] := by
    refine filter_eq_nil_iff.mpr fun field hfield hnamed => ?_
    have hmanaged : (!isCompleteResponseManagedHeader field.1) = false :=
      blind_unmanaged (by decide) field hnamed
    have hkept := (mem_filter.mp hfield).2
    rw [hmanaged] at hkept
    cases hkept
  rw [filter_append, filter_append, hnone, filter_lengthField (blind_named (by decide)),
    filter_connectionField (blind_named (by decide))]
  rfl

end Written

variable {field : Str × Str}

theorem isWritten_of_endToEnd {headers} (h : endToEnd headers field) {status} :
    isWritten status field := by
  rw [endToEnd, Bool.and_eq_true] at h
  have hframing : matchesBodyFramingHeader field.1 = false := by
    by_contra hmatches
    rw [Bool.not_eq_false] at hmatches
    obtain ⟨name, hname, heq⟩ := any_eq_true.mp hmatches
    have hmanaged : ∀ name ∈ ["content-length", "trailer", "transfer-encoding"],
        isCompleteResponseManagedHeader name.toList := by decide
    rw [isCompleteResponseManagedHeader_congr heq, hmanaged name hname] at h
    cases h.1
  have hunmanaged : ∀ name, isCompleteResponseManagedHeader name → named name field = false := by
    intro name hname
    by_contra hnamed
    rw [Bool.not_eq_false] at hnamed
    rw [isCompleteResponseManagedHeader_congr hnamed, hname] at h
    cases h.1
  rw [isWritten, hunmanaged _ (by decide), hunmanaged _ (by decide), hframing, Bool.and_false]
  rfl

/-- A coding is written where the status has content. -/
theorem isWritten_of_coding {status} (hstatus : statusCanSendContent status)
    (h : named "transfer-encoding" field) :
    isWritten status field := by
  rw [isWritten, named_comm (by decide) h, named_comm (by decide) h, hstatus]
  rfl

section Codings

variable {status : Nat} {headers : Headers}

/-- A head that is written without a coding is not chunked. -/
theorem uncoded_written (h : headers.filter (named "transfer-encoding") = []) {length} :
    hasChunkedTransferEncoding (headers.filter (isWritten status) ++ lengthField status length ++
      [connectionField keepAlive]) = false := by
  refine not_hasChunked_of_uncoded (Eq.trans (filter_written ?_ ?_ ?_) h)
  · intro field hfield hnamed
    exact absurd hnamed (filter_eq_nil_iff.mp h field hfield)
  all_goals exact blind_named (by decide)

theorem coded_written (hstatus : statusCanSendContent status)
    (h : headers.filter (named "transfer-encoding") = [(name, "chunked".toList)]) {length} :
    hasChunkedTransferEncoding (headers.filter (isWritten status) ++ lengthField status length ++
      [connectionField keepAlive]) := by
  refine hasChunked_of_coded (Eq.trans (filter_written ?_ ?_ ?_) h)
  · exact fun field _ hnamed => isWritten_of_coding hstatus hnamed
  all_goals exact blind_named (by decide)

end Codings

theorem clientResponseVersion_cases {version} :
    clientResponseVersion version = "HTTP/1.0" ∨ clientResponseVersion version = "HTTP/1.1" := by
  unfold clientResponseVersion
  split
  · exact .inl rfl
  · exact .inr rfl

/-! ### Fields the proxy sets -/

/-- Setting a field to a proper value leaves a list of proper fields. -/
theorem fieldOk_setHeader {headers} (hfields : ∀ field ∈ headers, FieldOk field)
    (hne : canonicalHeaderName name ≠ []) (htoken : (canonicalHeaderName name).all isHttpTokenChar)
    (hvalue : value.all isHttpFieldValueChar) :
    ∀ field ∈ setHeader headers name value, FieldOk field :=
  forall_mem_setHeader hfields
    (fun field hfield => ⟨(hfields field hfield).nonempty, (hfields field hfield).token, hvalue⟩)
    ⟨hne, htoken, hvalue⟩

theorem fieldOk_setContentLength {headers} (hfields : ∀ field ∈ headers, FieldOk field)
    (length : Nat) :
    ∀ field ∈ setHeader headers "Content-Length" (decimal length), FieldOk field :=
  fieldOk_setHeader hfields (by decide) (by decide) isHttpFieldValueChar_decimal

theorem DeclaresLength.setHeader {headers} (h : DeclaresLength headers length)
    (hmax : length ≤ usizeMax) :
    DeclaresLength (setHeader headers "Content-Length" (decimal length)) length := by
  have hnew : IsNumeral 10 (decimal length) ∧ parseUsize (decimal length) = some length :=
    ⟨isNumeral_decimal length, parseUnsigned_decimal hmax⟩
  exact forall_mem_setHeader h (fun _ _ _ => hnew) fun _ => hnew

end RsProxy.Engine
