import RsProxy.Engine.Forward
import RsProxy.Engine.ResponseActions

/-!
# The fields an HTTP/1 upstream gets

The proxy writes the `Host` and `Connection` fields of a forwarded request and the fields of its
framing, and drops `Expect`, `Proxy-Connection` and `Proxy-Authorization`. Every other field goes on
as it came, also when it is about the client's connection.
-/

namespace RsProxy.Engine

open Text Io Net List
open Data (do_eq_ok)
open Rules (ResolvedAction UrlParts isBracket trimBrackets parseAbsoluteAuthority parseAbsolutePort)

/-! ### The functions of the proxy -/

def formatAuthorityHost (host : Str) : Str :=
  let host := ((stripPrefix ['['] host).bind (stripSuffix [']'])).getD host
  if host.contains ':' then '[' :: host ++ [']'] else host

/-- The authority of a URL, without a port that its scheme implies. -/
def hostHeader (url : UrlParts) : Str :=
  let host := formatAuthorityHost url.host
  match url.port with
  | none => host
  | some port =>
    if port = 80 ∧ (url.scheme = "http" ∨ url.scheme = "ws") ∨
        port = 443 ∧ (url.scheme = "https" ∨ url.scheme = "wss") then host
    else host ++ ':' :: decimal port

/-- The header list that is written, for a request after its rule actions. -/
def sentHeaders (direct : Bool) (host : Str) (request : RawRequest) (actions : List ResolvedAction)
    (streaming : Option RequestBodyFraming) : Headers :=
  let headers := forwardHeaders host request streaming
  if streaming.isNone && poolEligible direct request actions then pooledHeaders headers
  else unpooledHeaders request headers

section Ruled

variable [RuleValues] {σ : Type} [Read σ] {config : ProxyConfig} {sent : SentRequest}
  {direct : Bool} {host : Str} {head : RequestHead} {actions : List ResolvedAction} {s s' : σ}

/-- The body of a request, as far as it is read before the request goes out. -/
def bodyRead (config : ProxyConfig) (head : RequestHead) (s : σ) :
    Except IoError BoundedRequestBody :=
  if !head.body.hasBody then .ok (.complete head.request.body head.request.trailers)
  else (readRequestBodyBounded head.body config.bodyBufferLimit config.headerLimits s).1

/-- The request after its rule actions, and the framing of a body that is relayed. -/
inductive Ruled (config : ProxyConfig) (head : RequestHead) (actions : List ResolvedAction)
    (s : σ) : RawRequest → Option RequestBodyFraming → Prop
  | buffered {body trailers request}
      (hread : bodyRead config head s = .ok (.complete body trailers))
      (h : applyRequestActions config { head.request with body, trailers } actions = .ok request) :
      Ruled config head actions s request none
  | streamed {pre reader request} (hread : bodyRead config head s = .ok (.overflow pre reader))
      (h : applyStreamingRequestActions config head.request actions = .ok request) :
      Ruled config head actions s request (some reader.framing)

theorem ruled_of_sendBuffered {body trailers}
    (hread : bodyRead config head s = .ok (.complete body trailers))
    (h : sendBuffered config direct host { head.request with body, trailers } actions = .ok sent) :
    ∃ request streaming, Ruled config head actions s request streaming ∧
      sent.headers = sentHeaders direct host request actions streaming := by
  obtain ⟨request, hactions, h⟩ := do_eq_ok.mp h
  obtain ⟨-, -, h⟩ := do_eq_ok.mp h
  refine ⟨request, none, .buffered hread hactions, ?_⟩
  unfold sentHeaders
  split at h
  next heligible =>
    cases h
    rw [heligible]
    rfl
  next heligible =>
    cases h
    rw [Bool.not_eq_true] at heligible
    rw [heligible]
    rfl

/-- Every header list that goes out comes from the request after its rule actions. -/
theorem ruled_of_sendRequest {rounds}
    (h : sendRequest config direct host head actions rounds s = (some (.ok sent), s')) :
    ∃ request streaming, Ruled config head actions s request streaming ∧
      sent.headers = sentHeaders direct host request actions streaming := by
  unfold sendRequest at h
  split at h
  next hnone =>
    exact ruled_of_sendBuffered (if_pos hnone) (Option.some.inj (Prod.mk.inj h).1)
  next hbody =>
    split at h
    · cases (Prod.mk.inj h).1
    next hread =>
      exact ruled_of_sendBuffered ((if_neg hbody).trans (congrArg Prod.fst hread))
        (Option.some.inj (Prod.mk.inj h).1)
    next pre reader _ hread =>
      unfold sendStreamed at h
      split at h
      · cases (Prod.mk.inj h).1
      next request hactions =>
        split at h
        · cases (Prod.mk.inj h).1
        · refine ⟨request, some reader.framing,
            .streamed ((if_neg hbody).trans (congrArg Prod.fst hread)) hactions, ?_⟩
          obtain ⟨h, -⟩ := Prod.mk.inj h
          obtain ⟨verdict, -, h⟩ := Option.map_eq_some_iff.mp h
          cases verdict with
          | error e => cases h
          | ok trailers =>
            cases h
            rfl

end Ruled

/-! ### The authority -/

/-- A host as a URL has it: a name, or an IPv6 address without its brackets. -/
structure IsHost (host : Str) : Prop where
  nonempty : host ≠ []
  plain : ∀ c ∈ host, isBracket c = false
  address : ':' ∈ host → (parseIpv6 host).isSome

variable {host : Str}

theorem stripPrefix_bracket {s} (h : ∀ c ∈ s, isBracket c = false) : stripPrefix ['['] s = none :=
  stripPrefix_eq_none.mpr fun hbracket =>
    absurd (h _ (hbracket.subset mem_cons_self)) (by decide)

theorem formatAuthorityHost_eq (h : IsHost host) :
    formatAuthorityHost host = if ':' ∈ host then '[' :: host ++ [']'] else host := by
  simp [formatAuthorityHost, stripPrefix_bracket h.plain]

theorem parseAbsolutePort_decimal {p} (hpos : 0 < p) (hle : p ≤ 65535) :
    parseAbsolutePort (decimal p) = .ok p := by
  have hu16 : parseU16 (decimal p) = some p := parseUnsigned_decimal hle
  rw [parseAbsolutePort, if_neg (by simpa using (isNumeral_decimal p).1), hu16]
  obtain _ | p := p
  · cases hpos
  · rfl

/-- An authority is read back as its host and its port. -/
theorem parseAbsoluteAuthority_format (h : IsHost host) (port : Option Nat)
    (hport : ∀ p ∈ port, 0 < p ∧ p ≤ 65535) :
    parseAbsoluteAuthority (formatAuthorityHost host ++ (port.map (':' :: decimal ·)).getD []) =
      .ok (formatAuthorityHost host, port) := by
  have hread : ∀ p ∈ port, parseAbsolutePort (decimal p) = .ok p :=
    fun p hp => parseAbsolutePort_decimal (hport p hp).1 (hport p hp).2
  rw [formatAuthorityHost_eq h]
  split
  next hcolon =>
    obtain ⟨ip, hip⟩ := Option.isSome_iff_exists.mp (h.address hcolon)
    have hclose : ']' ∉ host := fun hmem => absurd (h.plain _ hmem) (by decide)
    have hsplit (tail : Str) : splitOnce [']'] (host ++ ']' :: tail) = some (host, tail) :=
      splitOnce_singleton.mpr ⟨rfl, hclose⟩
    cases port with
    | none => simp [parseAbsoluteAuthority, stripPrefix, hsplit, hip]
    | some p => simp [parseAbsoluteAuthority, stripPrefix, hsplit, hip, hread p rfl, Except.map]
  next hcolon =>
    cases port with
    | none =>
      simpa [parseAbsoluteAuthority, stripPrefix_bracket h.plain,
        rsplitOnce_eq_none_iff.mpr hcolon] using h.plain
    | some p =>
      have hdigits : ∀ c ∈ decimal p, isBracket c = false := by
        intro c hc
        refine Bool.eq_false_iff.mpr fun hbracket => ?_
        simp only [isBracket, Bool.or_eq_true, beq_iff_eq] at hbracket
        rcases hbracket with rfl | rfl <;> cases (isNumeral_decimal p).2 _ hc
      have hplain : ∀ c ∈ host ++ ':' :: decimal p, isBracket c = false :=
        forall_mem_append.mpr ⟨h.plain, forall_mem_cons.mpr ⟨rfl, hdigits⟩⟩
      have hsplit := rsplitOnce_append_cons (a := host)
        ((isNumeral_decimal p).notMem (c := ':') (by decide))
      simpa [parseAbsoluteAuthority, stripPrefix_bracket hplain, hsplit, hcolon, h.nonempty,
        hread p rfl, Except.map] using ⟨h.plain, rfl, hdigits⟩

/-- The `Host` field of a URL names its host and the port it is reached at. -/
theorem parseAbsoluteAuthority_hostHeader {url : UrlParts} (hhost : IsHost url.host)
    (hport : ∀ p ∈ url.port, 0 < p ∧ p ≤ 65535) :
    ∃ rawHost port, parseAbsoluteAuthority (hostHeader url) = .ok (rawHost, port) ∧
      trimBrackets rawHost = url.host ∧
      ({ url with port } : UrlParts).effectivePort = url.effectivePort := by
  have htrim : trimBrackets (formatAuthorityHost url.host) = url.host := by
    rw [formatAuthorityHost_eq hhost, trimBrackets]
    have hself := trimMatches_of_forall hhost.plain
    split
    · rw [trimMatches_append_right (by decide), ← singleton_append,
        trimMatches_append_left (by decide), hself]
    · exact hself
  have hbare := parseAbsoluteAuthority_format hhost none nofun
  rw [Option.map_none, Option.getD_none, append_nil] at hbare
  obtain ⟨scheme, host, port, path, query⟩ := url
  cases port with
  | none => exact ⟨_, none, hbare, htrim, rfl⟩
  | some p =>
    dsimp only [hostHeader] at *
    split
    next himplied =>
      refine ⟨_, none, hbare, htrim, ?_⟩
      rcases himplied with ⟨rfl, rfl | rfl⟩ | ⟨rfl, rfl | rfl⟩ <;> rfl
    · exact ⟨_, some p, parseAbsoluteAuthority_format hhost _ hport, htrim, rfl⟩

/-! ### What a request should look like -/

/-- The fields that the proxy writes for itself. -/
def isOwnField (websocket : Bool) (streaming : Option RequestBodyFraming) (name : Str) : Bool :=
  eqIgnoreAsciiCase "host" name || eqIgnoreAsciiCase "connection" name ||
    eqIgnoreAsciiCase "content-length" name ||
    eqIgnoreAsciiCase "transfer-encoding" name ||
    (websocket && eqIgnoreAsciiCase "upgrade" name) ||
    (streaming.isNone && eqIgnoreAsciiCase "trailer" name)

/-- One `Host` field with this authority, one `Connection` field of the proxy's, and no field about
the client's connection; `nominated` are the names that the client's `Connection` field lists. -/
structure CleanRequest (host : Str) (nominated : List Str) (websocket : Bool)
    (streaming : Option RequestBodyFraming) (sent : Headers) : Prop where
  host : ∃ name, sent.filter (named "host") = [(name, host)]
  connection : ∃ name, ∃ value ∈ ["close".toList, "keep-alive".toList, "Upgrade".toList],
    sent.filter (named "connection".toList) = [(name, value)]
  hopByHop : ∀ name ∈ ["keep-alive".toList, "te".toList, "proxy-connection".toList,
    "proxy-authorization".toList], sent.filter (named name) = []
  upgrade : websocket = false → sent.filter (named "upgrade") = []
  nominated : ∀ name ∈ nominated, isOwnField websocket streaming name = false →
    sent.filter (named name) = []

/-- The fields that the proxy always drops. -/
def isDroppedField (streaming : Option RequestBodyFraming) (name : Str) : Bool :=
  eqIgnoreAsciiCase "expect" name || eqIgnoreAsciiCase "proxy-connection" name ||
    eqIgnoreAsciiCase "proxy-authorization" name ||
    (streaming ≠ some .chunked && eqIgnoreAsciiCase "trailer" name)

/-- A header list that has nothing in it for the proxy to miss. -/
structure Passable (nominated : List Str) (websocket : Bool) (streaming : Option RequestBodyFraming)
    (headers : Headers) : Prop where
  host : AtMostOne headers "host"
  connection : websocket → AtMostOne headers "connection"
  keepAlive : headers.filter (named "keep-alive") = []
  te : headers.filter (named "te") = []
  upgrade : websocket = false → headers.filter (named "upgrade") = []
  nominated : ∀ name ∈ nominated, isOwnField websocket streaming name = false →
    isDroppedField streaming name = false → headers.filter (named name) = []

/-! ### The fields of one name -/

variable {name : Str}

/-- The names that the proxy writes are told apart as in lower case. -/
theorem spellings (name : Str) :
    eqIgnoreAsciiCase "Host" name = eqIgnoreAsciiCase "host" name ∧
      eqIgnoreAsciiCase "Connection" name = eqIgnoreAsciiCase "connection" name ∧
      eqIgnoreAsciiCase "Content-Length" name = eqIgnoreAsciiCase "content-length" name ∧
      eqIgnoreAsciiCase "Transfer-Encoding" name = eqIgnoreAsciiCase "transfer-encoding" name ∧
      eqIgnoreAsciiCase "Trailer" name = eqIgnoreAsciiCase "trailer" name := by
  refine ⟨?_, ?_, ?_, ?_, ?_⟩ <;> exact congrArg (· == toAsciiLowercase name) (by decide)

variable {streaming : Option RequestBodyFraming} {websocket : Bool}

section Fields

variable (host : Str) (request : RawRequest) (direct : Bool) (actions : List ResolvedAction)

/-- Fields of other names pass the first stage. -/
theorem filter_forwardBase_of_ne
    (h : ∀ other ∈ ["expect", "proxy-connection", "proxy-authorization", "connection", "host"],
      eqIgnoreAsciiCase other name = false) :
    (forwardBase host request).filter (named name) = request.headers.filter (named name) := by
  simp only [forall_mem_cons] at h
  unfold forwardBase
  cases isWebsocketRequest request.headers
  all_goals simp only [filter_setHeader_of_ne, filter_removeHeader_of_ne, spellings name, h,
    if_true, if_false, Bool.false_eq_true]

/-- The framing leaves fields of other names alone. A `Trailer` field stays in front of a relayed
chunked body only. -/
theorem filter_forwardHeaders_of_ne
    (h : ∀ other ∈ ["content-length", "transfer-encoding"], eqIgnoreAsciiCase other name = false)
    (htrailer : streaming = some .chunked ∨ eqIgnoreAsciiCase "trailer" name = false) :
    (forwardHeaders host request streaming).filter (named name) =
      (forwardBase host request).filter (named name) := by
  simp only [forall_mem_cons] at h
  rcases htrailer with rfl | htrailer
  · simp only [forwardHeaders, prepareStreamingUpstreamRequestFraming, filter_setHeader_of_ne,
      filter_removeHeader_of_ne, spellings name, h]
  · cases streaming with
    | none =>
      rw [forwardHeaders, prepareUpstreamRequestFraming]
      split_ifs
      all_goals simp only [filter_setHeader_of_ne, filter_removeHeader_of_ne, spellings name, h,
        htrailer]
    | some framing =>
      cases framing with
      | none | contentLength length | chunked =>
        simp only [forwardHeaders, prepareStreamingUpstreamRequestFraming, filter_setHeader_of_ne,
          filter_removeHeader_of_ne, spellings name, h, htrailer]

/-- A relayed body that is not chunked has no `Trailer` field in front of it. -/
theorem filter_forwardHeaders_trailer {framing} (h : framing ≠ .chunked) :
    (forwardHeaders host request (some framing)).filter (named "trailer") = [] := by
  rw [forwardHeaders]
  unfold prepareStreamingUpstreamRequestFraming
  cases framing with
  | none => exact filter_removeHeader_self _ _
  | contentLength length =>
    rw [filter_setHeader_of_ne (by decide), filter_removeHeader_self]
  | chunked => exact absurd rfl h

/-- The last stage is about the `Connection` field alone. -/
theorem filter_sentHeaders_of_ne (hconnection : eqIgnoreAsciiCase "connection" name = false) :
    (sentHeaders direct host request actions streaming).filter (named name) =
      (forwardHeaders host request streaming).filter (named name) := by
  unfold sentHeaders
  split
  · exact filter_pooledHeaders_of_ne hconnection
  · unfold unpooledHeaders
    split
    · rfl
    · rw [filter_setHeader_of_ne]
      rw [(spellings name).2.1, hconnection]

/-- A field that the proxy neither writes nor drops goes on. -/
theorem filter_sentHeaders_of_foreign (hown : isOwnField websocket streaming name = false)
    (hdropped : isDroppedField streaming name = false) :
    (sentHeaders direct host request actions streaming).filter (named name) =
      request.headers.filter (named name) := by
  simp only [isOwnField, Bool.or_eq_false_iff] at hown
  simp only [isDroppedField, Bool.or_eq_false_iff, Bool.and_eq_false_iff, decide_eq_false_iff_not,
    not_not] at hdropped
  obtain ⟨⟨⟨⟨⟨hhost, hconnection⟩, hlength⟩, hcoding⟩, -⟩, -⟩ := hown
  obtain ⟨⟨⟨hexpect, hproxy⟩, hauth⟩, htrailer⟩ := hdropped
  rw [filter_sentHeaders_of_ne host request direct actions hconnection,
    filter_forwardHeaders_of_ne host request _ htrailer, filter_forwardBase_of_ne]
  · simp only [forall_mem_cons]
    exact ⟨hexpect, hproxy, hauth, hconnection, hhost, nofun⟩
  · simp only [forall_mem_cons]
    exact ⟨hlength, hcoding, nofun⟩

theorem filter_sentHeaders_removed {known}
    (h : known ∈ ["expect", "proxy-connection", "proxy-authorization"]) :
    (sentHeaders direct host request actions streaming).filter (named known) = [] := by
  simp only [mem_cons, not_mem_nil, or_false] at h
  rcases h with rfl | rfl | rfl
  all_goals
    rw [filter_sentHeaders_of_ne host request direct actions (by decide),
      filter_forwardHeaders_of_ne host request (by decide) (.inr (by decide)), forwardBase]
    cases isWebsocketRequest request.headers
    all_goals
      simp (disch := decide) only [filter_setHeader_of_ne, filter_removeHeader_of_ne,
        filter_removeHeader_self, if_true, if_false, Bool.false_eq_true]

/-- A field that the proxy drops and does not write itself is gone. -/
theorem filter_sentHeaders_of_dropped (hown : isOwnField websocket streaming name = false)
    (hdropped : isDroppedField streaming name) :
    (sentHeaders direct host request actions streaming).filter (named name) = [] := by
  simp only [isDroppedField, Bool.or_eq_true, Bool.and_eq_true, decide_eq_true_eq] at hdropped
  rcases hdropped with ((hname | hname) | hname) | ⟨hstreaming, hname⟩
  all_goals rw [← named_congr hname]
  · exact filter_sentHeaders_removed host request direct actions (by decide)
  · exact filter_sentHeaders_removed host request direct actions (by decide)
  · exact filter_sentHeaders_removed host request direct actions (by decide)
  · -- A `Trailer` field that is not the proxy's own stands in front of a relayed body.
    rw [filter_sentHeaders_of_ne host request direct actions (by decide)]
    cases streaming with
    | none =>
      simp only [isOwnField, hname, Option.isNone_none, Bool.and_self, Bool.or_true] at hown
      cases hown
    | some framing =>
      exact filter_forwardHeaders_trailer host request fun h => hstreaming (by rw [h])

theorem filter_host :
    (sentHeaders direct host request actions streaming).filter (named "host") =
      match request.headers.filter (named "host") with
      | [] => [("Host", host)]
      | field :: rest => (field.1, host) :: rest := by
  rw [filter_sentHeaders_of_ne host request direct actions (by decide),
    filter_forwardHeaders_of_ne host request (by decide) (.inr (by decide)), forwardBase]
  split
  · rw [filter_setHeader_of_ne (by decide), filter_setHeader_of_eq (by decide)]
    simp (disch := decide) only [filter_removeHeader_of_ne]
    rfl
  · rw [filter_setHeader_of_eq (by decide)]
    simp (disch := decide) only [filter_removeHeader_of_ne]
    rfl

theorem host_iff :
    (∃ name, (sentHeaders direct host request actions streaming).filter (named "host") =
      [(name, host)]) ↔ AtMostOne request.headers "host" := by
  rw [filter_host, AtMostOne]
  cases request.headers.filter (named "host") with
  | nil | cons => simp

/-- The `Connection` fields in front of the last stage: none, or those of an upgrade with the first
one set. -/
theorem filter_connection (streaming : Option RequestBodyFraming) :
    (forwardHeaders host request streaming).filter (named "connection") =
      if isWebsocketRequest request.headers then
        match request.headers.filter (named "connection") with
        | [] => [("Connection".toList, "Upgrade".toList)]
        | field :: rest => (field.1, "Upgrade") :: rest
      else [] := by
  rw [filter_forwardHeaders_of_ne host request (by decide) (.inr (by decide)), forwardBase]
  split
  · rw [filter_setHeader_of_eq (by decide)]
    simp (disch := decide) only [filter_setHeader_of_ne, filter_removeHeader_of_ne]
    rfl
  · rw [filter_setHeader_of_ne (by decide), filter_removeHeader_self]

theorem connection_iff :
    (∃ name, ∃ value ∈ ["close".toList, "keep-alive", "Upgrade"],
      (sentHeaders direct host request actions streaming).filter (named "connection") =
        [(name, value)]) ↔
      (isWebsocketRequest request.headers → AtMostOne request.headers "connection") := by
  have hfields := filter_connection host request streaming
  cases hwebsocket : isWebsocketRequest request.headers with
  | false =>
    -- The proxy writes the field itself, on either kind of connection.
    rw [hwebsocket] at hfields
    refine iff_of_true ?_ nofun
    unfold sentHeaders
    split
    · refine ⟨"Connection", "keep-alive", by decide, ?_⟩
      rw [pooledHeaders, filter_append, ← removeHeader, filter_removeHeader_self]
      decide
    · refine ⟨"Connection", "close", by decide, ?_⟩
      rw [unpooledHeaders, hwebsocket]
      exact filter_setHeader_of_nil (by decide) hfields _
  | true =>
    have hsent : sentHeaders direct host request actions streaming =
        forwardHeaders host request streaming := by
      unfold sentHeaders
      rw [if_neg (by simp [poolEligible, hwebsocket]), unpooledHeaders, hwebsocket, if_pos rfl]
    rw [hsent, hfields, hwebsocket, AtMostOne]
    cases request.headers.filter (named "connection") with
    | nil | cons => simp

end Fields

/-- The header list that goes to an HTTP/1 upstream is clean exactly when the request has nothing in
it, after its rule actions, that the proxy misses: a second `Host` field, a second `Connection`
field of an upgrade, a `Keep-Alive` or `TE` field, an `Upgrade` field without an upgrade, or a field
that the client's `Connection` field nominates. -/
theorem sendRequest_clean_iff [RuleValues] {σ : Type} [Read σ] {config : ProxyConfig}
    {direct : Bool} {url : UrlParts} {head : RequestHead} {actions : List ResolvedAction}
    {rounds : Nat} {s s' : σ} {sent : SentRequest}
    (h : sendRequest config direct (hostHeader url) head actions rounds s = (some (.ok sent), s')) :
    ∃ request streaming, Ruled config head actions s request streaming ∧
      (CleanRequest (hostHeader url) (connectionNames head.request.headers)
          (isWebsocketRequest request.headers) streaming sent.headers ↔
        Passable (connectionNames head.request.headers) (isWebsocketRequest request.headers)
          streaming request.headers) := by
  obtain ⟨request, streaming, hruled, hsent⟩ := ruled_of_sendRequest h
  refine ⟨request, streaming, hruled, ?_⟩
  rw [hsent]
  generalize hwebsocket : isWebsocketRequest request.headers = websocket
  have hpassed : ∀ name ∈ ["keep-alive", "te", "upgrade"],
      (sentHeaders direct (hostHeader url) request actions streaming).filter (named name) =
        request.headers.filter (named name) := by
    intro name hname
    simp only [mem_cons, not_mem_nil, or_false] at hname
    rcases hname with rfl | rfl | rfl
    all_goals
      rw [filter_sentHeaders_of_ne _ _ _ _ (by decide),
        filter_forwardHeaders_of_ne _ _ (by decide) (.inr (by decide)),
        filter_forwardBase_of_ne _ _ (by decide)]
  constructor
  · intro hclean
    refine ⟨(host_iff _ _ _ _).mp hclean.host, ?_, ?_, ?_, fun hplain => ?_, ?_⟩
    · rw [← hwebsocket]
      exact (connection_iff _ _ _ _).mp hclean.connection
    · rw [← hpassed _ (by decide)]
      exact hclean.hopByHop _ (by decide)
    · rw [← hpassed _ (by decide)]
      exact hclean.hopByHop _ (by decide)
    · rw [← hpassed _ (by decide)]
      exact hclean.upgrade hplain
    · intro name hname hown hdropped
      rw [← filter_sentHeaders_of_foreign (hostHeader url) request direct actions hown hdropped]
      exact hclean.nominated name hname hown
  · intro hpassable
    refine ⟨(host_iff _ _ _ _).mpr hpassable.host, ?_, ?_, fun hplain => ?_, ?_⟩
    · apply (connection_iff _ _ _ _).mpr
      rw [hwebsocket]
      exact hpassable.connection
    · simp only [forall_mem_cons]
      refine ⟨?_, ?_, filter_sentHeaders_removed _ _ _ _ (by decide),
        filter_sentHeaders_removed _ _ _ _ (by decide), forall_mem_nil _⟩
      · rw [hpassed _ (by decide)]
        exact hpassable.keepAlive
      · rw [hpassed _ (by decide)]
        exact hpassable.te
    · rw [hpassed _ (by decide)]
      exact hpassable.upgrade hplain
    · intro name hname hown
      cases hdropped : isDroppedField streaming name with
      | true => exact filter_sentHeaders_of_dropped _ _ _ _ hown hdropped
      | false =>
        rw [filter_sentHeaders_of_foreign _ _ _ _ hown hdropped]
        exact hpassable.nominated name hname hown hdropped

/-! ### Fields of the client's connection -/

/-- A request for `/` without a body and with these fields. -/
def getHead (headers : Headers) : RequestHead :=
  ⟨⟨"GET", "/", "HTTP/1.1", headers, [], []⟩, .none⟩

def plainUrl : UrlParts := ⟨"http", "a", none, "/", none⟩

theorem plain_clean_iff : ∃ sent s',
    @sendRequest _ _ inlineValues ⟨4096, 64, 1024⟩ true (hostHeader plainUrl)
      (getHead [("Host", "a")]) [] 9 ([] : Bytes) = (some (.ok sent), s') ∧
    ∃ request streaming,
      @Ruled inlineValues _ _ ⟨4096, 64, 1024⟩ (getHead [("Host", "a")]) [] ([] : Bytes) request
        streaming ∧
      (CleanRequest (hostHeader plainUrl) [] (isWebsocketRequest request.headers) streaming
          sent.headers ↔
        Passable [] (isWebsocketRequest request.headers) streaming request.headers) := by
  have hsent : @sendRequest _ _ inlineValues ⟨4096, 64, 1024⟩ true (hostHeader plainUrl)
      (getHead [("Host", "a")]) [] 9 ([] : Bytes) =
        (some (.ok ⟨[("Host", "a"), ("Connection", "keep-alive")], []⟩), []) := by decide +kernel
  exact ⟨_, _, hsent, @sendRequest_clean_iff inlineValues _ _ _ _ _ _ _ _ _ _ _ hsent⟩

/-- The fields of a client that asks its proxy not to pass `X-Hop` on. -/
def clientFields : Headers :=
  [("Host", "a"), ("Host", "b"),
    ("Connection", "close, X-Hop"), ("X-Hop", "1"),
    ("TE", "trailers"), ("Keep-Alive", "timeout=5")]

/-- The parser accepts them, and all but the `Connection` field reach the upstream. -/
theorem clientFields_not_clean :
    parse (utf8 ("GET / HTTP/1.1\r\nHost: a\r\nHost: b\r\nConnection: close, X-Hop\r\n" ++
      "X-Hop: 1\r\nTE: trailers\r\nKeep-Alive: timeout=5\r\n\r\n")) 64 =
        .ok (getHead clientFields) ∧
    ∃ sent, @sendRequest _ _ inlineValues ⟨4096, 64, 1024⟩ true (hostHeader plainUrl)
        (getHead clientFields) [] 9 ([] : Bytes) = (some (.ok ⟨sent, []⟩), []) ∧
      sent.map Prod.fst = ["Host".toList, "Host", "X-Hop", "TE",
        "Keep-Alive", "Connection"] ∧
      ¬ CleanRequest (hostHeader plainUrl) (connectionNames clientFields) false none sent := by
  refine ⟨by decide +kernel, [("Host", "a"), ("Host", "b"),
    ("X-Hop", "1"), ("TE", "trailers"),
    ("Keep-Alive", "timeout=5"), ("Connection", "keep-alive")],
    by decide +kernel, by decide, fun h => ?_⟩
  have hnominated := h.nominated "X-Hop" (by decide) (by decide)
  exact absurd hnominated (by decide)

end RsProxy.Engine
