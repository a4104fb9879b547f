import RsProxy.Net.Request
import RsProxy.Rules.Url

/-!
# The URL of a request

`absoluteUrlFor` turns the target of a request into an absolute URL: the target itself where it has
a scheme, and otherwise the authority of the tunnel or of the `Host` field with the target behind
it. The results are about requests in origin form, whose target begins with `/`.
-/

namespace RsProxy.Engine

open Text Io Net List
open Rules (UrlParts authorityParts splitPathAndQuery validAbsoluteScheme)

/-! ### The functions of the proxy -/

def replaceUrlScheme (url : Str) (replacement : Str → Option Str) : Option Str :=
  (splitOnce "://" url).bind fun (scheme, rest) =>
    (replacement (toAsciiLowercase scheme)).map fun scheme => scheme ++ "://" ++ rest

def normalizeWebsocketTransportScheme (url : Str) : Except IoError Str :=
  match UrlParts.parse url with
  | .error error => .error (invalidInput error.message.toList)
  | .ok parsed =>
    .ok ((replaceUrlScheme url fun _ =>
      if parsed.scheme = "ws" then some "http"
      else if parsed.scheme = "wss" then some "https"
      else none).getD url)

/-- The target with a scheme and an authority, as `absolute_url_for` puts it together. -/
def absoluteTarget (req : RawRequest) (httpsAuthority : Option Str) : Except IoError Str :=
  if containsStr "://" req.target then .ok req.target
  else
    match httpsAuthority with
    | some authority => .ok ("https://" ++ authority ++ req.target)
    | none =>
      match header req.headers "host" with
      | none => .error (invalidInput "origin-form request missing Host")
      | some host => .ok ("http://" ++ host ++ req.target)

def absoluteUrlFor (req : RawRequest) (httpsAuthority : Option Str) : Except IoError Str := do
  normalizeWebsocketTransportScheme (← absoluteTarget req httpsAuthority)

/-- What a tunnel carries: decrypted requests, or requests in the clear. -/
inductive ConnectHttpMode where
  | mitm
  | plain
deriving DecidableEq

namespace ConnectHttpMode

def authority (mode : ConnectHttpMode) (target : Str) : Option Str :=
  match mode with
  | mitm => some target
  | plain => none

def prepareHead (mode : ConnectHttpMode) (request : RawRequest) (target : Str) : RawRequest :=
  if mode = plain && request.target.head? = some '/' && !containsStr "://" request.target then
    { request with target := "http://" ++ target ++ request.target }
  else request

end ConnectHttpMode

/-- The URL of a request that came on a connection of its own or through a tunnel. The requests of
an HTTP/2 connection come through a decrypted tunnel to their authority. -/
def requestUrl (tunnel : Option (ConnectHttpMode × Str)) (request : RawRequest) :
    Except IoError Str :=
  match tunnel with
  | none => absoluteUrlFor request none
  | some (mode, target) => absoluteUrlFor (mode.prepareHead request target) (mode.authority target)

/-! ### What it should be -/

/-- The scheme and the authority an origin-form request is for. -/
def requestOrigin (tunnel : Option (ConnectHttpMode × Str)) (request : RawRequest) :
    Option (Str × Str) :=
  match tunnel with
  | none => (header request.headers "host").map fun host => ("http", host)
  | some (.mitm, target) => some ("https", target)
  | some (.plain, target) => some ("http", target)

/-- An authority is what the URL parser accepts behind a scheme, with no path, query or fragment. -/
structure IsAuthority (authority : Str) (parts : UrlParts) : Prop where
  parse : UrlParts.parse ("http://" ++ authority) = .ok parts
  plain : ∀ c ∈ authority, c ≠ '/' ∧ c ≠ '?' ∧ c ≠ '#'

/-- The text in front of the first question mark. -/
def targetPath (target : Str) : Str := target.takeWhile (· != '?')

/-- The text behind the first question mark. -/
def targetQuery (target : Str) : Option Str :=
  if '?' ∈ target then some (target.dropWhile (· != '?')).tail else none

/-! ### Parsing a URL in two parts -/

variable {p : Char → Bool}

theorem splitAtFirst_append_cons {s c} (hs : ∀ d ∈ s, p d = false) (hc : p c) {t : Str} :
    splitAtFirst p (s ++ c :: t) = some (s, c :: t) := by
  induction s with
  | nil => simp [splitAtFirst, hc]
  | cons d s ih =>
    rw [forall_mem_cons] at hs
    simp [splitAtFirst, hs.1, ih hs.2]

theorem splitAtFirst_eq_none {s} (hs : ∀ d ∈ s, p d = false) : splitAtFirst p s = none := by
  induction s with
  | nil => rfl
  | cons d s ih =>
    rw [forall_mem_cons] at hs
    simp [splitAtFirst, hs.1, ih hs.2]

variable {target : Str}

theorem splitPathAndQuery_eq (h : target.head? = some '/') :
    splitPathAndQuery target = (targetPath target, targetQuery target) := by
  rw [splitPathAndQuery, targetPath, targetQuery]
  have hbefore : ∀ {s : Str}, '?' ∉ s → ∀ c ∈ s, (c != '?') := by
    intro s hs c hc
    rw [bne_iff_ne]
    rintro rfl
    exact hs hc
  by_cases hquery : '?' ∈ target
  · obtain ⟨path, query, rfl, hpath⟩ := eq_append_cons_of_mem hquery
    have hne : path.isEmpty = false := by
      cases path with
      | nil => cases h
      | cons c path => rfl
    rw [splitOnce_singleton.mpr ⟨rfl, hpath⟩, takeWhile_append_of_pos (hbefore hpath),
      dropWhile_append_of_pos (hbefore hpath)]
    simp [hne]
  · have hnone : splitOnce ['?'] target = none := by
      rw [splitOnce_eq_none_iff]
      intro hoccurs
      exact hquery (hoccurs.subset mem_cons_self)
    rw [hnone, if_neg hquery, takeWhile_eq_self_iff.mpr (hbefore hquery)]

variable {scheme authority : Str}

/-- The parser takes the parts of a URL one by one. -/
theorem parse_eq {input rest pathAndQuery} (hscheme : splitOnce "://" input = some (scheme, rest))
    (hvalid : validAbsoluteScheme scheme) (hfragment : '#' ∉ input)
    (hrest : splitAtFirst (fun c => c == '/' || c == '?') rest = some (authority, pathAndQuery) ∨
      splitAtFirst (fun c => c == '/' || c == '?') rest = none ∧ rest = authority ∧
        pathAndQuery = ['/']) :
    UrlParts.parse input = (authorityParts authority).map fun hostPort =>
      ⟨toAsciiLowercase scheme, hostPort.1, hostPort.2, (splitPathAndQuery pathAndQuery).1,
        (splitPathAndQuery pathAndQuery).2⟩ := by
  rw [UrlParts.parse, hscheme]
  dsimp only
  rw [hvalid, if_neg (by simp), if_neg (by simpa using hfragment)]
  rcases hrest with hsplit | ⟨hsplit, rfl, rfl⟩ <;> simp [hsplit]

/-- The URL of a target is that of its authority, with the path and the query of the target. -/
theorem parse_target (hscheme : scheme = "http" ∨ scheme = "https")
    (hplain : ∀ c ∈ authority, c ≠ '/' ∧ c ≠ '?' ∧ c ≠ '#') (htarget : target.head? = some '/')
    (hfragment : '#' ∉ target) :
    UrlParts.parse (scheme ++ "://" ++ authority ++ target) =
      (UrlParts.parse ("http://" ++ authority)).map fun parts =>
        { parts with scheme, path := targetPath target, query := targetQuery target } := by
  have hplain' : ∀ c ∈ authority, (c == '/' || c == '?') = false := by
    intro c hc
    simp [hplain c hc]
  have hno_fragment : '#' ∉ authority := fun h => (hplain '#' h).2.2 rfl
  have hsplit : splitOnce "://" (scheme ++ "://") = some (scheme, []) := by
    rcases hscheme with rfl | rfl <;> decide
  have hhttp : splitOnce "://" "http://" = some ("http".toList, []) := by decide
  have hlower : toAsciiLowercase scheme = scheme := by
    rcases hscheme with rfl | rfl <;> decide
  obtain ⟨rest, rfl⟩ : ∃ rest, target = '/' :: rest := by
    cases target with
    | nil => cases htarget
    | cons c rest => exact ⟨rest, by rw [Option.some.inj htarget]⟩
  have hno_fragment' : '#' ∉ rest := fun h => hfragment (mem_cons_of_mem '/' h)
  have hurl := parse_eq (splitOnce_append hsplit (authority ++ '/' :: rest)) (by
    rcases hscheme with rfl | rfl <;> decide) (by
    rcases hscheme with rfl | rfl <;> simpa using ⟨hno_fragment, hno_fragment'⟩)
    (.inl (splitAtFirst_append_cons hplain' (by decide)))
  have hauthority := parse_eq (splitOnce_append hhttp authority) (by decide)
    (by simpa using hno_fragment) (.inr ⟨splitAtFirst_eq_none hplain', rfl, rfl⟩)
  rw [append_assoc, hurl, hauthority, splitPathAndQuery_eq htarget, hlower, nil_append]
  cases authorityParts authority <;> rfl

/-! ### Requests in origin form -/

theorem normalize_of_http {url parts} (h : UrlParts.parse url = .ok parts)
    (hscheme : parts.scheme = "http" ∨ parts.scheme = "https") :
    normalizeWebsocketTransportScheme url = .ok url := by
  have hnone : (fun _ : Str =>
      if parts.scheme = "ws" then some "http".toList
      else if parts.scheme = "wss" then some "https"
      else none) = fun _ => none := by
    funext _
    rcases hscheme with h | h <;> rw [h] <;> decide
  rw [normalizeWebsocketTransportScheme, h]
  dsimp only
  rw [hnone, replaceUrlScheme]
  cases splitOnce "://" url <;> rfl

/-- A target that begins with a slash is no URL, whatever stands in it. -/
theorem normalize_of_slash (h : target.head? = some '/') :
    ∃ e, normalizeWebsocketTransportScheme target = .error e := by
  suffices ∃ e, UrlParts.parse target = .error e by
    obtain ⟨e, he⟩ := this
    exact ⟨_, by rw [normalizeWebsocketTransportScheme, he]⟩
  rw [UrlParts.parse]
  cases hsplit : splitOnce "://" target with
  | none => exact ⟨_, rfl⟩
  | some parts =>
    obtain ⟨scheme, rest⟩ := parts
    have hinvalid : validAbsoluteScheme scheme = false := by
      have htarget := splitOnce_eq_some hsplit
      rw [htarget] at h
      cases scheme with
      | nil => rfl
      | cons c scheme =>
        have hc : c = '/' := by simpa using h
        rw [hc]
        rfl
    dsimp only
    rw [hinvalid]
    exact ⟨_, rfl⟩

variable {request : RawRequest}

theorem absoluteUrlFor_of_contains (h : containsStr "://" request.target) {authority} :
    absoluteUrlFor request authority = normalizeWebsocketTransportScheme request.target := by
  have htarget : absoluteTarget request authority = .ok request.target := by
    unfold absoluteTarget
    rw [if_pos h]
  rw [absoluteUrlFor, htarget]
  rfl

variable {tunnel : Option (ConnectHttpMode × Str)}

theorem requestUrl_of_contains (htarget : request.target.head? = some '/')
    (hcontains : containsStr "://" request.target) :
    ∃ e, requestUrl tunnel request = .error e := by
  match tunnel with
  | none =>
    rw [requestUrl, absoluteUrlFor_of_contains hcontains]
    exact normalize_of_slash htarget
  | some (mode, target) =>
    rw [requestUrl, ConnectHttpMode.prepareHead, if_neg (by rw [hcontains]; simp),
      absoluteUrlFor_of_contains hcontains]
    exact normalize_of_slash htarget

theorem requestUrl_of_not_contains
    (horigin : requestOrigin tunnel request = some (scheme, authority))
    (htarget : request.target.head? = some '/')
    (hcontains : containsStr "://" request.target = false) :
    requestUrl tunnel request = normalizeWebsocketTransportScheme
      (scheme ++ "://" ++ authority ++ request.target) := by
  have horiginForm : ¬ containsStr "://" request.target := by
    rw [hcontains]
    exact Bool.false_ne_true
  match tunnel, horigin with
  | none, horigin =>
    obtain ⟨host, hhost, horigin⟩ := Option.map_eq_some_iff.mp horigin
    cases horigin
    rw [requestUrl, absoluteUrlFor, absoluteTarget, if_neg horiginForm, hhost]
    rfl
  | some (.mitm, target), rfl =>
    rw [requestUrl, ConnectHttpMode.prepareHead, if_neg (by simp), absoluteUrlFor,
      ConnectHttpMode.authority, absoluteTarget, if_neg horiginForm]
    rfl
  | some (.plain, target), rfl =>
    -- The head is rewritten to absolute form before it reaches the common path.
    have hrewritten : containsStr "://"
        ("http://" ++ target ++ request.target) := by
      rw [containsStr_iff]
      exact ⟨"http", target ++ request.target, rfl⟩
    rw [requestUrl, ConnectHttpMode.prepareHead, if_pos (by rw [hcontains]; simp [htarget])]
    exact absoluteUrlFor_of_contains hrewritten

/-- An origin-form request gets the URL of its authority with its target behind it, and the path and
the query of that target, exactly when the target holds no `://`. -/
theorem requestUrl_origin_form_iff {tunnel : Option (ConnectHttpMode × Str)} {request : RawRequest}
    {scheme authority : Str} {parts : UrlParts}
    (horigin : requestOrigin tunnel request = some (scheme, authority))
    (hauthority : IsAuthority authority parts) (htarget : request.target.head? = some '/')
    (hfragment : '#' ∉ request.target) :
    (requestUrl tunnel request = .ok (scheme ++ "://" ++ authority ++ request.target) ∧
      UrlParts.parse (scheme ++ "://" ++ authority ++ request.target) =
        .ok { parts with scheme, path := targetPath request.target,
                         query := targetQuery request.target }) ↔
    ¬ "://" <:+: request.target := by
  rw [← containsStr_iff, Bool.not_eq_true]
  constructor
  · rintro ⟨hurl, -⟩
    cases hcontains : containsStr "://" request.target with
    | false => rfl
    | true =>
      obtain ⟨e, he⟩ := requestUrl_of_contains htarget hcontains
      rw [hurl] at he
      cases he
  · intro hcontains
    have hscheme : scheme = "http" ∨ scheme = "https" := by
      match tunnel, horigin with
      | none, horigin =>
        obtain ⟨host, -, horigin⟩ := Option.map_eq_some_iff.mp horigin
        cases horigin
        exact .inl rfl
      | some (.mitm, target), rfl => exact .inr rfl
      | some (.plain, target), rfl => exact .inl rfl
    have hparse := parse_target hscheme hauthority.plain htarget hfragment
    rw [hauthority.parse] at hparse
    rw [requestUrl_of_not_contains horigin htarget hcontains]
    exact ⟨normalize_of_http hparse hscheme, hparse⟩

/-- A request with this target, for the host `a.test`. -/
def requestFor (target : Str) : RawRequest :=
  ⟨"GET", target, "HTTP/1.1", [("Host", "a.test")], [], []⟩

theorem requestUrl_search :
    requestUrl none (requestFor "/find?q=a:b//c") = .ok "http://a.test/find?q=a:b//c" ∧
    UrlParts.parse "http://a.test/find?q=a:b//c" =
      .ok ⟨"http", "a.test", none, "/find", some "q=a:b//c"⟩ := by
  have hauthority : IsAuthority "a.test"
      ⟨"http", "a.test", none, "/", none⟩ := ⟨by decide, by decide⟩
  have horigin : requestOrigin none (requestFor "/find?q=a:b//c") =
      some ("http".toList, "a.test".toList) := by decide
  exact (requestUrl_origin_form_iff horigin hauthority (by decide) (by decide)).mpr (by decide)

/-- A query that holds a URL makes its request invalid. -/
theorem requestUrl_login_rejected :
    requestUrl none (requestFor "/login?next=http://b.test/") =
      .error (invalidInput "invalid URL scheme `/login?next=http`") := by
  decide +kernel

end RsProxy.Engine
