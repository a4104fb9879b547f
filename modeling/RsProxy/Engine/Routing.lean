import RsProxy.Net.Headers
import RsProxy.Rules.Redact
import RsProxy.Rules.Url

/-!
# Upstream routing and the secrets in a rule's text

The router cuts the value of an upstream action into proxy entries and takes the credentials of a
SOCKS entry from its last `@`. The redaction of a rule's text finds the same credentials with a
scan of its own; this module says when the two agree.
-/

namespace RsProxy.Engine

open Text Io Net Rules List

/-! ### Proxy entries -/

def maxRuleUpstreamHops : Nat := 32

structure SocksAuth where
  username : Str
  password : Str
deriving DecidableEq

inductive ProxyHop where
  | http (host : Str) (port : Nat)
  | https (host : Str) (port : Nat)
  | socks5 (host : Str) (port : Nat) (auth : Option SocksAuth)
deriving DecidableEq

def splitAddr (input : Str) (defaultPort : Nat) : Str × Nat :=
  match rsplitOnce ':' input with
  | some (host, port) =>
    match parseU16 port with
    | some port => (trimBrackets host, port)
    | none => (trimBrackets input, defaultPort)
  | none => (trimBrackets input, defaultPort)

def splitSocksAuth (input : Str) : Option SocksAuth × Str :=
  match rsplitOnce '@' input with
  | none => (none, input)
  | some (auth, addr) =>
    match splitOnce [':'] auth with
    | none => (none, input)
    | some (username, password) => (some ⟨username, password⟩, addr)

def upstreamEntries (value : Str) : List Str :=
  (((splitOn (· == ',') value).map trim).filter fun item => !item.isEmpty).take
    (maxRuleUpstreamHops + 1)

def parseProxyHop (value : Str) : Option ProxyHop :=
  match (stripPrefix "proxy://" value).or (stripPrefix "http://" value) with
  | some addr =>
    let (host, port) := splitAddr addr 80
    some (.http host port)
  | none =>
    match stripPrefix "https-proxy://" value with
    | some addr =>
      let (host, port) := splitAddr addr 443
      some (.https host port)
    | none =>
      match (stripPrefix "socks://" value).or (stripPrefix "socks5://" value) with
      | some addr =>
        let (auth, addr) := splitSocksAuth addr
        let (host, port) := splitAddr addr 1080
        some (.socks5 host port auth)
      | none => none

inductive UpstreamRoute where
  | direct (host : Str) (port : Nat)
  | httpProxy (proxyHost : Str) (proxyPort : Nat) (targetHost : Str) (targetPort : Nat)
  | proxyChain (hops : List ProxyHop) (targetHost : Str) (targetPort : Nat)
  | httpsProxy (proxyHost : Str) (proxyPort : Nat) (targetHost : Str) (targetPort : Nat)
  | socks5 (proxyHost : Str) (proxyPort : Nat) (auth : Option SocksAuth) (targetHost : Str)
      (targetPort : Nat)
deriving DecidableEq

/-- The proxies of a route, the nearest first. -/
def UpstreamRoute.hops : UpstreamRoute → List ProxyHop
  | direct _ _ => []
  | httpProxy host port _ _ => [.http host port]
  | proxyChain hops _ _ => hops
  | httpsProxy host port _ _ => [.https host port]
  | socks5 host port auth _ _ => [.socks5 host port auth]

/-- The route through one entry alone. -/
def entryRoute (value targetHost : Str) (targetPort : Nat) : Option UpstreamRoute :=
  match (stripPrefix "proxy://" value).or (stripPrefix "http://" value) with
  | some addr =>
    let (proxyHost, proxyPort) := splitAddr addr 80
    some (.httpProxy proxyHost proxyPort targetHost targetPort)
  | none =>
    match stripPrefix "https-proxy://" value with
    | some addr =>
      let (proxyHost, proxyPort) := splitAddr addr 443
      some (.httpsProxy proxyHost proxyPort targetHost targetPort)
    | none =>
      match (stripPrefix "socks://" value).or (stripPrefix "socks5://" value) with
      | some addr =>
        let (auth, addr) := splitSocksAuth addr
        let (proxyHost, proxyPort) := splitAddr addr 1080
        some (.socks5 proxyHost proxyPort auth targetHost targetPort)
      | none => none

/-- What the rendered text of one upstream action says: a route, or nothing. -/
def renderedRoute (rendered targetHost : Str) (targetPort : Nat) :
    Except IoError (Option UpstreamRoute) :=
  let entries := upstreamEntries rendered
  if maxRuleUpstreamHops < entries.length then
    .error (invalidInput ("upstream route exceeds the " ++ decimal maxRuleUpstreamHops ++
      "-hop limit"))
  else
    let hops := entries.filterMap parseProxyHop
    if 1 < entries.length ∧ hops.length = entries.length then
      .ok (some (.proxyChain hops targetHost targetPort))
    else .ok (entryRoute (entries.headD rendered) targetHost targetPort)

theorem splitSocksAuth_eq_some {input addr username password}
    (h : splitSocksAuth input = (some ⟨username, password⟩, addr)) :
    input = username ++ ':' :: password ++ '@' :: addr ∧ ':' ∉ username ∧ '@' ∉ addr := by
  unfold splitSocksAuth at h
  split at h
  · cases h
  next auth addr' hat =>
    split at h
    · cases h
    next username' password' hcolon =>
      cases h
      obtain ⟨rfl, haddr⟩ := rsplitOnce_eq_some_iff.mp hat
      obtain ⟨rfl, huser⟩ := splitOnce_singleton.mp hcolon
      exact ⟨by simp, huser, haddr⟩

/-- Only the text behind the scheme decides the credentials of a SOCKS entry. -/
theorem parseProxyHop_socks5 {rest host port auth}
    (h : parseProxyHop ("socks5://" ++ rest) = some (.socks5 host port auth)) :
    (splitSocksAuth rest).1 = auth := by
  have hrest : stripPrefix "socks5://" ("socks5://" ++ rest) = some rest :=
    stripPrefix_eq_some.mpr rfl
  rw [parseProxyHop, hrest] at h
  have hsocks : _ = some (ProxyHop.socks5 host port auth) := h
  simp [stripPrefix] at hsocks
  exact hsocks.2.2

/-! ### A SOCKS entry in a rule's text -/

/-- A rule's text around the password of one entry: `chainBefore` and `chainAfter` are the rest of
the value that the router splits into entries. -/
structure Frame where
  before : Str
  chainBefore : Str
  user : Str
  addr : Str
  chainAfter : Str
  after : Str

namespace Frame

variable (F : Frame)

def entry (password : Str) : Str :=
  "socks5://" ++ (F.user ++ ':' :: password ++ '@' :: F.addr)

def chain (password : Str) : Str := F.chainBefore ++ F.entry password ++ F.chainAfter

def text (password : Str) : Str := F.before ++ F.chain password ++ F.after

/-- The router reads the entry, with this user and this password. -/
def Accepts (password : Str) : Prop :=
  F.entry password ∈ upstreamEntries (F.chain password) ∧
    ∃ host port, parseProxyHop (F.entry password) =
      some (.socks5 host port (some ⟨F.user, password⟩))

/-- The text since the last `@`. -/
def afterLastAt (s : Str) : Str :=
  match rsplitOnce '@' s with
  | some (_, q) => q
  | none => s

/-- The scan for `socks5://` reaches the entry and can take its user name for credentials. -/
def Reached : Prop :=
  containsStr "socks5://" (afterLastAt (F.before ++ F.chainBefore)) = false ∧
    F.user.any breaksCredentials = false

instance : Decidable F.Reached := inferInstanceAs (Decidable (_ ∧ _))

end Frame

/-- A password that the scan does not stop in. -/
def IsPlain (password : Str) : Prop := password.any breaksCredentials = false

instance (password : Str) : Decidable (IsPlain password) := inferInstanceAs (Decidable (_ = _))

namespace Frame

variable {F : Frame} {password : Str}

theorem Accepts.notMem_user (h : F.Accepts password) : ':' ∉ F.user := by
  obtain ⟨-, host, port, hop⟩ := h
  have hauth := parseProxyHop_socks5 hop
  exact (splitSocksAuth_eq_some (Prod.ext hauth rfl)).2.1

theorem exists_cut {s} : ∃ head, EndsCut head ∧ s = head ++ afterLastAt s := by
  unfold afterLastAt
  cases h : rsplitOnce '@' s with
  | none => exact ⟨[], .inl rfl, rfl⟩
  | some ab =>
    obtain ⟨hs, -⟩ := rsplitOnce_eq_some_iff.mp (show rsplitOnce '@' s = some (ab.1, ab.2) from h)
    exact ⟨ab.1 ++ ['@'], .inr ⟨_, rfl⟩, by simpa using hs⟩

theorem notMem_afterLastAt {s} : '@' ∉ afterLastAt s := by
  unfold afterLastAt
  cases h : rsplitOnce '@' s with
  | none => exact rsplitOnce_eq_none_iff.mp h
  | some ab =>
    exact (rsplitOnce_eq_some_iff.mp (show rsplitOnce '@' s = some (ab.1, ab.2) from h)).2

theorem afterLastAt_append {t} (ht : '@' ∉ t) {s} : afterLastAt (s ++ t) = afterLastAt s ++ t := by
  unfold afterLastAt
  cases h : rsplitOnce '@' s with
  | none =>
    have : rsplitOnce '@' (s ++ t) = none := by
      rw [rsplitOnce_eq_none_iff] at h ⊢
      simp [h, ht]
    rw [this]
  | some ab =>
    obtain ⟨hs, hb⟩ := rsplitOnce_eq_some_iff.mp (show rsplitOnce '@' s = some (ab.1, ab.2) from h)
    have : rsplitOnce '@' (s ++ t) = some (ab.1, ab.2 ++ t) := by
      rw [rsplitOnce_eq_some_iff, hs]
      simp [hb, ht]
    rw [this]

/-- After an `@` in the last part, only that part counts. -/
theorem afterLastAt_append_of_mem {t} (ht : '@' ∈ t) {s} :
    afterLastAt (s ++ t) = afterLastAt t ∧ afterLastAt t <:+ t := by
  cases h : rsplitOnce '@' t with
  | none => exact absurd ht (rsplitOnce_eq_none_iff.mp h)
  | some ab =>
    obtain ⟨hs, hb⟩ := rsplitOnce_eq_some_iff.mp (show rsplitOnce '@' t = some (ab.1, ab.2) from h)
    have hst : rsplitOnce '@' (s ++ t) = some (s ++ ab.1, ab.2) := by
      rw [rsplitOnce_eq_some_iff, hs]
      simp [hb]
    unfold afterLastAt
    rw [h, hst]
    exact ⟨rfl, ab.1 ++ ['@'], by simpa using hs.symm⟩

/-- The piece of the text that the password ends. -/
def segment (F : Frame) (password : Str) : Str :=
  afterLastAt (F.before ++ F.chainBefore ++ ("socks5://" ++ F.user)) ++ ':' :: password

theorem text_eq (F : Frame) : ∃ head tail, EndsCut head ∧
    ∀ password, F.text password = head ++ (F.segment password ++ '@' :: tail) := by
  obtain ⟨before, chainBefore, user, addr, chainAfter, after⟩ := F
  obtain ⟨head, hcut, hhead⟩ := exists_cut
  refine ⟨head, addr ++ chainAfter ++ after, hcut, fun password => ?_⟩
  unfold segment text chain entry
  rw [← append_assoc head, ← append_assoc head, ← hhead]
  simp

end Frame

/-! ### What the scans do with the entry -/

theorem IsPlain.notMem {password} (h : IsPlain password) {c} (hc : breaksCredentials c) :
    c ∉ password := by
  intro hmem
  have := any_eq_false.mp h c hmem
  exact this hc

/-- A piece stays as it is when its first occurrence of the scheme has a breaking character
behind it. -/
theorem redactSegment_eq_self {scheme seg}
    (h : ∀ a b, splitOnce scheme seg = some (a, b) → b.any breaksCredentials) :
    redactSegment scheme seg = seg := by
  rw [redactSegment]
  cases hsplit : splitOnce scheme seg with
  | none => rfl
  | some ab =>
    obtain ⟨a, b⟩ := ab
    simp [h a b hsplit]

/-- There is no `:/` in a user name and a password without a slash. -/
theorem colon_slash_ne {user password x y : Str} (huser : ':' ∉ user) (hpw : '/' ∉ password) :
    user ++ ':' :: password ≠ x ++ ':' :: '/' :: y := by
  intro h
  rcases append_eq_append_iff.mp h with ⟨z, rfl, hz⟩ | ⟨z, rfl, hz⟩
  · cases z with
    | nil | cons =>
      cases hz
      simp at hpw
  · cases z with
    | nil =>
      cases hz
      simp at hpw
    | cons c cs =>
      rw [cons_append, cons.injEq] at hz
      rw [← hz.1] at huser
      simp at huser

/-- Of two places with `://`, the second with no `:/` behind it, the first has a slash behind it or
is the second. -/
theorem scheme_place {x y b rest : Str} (hrest : ∀ u v, rest ≠ u ++ ':' :: '/' :: v)
    (h : x ++ ("://" ++ b) = y ++ ("://" ++ rest)) :
    '/' ∈ b ∨ x = y ∧ b = rest := by
  rcases append_eq_append_iff.mp h with ⟨z, rfl, hz⟩ | ⟨z, rfl, hz⟩
  · -- The first place comes first: its slashes are not those of the second.
    match z, hz with
    | [], hz => exact .inr ⟨by simp, by simpa using hz⟩
    | [c], hz | [c, d], hz => simp at hz
    | c :: d :: e :: z, hz =>
      simp only [String.reduceToList, cons_append, nil_append, cons.injEq] at hz
      rw [hz.2.2.2]
      simp
  · match z, hz with
    | [], hz => exact .inr ⟨by simp, by simpa using hz.symm⟩
    | [c], hz | [c, d], hz => simp at hz
    | c :: d :: e :: z, hz =>
      simp only [String.reduceToList, cons_append, cons.injEq] at hz
      exact absurd hz.2.2.2 (hrest z ('/' :: b))

namespace Frame

variable {F : Frame} {password : Str}

/-- An entry the scan reaches loses its credentials. -/
theorem redactSegment_of_reached (hF : F.Reached) (hpw : IsPlain password) :
    redactSegment "socks5://" (F.segment password) =
      afterLastAt (F.before ++ F.chainBefore) ++ "socks5://" ++ "auth" := by
  obtain ⟨hq, hplain⟩ := hF
  have hat : '@' ∉ F.user := IsPlain.notMem hplain (by decide)
  have hseg : F.segment password = afterLastAt (F.before ++ F.chainBefore) ++
      ("socks5://" ++ (F.user ++ ':' :: password)) := by
    rw [segment, afterLastAt_append (by simp [hat])]
    simp
  have hq' : ¬ "socks5://" <:+: afterLastAt (F.before ++ F.chainBefore) := by
    rw [← containsStr_iff, hq]
    exact Bool.false_ne_true
  have hcred : ((F.user ++ ':' :: password).contains ':' &&
      !(F.user ++ ':' :: password).any breaksCredentials) := by
    have hcolon : breaksCredentials ':' = false := by decide
    have hpw' : password.any breaksCredentials = false := hpw
    rw [any_append, any_cons, hplain, hpw', hcolon]
    simp
  rw [hseg, redactSegment, splitOnce_append_self (by decide) hq']
  dsimp only
  rw [if_pos hcred]

/-- An entry the scans do not reach stays, in both of them. -/
theorem redactSegment_of_not_reached (huser : ':' ∉ F.user) (hF : ¬ F.Reached)
    (hpw : IsPlain password) :
    redactSegment "socks5://" (F.segment password) = F.segment password ∧
      redactSegment "socks://" (F.segment password) = F.segment password := by
  have hslash : '/' ∉ password := hpw.notMem (by decide)
  have hbreak : ∀ b : Str, '/' ∈ b → b.any breaksCredentials := fun b hb =>
    any_eq_true.mpr ⟨'/', hb, by decide⟩
  by_cases hat : '@' ∈ F.user
  · -- The piece starts inside the user name, so it has no scheme in it.
    obtain ⟨hq, hsuffix⟩ := afterLastAt_append_of_mem hat
    have hcolon : ':' ∉ afterLastAt F.user := fun h => huser (hsuffix.subset h)
    have hseg : F.segment password = afterLastAt F.user ++ ':' :: password := by
      rw [segment, ← append_assoc, hq]
    rw [hseg]
    constructor
    all_goals
      refine redactSegment_eq_self fun a b hsplit => absurd (splitOnce_eq_some hsplit) ?_
    · simpa using colon_slash_ne (x := a ++ "socks5") hcolon hslash
    · simpa using colon_slash_ne (x := a ++ "socks") hcolon hslash
  · have hseg : F.segment password = afterLastAt (F.before ++ F.chainBefore) ++
        ("socks5://" ++ (F.user ++ ':' :: password)) := by
      rw [segment, afterLastAt_append (by simp [hat])]
      simp
    have hrest : ∀ u v, F.user ++ ':' :: password ≠ u ++ ':' :: '/' :: v := fun u v =>
      colon_slash_ne huser hslash
    rw [hseg]
    generalize hq : afterLastAt (F.before ++ F.chainBefore) = q
    constructor
    · refine redactSegment_eq_self fun a b hsplit => ?_
      cases hin : splitOnce "socks5://" q with
      | some ac =>
        -- An earlier scheme takes this entry's `@`, with this scheme inside its credentials.
        rw [splitOnce_append hin] at hsplit
        cases hsplit
        exact hbreak _ (by simp)
      | none =>
        rw [splitOnce_append_self (by decide) (splitOnce_eq_none_iff.mp hin)] at hsplit
        cases hsplit
        have huser' : F.user.any breaksCredentials := by
          by_contra hplain
          apply hF
          refine ⟨?_, Bool.eq_false_iff.mpr hplain⟩
          rw [hq, containsStr, hin]
          rfl
        rw [any_append, huser', Bool.true_or]
    · refine redactSegment_eq_self fun a b hsplit => ?_
      have heq := splitOnce_eq_some hsplit
      have hplace : '/' ∈ b ∨ a ++ "socks" = q ++ "socks5" ∧ b = F.user ++ ':' :: password :=
        scheme_place hrest (by simpa using heq.symm)
      rcases hplace with hb | ⟨hne, -⟩
      · exact hbreak b hb
      · have := congrArg getLast? hne
        simp at this

end Frame

/-- Two passwords that the router reads from one place of a rule's text, the first of them plain,
give one redacted text exactly when they are the same, or when the scan reaches the entry and the
second is plain too. -/
theorem redactSecrets_text_eq_iff (F : Frame) {p₁ p₂ : Str} (h₁ : F.Accepts p₁) (h₂ : F.Accepts p₂)
    (hplain : IsPlain p₁) :
    redactSecrets (F.text p₁) = redactSecrets (F.text p₂) ↔ p₁ = p₂ ∨ F.Reached ∧ IsPlain p₂ := by
  have huser := h₁.notMem_user
  obtain ⟨head, tail, hcut, htext⟩ := F.text_eq
  obtain ⟨head', tail', hredact⟩ := redactSecrets_segment hcut
  have hseg : ∀ p, IsPlain p → '@' ∉ F.segment p := by
    intro p hp
    have hat : '@' ∉ p := hp.notMem (by decide)
    simp [Frame.segment, Frame.notMem_afterLastAt, hat]
  constructor
  · intro h
    -- The breaking characters of the passwords survive, so the second one has none either.
    have hfilter : p₁.filter breaksCredentials = p₂.filter breaksCredentials := by
      have := congrArg (filter breaksCredentials) h
      rw [redactSecrets_filter, redactSecrets_filter, htext, htext] at this
      simp only [Frame.segment, filter_append, append_cancel_left_eq,
        append_cancel_right_eq] at this
      exact this
    have hplain₂ : IsPlain p₂ := by
      have hnil : p₁.filter breaksCredentials = [] := by
        rw [filter_eq_nil_iff]
        exact any_eq_false.mp hplain
      rw [hnil] at hfilter
      exact any_eq_false.mpr (filter_eq_nil_iff.mp hfilter.symm)
    by_cases hF : F.Reached
    · exact .inr ⟨hF, hplain₂⟩
    · left
      rw [htext, htext, hredact _ (hseg _ hplain), hredact _ (hseg _ hplain₂)] at h
      obtain ⟨h5, hs⟩ := Frame.redactSegment_of_not_reached huser hF hplain
      obtain ⟨h5', hs'⟩ := Frame.redactSegment_of_not_reached huser hF hplain₂
      rw [h5, hs, h5', hs'] at h
      simpa [Frame.segment] using h
  · rintro (rfl | ⟨hF, hplain₂⟩)
    · rfl
    · rw [htext, htext, hredact _ (hseg _ hplain), hredact _ (hseg _ hplain₂),
        Frame.redactSegment_of_reached hF hplain, Frame.redactSegment_of_reached hF hplain₂]

/-- Behind an HTTP proxy in the same chain, two plain passwords give the same text. -/
theorem redactSecrets_text_eq_behind_http :
    let F : Frame := ⟨"example.com upstream(", "http://127.0.0.1:8080, ",
      "user", "proxy:1080", [], ")"⟩
    F.Accepts "first" ∧ F.Accepts "second:1" ∧
      redactSecrets (F.text "first") = redactSecrets (F.text "second:1") := by
  intro F
  have h₁ : F.Accepts "first" := ⟨by decide, "proxy", 1080, by decide⟩
  have h₂ : F.Accepts "second:1" := ⟨by decide, "proxy", 1080, by decide⟩
  exact ⟨h₁, h₂, (redactSecrets_text_eq_iff F h₁ h₂ (by decide)).mpr (.inr (by decide))⟩

/-- Behind a SOCKS proxy without credentials the password is not redacted at all, and of a password
with an `@` only the part before it is. -/
theorem redactSecrets_text_ne :
    let F : Frame := ⟨"example.com upstream(", "socks5://127.0.0.1:1080,", "user", "host", [], ")"⟩
    let G : Frame := ⟨"example.com upstream(", [], "user", "host", [], ")"⟩
    ((renderedRoute (F.chain "pass") "example.com" 443).map (·.map UpstreamRoute.hops) =
        .ok (some [.socks5 "127.0.0.1" 1080 none,
          .socks5 "host" 1080 (some ⟨"user", "pass"⟩)]) ∧
      F.Accepts "pass" ∧ F.Accepts "word" ∧
      redactSecrets (F.text "pass") = F.text "pass" ∧
      redactSecrets (F.text "pass") ≠ redactSecrets (F.text "word")) ∧
    (G.Accepts "p@ss" ∧ G.Accepts "p@zz" ∧
      redactSecrets (G.text "p@ss") =
        "example.com upstream(socks5://auth@ss@host)" ∧
      redactSecrets (G.text "p@ss") ≠ redactSecrets (G.text "p@zz")) := by
  refine ⟨⟨by decide, ⟨by decide, "host", 1080, by decide⟩,
    ⟨by decide, "host", 1080, by decide⟩, by decide +kernel, by decide +kernel⟩,
    ⟨by decide, "host", 1080, by decide⟩, ⟨by decide, "host", 1080, by decide⟩,
    by decide +kernel, by decide +kernel⟩

end RsProxy.Engine
