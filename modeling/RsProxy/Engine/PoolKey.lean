import RsProxy.Engine.Route
import RsProxy.Text.Debug

/-!
# The key of a pooled HTTP/2 connection

Connections to https origins are pooled under a text that is put together from the origin, the
route and the TLS policy of a request. The parts that are written in their Debug form end by
themselves. The two paths of a client identity are written as they are, with `;key=` between them.
-/

namespace RsProxy.Engine

open Text Io Net List ProxyHop
open Data
open Rules (ResolvedAction RuleModelError TlsCipherSuite TlsMinVersion TlsOp UrlParts authorityParts
  parseAbsoluteAuthority parseAbsolutePort trimBrackets)

/-! ### The key -/

section Debug

variable (hidden : Char → Bool)

def SocksAuth.debug (auth : SocksAuth) : Str :=
  debugStruct "SocksAuth" [("username", debugStr hidden auth.username),
    ("password", debugStr hidden auth.password)]

def ProxyHop.name : ProxyHop → Str
  | http _ _ => "Http"
  | https _ _ => "Https"
  | socks5 _ _ _ => "Socks5"

def ProxyHop.fields : ProxyHop → List (Str × Str)
  | http host port | https host port =>
    [("host", debugStr hidden host), ("port", decimal port)]
  | socks5 host port auth => [("host", debugStr hidden host), ("port", decimal port),
      ("auth", debugOption (SocksAuth.debug hidden) auth)]

def ProxyHop.debug (hop : ProxyHop) : Str := debugStruct hop.name (hop.fields hidden)

namespace UpstreamRoute

def name : UpstreamRoute → Str
  | direct _ _ => "Direct"
  | httpProxy _ _ _ _ => "HttpProxy"
  | proxyChain _ _ _ => "ProxyChain"
  | httpsProxy _ _ _ _ => "HttpsProxy"
  | socks5 _ _ _ _ _ => "Socks5"

def fields : UpstreamRoute → List (Str × Str)
  | direct host port => [("host", debugStr hidden host), ("port", decimal port)]
  | httpProxy proxyHost proxyPort targetHost targetPort
  | httpsProxy proxyHost proxyPort targetHost targetPort =>
    [("proxy_host", debugStr hidden proxyHost), ("proxy_port", decimal proxyPort),
      ("target_host", debugStr hidden targetHost), ("target_port", decimal targetPort)]
  | proxyChain hops targetHost targetPort =>
    [("hops", debugList (debug hidden) hops),
      ("target_host", debugStr hidden targetHost), ("target_port", decimal targetPort)]
  | socks5 proxyHost proxyPort auth targetHost targetPort =>
    [("proxy_host", debugStr hidden proxyHost), ("proxy_port", decimal proxyPort),
      ("auth", debugOption (SocksAuth.debug hidden) auth),
      ("target_host", debugStr hidden targetHost), ("target_port", decimal targetPort)]

def debug (route : UpstreamRoute) : Str := debugStruct route.name (route.fields hidden)

end UpstreamRoute

end Debug

def minVersionName : TlsMinVersion → Str
  | .tls12 => "Tls12"
  | .tls13 => "Tls13"

def cipherName : TlsCipherSuite → Str
  | .tls13Aes128GcmSha256 => "Tls13Aes128GcmSha256"
  | .tls13Aes256GcmSha384 => "Tls13Aes256GcmSha384"
  | .tls13Chacha20Poly1305Sha256 => "Tls13Chacha20Poly1305Sha256"
  | .tls12EcdheEcdsaAes128GcmSha256 => "Tls12EcdheEcdsaAes128GcmSha256"
  | .tls12EcdheEcdsaAes256GcmSha384 => "Tls12EcdheEcdsaAes256GcmSha384"
  | .tls12EcdheEcdsaChacha20Poly1305Sha256 => "Tls12EcdheEcdsaChacha20Poly1305Sha256"
  | .tls12EcdheRsaAes128GcmSha256 => "Tls12EcdheRsaAes128GcmSha256"
  | .tls12EcdheRsaAes256GcmSha384 => "Tls12EcdheRsaAes256GcmSha384"
  | .tls12EcdheRsaChacha20Poly1305Sha256 => "Tls12EcdheRsaChacha20Poly1305Sha256"

/-- What a TLS action asks for, with its paths rendered for the request. -/
structure TlsPolicy where
  minVersion : Option TlsMinVersion
  ciphers : List TlsCipherSuite
  clientCert : Option Str
  clientKey : Option Str
deriving DecidableEq

def TlsPolicy.text (policy : TlsPolicy) : Str :=
  "min=" ++ debugOption minVersionName policy.minVersion ++ ";ciphers=" ++
    debugList cipherName policy.ciphers ++ ";cert=" ++ policy.clientCert.getD [] ++
    ";key=" ++ policy.clientKey.getD []

/-- The parts of the running proxy that enter a key. -/
structure ProxyState where
  identity : Nat
  storage : Str
  config : ProxyConfig

def tlsAction (actions : List ResolvedAction) : Option (ResolvedAction × TlsOp) :=
  actions.findSome? fun item =>
    match item.action with
    | .tls op => some (item, op)
    | _ => none

/-- The policy of the first TLS action. -/
def tlsPolicy (renderRulePath : Str → ResolvedAction → Except IoError Str)
    (actions : List ResolvedAction) : Except IoError (Option TlsPolicy) :=
  match tlsAction actions with
  | none => .ok none
  | some (item, op) => do
    let cert ← op.clientCert.mapM (renderRulePath · item)
    let key ← op.clientKey.mapM (renderRulePath · item)
    .ok (some ⟨op.minVersion, op.ciphers, cert, key⟩)

def upstreamPoolKey (hidden : Char → Bool)
    (renderRulePath : Str → ResolvedAction → Except IoError Str) (state : ProxyState)
    (url : UrlParts) (route : UpstreamRoute) (actions : List ResolvedAction) :
    Except IoError Str := do
  let policy ← tlsPolicy renderRulePath actions
  .ok ("state=" ++ decimal state.identity ++ ";storage=" ++ state.storage ++
    ";origin=" ++ url.host ++ ":" ++ decimal (url.effectivePort.getD 443) ++
    ";route=" ++ route.debug hidden ++ ";tls=" ++
    (policy.map TlsPolicy.text).getD [] ++ ";headers=" ++
    decimal state.config.maxHeaderSize ++ ":" ++ decimal state.config.maxHeaderCount)

/-! ### The forms end by themselves -/

variable {text : Str}

theorem stops_append {p} (hne : text ≠ []) (h : ∀ c ∈ text.head?, p c = false) {rest : Str} :
    Stops p (text ++ rest) := by
  cases text with
  | nil => exact absurd rfl hne
  | cons c text => exact stops_cons (h c rfl) _

variable {rest rest' : Str}

/-- A number in front of a fixed text that begins with no digit. -/
theorem delimited_number (hne : text ≠ [])
    (htext : (text.head?.any fun c => (digitOf 10 c).isSome) = false) {n n'}
    (heq : decimal n ++ (text ++ rest) = decimal n' ++ (text ++ rest')) :
    n = n' ∧ rest = rest' := by
  have htext : ∀ c ∈ text.head?, (digitOf 10 c).isSome = false := by
    intro c hc
    rwa [hc] at htext
  obtain ⟨rfl, hrest⟩ := delimited_decimal (stops_append hne htext)
    (stops_append hne htext) heq
  exact ⟨rfl, append_cancel_left hrest⟩

variable {host' : Str} {port' port : Nat}

section Delimited

variable (hidden : Char → Bool)

theorem selfDelimited_socksAuth : SelfDelimited (SocksAuth.debug hidden) := by
  intro auth auth' rest rest' _ _ heq
  obtain ⟨username, password⟩ := auth
  simp only [SocksAuth.debug, debugStruct, debugFields, append_assoc, cons_append,
    append_cancel_left_eq, cons.injEq, true_and] at heq
  obtain ⟨rfl, hrest₁⟩ := selfDelimited_debugStr hidden trivial trivial heq
  simp only [append_cancel_left_eq] at hrest₁
  obtain ⟨rfl, hrest₂⟩ := selfDelimited_debugStr hidden trivial trivial hrest₁
  exact ⟨rfl, by simpa using hrest₂⟩

theorem selfDelimited_auth : SelfDelimited (debugOption (SocksAuth.debug hidden)) :=
  selfDelimited_debugOption (selfDelimited_socksAuth hidden) fun _ => trivial

theorem debugStruct_inj {name name'} (hname : ∀ c ∈ name, (c != ' '))
    (hname' : ∀ c ∈ name', (c != ' ')) {fields fields'}
    (heq : debugStruct name fields ++ rest = debugStruct name' fields' ++ rest') :
    name = name' ∧
      debugFields fields ++ (" \x7d" ++ rest) = debugFields fields' ++ (" \x7d" ++ rest') := by
  have hsame : name = name' := by
    rw [← takeWhile_debugStruct hname, heq, takeWhile_debugStruct hname']
  subst hsame
  simpa [debugStruct] using heq

/-- A host and the port behind it, up to a text that begins with no digit. -/
theorem host_port_inj {host label} (hne : text ≠ [])
    (htext : (text.head?.any fun c => (digitOf 10 c).isSome) = false)
    (heq : debugStr hidden host ++ (", " ++ (label ++ (": " ++ (decimal port ++ (text ++ rest))))) =
      debugStr hidden host' ++ (", " ++ (label ++ (": " ++ (decimal port' ++ (text ++ rest')))))) :
    host = host' ∧ port = port' ∧ rest = rest' := by
  obtain ⟨rfl, hrest⟩ := selfDelimited_debugStr hidden trivial trivial heq
  simp only [append_cancel_left_eq] at hrest
  obtain ⟨rfl, rfl⟩ := delimited_number hne htext hrest
  exact ⟨rfl, rfl, rfl⟩

theorem ProxyHop.name_plain (hop : ProxyHop) : ∀ c ∈ hop.name, (c != ' ') := by
  rw [← all_eq_true]
  cases hop <;> rfl

theorem selfDelimited_proxyHop : SelfDelimited (debug hidden) := by
  intro hop hop' rest rest' _ _ heq
  obtain ⟨hname, hfields⟩ := debugStruct_inj hop.name_plain hop'.name_plain heq
  cases hop <;> cases hop' <;> try (simp [name] at hname; done)
  all_goals
    simp only [fields, debugFields, append_assoc, append_cancel_left_eq] at hfields
    obtain ⟨rfl, rfl, hrest⟩ := host_port_inj hidden (by decide) (by decide) hfields
  · exact ⟨rfl, hrest⟩
  · exact ⟨rfl, hrest⟩
  · simp only [append_cancel_left_eq] at hrest
    obtain ⟨rfl, hend⟩ := selfDelimited_auth hidden trivial trivial hrest
    exact ⟨rfl, append_cancel_left hend⟩

theorem selfDelimited_hops : SelfDelimited (debugList (debug hidden)) := by
  apply selfDelimited_debugList (selfDelimited_proxyHop hidden)
  · exact fun _ _ _ => trivial
  · intro hop rest
    cases hop <;> simp [debug, name, debugStruct]

namespace UpstreamRoute

theorem name_plain (route : UpstreamRoute) : ∀ c ∈ route.name, (c != ' ') := by
  rw [← all_eq_true]
  cases route <;> rfl

theorem selfDelimited_debug : SelfDelimited (debug hidden) := by
  intro route route' rest rest' _ _ heq
  obtain ⟨hname, hfields⟩ := debugStruct_inj route.name_plain route'.name_plain heq
  -- Routes of one kind have the same name, so five of the pairs are left.
  cases route <;> cases route' <;> try (unfold name at hname; simp at hname; done)
  all_goals simp only [fields, debugFields, append_assoc, append_cancel_left_eq] at hfields
  case direct.direct =>
    obtain ⟨rfl, rfl, rfl⟩ := host_port_inj hidden (by decide) (by decide) hfields
    exact ⟨rfl, rfl⟩
  case proxyChain.proxyChain =>
    obtain ⟨rfl, hrest⟩ := selfDelimited_hops hidden trivial trivial hfields
    simp only [append_cancel_left_eq] at hrest
    obtain ⟨rfl, rfl, rfl⟩ := host_port_inj hidden (by decide) (by decide) hrest
    exact ⟨rfl, rfl⟩
  -- The others begin with the host and the port of a proxy.
  all_goals
    obtain ⟨rfl, rfl, hrest⟩ := host_port_inj hidden (by decide) (by decide) hfields
    simp only [append_cancel_left_eq] at hrest
  case socks5.socks5 =>
    obtain ⟨rfl, hend⟩ := selfDelimited_auth hidden trivial trivial hrest
    simp only [append_cancel_left_eq] at hend
    obtain ⟨rfl, rfl, rfl⟩ := host_port_inj hidden (by decide) (by decide) hend
    exact ⟨rfl, rfl⟩
  all_goals
    obtain ⟨rfl, rfl, rfl⟩ := host_port_inj hidden (by decide) (by decide) hrest
    exact ⟨rfl, rfl⟩

end UpstreamRoute

end Delimited

/-! ### The origin -/

theorem port_of_parseAbsolutePort (h : parseAbsolutePort text = .ok port) :
    0 < port ∧ port ≤ 65535 := by
  unfold parseAbsolutePort at h
  split_ifs at h
  split at h <;> cases h
  next hzero hport => exact ⟨Nat.pos_of_ne_zero hzero, le_of_parseUnsigned hport⟩

/-- A host behind brackets is an IPv6 address; another one has no colon and no bracket in it. -/
theorem rawHost_cases {authority rawHost port}
    (h : parseAbsoluteAuthority authority = .ok (rawHost, port)) :
    rawHost ⊆ authority ∧ (∀ p ∈ port, 0 < p ∧ p ≤ 65535) ∧
      ((∀ c ∈ rawHost, c ≠ ':' ∧ Rules.isBracket c = false) ∨
        ∃ host ip, rawHost = '[' :: host ++ [']'] ∧ parseIpv6 host = some ip) := by
  unfold parseAbsoluteAuthority at h
  split at h
  next body hbody =>
    split at h
    · cases h
    next host tail hsplit =>
      split at h
      · cases h
      next ip hip =>
        have hsub : '[' :: host ++ [']'] ⊆ authority := by
          rw [stripPrefix_eq_some.mp hbody, splitOnce_eq_some hsplit]
          simp
        split at h
        · cases h
          exact ⟨hsub, nofun, .inr ⟨host, ip, rfl, hip⟩⟩
        · split at h
          · cases h
          obtain ⟨port, hport, hpair⟩ := map_eq_ok.mp h
          cases hpair
          exact ⟨hsub, fun p hp => by cases hp; exact port_of_parseAbsolutePort hport,
            .inr ⟨host, ip, rfl, hip⟩⟩
  · split_ifs at h with hbracket
    have hnone : ∀ c ∈ authority, Rules.isBracket c = false := by simpa using hbracket
    split at h
    next hcolon =>
      cases h
      exact ⟨Subset.refl _, nofun, .inl fun c hc => ⟨fun heq =>
        rsplitOnce_eq_none_iff.mp hcolon (heq ▸ hc), hnone c hc⟩⟩
    next host rawPort hsplit =>
      split at h
      · cases h
      next hcolon =>
        split_ifs at h
        obtain ⟨port, hport, hpair⟩ := map_eq_ok.mp h
        cases hpair
        have hsub : rawHost ⊆ authority := by
          rw [(rsplitOnce_eq_some_iff.mp hsplit).1]
          exact subset_append_left _ _
        refine ⟨hsub, fun p hp => by cases hp; exact port_of_parseAbsolutePort hport,
          .inl fun c hc => ⟨fun heq => hcolon ?_, hnone c (hsub hc)⟩⟩
        simpa [heq] using hc

theorem mem_lower {k} (hupper : ¬ (65 ≤ k.toNat ∧ k.toNat ≤ 90))
    (hlower : ¬ (97 ≤ k.toNat ∧ k.toNat ≤ 122)) {s} (h : k ∈ toAsciiLowercase s) : k ∈ s := by
  obtain ⟨c, hc, hk⟩ := mem_map.mp h
  rw [toLower_eq_iff hupper hlower] at hk
  exact hk ▸ hc

/-- The host of an accepted URL has no colon or no semicolon. -/
theorem host_of_parse {url} (h : UrlParts.parse text = .ok url) :
    ':' ∉ url.host ∨ ';' ∉ url.host := by
  obtain ⟨authority, rawHost, port, hauthority, hhost⟩ : ∃ authority rawHost port,
      parseAbsoluteAuthority authority = .ok (rawHost, port) ∧
        url.host = toAsciiLowercase (trimBrackets rawHost) := by
    unfold UrlParts.parse at h
    split at h
    · cases h
    dsimp only at h
    split_ifs at h
    obtain ⟨⟨host, port⟩, hparts, rfl⟩ := map_eq_ok.mp h
    unfold authorityParts at hparts
    split_ifs at hparts
    obtain ⟨⟨rawHost, port⟩, hauthority, hhost⟩ := bind_eq_ok.mp hparts
    dsimp only at hhost
    split_ifs at hhost
    cases hhost
    exact ⟨_, rawHost, port, hauthority, rfl⟩
  have hraw : ∀ {k}, ¬ (65 ≤ k.toNat ∧ k.toNat ≤ 90) → ¬ (97 ≤ k.toNat ∧ k.toNat ≤ 122) →
      k ∈ url.host → k ∈ rawHost := by
    intro k hupper hlower hk
    rw [hhost] at hk
    exact trimMatches_sublist.subset (mem_lower hupper hlower hk)
  rcases (rawHost_cases hauthority).2.2 with hcolon | ⟨host, ip, rfl, hip⟩
  · exact .inl fun hmem => (hcolon _ (hraw (by decide) (by decide) hmem)).1 rfl
  · right
    intro hmem
    have hmem' : ';' ∈ host := by simpa using hraw (by decide) (by decide) hmem
    have := isIpv6Char_of_parseIpv6 hip ';' hmem'
    revert this
    unfold IsIpv6Char
    decide

/-- The origin ends at the semicolon behind its port, wherever the host has one. -/
theorem origin_inj {host} (hhost : ':' ∉ host ∨ ';' ∉ host) (hhost' : ':' ∉ host' ∨ ';' ∉ host')
    (h : host ++ (":" ++ (decimal port ++ (";route=" ++ rest))) =
      host' ++ (":" ++ (decimal port' ++ (";route=" ++ rest')))) :
    host = host' ∧ port = port' ∧ rest = rest' := by
  have hroute : ";route=" = ';' :: "route=" := by decide
  have heq : host ++ ':' :: (decimal port ++ ';' :: ("route=" ++ rest)) =
      host' ++ ':' :: (decimal port' ++ ';' :: ("route=" ++ rest')) := by
    rwa [hroute] at h
  have hcolon : ∀ n, ':' ∉ decimal n := fun n => (isNumeral_decimal n).notMem (by decide)
  have hsemi : ∀ n, ';' ∉ decimal n := fun n => (isNumeral_decimal n).notMem (by decide)
  -- A host with a colon has no semicolon, so the text up to its first semicolon is host and port.
  have hmixed : ∀ {host host'} {port port'} {rest rest'}, ':' ∉ host →
      ';' ∉ host' → host ++ ':' :: (decimal port ++ ';' :: rest) =
        host' ++ ':' :: (decimal port' ++ ';' :: rest') → ':' ∉ host' := by
    intro host host' port port' rest rest' hplain hipv6 heq hmem
    obtain ⟨front, back, rfl, hfront⟩ := eq_append_cons_of_mem hmem
    rw [append_assoc] at heq
    obtain ⟨-, htail⟩ := append_cons_inj hplain hfront heq
    have hback : ';' ∉ back ++ ':' :: decimal port' := by
      have : ';' ∉ back := fun h => hipv6 (by simp [h])
      simp [this, hsemi]
    have htail' : decimal port ++ ';' :: rest = (back ++ ':' :: decimal port') ++ ';' :: rest' := by
      simpa using htail
    obtain ⟨hport, -⟩ := append_cons_inj (hsemi port) hback htail'
    exact hcolon port (hport ▸ by simp)
  have hsame : (':' ∉ host ∧ ':' ∉ host') ∨ (';' ∉ host ∧ ';' ∉ host') := by
    rcases hhost with h | h <;> rcases hhost' with h' | h'
    · exact .inl ⟨h, h'⟩
    · exact .inl ⟨h, hmixed h h' heq⟩
    · exact .inl ⟨hmixed h' h heq.symm, h'⟩
    · exact .inr ⟨h, h'⟩
  rcases hsame with ⟨h, h'⟩ | ⟨h, h'⟩
  · obtain ⟨rfl, htail⟩ := append_cons_inj h h' heq
    obtain ⟨hport, hrest⟩ := append_cons_inj (hsemi port) (hsemi port') htail
    exact ⟨rfl, toDigits_injective (by decide) (by decide) hport, append_cancel_left hrest⟩
  · have hfull : ∀ {host} port, ';' ∉ host → ';' ∉ host ++ ':' :: decimal port := by
      simp [hsemi]
    have heq' : (host ++ ':' :: decimal port) ++ ';' :: ("route=" ++ rest) =
        (host' ++ ':' :: decimal port') ++ ';' :: ("route=" ++ rest') := by
      simpa using heq
    obtain ⟨horigin, hrest⟩ := append_cons_inj (hfull port h) (hfull port' h') heq'
    have hsplit := congrArg (rsplitOnce ':') horigin
    rw [rsplitOnce_append_cons (hcolon port), rsplitOnce_append_cons (hcolon port')] at hsplit
    obtain ⟨hhosts, hports⟩ := Prod.mk.inj (Option.some.inj hsplit)
    exact ⟨hhosts, toDigits_injective (by decide) (by decide) hports, append_cancel_left hrest⟩

/-! ### The TLS policy -/

theorem minVersionName_injective : Function.Injective minVersionName := by
  intro version version' h
  cases version <;> cases version' <;> first | rfl | exact absurd h (by decide)

def allCiphers : List TlsCipherSuite :=
  [.tls13Aes128GcmSha256, .tls13Aes256GcmSha384, .tls13Chacha20Poly1305Sha256,
    .tls12EcdheEcdsaAes128GcmSha256, .tls12EcdheEcdsaAes256GcmSha384,
    .tls12EcdheEcdsaChacha20Poly1305Sha256, .tls12EcdheRsaAes128GcmSha256,
    .tls12EcdheRsaAes256GcmSha384, .tls12EcdheRsaChacha20Poly1305Sha256]

/-- A suite is found by its name. -/
theorem find_cipherName (cipher : TlsCipherSuite) :
    allCiphers.find? (fun other => cipherName other = cipherName cipher) = some cipher := by
  cases cipher <;> decide +kernel

theorem cipherName_injective : Function.Injective cipherName := by
  intro cipher cipher' h
  have hfound := find_cipherName cipher
  rw [h, find_cipherName cipher'] at hfound
  exact (Option.some.inj hfound).symm

theorem selfDelimited_minVersion : SelfDelimited (debugOption minVersionName) := by
  have hname : ∀ version, ∀ c ∈ minVersionName version, (c != ')') := by
    intro version
    cases version <;> decide
  apply selfDelimited_debugOption (delimited_of_forall hname minVersionName_injective)
  exact fun rest => stops_cons (by decide) rest

theorem selfDelimited_ciphers : SelfDelimited (debugList cipherName) := by
  have hname : ∀ cipher, ∀ c ∈ cipherName cipher, (c != ',' && c != ']') := by
    intro cipher
    cases cipher <;> decide +kernel
  have hne : ∀ cipher, cipherName cipher ≠ [] := by
    intro cipher
    cases cipher <;> decide +kernel
  apply selfDelimited_debugList (delimited_of_forall hname cipherName_injective)
  · rintro c rest (rfl | rfl) <;> exact stops_cons (by decide) rest
  · intro cipher rest hhead
    rw [head?_append_of_ne_nil _ (hne cipher)] at hhead
    have := hname cipher ']' (mem_of_mem_head? hhead)
    revert this
    decide

/-- The text behind the last fixed part of a policy. -/
def TlsPolicy.identityText (policy : TlsPolicy) : Str :=
  policy.clientCert.getD [] ++ (";key=" ++ policy.clientKey.getD [])

variable {policy policy' : TlsPolicy}

theorem TlsPolicy.text_congr (hmin : policy.minVersion = policy'.minVersion)
    (hciphers : policy.ciphers = policy'.ciphers)
    (hidentity : policy.identityText = policy'.identityText) : policy.text = policy'.text := by
  unfold identityText at hidentity
  unfold text
  simp only [append_assoc, hmin, hciphers, hidentity]

theorem TlsPolicy.text_inj (h : policy.text = policy'.text) :
    policy.minVersion = policy'.minVersion ∧ policy.ciphers = policy'.ciphers ∧
      policy.identityText = policy'.identityText := by
  unfold text at h
  simp only [append_assoc, append_cancel_left_eq] at h
  obtain ⟨hmin, hrest⟩ := selfDelimited_minVersion trivial trivial h
  simp only [append_cancel_left_eq] at hrest
  obtain ⟨hciphers, hidentity⟩ := selfDelimited_ciphers trivial trivial hrest
  simp only [append_cancel_left_eq] at hidentity
  exact ⟨hmin, hciphers, hidentity⟩

theorem TlsPolicy.text_ne_nil (policy : TlsPolicy) : policy.text ≠ [] := by
  unfold text
  simp

/-! ### Requests with equal keys -/

/-- A policy of a TLS action: the rule parser takes a client certificate only together with a key,
and no action without any option. -/
structure TlsPolicy.Parsed (tls : TlsPolicy) : Prop where
  paired : tls.clientCert.isSome = tls.clientKey.isSome
  option : tls.clientCert.isSome ∨ tls.minVersion.isSome ∨ tls.ciphers ≠ []

/-- The certificate path does not contain `;key=`, and the paths are not both empty beside another
option. -/
def TlsPolicy.Plain (tls : TlsPolicy) : Prop :=
  ∀ cert ∈ tls.clientCert, ∀ key ∈ tls.clientKey, ¬ ";key=" <:+: cert ∧
    ¬ (cert = [] ∧ key = [] ∧ (tls.minVersion.isSome ∨ tls.ciphers ≠ []))

/-- A request on the pooled HTTP/2 path, with the rendering of rule texts for it. -/
structure H2Request where
  url : UrlParts
  accepted : ∃ text, UrlParts.parse text = .ok url
  secure : url.scheme = "https"
  route : UpstreamRoute
  actions : List ResolvedAction
  renderRulePath : Str → ResolvedAction → Except IoError Str
  policy : Option TlsPolicy
  rendered : tlsPolicy renderRulePath actions = .ok policy
  parsed : ∀ tls ∈ policy, tls.Parsed

variable {request other : H2Request} {state : ProxyState} {tls tls' : TlsPolicy}

namespace H2Request

def poolKey (hidden : Char → Bool) (state : ProxyState) (request : H2Request) :
    Except IoError Str :=
  upstreamPoolKey hidden request.renderRulePath state request.url request.route request.actions

/-- Two requests can share a connection. -/
structure SameUpstream (request other : H2Request) : Prop where
  host : request.url.host = other.url.host
  port : request.url.effectivePort.getD 443 = other.url.effectivePort.getD 443
  route : request.route = other.route
  policy : request.policy = other.policy

def Unambiguous (request : H2Request) : Prop := ∀ tls ∈ request.policy, tls.Plain

theorem policy_text_inj {policy policy' : Option TlsPolicy}
    (h : (policy.map TlsPolicy.text).getD [] = (policy'.map TlsPolicy.text).getD []) :
    policy.isSome = policy'.isSome ∧ ∀ tls ∈ policy, ∀ tls' ∈ policy', tls.text = tls'.text := by
  cases policy with
  | none =>
    cases policy' with
    | none => exact ⟨rfl, nofun⟩
    | some tls' => exact absurd h.symm tls'.text_ne_nil
  | some tls =>
    cases policy' with
    | none => exact absurd h tls.text_ne_nil
    | some tls' =>
      refine ⟨rfl, fun _ htls _ htls' => ?_⟩
      cases htls
      cases htls'
      exact h

variable {hidden : Char → Bool}

/-- What equal keys say: only the two paths of a client identity may differ. -/
theorem poolKey_eq (h : request.poolKey hidden state = other.poolKey hidden state) :
    request.url.host = other.url.host ∧
      request.url.effectivePort.getD 443 = other.url.effectivePort.getD 443 ∧
      request.route = other.route ∧ (request.policy.map TlsPolicy.text).getD [] =
        (other.policy.map TlsPolicy.text).getD [] := by
  unfold poolKey upstreamPoolKey at h
  rw [request.rendered, other.rendered, ok_bind, ok_bind, Except.ok.injEq] at h
  simp only [append_assoc, append_cancel_left_eq] at h
  obtain ⟨text, htext⟩ := request.accepted
  obtain ⟨text', htext'⟩ := other.accepted
  obtain ⟨hhost, hport, hrest⟩ := origin_inj (host_of_parse htext) (host_of_parse htext') h
  obtain ⟨hroute, hrest⟩ := UpstreamRoute.selfDelimited_debug hidden trivial trivial hrest
  simp only [append_cancel_left_eq, append_cancel_right_eq] at hrest
  exact ⟨hhost, hport, hroute, hrest⟩

theorem paired_cases (h : tls.clientCert.isSome = tls.clientKey.isSome) :
    (tls.clientCert = none ∧ tls.clientKey = none) ∨
      ∃ cert key, tls.clientCert = some cert ∧ tls.clientKey = some key := by
  cases hcert : tls.clientCert <;> cases hkey : tls.clientKey <;> simp_all

/-- Plain paths are determined by the text of the policy. -/
theorem identity_inj (hparsed : tls.Parsed) (hparsed' : tls'.Parsed) (hplain : tls.Plain)
    (hplain' : tls'.Plain) (hmin : tls.minVersion = tls'.minVersion)
    (hciphers : tls.ciphers = tls'.ciphers) (h : tls.identityText = tls'.identityText) :
    tls.clientCert = tls'.clientCert ∧ tls.clientKey = tls'.clientKey := by
  have hcut : ∀ {cert key cert' key' : Str}, ¬ ";key=" <:+: cert →
      ¬ ";key=" <:+: cert' →
      cert ++ (";key=" ++ key) = cert' ++ (";key=" ++ key') →
      cert = cert' ∧ key = key' := by
    intro cert key cert' key' hcert hcert' heq
    have hsplit := splitOnce_append_self (by decide) hcert key
    rw [heq, splitOnce_append_self (by decide) hcert' key'] at hsplit
    cases hsplit
    exact ⟨rfl, rfl⟩
  have hnil : ¬ ";key=" <:+: ([] : Str) := by decide
  -- without an identity there is another option, on both sides
  have hother : ∀ {tls : TlsPolicy}, tls.Parsed → tls.clientCert = none →
      tls.minVersion.isSome ∨ tls.ciphers ≠ [] := by
    intro tls hparsed hnone
    exact hparsed.option.resolve_left (by rw [hnone]; exact Bool.false_ne_true)
  unfold TlsPolicy.identityText at h
  rcases paired_cases hparsed.paired with ⟨hc, hk⟩ | ⟨cert, key, hc, hk⟩ <;>
    rcases paired_cases hparsed'.paired with ⟨hc', hk'⟩ | ⟨cert', key', hc', hk'⟩ <;>
    rw [hc, hk, hc', hk'] at h ⊢
  · exact ⟨rfl, rfl⟩
  · obtain ⟨hcert', hne⟩ := hplain' cert' hc' key' hk'
    obtain ⟨rfl, rfl⟩ := hcut hnil hcert' h
    exact absurd ⟨rfl, rfl, hmin ▸ hciphers ▸ hother hparsed hc⟩ hne
  · obtain ⟨hcert, hne⟩ := hplain cert hc key hk
    obtain ⟨rfl, rfl⟩ := hcut hcert hnil h
    exact absurd ⟨rfl, rfl, hmin ▸ hciphers ▸ hother hparsed' hc'⟩ hne
  · obtain ⟨hcert, -⟩ := hplain cert hc key hk
    obtain ⟨hcert', -⟩ := hplain' cert' hc' key' hk'
    obtain ⟨rfl, rfl⟩ := hcut hcert hcert' h
    exact ⟨rfl, rfl⟩

theorem sameUpstream_of_poolKey_eq (hplain : request.Unambiguous) (hplain' : other.Unambiguous)
    (h : request.poolKey hidden state = other.poolKey hidden state) :
    request.SameUpstream other := by
  obtain ⟨hhost, hport, hroute, hpolicy⟩ := poolKey_eq h
  obtain ⟨hsome, htexts⟩ := policy_text_inj hpolicy
  refine ⟨hhost, hport, hroute, ?_⟩
  cases hp : request.policy with
  | none =>
    rw [hp] at hsome
    exact (Option.not_isSome_iff_eq_none.mp (by rw [← hsome]; decide)).symm
  | some tls =>
    rw [hp] at hsome
    obtain ⟨tls', hp'⟩ := Option.isSome_iff_exists.mp hsome.symm
    rw [hp']
    obtain ⟨hmin, hciphers, hidentity⟩ := TlsPolicy.text_inj (htexts tls hp tls' hp')
    obtain ⟨hcert, hkey⟩ := identity_inj (request.parsed tls hp) (other.parsed tls' hp')
      (hplain tls hp) (hplain' tls' hp') hmin hciphers hidentity
    cases tls
    congr

/-- The policy of an action whose paths are rendered so. -/
def policyOf (op : TlsOp) (render : Str → Str) : TlsPolicy :=
  ⟨op.minVersion, op.ciphers, op.clientCert.map render, op.clientKey.map render⟩

/-- The same request under one TLS action. -/
def ruled (request : H2Request) (op : TlsOp) (render : Str → Str)
    (hparsed : (policyOf op render).Parsed) : H2Request :=
  { request with
    actions := [⟨.tls op, ⟨"default", 1, "* tls(...)"⟩, .default, none⟩]
    renderRulePath := fun path _ => .ok (render path)
    policy := some (policyOf op render)
    rendered := by
      obtain ⟨cert, key, minVersion, ciphers⟩ := op
      cases cert <;> cases key <;> rfl
    parsed := by
      rintro tls ⟨⟩
      exact hparsed }

theorem poolKey_ruled (hpolicy : request.policy = some tls) {op render}
    (hparsed : (policyOf op render).Parsed) (htext : tls.text = (policyOf op render).text) :
    request.poolKey hidden state = (request.ruled op render hparsed).poolKey hidden state := by
  unfold poolKey upstreamPoolKey
  rw [request.rendered, (request.ruled op render hparsed).rendered, ok_bind, ok_bind, hpolicy]
  simp only [Option.map_some, ruled, htext]

/-- A request with ambiguous paths has the key of another one, whose paths are not ambiguous. -/
theorem exists_poolKey_eq (h : ¬ request.Unambiguous) :
    ∃ other, other.Unambiguous ∧
      request.poolKey hidden state = other.poolKey hidden state ∧ ¬ request.SameUpstream other := by
  unfold Unambiguous TlsPolicy.Plain at h
  push Not at h
  obtain ⟨tls, hpolicy, cert, hcert, key, hkey, hbad⟩ := h
  have htls : tls.identityText = cert ++ (";key=" ++ key) := by
    rw [TlsPolicy.identityText, Option.mem_def.mp hcert, Option.mem_def.mp hkey]
    rfl
  have hpartner : ∀ (op : TlsOp) (render : Str → Str) (hparsed : (policyOf op render).Parsed),
      tls.text = (policyOf op render).text → tls.clientCert ≠ op.clientCert.map render →
      (policyOf op render).Plain →
      ∃ other, other.Unambiguous ∧
        request.poolKey hidden state = other.poolKey hidden state ∧
          ¬ request.SameUpstream other := by
    intro op render hparsed htext hne hplain
    refine ⟨request.ruled op render hparsed, ?_, poolKey_ruled hpolicy hparsed htext,
      fun hsame => hne ?_⟩
    · rintro other ⟨⟩
      exact hplain
    · have hpolicies := hsame.policy
      rw [Option.mem_def.mp hpolicy] at hpolicies
      exact congrArg TlsPolicy.clientCert (Option.some.inj hpolicies)
  by_cases hinfix : ";key=" <:+: cert
  · -- Cut at the first separator instead of the last one before the key.
    cases hsplit : splitOnce ";key=" cert with
    | none => exact absurd hinfix (splitOnce_eq_none_iff.mp hsplit)
    | some parts =>
      obtain ⟨front, back⟩ := parts
      have hfront := not_infix_of_splitOnce (by decide) hsplit
      apply hpartner ⟨some "$1", some "$2", tls.minVersion, tls.ciphers⟩
        (fun path => if path = "$1".toList then front else back ++ (";key=" ++ key)) ⟨rfl, .inl rfl⟩
      · refine TlsPolicy.text_congr ?_ ?_ ?_
        · rfl
        · rfl
        rw [htls, splitOnce_eq_some hsplit]
        simp [TlsPolicy.identityText, policyOf]
      · rw [Option.mem_def.mp hcert]
        rintro ⟨⟩
        exact hfront hinfix
      · rintro _ ⟨⟩ _ ⟨⟩
        refine ⟨hfront, fun hempty => ?_⟩
        have hlength := congrArg length hempty.2.1
        simp at hlength
  · obtain ⟨rfl, rfl, hother⟩ := hbad hinfix
    apply hpartner ⟨none, none, tls.minVersion, tls.ciphers⟩ id ⟨rfl, .inr hother⟩
    · exact TlsPolicy.text_congr rfl rfl htls
    · rw [Option.mem_def.mp hcert]
      nofun
    · nofun

/-- A request shares its key only with requests to the same origin, over the same route and under
the same TLS policy, among those whose paths are not ambiguous, if and only if its own are not. -/
theorem poolKey_injective_iff (hidden : Char → Bool) (state : ProxyState) (request : H2Request) :
    (∀ other : H2Request, other.Unambiguous →
      request.poolKey hidden state = other.poolKey hidden state → request.SameUpstream other) ↔
      request.Unambiguous := by
  constructor
  · intro h
    by_contra hbad
    obtain ⟨other, hother, hkey, hdiffer⟩ := exists_poolKey_eq hbad
    exact hdiffer (h other hother hkey)
  · intro hplain other hother hkey
    exact sameUpstream_of_poolKey_eq hplain hother hkey

end H2Request

/-! ### Two identities under one key -/

/-- A request for `https://origin/` that takes the direct route. -/
def originRequest : H2Request where
  url := originUrl
  accepted := ⟨"https://origin/", by decide +kernel⟩
  secure := rfl
  route := .direct "origin" 443
  actions := []
  renderRulePath path _ := .ok path
  policy := none
  rendered := rfl
  parsed := nofun

/-- The certificate `a;key=b` with the key `c` has the pool key of the certificate `a` with the key
`b;key=c`; and beside a minimum version, paths that both come out empty have the pool key of no
client identity at all. -/
theorem poolKey_collides :
    let hidden : Char → Bool := fun _ => false
    let state : ProxyState := ⟨4096, "/var/rsproxy", ⟨4096, 64, 1024⟩⟩
    let request := originRequest.ruled ⟨some "a;key=b", some "c", none, []⟩ id ⟨rfl, .inl rfl⟩
    let other := originRequest.ruled ⟨some "a", some "b;key=c", none, []⟩ id ⟨rfl, .inl rfl⟩
    let blank := originRequest.ruled ⟨some "$1", some "$1", some .tls12, []⟩ (fun _ => [])
      ⟨rfl, .inl rfl⟩
    let anonymous := originRequest.ruled ⟨none, none, some .tls12, []⟩ id ⟨rfl, .inr (.inl rfl)⟩
    (request.poolKey hidden state = other.poolKey hidden state ∧ ¬ request.SameUpstream other) ∧
      blank.poolKey hidden state = anonymous.poolKey hidden state ∧
      ¬ blank.SameUpstream anonymous := by
  intro hidden state request other blank anonymous
  refine ⟨⟨?_, fun h => ?_⟩, ?_, fun h => ?_⟩
  · have hpolicy : request.policy = some ⟨none, [], some "a;key=b", some "c"⟩ := rfl
    refine H2Request.poolKey_ruled hpolicy ⟨rfl, .inl rfl⟩ ?_
    exact TlsPolicy.text_congr rfl rfl (by decide)
  · exact absurd h.policy (by decide)
  · have hpolicy : blank.policy = some ⟨some .tls12, [], some [], some []⟩ := rfl
    refine H2Request.poolKey_ruled hpolicy ⟨rfl, .inr (.inl rfl)⟩ ?_
    exact TlsPolicy.text_congr rfl rfl rfl
  · exact absurd h.policy (by decide)

end RsProxy.Engine
