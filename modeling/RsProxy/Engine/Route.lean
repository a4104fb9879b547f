import RsProxy.Engine.Forward
import RsProxy.Engine.Routing
import RsProxy.Rules.Parser.Rule

/-!
# The route to the upstream

`upstreamRoute` chooses how the proxy reaches the server of a URL: directly, or through the proxies
that the text of an upstream action lists. A chain is taken only when every entry of the list has a
scheme the router knows. Otherwise the first entry counts alone, and where its scheme is unknown the
action does not count at all.
-/

namespace RsProxy.Engine

open Text Io Net List
open Data (do_eq_ok)
open Rules (Action HostPool ResolvedAction UrlParts Value parseUpstream)

/-! ### Routes -/

/-- The address of a pool at the place its cursor had when this copy of the pool was first asked. -/
def selectedAddress (pool : HostPool) (cursor : Nat) : Value :=
  pool.addresses.get ⟨cursor % pool.addresses.length,
    Nat.mod_lt _ (length_pos_iff.mpr pool.nonempty)⟩

section Route

variable [RuleValues] (config : ProxyConfig)

def upstreamTarget (url : UrlParts) (cursor : Nat) :
    List ResolvedAction → Except IoError (Str × Nat)
  | [] => .ok (url.host, url.effectivePort.getD 80)
  | item :: actions =>
    match item.action with
    | .host pool => do
      let rendered ← resolveValueTextBounded (selectedAddress pool cursor) item
        (ruleHeaderLimit config)
      .ok (splitAddr rendered (url.effectivePort.getD 80))
    | _ => upstreamTarget url cursor actions

/-- The loop of `upstream_route` over the actions. -/
def proxyRoute (targetHost : Str) (targetPort : Nat) :
    List ResolvedAction → Except IoError UpstreamRoute
  | [] => .ok (.direct targetHost targetPort)
  | item :: actions =>
    match item.action with
    | .upstream value => do
      let rendered ← resolveValueTextBounded value item (ruleHeaderLimit config)
      match ← renderedRoute rendered targetHost targetPort with
      | some route => .ok route
      | none => proxyRoute targetHost targetPort actions
    | _ => proxyRoute targetHost targetPort actions

def isDirect (item : ResolvedAction) : Bool := item.action = .direct

def upstreamRoute (url : UrlParts) (cursor : Nat) (actions : List ResolvedAction) :
    Except IoError UpstreamRoute := do
  let (targetHost, targetPort) ← upstreamTarget config url cursor actions
  if actions.any isDirect then .ok (.direct targetHost targetPort)
  else proxyRoute config targetHost targetPort actions

end Route

/-! ### The entries of a list -/

/-- All non-empty entries, without the cut that `upstreamEntries` makes for its limit. -/
def listedEntries (rendered : Str) : List Str :=
  ((splitOn (· == ',') rendered).map trim).filter fun item => !item.isEmpty

def proxySchemes : List Str :=
  ["proxy://", "http://", "https-proxy://", "socks://",
    "socks5://"]

def HasProxyScheme (entry : Str) : Prop := ∃ scheme ∈ proxySchemes, scheme <+: entry

instance (entry : Str) : Decidable (HasProxyScheme entry) :=
  inferInstanceAs (Decidable (∃ scheme ∈ proxySchemes, scheme <+: entry))

variable {rendered : Str}

/-- Below the limit the cut changes nothing. -/
theorem upstreamEntries_eq (h : ¬ maxRuleUpstreamHops < (upstreamEntries rendered).length) :
    upstreamEntries rendered = listedEntries rendered := by
  unfold upstreamEntries at h ⊢
  rw [length_take] at h
  apply take_of_length_le
  omega

theorem isSome_stripPrefix {p s} : (stripPrefix p s).isSome ↔ p <+: s := by
  rw [← not_iff_not, Option.not_isSome_iff_eq_none, stripPrefix_eq_none]

theorem isSome_parseProxyHop_iff {entry} : (parseProxyHop entry).isSome ↔ HasProxyScheme entry := by
  have hknown : HasProxyScheme entry ↔
      ((stripPrefix "proxy://" entry).or (stripPrefix "http://" entry)).isSome ∨
      (stripPrefix "https-proxy://" entry).isSome ∨
      ((stripPrefix "socks://" entry).or (stripPrefix "socks5://" entry)).isSome := by
    simp [HasProxyScheme, proxySchemes, isSome_stripPrefix, or_assoc]
  rw [hknown, parseProxyHop]
  -- The three tests of the router, in its order.
  cases (stripPrefix "proxy://" entry).or (stripPrefix "http://" entry) with
  | some addr => simp
  | none =>
    cases stripPrefix "https-proxy://" entry with
    | some addr => simp
    | none =>
      cases (stripPrefix "socks://" entry).or (stripPrefix "socks5://" entry) with
      | some | none => simp

/-- The route through one entry has the proxy of that entry. -/
theorem entryRoute_hops (value targetHost : Str) (targetPort : Nat) :
    (entryRoute value targetHost targetPort).map UpstreamRoute.hops =
      (parseProxyHop value).map fun hop => [hop] := by
  rw [entryRoute, parseProxyHop]
  cases (stripPrefix "proxy://" value).or (stripPrefix "http://" value) with
  | some addr => rfl
  | none =>
    cases stripPrefix "https-proxy://" value with
    | some addr => rfl
    | none =>
      cases (stripPrefix "socks://" value).or (stripPrefix "socks5://" value) with
      | some | none => rfl

variable {targetHost : Str} {targetPort : Nat}

/-- Entries that are all proxies give a route through all of them. -/
theorem renderedRoute_of_known {found} (hne : listedEntries rendered ≠ [])
    (hknown : ∀ entry ∈ listedEntries rendered, HasProxyScheme entry)
    (h : renderedRoute rendered targetHost targetPort = .ok found) :
    ∃ route, found = some route ∧
      route.hops.map some = (listedEntries rendered).map parseProxyHop := by
  unfold renderedRoute at h
  dsimp only at h
  split at h
  · cases h
  next hlimit =>
    rw [upstreamEntries_eq hlimit] at h
    have hsome : ∀ entry ∈ listedEntries rendered, (parseProxyHop entry).isSome :=
      fun entry hentry => isSome_parseProxyHop_iff.mpr (hknown entry hentry)
    have hmap : ((listedEntries rendered).filterMap parseProxyHop).map some =
        (listedEntries rendered).map parseProxyHop := by
      rw [map_filterMap, ← filterMap_eq_map]
      apply filterMap_congr
      intro entry hentry
      obtain ⟨hop, hhop⟩ := Option.isSome_iff_exists.mp (hsome entry hentry)
      simp [hhop]
    have hlength : ((listedEntries rendered).filterMap parseProxyHop).length =
        (listedEntries rendered).length := by
      simpa using congrArg length hmap
    split at h
    · cases h
      exact ⟨_, rfl, hmap⟩
    next hone =>
      -- A list that is no chain has one entry.
      obtain ⟨entry, hentry⟩ : ∃ entry, listedEntries rendered = [entry] := by
        apply length_eq_one_iff.mp
        have := length_pos_iff.mpr hne
        omega
      rw [hentry, forall_mem_singleton] at hsome
      obtain ⟨hop, hhop⟩ := Option.isSome_iff_exists.mp hsome
      have hhops := entryRoute_hops entry targetHost targetPort
      rw [hentry] at h ⊢
      rw [hhop, Option.map_some, Option.map_eq_some_iff] at hhops
      obtain ⟨route, hroute, hroutehops⟩ := hhops
      cases h
      exact ⟨route, hroute, by rw [hroutehops]; simp [hhop]⟩

/-! ### The loop over the actions -/

section Loop

variable [RuleValues] {config : ProxyConfig}

def isUpstream (item : ResolvedAction) : Bool :=
  match item.action with
  | .upstream _ => true
  | _ => false

/-- The loop passes over the actions in front of the first upstream action. -/
theorem proxyRoute_append {before} (h : ∀ item ∈ before, isUpstream item = false) {after} :
    proxyRoute config targetHost targetPort (before ++ after) =
      proxyRoute config targetHost targetPort after := by
  induction before with
  | nil => rfl
  | cons item before ih =>
    rw [forall_mem_cons] at h
    rw [cons_append, proxyRoute, ih h.2]
    -- Only an upstream action is looked at.
    have hitem := h.1
    unfold isUpstream at hitem
    split at hitem
    · cases hitem
    · rfl

/-- A route that is taken for the actions goes through exactly the proxies that the first upstream
action lists, in the listed order, if and only if every entry of the list has a scheme the router
knows. -/
theorem upstreamRoute_hops_iff {url : UrlParts} {cursor : Nat} {before after : List ResolvedAction}
    {item : ResolvedAction} {value : Value} {rendered : Str} {route : UpstreamRoute}
    (hitem : item.action = .upstream value)
    (hfirst : ∀ other ∈ before, isUpstream other = false)
    (hdirect : ∀ other ∈ before ++ item :: after, isDirect other = false)
    (hrendered : resolveValueTextBounded value item (ruleHeaderLimit config) = .ok rendered)
    (hne : listedEntries rendered ≠ [])
    (hroute : upstreamRoute config url cursor (before ++ item :: after) = .ok route) :
    route.hops.map some = (listedEntries rendered).map parseProxyHop ↔
      ∀ entry ∈ listedEntries rendered, HasProxyScheme entry := by
  constructor
  · intro h entry hentry
    rw [← isSome_parseProxyHop_iff]
    have hmem : parseProxyHop entry ∈ route.hops.map some := h ▸ mem_map_of_mem hentry
    obtain ⟨hop, -, hhop⟩ := mem_map.mp hmem
    exact Option.isSome_iff_exists.mpr ⟨hop, hhop.symm⟩
  · intro hknown
    obtain ⟨⟨targetHost, targetPort⟩, -, hroute⟩ := do_eq_ok.mp hroute
    have hany : (before ++ item :: after).any isDirect = false :=
      any_eq_false.mpr fun other hother => by simp [hdirect other hother]
    dsimp only at hroute
    rw [hany, proxyRoute_append hfirst, proxyRoute, hitem] at hroute
    obtain ⟨text, htext, hroute⟩ := do_eq_ok.mp hroute
    rw [hrendered] at htext
    cases htext
    obtain ⟨found, hfound, hroute⟩ := do_eq_ok.mp hroute
    obtain ⟨through, rfl, hhops⟩ := renderedRoute_of_known hne hknown hfound
    cases hroute
    exact hhops

end Loop

/-! ### A list with an unknown scheme -/

/-- The action `upstream(…)` of a rule on the first line. -/
def upstreamAction (text : Str) : ResolvedAction :=
  ⟨.upstream (.inline text), ⟨"default", 1, "* upstream(" ++ text ++ ")"⟩,
    .default, none⟩

def originUrl : UrlParts := ⟨"https", "origin", none, "/", none⟩

/-- Two known proxies stay two. -/
theorem upstreamRoute_known_chain :
    ∃ route, @upstreamRoute inlineValues ⟨4096, 64, 1024⟩ originUrl 0
        [upstreamAction "proxy://a:1, socks5://b:2"] = .ok route ∧
      route.hops.map some = (listedEntries "proxy://a:1, socks5://b:2").map parseProxyHop := by
  refine ⟨.proxyChain [.http "a" 1, .socks5 "b" 2 none] "origin" 443, by decide +kernel, ?_⟩
  refine (@upstreamRoute_hops_iff inlineValues ⟨4096, 64, 1024⟩ originUrl 0 [] []
    (upstreamAction "proxy://a:1, socks5://b:2") _ _ _ rfl (forall_mem_nil _)
    (by decide) (by decide +kernel) (by decide) (by decide +kernel)).mpr (by decide)

/-- The rule parser accepts a list with an entry of unknown scheme. Behind a known one the entry is
dropped, and alone it leaves a direct route. -/
theorem upstreamRoute_unknown_scheme :
    parseUpstream ["proxy://a:1", "ftp://b:2"] =
      .ok (.upstream (.inline "proxy://a:1, ftp://b:2")) ∧
    @upstreamRoute inlineValues ⟨4096, 64, 1024⟩ originUrl 0
        [upstreamAction "proxy://a:1, ftp://b:2"] =
      .ok (.httpProxy "a" 1 "origin" 443) ∧
    @upstreamRoute inlineValues ⟨4096, 64, 1024⟩ originUrl 0
        [upstreamAction "ftp://b:2"] = .ok (.direct "origin" 443) := by
  refine ⟨by decide +kernel, by decide +kernel, by decide +kernel⟩

end RsProxy.Engine
