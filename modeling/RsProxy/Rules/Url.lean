import RsProxy.Rules.Error
import RsProxy.Text.Net

/-!
# URLs

`UrlParts.parse` reads a strict absolute URL: scheme and host in lower case, an IPv6 host without
its brackets, `/` for an absent path, and a query that is kept apart from no query at all.
-/

namespace RsProxy.Rules

open Text

/-- The brackets around an IPv6 literal. -/
def isBracket (c : Char) : Bool := c == '[' || c == ']'

def trimBrackets (s : Str) : Str := trimMatches isBracket s

structure UrlParts where
  scheme : Str
  host : Str
  port : Option Nat
  path : Str
  query : Option Str
  deriving DecidableEq, Repr

def validAbsoluteScheme (input : Str) : Bool :=
  match input with
  | [] => false
  | c :: cs => c.isAlpha && cs.all fun c => c.isAlphanum || c == '+' || c == '-' || c == '.'

def parseAbsolutePort (input : Str) : Except RuleModelError Nat :=
  if input.isEmpty then .error (.empty "URL port" "URL port is empty")
  else
    match parseU16 input with
    | none => .error (.integer "URL port" s!"invalid URL port `{str input}`")
    | some 0 => .error (.constraint "URL port" "URL port must be 1..65535")
    | some port => .ok port

/-- The host, with its brackets if it has any, and the port of an authority. -/
def parseAbsoluteAuthority (authority : Str) : Except RuleModelError (Str × Option Nat) :=
  match stripPrefix ['['] authority with
  | some body =>
    match splitOnce [']'] body with
    | none => .error (.badSyntax "URL IPv6 authority" "IPv6 URL host is missing closing `]`")
    | some (host, tail) =>
      match parseIpv6 host with
      | none =>
        .error (.invalid "URL IPv6 authority" s!"invalid IPv6 URL host `{str host}`")
      | some _ =>
        let bracketed := '[' :: host ++ [']']
        if tail.isEmpty then .ok (bracketed, none)
        else
          match stripPrefix [':'] tail with
          | none =>
            .error (.invalid "URL authority" s!"invalid URL authority `{str authority}`")
          | some raw => (parseAbsolutePort raw).map fun port => (bracketed, some port)
  | none =>
    if authority.any isBracket then
      .error (.invalid "URL authority" s!"invalid URL authority `{str authority}`")
    else
      match rsplitOnce ':' authority with
      | none => .ok (authority, none)
      | some (host, rawPort) =>
        if host.contains ':' then
          .error (.badSyntax "URL IPv6 authority" "IPv6 URL hosts must use brackets")
        else if host.isEmpty then .error (.empty "URL host" "url host is empty")
        else (parseAbsolutePort rawPort).map fun port => (host, some port)

/-- Path and query of what follows the authority. -/
def splitPathAndQuery (pathAndQuery : Str) : Str × Option Str :=
  match splitOnce ['?'] pathAndQuery with
  | some (path, query) => (if path.isEmpty then ['/'] else path, some query)
  | none => (pathAndQuery, none)

/-- Host and port of the authority of a URL. -/
def authorityParts (authority : Str) : Except RuleModelError (Str × Option Nat) :=
  if authority.isEmpty then .error (.empty "URL host" "url host is empty")
  else if authority.contains '@' then
    .error (.invalid "URL authority" "URL user information is not supported")
  else
    (parseAbsoluteAuthority authority).bind fun (rawHost, port) =>
      let host := toAsciiLowercase (trimBrackets rawHost)
      if host.isEmpty then .error (.empty "URL host" "url host is empty")
      else if host.any fun c => isControl c || isWhitespace c then
        .error (.invalid "URL host" "URL host must not contain whitespace or control characters")
      else .ok (host, port)

def UrlParts.parse (input : Str) : Except RuleModelError UrlParts :=
  match splitOnce "://" input with
  | none => .error (.badSyntax "URL" s!"url must include scheme: {str input}")
  | some (scheme, rest) =>
    if !validAbsoluteScheme scheme then
      .error (.invalid "URL scheme" s!"invalid URL scheme `{str scheme}`")
    else if input.contains '#' then
      .error (.invalid "URL fragment" "absolute request URLs must not include a fragment")
    else
      let (authority, pathAndQuery) :=
        match splitAtFirst (fun c => c == '/' || c == '?') rest with
        | some (authority, pathAndQuery) => (authority, pathAndQuery)
        | none => (rest, ['/'])
      (authorityParts authority).map fun (host, port) =>
        let (path, query) := splitPathAndQuery pathAndQuery
        { scheme := toAsciiLowercase scheme, host, port, path, query }

/-- The explicit port or the default of the scheme. -/
def UrlParts.effectivePort (url : UrlParts) : Option Nat :=
  url.port.orElse fun _ =>
    if url.scheme = "http" ∨ url.scheme = "ws" then some 80
    else if url.scheme = "https" ∨ url.scheme = "wss" then some 443
    else none

/-! ### Redirect locations -/

/-- Every `%` is followed by two hexadecimal digits. -/
def validPercentEncoding : Str → Bool
  | [] => true
  | c :: cs =>
    if c = '%' then
      match cs with
      | a :: b :: rest =>
        (digitOf 16 a).isSome && (digitOf 16 b).isSome && validPercentEncoding rest
      | _ => false
    else validPercentEncoding cs

def validateRedirectLocation (value : Str) : Except RuleModelError Unit :=
  if value.isEmpty then
    .error (.empty "redirect location" "redirect location must not be empty")
  else if value.any fun c => c.toNat ≤ 0x20 || c.toNat == 0x7F || c == '\\' then
    .error (.invalid "redirect location"
      "redirect location must not contain whitespace, controls, or backslashes")
  else if !validPercentEncoding value then
    .error (.invalid "redirect location" "redirect location contains an invalid percent escape")
  else
    let reference := match splitOnce ['#'] value with
      | some (base, _) => base
      | none => value
    if reference.isEmpty then .ok ()
    else
      let scheme := (splitOnce [':'] reference).bind fun (scheme, _) =>
        if validAbsoluteScheme scheme then some scheme else none
      match scheme with
      | some scheme =>
        if toAsciiLowercase scheme = "http" ∨ toAsciiLowercase scheme = "https" then
          (UrlParts.parse reference).map fun _ => ()
        else
          .error (.unsupported "redirect location scheme"
            "absolute redirect locations must use http or https")
      | none =>
        match stripPrefix "//" reference with
        | some authority => (UrlParts.parse ("http://" ++ authority)).map fun _ => ()
        | none =>
          let segment := reference.takeWhile fun c => c != '/' && c != '?'
          if segment.contains ':' then
            .error (.invalid "redirect location"
              "a relative redirect's first path segment must not contain `:`")
          else .ok ()

end RsProxy.Rules
