import RsProxy.Rules.Evaluate
import RsProxy.Rules.Parser.Lexer

/-!
# Parsing matchers

The first token of a rule: a negation, an exact URL, a regular expression, a port, or a glob over
the components of a URL. Every glob is compiled once here to reject what does not compile.
-/

namespace RsProxy.Rules

open Text

variable [Crates]

/-! ### Regular expressions -/

/-- Split at the last `/` that is not escaped. -/
def splitLastSlash : (escaped : Bool) → Str → Option (Str × Str)
  | _, [] => none
  | escaped, c :: cs =>
    match splitLastSlash (!escaped && c == '\\') cs with
    | some (pattern, flags) => some (c :: pattern, flags)
    | none => if !escaped && c == '/' then some ([], cs) else none

/-- Pattern and flags of a regular expression literal, whose first character is passed over. -/
def regexLiteral (input : Str) : Option (Str × Str) := splitLastSlash false input.tail

def parseRegexMatcher (input : Str) : Except RuleModelError RegexMatcher :=
  match regexLiteral input with
  | none => .error (.badSyntax "regex matcher" "regex matcher must end with `/`")
  | some (pattern, flags) =>
    if flags.any (· != 'i') then
      .error (.unsupported "regex flags" s!"unsupported regex flags `{str flags}`")
    else
      let caseInsensitive := flags.contains 'i'
      match Crates.linearRegex pattern caseInsensitive none with
      | .ok _ => .ok ⟨pattern, caseInsensitive, .linear⟩
      | .error linear =>
        match Crates.fancyRegex (fancyPattern pattern caseInsensitive)
            defaultFancyBacktrackLimit with
        | .ok _ => .ok ⟨pattern, caseInsensitive, .fancy⟩
        | .error fancy => .error (.regexMatcher linear fancy)

/-! ### Globs -/

def validScheme (input : Str) : Bool := validAbsoluteScheme input

def parsePortPattern (input : Str) : Except RuleModelError Str :=
  if input.isEmpty then .error (.empty "matcher port" "matcher port is empty")
  else if input.contains '*' then
    if input.all fun c => c.isDigit || c == '*' then .ok input
    else .error (.invalid "matcher port pattern" s!"invalid matcher port pattern `{str input}`")
  else
    match parseU16 input with
    | none => .error (.integer "matcher port" s!"invalid matcher port `{str input}`")
    | some 0 => .error (.constraint "matcher port" "matcher port must be 1..65535")
    | some port => .ok (decimal port)

def parseGlobAuthority (input : Str) : Except RuleModelError (Str × Option Str) :=
  match stripPrefix ['['] input with
  | some body =>
    match splitOnce [']'] body with
    | none => .error (.badSyntax "IPv6 matcher" "IPv6 matcher is missing closing `]`")
    | some (inside, tail) =>
      let host := '[' :: inside ++ [']']
      if tail.isEmpty then .ok (host, none)
      else
        match stripPrefix [':'] tail with
        | none =>
          .error (.invalid "matcher authority" s!"invalid matcher authority `{str input}`")
        | some raw => (parsePortPattern raw).map fun port => (host, some port)
  | none =>
    if input.any isBracket then
      .error (.invalid "matcher authority" s!"invalid matcher authority `{str input}`")
    else
      match rsplitOnce ':' input with
      | none => .ok (input, none)
      | some (host, rawPort) =>
        if host.contains ':' then
          .error (.badSyntax "IPv6 matcher" "IPv6 matcher must use brackets")
        else (parsePortPattern rawPort).map fun port => (host, some port)

/-- Validate a component that may be absent. -/
def validateComponent (component : Option Str) (separator : Char) (context : String) :
    Except RuleModelError Unit :=
  match component with
  | some pattern => validateGlobPattern pattern separator context
  | none => .ok ()

def splitScheme (input : Str) : Except RuleModelError (Option Str × Str) :=
  match splitOnce "://" input with
  | some (scheme, rest) =>
    if validScheme scheme then .ok (some (toAsciiLowercase scheme), rest)
    else .error (.invalid "matcher scheme" s!"invalid matcher scheme `{str scheme}`")
  | none => .ok (none, input)

/-- What is in front of a split, and what is behind it if there is one. -/
def splitOff (split : Option (Str × Str)) (whole : Str) : Str × Option Str :=
  match split with
  | some (left, right) => (left, some right)
  | none => (whole, none)

def parseGlobMatcher (input : Str) : Except RuleModelError GlobMatcher := do
  let (scheme, rest) ← splitScheme input
  let (beforeQuery, query) := splitOff (splitOnce ['?'] rest) rest
  let (hostPort, path) := splitOff (splitAtFirst (· == '/') beforeQuery) beforeQuery
  if hostPort.isEmpty then
    .error (.empty "glob matcher host" "glob matcher host is empty")
  else
    let (rawHost, port) ← parseGlobAuthority hostPort
    let host := toAsciiLowercase (trimBrackets rawHost)
    if host.isEmpty then
      .error (.empty "glob matcher host" "glob matcher host is empty")
    else
      validateGlobPattern host '.' "matcher host glob"
      validateComponent port '.' "matcher port glob"
      validateComponent path '/' "matcher path glob"
      validateComponent query '&' "matcher query glob"
      return { scheme, host, port, path, query }

/-! ### Matchers -/

def parseExactMatcher (url : Str) : Except RuleModelError Matcher :=
  if url.isEmpty then .error (.missing "exact matcher" "exact matcher must include a URL")
  else
    match UrlParts.parse url, parseGlobMatcher url with
    | .error source, _ => .error (.exactUrlMatcher source)
    | .ok _, .error source => .error (.exactUrlMatcher source)
    | .ok _, .ok _ => .ok (.exactUrl url)

def parsePortMatcher (input port : Str) : Except RuleModelError Matcher :=
  match parseU16 port with
  | none => .error (.integer "port matcher" s!"invalid port matcher: {str input}")
  | some 0 => .error (.constraint "port matcher" "port must be 1..65535")
  | some port => .ok (.port port)

/-- `fuel` is what is left of the nesting limit, and one for the level that is rejected. -/
def parseMatcherWithin : (fuel : Nat) → Str → Except RuleModelError Matcher
  | 0, _ =>
    .error (.limit "matcher nesting" s!"matcher nesting exceeds {maxRuleParseNesting} levels")
  | fuel + 1, input =>
    match input with
    | [] => (parseGlobMatcher []).map .glob
    | c :: rest =>
      if c = '!' then (parseMatcherWithin fuel rest).map .not
      else if c = '=' then parseExactMatcher rest
      else if c = '/' then (parseRegexMatcher input).map .regex
      else if c = ':' then parsePortMatcher input rest
      else (parseGlobMatcher input).map .glob

def parseMatcher (input : Str) : Except RuleModelError Matcher :=
  parseMatcherWithin (maxRuleParseNesting + 1) input

end RsProxy.Rules
