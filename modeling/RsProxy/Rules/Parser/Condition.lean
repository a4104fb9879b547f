import RsProxy.Rules.Parser.Matcher
import RsProxy.Text.Float

/-!
# Parsing conditions

The token after `when`: a call, perhaps negated by `!`, whose arguments may be conditions again.
-/

namespace RsProxy.Rules

open Text

variable [Crates]

def conditionNodeCount (condition : Condition) : Nat := condition.nodes.length

def Condition.isBodyCondition : Condition → Bool
  | .bodyContains _ | .bodyRegex _ => true
  | _ => false

def bodyConditionCount (condition : Condition) : Nat :=
  (condition.nodes.filter Condition.isBodyCondition).length

def validateStatusRange (code low high : Nat) (context expected : String) :
    Except RuleModelError Unit :=
  if low ≤ code ∧ code ≤ high then .ok ()
  else .error (.constraint context s!"{context} must be {expected}; got {code}")

/-! ### Single conditions -/

def parseMethod (arg : Str) : Except RuleModelError Str :=
  let value := trim (unquote arg)
  if value.isEmpty || !value.all isHttpTokenChar then
    .error (.invalid "method condition" s!"invalid method condition `{str value}`")
  else .ok (toAsciiUppercase value)

def parseMethodCondition (args : List Str) : Except RuleModelError (List Str) :=
  if args.isEmpty then .error (.missing "method condition" "method requires at least one method")
  else args.mapM parseMethod

def parseIpPattern (name : String) (arg : Str) : Except RuleModelError Str :=
  let value := trim (unquote arg)
  if value.isEmpty || value.any isControl then
    .error (.empty "IP condition pattern" s!"{name} patterns must be non-empty")
  else (validateGlobPattern value '\x00' "IP condition glob").map fun _ => value

def parseIpPatterns (args : List Str) (name : String) : Except RuleModelError (List Str) :=
  if args.isEmpty then .error (.missing "IP condition" s!"{name} requires at least one pattern")
  else args.mapM (parseIpPattern name)

def validateHeaderName (input : Str) : Except RuleModelError Str :=
  let name := trim input
  if name.isEmpty || !name.all isHttpTokenChar then
    .error (.invalid "header condition name" s!"invalid header condition name `{str name}`")
  else .ok (toAsciiLowercase name)

def parseHeaderCondition (input : Str) (response : Bool) : Except RuleModelError Condition :=
  match splitOnce ['~'] input with
  | some (name, value) => do
    let name ← validateHeaderName name
    let value := unquote (trim value)
    if value.isEmpty then
      .error (.empty "header contains condition" "header contains condition value is empty")
    else return if response then .resHeaderContains name value else .headerContains name value
  | none =>
    (validateHeaderName input).map fun name =>
      if response then .resHeaderPresent name else .headerPresent name

def parseStatus (arg : Str) : Except RuleModelError Nat :=
  match parseU16 (trim arg) with
  | none => .error (.integer "status condition" s!"invalid status condition `{str arg}`")
  | some status =>
    (validateStatusRange status minHttpStatus maxHttpStatus "status condition" "100..599").map
      fun _ => status

def parseStatusCondition (args : List Str) : Except RuleModelError (List Nat) :=
  if args.isEmpty then .error (.missing "status condition" "status requires at least one code")
  else args.mapM parseStatus

def validateEnvName (name : Str) : Except RuleModelError Unit :=
  if name.isEmpty || name.contains '=' || name.contains '\x00' || name.any isWhitespace then
    .error (.invalid "environment condition name"
      "env condition name is empty or contains `=`, NUL, or whitespace")
  else .ok ()

def parseEnvCondition (arg : Str) : Except RuleModelError Condition :=
  match splitOnce ['='] arg with
  | some (name, value) =>
    (validateEnvName (trim name)).map fun _ => .envEquals (trim name) (unquote (trim value))
  | none => (validateEnvName (trim arg)).map fun _ => .envPresent (trim arg)

/-- Does the text read as a regular expression literal? -/
def isRegexLiteral (input : Str) : Bool := input.head? == some '/' && (regexLiteral input).isSome

def parseUrlCondition (input : Str) : Except RuleModelError UrlCondition :=
  let input := trim input
  if isRegexLiteral input then (parseRegexMatcher input).map .regex
  else
    let pattern := unquote input
    (validateGlobPattern pattern '\x00' "URL condition glob").map fun _ => .glob pattern

def parseBodyCondition (input : Str) : Except RuleModelError Condition :=
  let input := trim input
  if isRegexLiteral input then (parseRegexMatcher input).map .bodyRegex
  else
    let text := trim ((stripPrefix ['~'] input).getD input)
    if text.isEmpty then
      .error (.missing "body condition" "body condition requires text or regex")
    else .ok (.bodyContains (unquote text))

def parseHostCondition (input : Str) : Except RuleModelError Condition :=
  let pattern := unquote input
  (validateGlobPattern pattern '.' "host condition glob").map fun _ => .host pattern

def parseChanceCondition (raw : Str) : Except RuleModelError Condition :=
  match parseF64 raw with
  | none => .error (.float "chance condition" "chance must be 0.0..1.0")
  | some value =>
    if 0.0 ≤ value ∧ value ≤ 1.0 then
      .ok (.chancePermille (value * 1000.0).round.toUInt16.toNat)
    else .error (.constraint "chance condition" "chance must be 0.0..1.0")

def unknownCondition (profile : SyntaxProfile) (name : Str) : RuleModelError :=
  match profile, canonicalConditionName .compatible name with
  | .canonicalV3, some canonical =>
    let replacement := str canonical.canonical
    .unsupported "condition"
      s!"v3 accepts canonical condition names only; replace `{str name}` with `{replacement}`"
  | _, _ => .unsupported "condition" s!"unknown condition `{str name}`"

/-! ### Condition trees -/

/-- A condition by its name; `inner` parses the conditions among its arguments. -/
def parseNamedCondition (inner : Str → Except RuleModelError Condition) (name : ConditionName)
    (args : List Str) : Except RuleModelError Condition :=
  match name with
  | .method => (parseMethodCondition args).map .method
  | .host => (requireOne args "host").bind parseHostCondition
  | .url => (requireOne args "url").bind fun arg => (parseUrlCondition arg).map .url
  | .clientIp => (parseIpPatterns args "client.ip").map .clientIp
  | .serverIp => (parseIpPatterns args "server.ip").map .serverIp
  | .header => (requireOne args "header").bind (parseHeaderCondition · false)
  | .resHeader => (requireOne args "res.header").bind (parseHeaderCondition · true)
  | .body => (requireOne args "body").bind parseBodyCondition
  | .status => (parseStatusCondition args).map .status
  | .chance => (requireOne args "chance").bind parseChanceCondition
  | .env => (requireOne args "env").bind parseEnvCondition
  | .any =>
    if args.isEmpty then .error (.missing "any condition" "any requires at least one condition")
    else (args.mapM fun arg => inner (trim arg)).map .any
  | .all =>
    if args.isEmpty then .error (.missing "all condition" "all requires at least one condition")
    else (args.mapM fun arg => inner (trim arg)).map .all
  | .not => (requireOne args "not").bind fun arg => (inner arg).map .not

/-- `fuel` is what is left of the nesting limit, and one for the level that is rejected. -/
def parseConditionWithin (profile : SyntaxProfile) :
    (fuel : Nat) → Str → Except RuleModelError Condition
  | 0, _ =>
    .error (.limit "condition nesting" s!"condition nesting exceeds {maxRuleParseNesting} levels")
  | fuel + 1, input =>
    match stripPrefix ['!'] input with
    | some rest => (parseConditionWithin profile fuel rest).map .not
    | none =>
      (parseCall input).bind fun (inputName, args) =>
        match canonicalConditionName profile inputName with
        | none => .error (unknownCondition profile inputName)
        | some name => parseNamedCondition (parseConditionWithin profile fuel) name args

def parseCondition (profile : SyntaxProfile) (input : Str) : Except RuleModelError Condition :=
  parseConditionWithin profile (maxRuleParseNesting + 1) input

end RsProxy.Rules
