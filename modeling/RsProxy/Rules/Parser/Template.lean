import RsProxy.Rules.Crates
import RsProxy.Rules.Parser.Lexer

/-!
# Templates in action values

A value may hold `${variable}` placeholders, and a placeholder may replace text by a regular
expression. Values are checked when a rule is parsed: every placeholder is closed and every
expression in it compiles.
-/

namespace RsProxy.Rules

open Text

variable [Crates]

/-- The expression up to its closing brace, nested braces counted, and what follows. -/
def templateEnd : (braces : Nat) → (escaped : Bool) → Str → Option (Str × Str)
  | _, _, [] => none
  | braces, true, c :: cs => (templateEnd braces false cs).map fun r => (c :: r.1, r.2)
  | braces, false, c :: cs =>
    if c = '\\' then (templateEnd braces true cs).map fun r => (c :: r.1, r.2)
    else if c = '\x7b' then (templateEnd (braces + 1) false cs).map fun r => (c :: r.1, r.2)
    else if c = '\x7d' then
      if braces = 0 then some ([], cs)
      else (templateEnd (braces - 1) false cs).map fun r => (c :: r.1, r.2)
    else (templateEnd braces false cs).map fun r => (c :: r.1, r.2)

/-- `\/` stands for `/`. -/
def unescapeSlashes : Str → Str
  | [] => []
  | c :: cs =>
    if c = '\\' then
      match cs with
      | d :: ds => if d = '/' then '/' :: unescapeSlashes ds else c :: unescapeSlashes (d :: ds)
      | [] => [c]
    else c :: unescapeSlashes cs

structure ReplaceTransform where
  variableName : Str
  pattern : Str
  caseInsensitive : Bool
  replacement : Str
  deriving DecidableEq, Repr

/-- An optional `i` and a comma, white space around them, and the replacement behind. -/
def flagsAndComma (tail : Str) : Option (Bool × Str) :=
  let trimmed := trimStart tail
  let (caseInsensitive, afterFlags) := match stripPrefix ['i'] trimmed with
    | some after => (true, trimStart after)
    | none => (false, trimmed)
  (stripPrefix [','] afterFlags).map fun replacement => (caseInsensitive, replacement)

/-- Pattern, flag and replacement, cut at the first `/` that a comma follows. -/
def replaceSeparator : (escaped : Bool) → Str → Option (Str × Bool × Str)
  | _, [] => none
  | true, c :: cs => (replaceSeparator false cs).map fun r => (c :: r.1, r.2)
  | false, c :: cs =>
    if c = '\\' then (replaceSeparator true cs).map fun r => (c :: r.1, r.2)
    else
      match if c = '/' then flagsAndComma cs else none with
      | some r => some ([], r)
      | none => (replaceSeparator false cs).map fun r => (c :: r.1, r.2)

/-- The quotes around a replacement, without unescaping. -/
def stripQuotes (input : Str) : Str :=
  if isQuoted input && 2 ≤ utf8Len input then input.tail.dropLast else input

def parseReplaceTransform (expression : Str) :
    Except RuleModelError (Option ReplaceTransform) :=
  match splitOnce ".replace(" expression with
  | none => .ok none
  | some (variableName, call) =>
    if (trim variableName).isEmpty || call.getLast? != some ')' then
      .error (.template "template replace"
        "template replace must be `$\x7bvar.replace(/regex/, replacement)\x7d`")
    else
      let arguments := call.dropLast
      if arguments.head? ≠ some '/' then
        .error (.template "template replace regex" "template replace regex must start with `/`")
      else
        match replaceSeparator false arguments.tail with
        | none =>
          .error (.template "template replace"
            "template replace must separate regex and replacement with a comma")
        | some (pattern, caseInsensitive, replacement) =>
          .ok (some {
            variableName := trim variableName
            pattern := unescapeSlashes pattern
            caseInsensitive
            replacement := stripQuotes (trim replacement) })

def validateExpression (expression : Str) : Except RuleModelError Unit := do
  match ← parseReplaceTransform expression with
  | none => return ()
  | some transform =>
    match Crates.linearRegex transform.pattern transform.caseInsensitive none with
    | .ok _ => return ()
    | .error source => .error (.regex "invalid template replace regex" source)

/-- One placeholder after the other; each takes at least two characters. -/
def validateTemplateWithin : (fuel : Nat) → Str → Except RuleModelError Unit
  | 0, _ => .ok ()
  | fuel + 1, input =>
    match splitOnce "$\x7b" input with
    | none => .ok ()
    | some (_, rest) =>
      match templateEnd 0 false rest with
      | none => .error (.template "template variable" "unterminated template variable")
      | some (expression, after) =>
        (validateExpression expression).bind fun _ => validateTemplateWithin fuel after

def validateTemplate (input : Str) : Except RuleModelError Unit :=
  validateTemplateWithin input.length input

/-! ### Values of an action -/

def validateValue : Value → Except RuleModelError Unit
  | .inline text | .file text => validateTemplate text
  | .reference _ => .ok ()

def validateAll : List Value → Except RuleModelError Unit
  | [] => .ok ()
  | v :: vs => (validateValue v).bind fun _ => validateAll vs

/-- The values of an action that are rendered as templates, in the order of the check. The target
of a regular expression rewrite uses the syntax of the expression, unless it is a file. -/
def Action.templateValues : Action → List Value
  | .host pool => pool.addresses
  | .upstream v | .reqMethod v | .reqUa v | .reqReferer v | .reqAuth v | .reqForwarded v
  | .reqType v | .reqCharset v | .resType v | .resCharset v | .resMerge v | .tag v
  | .mock v | .mockRaw v | .mapRemote v => [v]
  | .mockInline op => op.headers.map Prod.snd ++ op.body.toList
  | .redirect url _ => [url]
  | .reqHeader (.set _ v) | .resHeader (.set _ v) | .resTrailer (.set _ v) => [v]
  | .reqHeader _ | .resHeader _ | .resTrailer _ => []
  | .reqCookie (.set _ v attrs) | .resCookie (.set _ v attrs) =>
    v :: attrs.filterMap CookieAttr.value
  | .reqCookie (.remove _) | .resCookie (.remove _) => []
  | .resCors op =>
    op.origin ::
      (op.methods.toList ++ op.headers.toList ++ op.expose.toList ++ op.maxAge.toList)
  | .attachment filename => filename.toList
  | .cache (.directives ds) => ds.filterMap CacheDirective.value
  | .tls op => (op.clientCert.toList ++ op.clientKey.toList).map .inline
  | .urlRewrite (.plain source) target => [source, target]
  | .urlRewrite (.regex _) (.file path) => [.file path]
  | .urlRewrite (.regex _) _ => []
  | .urlQuery ops => ops.filterMap fun
    | .set _ v => some v
    | .remove _ => none
  | .reqBody (.set v) | .reqBody (.prepend v) | .reqBody (.append v)
  | .resBody (.set v) | .resBody (.prepend v) | .resBody (.append v) => [v]
  | .reqBody (.replace _ _) | .resBody (.replace _ _) => []
  | .inject op => [op.value]
  | .direct | .status _ | .resStatus _ | .cache .off | .delay _ _ | .throttle _ _ | .bypass
  | .hide | .delete _ | .skip _ => []

def Action.validateTemplates (a : Action) : Except RuleModelError Unit :=
  validateAll a.templateValues

end RsProxy.Rules
