import RsProxy.Rules.Parser.Operations

/-!
# Parsing deletions and TLS options

The property names of `delete`, with the path into a body that some of them carry, and the options
of `tls`.
-/

namespace RsProxy.Rules

open Text

/-! ### Paths into a body -/

def maxBodyPathBytes : Nat := 16 * 1024

def maxBodyPathSegments : Nat := 128

def danglingEscape : RuleModelError :=
  .badSyntax "delete body path" "delete body path ends with an escape"

/-- The components between dots that are not escaped, escapes kept. -/
def splitBodyPath : Str → Except RuleModelError (List Str)
  | [] => .ok [[]]
  | c :: cs =>
    if c = '\\' then
      match cs with
      | [] => .error danglingEscape
      | d :: ds => (splitBodyPath ds).map fun
        | [] => [[c, d]]
        | w :: ws => (c :: d :: w) :: ws
    else if c = '.' then (splitBodyPath cs).map ([] :: ·)
    else (splitBodyPath cs).map fun
      | [] => [[c]]
      | w :: ws => (c :: w) :: ws

def escapedBodyPathChar (c : Char) : Char :=
  if c = 'n' then '\n'
  else if c = 'r' then '\r'
  else if c = 't' then '\t'
  else if c = 'f' then '\x0c'
  else if c = 'v' then '\x0b'
  else c

/-- Each character with the mark whether it was escaped. -/
def decodeBodyPathComponent : Str → Except RuleModelError (List (Char × Bool))
  | [] => .ok []
  | c :: cs =>
    if c = '\\' then
      match cs with
      | [] => .error danglingEscape
      | d :: ds => (decodeBodyPathComponent ds).map ((escapedBodyPathChar d, true) :: ·)
    else (decodeBodyPathComponent cs).map ((c, false) :: ·)

/-- The index between a pair of brackets; `none` when the text is no index. -/
def bodyArrayIndex (chars : List (Char × Bool)) : Except RuleModelError (Option Nat) :=
  if chars.isEmpty || chars.any (fun c => c.2 || !c.1.isDigit) ||
      (1 < chars.length && chars.head?.any (·.1 == '0')) then .ok none
  else
    let value := chars.map Prod.fst
    match parseUnsigned usizeMax value with
    | some n => .ok (some n)
    | none =>
      .error (.integer "delete body array index"
        s!"delete body array index is out of range: `{str value}`")

/-- The last `[` that is not escaped, and what follows it. -/
def splitLastBracket : List (Char × Bool) → Option (List (Char × Bool) × List (Char × Bool))
  | [] => none
  | c :: cs =>
    match splitLastBracket cs with
    | some (a, b) => some (c :: a, b)
    | none => if c = ('[', false) then some ([], cs) else none

/-- Take trailing `[n]` selectors off, the last one first; each takes at least two characters. -/
def takeIndexes : (fuel : Nat) → List (Char × Bool) → List Nat →
    Except RuleModelError (List (Char × Bool) × List Nat)
  | 0, chars, indexes => .ok (chars, indexes)
  | fuel + 1, chars, indexes =>
    if chars.getLast? ≠ some (']', false) then .ok (chars, indexes)
    else
      match splitLastBracket chars.dropLast with
      | none => .ok (chars, indexes)
      | some (front, inside) =>
        (bodyArrayIndex inside).bind fun
          | none => .ok (chars, indexes)
          | some n => takeIndexes fuel front (n :: indexes)

def parseBodyPathComponent (input : Str) : Except RuleModelError (List DeleteBodyPathSegment) := do
  let chars ← decodeBodyPathComponent input
  let (front, indexes) ← takeIndexes chars.length chars []
  let key := if !front.isEmpty || indexes.isEmpty then [.key (front.map Prod.fst)] else []
  return key ++ indexes.map .index

/-- The components one by one; the number of segments is checked after each. -/
def bodyPathSegments : List Str → List DeleteBodyPathSegment →
    Except RuleModelError (List DeleteBodyPathSegment)
  | [], segments => .ok segments
  | component :: components, segments =>
    (parseBodyPathComponent component).bind fun new =>
      let segments := segments ++ new
      if maxBodyPathSegments < segments.length then
        .error (.limit "delete body path"
          s!"delete body path exceeds {maxBodyPathSegments} segments")
      else bodyPathSegments components segments

def parseBodyPath (input : Str) : Except RuleModelError DeleteBodyPath :=
  if input.isEmpty then .error (.empty "delete body path" "delete body path must not be empty")
  else if maxBodyPathBytes < utf8Len input then
    .error (.limit "delete body path" s!"delete body path exceeds {maxBodyPathBytes} bytes")
  else do
    let components ← splitBodyPath input
    let segments ← bodyPathSegments components []
    DeleteBodyPath.new segments

/-! ### Deletions -/

/-- What follows a name, compared without case. -/
def suffixOf (input : Str) (start : String) : Option Str :=
  let start := start.toList
  if start.length ≤ input.length ∧ eqIgnoreAsciiCase (input.take start.length) start then
    some (input.drop start.length)
  else none

def suffixAny (input : Str) (starts : List String) : Option Str := starts.findSome? (suffixOf input)

def matchesName (input : Str) (names : List String) : Bool :=
  names.any fun name => eqIgnoreAsciiCase input name.toList

def validName (kind : String) (value : Str) : Except RuleModelError Str :=
  let value := trim value
  if value.isEmpty || value.any isControl then
    .error (.invalid "delete property name"
      s!"{kind} name must be non-empty and contain no control characters")
  else .ok value

def parsePathSegment (segment : Str) : Except RuleModelError DeletePathSegment :=
  if toAsciiLowercase segment = "first" then .ok (.index 0)
  else if toAsciiLowercase segment = "last" then .ok .last
  else
    match parseI32 segment with
    | some i => .ok (.index i)
    | none => .error (.integer "pathname segment" s!"invalid pathname segment `{str segment}`")

/-- A property that is a name, or a family of names followed by an argument. -/
inductive DeleteForm where
  | exact (names : List String) (ops : List DeleteOp)
  | nested (starts : List String) (parse : Str → Except RuleModelError (List DeleteOp))

def DeleteForm.read (property : Str) : DeleteForm → Option (Except RuleModelError (List DeleteOp))
  | .exact names ops => if matchesName property names then some (.ok ops) else none
  | .nested starts parse => (suffixAny property starts).map parse

def deleteNamed (kind : String) (ops : Str → List DeleteOp) (name : Str) :
    Except RuleModelError (List DeleteOp) :=
  (validName kind name).map ops

/-- The forms in the order they are tried. -/
def deleteForms : List DeleteForm :=
  [ .exact ["pathname"] [.pathname],
    .nested ["pathname."] fun s => (parsePathSegment s).map fun seg => [.pathSegment seg],
    .exact ["urlParams", "url.params", "params", "query"] [.urlParams],
    .nested ["urlParams.", "url.params.", "params.", "query."]
      (deleteNamed "URL parameter" fun n => [.urlParam n]),
    .nested ["reqHeaders.", "reqHeader.", "req.headers.", "req.header.", "reqH."]
      (deleteNamed "request header" fun n => [.reqHeader n]),
    .nested ["resHeaders.", "resHeader.", "res.headers.", "res.header.", "resH."]
      (deleteNamed "response header" fun n => [.resHeader n]),
    .nested ["headers."] (deleteNamed "header" fun n => [.reqHeader n, .resHeader n]),
    .exact ["reqBody", "req.body"] [.reqBody],
    .exact ["resBody", "res.body"] [.resBody],
    .exact ["body"] [.reqBody, .resBody],
    .nested ["reqBody.", "req.body."] fun s => (parseBodyPath s).map fun p => [.reqBodyPath p],
    .nested ["resBody.", "res.body."] fun s => (parseBodyPath s).map fun p => [.resBodyPath p],
    .exact ["reqType", "req.type"] [.reqType],
    .exact ["resType", "res.type"] [.resType],
    .exact ["reqCharset", "req.charset"] [.reqCharset],
    .exact ["resCharset", "res.charset"] [.resCharset],
    .exact ["reqCookies", "req.cookies"] [.reqCookies],
    .exact ["resCookies", "res.cookies"] [.resCookies],
    .exact ["cookies", "cookie"] [.reqCookies, .resCookies],
    .nested ["reqCookies.", "reqCookie.", "req.cookies.", "req.cookie.", "reqC."]
      (deleteNamed "request cookie" fun n => [.reqCookie n]),
    .nested ["resCookies.", "resCookie.", "res.cookies.", "res.cookie.", "resC."]
      (deleteNamed "response cookie" fun n => [.resCookie n]),
    .nested ["cookies.", "cookie."] (deleteNamed "cookie" fun n => [.reqCookie n, .resCookie n]),
    .nested ["trailer."] (deleteNamed "trailer" fun n => [.trailer n]),
    .exact ["trailers", "trailer"] [.trailers] ]

def parseDeleteProperty (property : Str) : Except RuleModelError (List DeleteOp) :=
  match deleteForms.findSome? (DeleteForm.read property) with
  | some result => result
  | none =>
    .error (.unsupported "delete property" s!"unknown delete property `{str property}`")

def parseDeleteArg (raw : Str) : Except RuleModelError (List DeleteOp) :=
  let property := unquote (trim raw)
  if property.isEmpty then
    .error (.empty "delete property" "delete properties must not be empty")
  else parseDeleteProperty property

def parseDeleteOps (args : List Str) : Except RuleModelError (List DeleteOp) :=
  if args.isEmpty then .error (.missing "delete action" "delete requires at least one property")
  else (args.mapM parseDeleteArg).map List.flatten

/-! ### TLS options -/

def parseTlsMinVersion (input : Str) : Except RuleModelError TlsMinVersion :=
  match String.ofList (toAsciiLowercase (trim input)) with
  | "1.2" | "tls1.2" | "tlsv1.2" | "tls12" | "tlsv12" => .ok .tls12
  | "1.3" | "tls1.3" | "tlsv1.3" | "tls13" | "tlsv13" => .ok .tls13
  | _ =>
    .error (.unsupported "TLS minimum version"
      s!"unsupported tls minimum version `{str input}`; supported: 1.2, 1.3")

def parseTlsCipherSuite (input : Str) : Except RuleModelError TlsCipherSuite :=
  match String.ofList (toAsciiUppercase (trim input)) with
  | "TLS_AES_128_GCM_SHA256" | "TLS13_AES_128_GCM_SHA256" => .ok .tls13Aes128GcmSha256
  | "TLS_AES_256_GCM_SHA384" | "TLS13_AES_256_GCM_SHA384" => .ok .tls13Aes256GcmSha384
  | "TLS_CHACHA20_POLY1305_SHA256" | "TLS13_CHACHA20_POLY1305_SHA256" =>
    .ok .tls13Chacha20Poly1305Sha256
  | "TLS_ECDHE_ECDSA_WITH_AES_128_GCM_SHA256" | "ECDHE-ECDSA-AES128-GCM-SHA256" =>
    .ok .tls12EcdheEcdsaAes128GcmSha256
  | "TLS_ECDHE_ECDSA_WITH_AES_256_GCM_SHA384" | "ECDHE-ECDSA-AES256-GCM-SHA384" =>
    .ok .tls12EcdheEcdsaAes256GcmSha384
  | "TLS_ECDHE_ECDSA_WITH_CHACHA20_POLY1305_SHA256" | "ECDHE-ECDSA-CHACHA20-POLY1305"
  | "ECDHE-ECDSA-CHACHA20-POLY1305-SHA256" => .ok .tls12EcdheEcdsaChacha20Poly1305Sha256
  | "TLS_ECDHE_RSA_WITH_AES_128_GCM_SHA256" | "ECDHE-RSA-AES128-GCM-SHA256" =>
    .ok .tls12EcdheRsaAes128GcmSha256
  | "TLS_ECDHE_RSA_WITH_AES_256_GCM_SHA384" | "ECDHE-RSA-AES256-GCM-SHA384" =>
    .ok .tls12EcdheRsaAes256GcmSha384
  | "TLS_ECDHE_RSA_WITH_CHACHA20_POLY1305_SHA256" | "ECDHE-RSA-CHACHA20-POLY1305"
  | "ECDHE-RSA-CHACHA20-POLY1305-SHA256" => .ok .tls12EcdheRsaChacha20Poly1305Sha256
  | _ => .error (.unsupported "TLS cipher suite" s!"unsupported tls cipher suite `{str input}`")

def normalizeTlsPath (input : Str) : Str :=
  let value := unquote (trim input)
  ((stripPrefix ['<'] value).bind (stripSuffix ['>'])).getD value

def parseTlsPath (value : Str) (context option : String) : Except RuleModelError Str :=
  let path := normalizeTlsPath value
  if path.isEmpty then .error (.empty context s!"tls {option} must not be empty")
  else if path.contains '\x00' then .error (.invalid context s!"tls {option} must not contain NUL")
  else .ok path

/-- Add a cipher suite unless it is there. -/
def addCipher (ciphers : List TlsCipherSuite) (name : Str) :
    Except RuleModelError (List TlsCipherSuite) :=
  (parseTlsCipherSuite name).map fun cipher =>
    if ciphers.contains cipher then ciphers else ciphers ++ [cipher]

def parseTlsOption (op : TlsOp) (arg : Str) : Except RuleModelError TlsOp :=
  match splitOnce ['='] arg with
  | none => .error (.badSyntax "TLS option" "tls options must use key=value syntax")
  | some (rawKey, value) =>
    let key := (toAsciiLowercase (trim rawKey)).map fun c => if c = '_' then '-' else c
    match String.ofList key with
    | "client-cert" =>
      (parseTlsPath value "TLS client certificate" "client-cert").map fun path =>
        { op with clientCert := some path }
    | "client-key" =>
      (parseTlsPath value "TLS client key" "client-key").map fun path =>
        { op with clientKey := some path }
    | "min" | "min-version" =>
      (parseTlsMinVersion (unquote (trim value))).map fun v => { op with minVersion := some v }
    | "cipher" | "ciphers" =>
      let value := unquote (trim value)
      if value.isEmpty then .error (.empty "TLS ciphers" "tls ciphers must not be empty")
      else
        ((splitOn (fun c => c == ':' || c == '|' || c == ';') value).foldlM addCipher
          op.ciphers).map fun ciphers => { op with ciphers }
    | _ =>
      .error (.unsupported "TLS option"
        s!"unsupported tls option `{str key}`; supported: client-cert, client-key, min, ciphers")

def parseTlsOp (args : List Str) : Except RuleModelError TlsOp :=
  if args.isEmpty then .error (.missing "TLS action" "tls requires at least one option")
  else do
    let op ← args.foldlM parseTlsOption ⟨none, none, none, []⟩
    if op.clientCert.isSome != op.clientKey.isSome then
      .error (.constraint "TLS client identity"
        "tls client-cert and client-key must be configured together")
    else if op.minVersion == some .tls13 && !op.ciphers.isEmpty &&
        op.ciphers.all (!·.isTls13) then
      .error (.constraint "TLS ciphers" "tls min=1.3 requires at least one TLS 1.3 cipher suite")
    else return op

end RsProxy.Rules
