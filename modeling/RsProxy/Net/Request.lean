import RsProxy.Net.Headers

/-!
# The head of an HTTP/1 request

`parse` turns the bytes before the blank line into a request and the framing of its body. The
framing comes from every `Content-Length` and `Transfer-Encoding` field of the head.
-/

namespace RsProxy.Net

open Text Io
open Rules (usizeMax saturatingAdd)

structure RawRequest where
  method : Str
  target : Str
  version : Str
  headers : Headers
  body : Bytes
  trailers : Headers
deriving DecidableEq

inductive RequestBodyFraming where
  | none
  | contentLength (length : Nat)
  | chunked
deriving DecidableEq, Repr

def RequestBodyFraming.hasBody : RequestBodyFraming → Bool
  | .none => false
  | .contentLength 0 => false
  | _ => true

structure RequestHead where
  request : RawRequest
  body : RequestBodyFraming
deriving DecidableEq

/-! ### Framing -/

/-- The elements of the comma lists under a name, in order. -/
def listElements (headers : Headers) (name : Str) : List Str :=
  (headers.filter (named name)).flatMap fun field => (splitOn (· == ',') field.2).map trim

def parseUsize (s : Str) : Option Nat := parseUnsigned usizeMax s

def contentLength (headers : Headers) : Except IoError (Option Nat) :=
  match listElements headers "content-length" with
  | [] => .ok Option.none
  | first :: values =>
    match parseUsize first with
    | Option.none => .error (invalidData "invalid Content-Length header")
    | some parsed =>
      if values.any fun value => parseUsize value != some parsed then
        .error (invalidData "conflicting Content-Length headers")
      else .ok (some parsed)

def transferCodings (headers : Headers) : List Str :=
  ((listElements headers "transfer-encoding").filter fun value => !value.isEmpty).map
    toAsciiLowercase

def bodyFraming (headers : Headers) : Except IoError RequestBodyFraming := do
  let length ← contentLength headers
  let codings := transferCodings headers
  if !codings.isEmpty && length.isSome then
    .error (invalidData
      "request must not contain both Content-Length and Transfer-Encoding".toList)
  else if codings.isEmpty then
    match length with
    | some n => .ok (.contentLength n)
    | Option.none => .ok .none
  else if codings = ["chunked".toList] then .ok .chunked
  else .error (invalidData ("unsupported request Transfer-Encoding: ".toList ++
    ", ".toList.intercalate codings))

/-! ### The head -/

def parse (head : Bytes) (maxHeaderCount : Nat) : Except IoError RequestHead := do
  let lines := splitStr "\r\n" (fromUtf8Lossy head)
  let parts := splitWhitespace (lines.headD [])
  let method := (parts[0]?).getD []
  let target := (parts[1]?).getD []
  let version := (parts[2]?).getD "HTTP/1.1".toList
  if method.isEmpty || target.isEmpty then .error (invalidData "invalid request line")
  else do
    let headers ← parseHeadersLimited lines.tail maxHeaderCount
    let framing ← bodyFraming headers
    .ok ⟨⟨method, target, version, headers, [], []⟩, framing⟩

end RsProxy.Net
