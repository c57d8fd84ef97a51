/-
The HTTP request parser.

The head of a request is read by a library; the body has the length that a header
says or comes in chunks.  A chunk says its own length, as a number in hexadecimal
that is added to a position.  What the program indexes and adds is checked here:
where it panics, the result is a panic.
-/

import Beava.Lib.Checked
import Beava.Lib.Delimiter
import Beava.Server.Transports

namespace Beava.Server

open Beava.Core Beava.Wal Checked

inductive HttpPanic where
  | arithmeticOverflow
  | fault (fault : Fault)
  deriving DecidableEq

def isWhitespace (ch : Char) : Bool :=
  let code := ch.val.toNat
  (9 ≤ code && code ≤ 13) || code = 0x20 || code = 0x85 || code = 0xA0 || code = 0x1680 ||
    (0x2000 ≤ code && code ≤ 0x200A) || code = 0x2028 || code = 0x2029 || code = 0x202F ||
    code = 0x205F || code = 0x3000

def trim (text : List Char) : List Char :=
  ((text.dropWhile isWhitespace).reverse.dropWhile isWhitespace).reverse

def asciiLower (text : String) : List Char := text.toList.map Char.toLower

def beforeSemicolon (text : List Char) : List Char := text.takeWhile fun ch => ch ≠ ';'

/-- The errors of `usize::from_str_radix`. -/
inductive IntErrorKind where
  | empty
  | invalidDigit
  | posOverflow
  deriving DecidableEq

def IntErrorKind.display : IntErrorKind → String
  | .empty => "cannot parse integer from empty string"
  | .invalidDigit => "invalid digit found in string"
  | .posOverflow => "number too large to fit in target type"

def toDigit (radix : Nat) (ch : Char) : Option Nat :=
  let code := ch.val.toNat
  let digit :=
    if 0x30 ≤ code ∧ code ≤ 0x39 then code - 0x30
    else if 0x61 ≤ code ∧ code ≤ 0x7A then code - 0x61 + 10
    else if 0x41 ≤ code ∧ code ≤ 0x5A then code - 0x41 + 10
    else radix
  if digit < radix then some digit else none

def digitsValue (radix : Nat) : Nat → List Char → Except IntErrorKind Nat
  | result, [] => .ok result
  | result, ch :: rest =>
      match toDigit radix ch with
      | none => .error .invalidDigit
      | some digit =>
          if 2 ^ 64 ≤ result * radix + digit then .error .posOverflow
          else digitsValue radix (result * radix + digit) rest

def usizeFromStrRadix (radix : Nat) (text : List Char) : Except IntErrorKind Nat :=
  match text with
  | [] => .error .empty
  | ['+'] => .error .invalidDigit
  | '+' :: digits => digitsValue radix 0 digits
  | digits => digitsValue radix 0 digits

structure HttpHead where
  method : Option String
  path : Option String
  headers : List (String × List UInt8)

structure HttpLibraries where
  /-- `Request::parse`: the length of the head, and nothing while it is not complete.  An
  error has a text. -/
  parseHead : List UInt8 → Except String (Option (Nat × HttpHead))
  /-- `Utf8Error` as a text. -/
  utf8Error : List UInt8 → String
  json : JsonLibraries

inductive HttpParseError where
  | httparse (reason : String)
  | invalidContentLength (reason : String)
  | badChunked (reason : String)
  | tooLarge
  deriving DecidableEq

structure HeaderFields where
  keepAlive : Bool
  contentLength : Option Nat
  isChunked : Bool
  contentType : Option (List Char)
  deriving DecidableEq

def valueText (value : List UInt8) : String := (strFromUtf8 value).getD ""

def containsText (text : List Char) (needle : String) : Bool := needle.toList <:+: text

section Headers

variable (libraries : HttpLibraries)

def scanHeader (fields : HeaderFields) (header : String × List UInt8) :
    Except HttpParseError HeaderFields :=
  let name := asciiLower header.1
  if name = "connection".toList then
    let value := asciiLower (valueText header.2)
    if containsText value "close" then .ok { fields with keepAlive := false }
    else if containsText value "keep-alive" then .ok { fields with keepAlive := true }
    else .ok fields
  else if name = "content-length".toList then
    match strFromUtf8 header.2 with
    | none => .error (.invalidContentLength (libraries.utf8Error header.2))
    | some value =>
        match usizeFromStrRadix 10 (trim value.toList) with
        | .error kind => .error (.invalidContentLength kind.display)
        | .ok length => .ok { fields with contentLength := some length }
  else if name = "transfer-encoding".toList then
    if containsText (asciiLower (valueText header.2)) "chunked" then
      .ok { fields with isChunked := true }
    else .ok fields
  else if name = "content-type".toList then
    .ok { fields with contentType := some (trim (valueText header.2).toList) }
  else .ok fields

def scanHeaders (headers : List (String × List UInt8)) : Except HttpParseError HeaderFields :=
  headers.foldlM (scanHeader libraries)
    { keepAlive := true, contentLength := none, isChunked := false, contentType := none }

end Headers

/-! ### Chunked bodies -/

inductive ChunkedResult where
  | complete (body : List UInt8) (bytesConsumed : Nat)
  | incomplete
  | error (reason : String)
  deriving DecidableEq

/-- A slice, as `data[start..stop]`. -/
def sliced (data : List UInt8) (start stop : Nat) : Except HttpPanic (List UInt8) :=
  (slice data start stop).mapError .fault

/-- The sum of two `usize`; the dev profile checks for overflow, the release profile wraps
around. -/
def addUsize (overflowChecks : Bool) (left right : Nat) : Except HttpPanic Nat :=
  if 2 ^ 64 ≤ left + right then
    if overflowChecks then .error .arithmeticOverflow else .ok ((left + right) % 2 ^ 64)
  else .ok (left + right)

def cr : UInt8 := 0x0D

def lf : UInt8 := 0x0A

def findCrlf (data : List UInt8) (start : Nat) : Except HttpPanic (Option Nat) := do
  let rest ← sliced data start data.length
  return (Delimiter.firstPair cr lf rest).map (start + ·)

def sizeText (line : String) : List Char := trim (beforeSemicolon (trim line.toList))

def readSizeLine (line : List UInt8) : Except String Nat :=
  match strFromUtf8 line with
  | none => .error "non-UTF8 chunk size line"
  | some line =>
      match usizeFromStrRadix 16 (sizeText line) with
      | .error kind =>
          .error ("bad chunk size '" ++ String.ofList (sizeText line) ++ "': " ++ kind.display)
      | .ok chunkSize => .ok chunkSize

section Chunks

variable (overflowChecks : Bool)

/-- The loop of `parse_chunked_body`.  Sums with a constant stay within the buffer's length
and a few bytes, and are not checked here. -/
def chunkLoop (data : List UInt8) : Nat → Nat → List UInt8 → Except HttpPanic ChunkedResult
  | 0, _, _ => .error (.fault .outOfFuel)
  | fuel + 1, pos, body => do
      match ← findCrlf data pos with
      | none => return .incomplete
      | some lineEnd =>
          let line ← sliced data pos lineEnd
          match readSizeLine line with
          | .error reason => return .error reason
          | .ok chunkSize =>
              let pos := lineEnd + 2
              if chunkSize = 0 then
                if data.length < pos + 2 then return .incomplete
                else return .complete body (pos + 2)
              else
                let dataEnd ← addUsize overflowChecks pos chunkSize
                let next ← addUsize overflowChecks dataEnd 2
                if data.length < next then return .incomplete
                else
                  let chunk ← sliced data pos dataEnd
                  chunkLoop data fuel next (body ++ chunk)

def parseChunkedBody (data : List UInt8) : Except HttpPanic ChunkedResult :=
  chunkLoop overflowChecks data (data.length + 1) 0 []

end Chunks

/-! ### Requests -/

def maxHeaderBytes : Nat := 8 * 1024

def maxBodyBytes : Nat := 4 * 1024 * 1024

structure FramedRequest where
  method : String
  path : String
  keepAlive : Bool
  contentType : Option (List Char)
  body : List UInt8

def framedRequest (head : HttpHead) (fields : HeaderFields) (body : List UInt8) : FramedRequest where
  method := head.method.getD ""
  path := head.path.getD ""
  keepAlive := fields.keepAlive
  contentType := fields.contentType
  body := body

def blankLine : List UInt8 := [cr,lf,cr,lf]

def headerIsTooLarge (buf : List UInt8) : Bool :=
  !decide (blankLine <:+: buf) && decide (maxHeaderBytes < buf.length)

/-- `split_to`: what is left in the buffer. -/
def splitTo (buf : List UInt8) (count : Nat) : Except HttpPanic (List UInt8) :=
  sliced buf count buf.length

/-- The part of `parse_http_request` that takes a request off the buffer. -/
def frameHttpRequest (libraries : HttpLibraries) (overflowChecks : Bool) (buf : List UInt8) :
    Except HttpPanic (Except HttpParseError (Option FramedRequest) × List UInt8) :=
  if headerIsTooLarge buf then .ok (.error .tooLarge,buf)
  else
    match libraries.parseHead buf with
    | .error reason => .ok (.error (.httparse reason),buf)
    | .ok none => .ok (.ok none,buf)
    | .ok (some (headerEnd,head)) =>
        match scanHeaders libraries head.headers with
        | .error error => .ok (.error error,buf)
        | .ok fields =>
            if fields.isChunked then do
              let data ← sliced buf headerEnd buf.length
              match ← parseChunkedBody overflowChecks data with
              | .complete body bytesConsumed =>
                  let rest ← splitTo buf (headerEnd + bytesConsumed)
                  return (.ok (some (framedRequest head fields body)),rest)
              | .incomplete => return (.ok none,buf)
              | .error reason => return (.error (.badChunked reason),buf)
            else
              match fields.contentLength with
              | some length =>
                  if maxBodyBytes < length then .ok (.error .tooLarge,buf)
                  else if buf.length < headerEnd + length then .ok (.ok none,buf)
                  else do
                    let body ← sliced buf headerEnd (headerEnd + length)
                    let rest ← splitTo buf (headerEnd + length)
                    return (.ok (some (framedRequest head fields body)),rest)
              | none => do
                  let rest ← splitTo buf headerEnd
                  return (.ok (some (framedRequest head fields [])),rest)

inductive HttpRequest where
  /-- `HttpPush`, `HttpPushSync`, or an error in the body of one. -/
  | push (request : WireRequest)
  | httpPushBatch (eventName : String) (body : List UInt8) (bodyFormat : UInt8)
  | httpGet (body : List UInt8)
  | httpGetSingle (feature key : String)
  | httpBatchGet (body : List UInt8)
  | register (payload : List UInt8)
  | httpHealth
  | httpReady
  | httpRegistry
  | httpNotFound (path : String)
  | httpMethodNotAllowed (method path : String)
  | httpPing
  | httpReset (body : List UInt8)
  | httpUnsupportedMediaType (received : List Char) (path : String)

def WireRequest.body : WireRequest → List UInt8
  | .httpPush _ body _ | .httpPushSync _ body _ | .tcpPush _ body _ => body
  | .parseError _ => []

/-- The body that a request carries. -/
def HttpRequest.body : HttpRequest → List UInt8
  | .push request => request.body
  | .httpPushBatch _ body _ | .httpGet body | .httpBatchGet body | .register body
  | .httpReset body => body
  | .httpGetSingle .. | .httpHealth | .httpReady | .httpRegistry | .httpNotFound _
  | .httpMethodNotAllowed .. | .httpPing | .httpUnsupportedMediaType .. => []

def isJsonContentType (contentType : List Char) : Bool :=
  asciiLower (String.ofList (trim (beforeSemicolon contentType))) = "application/json".toList

def httpRequestOf (libraries : HttpLibraries) (framed : FramedRequest) : HttpRequest :=
  let body := framed.body
  match Router.route framed.method framed.path with
  | .push eventName => .push (.httpPush eventName body ctJson)
  | .pushSync eventName => .push (.httpPushSync eventName body ctJson)
  | .pushBatch eventName => .httpPushBatch eventName body ctJson
  | .get => .httpGet body
  | .getSingle feature key => .httpGetSingle feature key
  | .batchGet => .httpBatchGet body
  | .register =>
      if asciiLower framed.method = "post".toList then
        match framed.contentType with
        | none => .httpUnsupportedMediaType [] framed.path
        | some contentType =>
            if isJsonContentType contentType then .register body
            else .httpUnsupportedMediaType contentType framed.path
      else .register body
  | .health => .httpHealth
  | .ready => .httpReady
  | .registry => .httpRegistry
  | .notFound => .httpNotFound framed.path
  | .methodNotAllowed => .httpMethodNotAllowed framed.method framed.path
  | .ping => .httpPing
  | .pushVerb => .push (parseVerbPush libraries.json body false)
  | .pushSyncVerb => .push (parseVerbPush libraries.json body true)
  | .reset => .httpReset body

/-- `parse_http_request`: the request with whether the connection is kept, and the buffer. -/
def parseHttpRequest (libraries : HttpLibraries) (overflowChecks : Bool) (buf : List UInt8) :
    Except HttpPanic (Except HttpParseError (Option (HttpRequest × Bool)) × List UInt8) :=
  (frameHttpRequest libraries overflowChecks buf).map fun framed =>
    (framed.1.map fun request =>
      request.map fun framed => (httpRequestOf libraries framed,framed.keepAlive),framed.2)

end Beava.Server
