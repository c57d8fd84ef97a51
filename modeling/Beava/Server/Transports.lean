/-
What the transports make of a push.

A push over HTTP names its event in the path or in the body, one over TCP in an
envelope.  With the name in the body the payload is read into a JSON value and
written again; with the name in the path its bytes are passed on; and from an
envelope its bytes are cut out by a scanner.
-/

import Beava.Core.Deserialize
import Beava.Lib.JsonText
import Beava.Wal.Record

namespace Beava.Server

open Beava.Core Beava.Wal JsonText

structure JsonLibraries where
  /-- `serde_json::from_slice` into a JSON value. -/
  fromSlice : List UInt8 → Option Json
  /-- `serde_json::from_slice` into a string; an error has a text. -/
  stringFromSlice : List UInt8 → Except String String
  /-- `serde_json::to_vec`. -/
  toVec : Json → List UInt8
  readers : BodyReaders

inductive WireRequest where
  | httpPush (eventName : String) (body : List UInt8) (bodyFormat : UInt8)
  | httpPushSync (eventName : String) (body : List UInt8) (bodyFormat : UInt8)
  | tcpPush (eventName : String) (body : List UInt8) (bodyFormat : UInt8)
  | parseError (reason : String)

inductive Route where
  | push (eventName : String)
  | pushSync (eventName : String)
  | pushBatch (eventName : String)
  | get
  | getSingle (feature key : String)
  | batchGet
  | register
  | health
  | ready
  | registry
  | ping
  | pushVerb
  | pushSyncVerb
  | reset
  | notFound
  | methodNotAllowed
  deriving DecidableEq

namespace Router

def normalise (path : String) : List Char :=
  ((path.toList.takeWhile fun ch => ch ≠ '?').reverse.dropWhile fun ch => ch = '/').reverse

def stripPrefix (lead : String) (path : List Char) : Option (List Char) :=
  if lead.toList.isPrefixOf path then some (path.drop lead.length) else none

def onMethod (expected method : String) (route : Route) : Route :=
  if method = expected then route else .methodNotAllowed

def routeExact (method : String) (path : List Char) : Route :=
  if path = "/get".toList then onMethod "POST" method .get
  else if path = "/batch_get".toList then onMethod "POST" method .batchGet
  else if path = "/register".toList then onMethod "POST" method .register
  else if path = "/health".toList then onMethod "GET" method .health
  else if path = "/ready".toList then onMethod "GET" method .ready
  else if path = "/registry".toList then onMethod "GET" method .registry
  else .notFound

def routeGet (method : String) (path : List Char) : Route :=
  match stripPrefix "/get/" path with
  | some rest =>
      if '/' ∈ rest then
        let feature := rest.takeWhile fun ch => ch ≠ '/'
        onMethod "GET" method
          (.getSingle (String.ofList feature) (String.ofList (rest.drop (feature.length + 1))))
      else routeExact method path
  | none => routeExact method path

def routeVerb (method : String) (path : List Char) : Route :=
  if path = "/push".toList then onMethod "POST" method .pushVerb
  else if path = "/push-sync".toList then onMethod "POST" method .pushSyncVerb
  else if path = "/ping".toList then onMethod "POST" method .ping
  else if path = "/reset".toList then onMethod "POST" method .reset
  else routeGet method path

def route (method path : String) : Route :=
  let path := normalise path
  match stripPrefix "/push/" path with
  | some rest => onMethod "POST" method (.push (String.ofList rest))
  | none =>
      match stripPrefix "/push-sync/" path with
      | some rest => onMethod "POST" method (.pushSync (String.ofList rest))
      | none =>
          match stripPrefix "/push-batch/" path with
          | some rest => onMethod "POST" method (.pushBatch (String.ofList rest))
          | none => routeVerb method path

end Router

section Parsers

variable (libraries : JsonLibraries)

def parseVerbPush (body : List UInt8) (sync : Bool) : WireRequest :=
  match libraries.fromSlice body with
  | none => .parseError "invalid_json_body"
  | some parsed =>
      match (parsed.get "event").bind Json.asStr with
      | none => .parseError "missing_event_name_in_body"
      | some eventName =>
          let data := (parsed.get "data").getD (.object [])
          let bodyBytes := libraries.toVec data
          if sync then .httpPushSync eventName bodyBytes ctJson
          else .httpPush eventName bodyBytes ctJson

/-- The pushes among the requests of `parse_http_request`, with one event each. -/
def pushRequest (method path : String) (body : List UInt8) : Option WireRequest :=
  match Router.route method path with
  | .push eventName => some (.httpPush eventName body ctJson)
  | .pushSync eventName => some (.httpPushSync eventName body ctJson)
  | .pushVerb => some (parseVerbPush libraries body false)
  | .pushSyncVerb => some (parseVerbPush libraries body true)
  | _ => none

inductive JsonEnvelopeError where
  | decode (reason : String)
  /-- `expected ',' or '}' at position _, got _`. -/
  | unexpectedSeparator (position : Nat) (other : UInt8)
  /-- `unexpected value start byte _`. -/
  | unexpectedStart (other : UInt8)
  | missingField (name : String)
  deriving DecidableEq

def JsonEnvelopeError.display (debugChar : Char → String) : JsonEnvelopeError → String
  | .decode reason => "json envelope decode failed: " ++ reason
  | .unexpectedSeparator position other =>
      "json envelope decode failed: expected ',' or '\x7d' at position " ++ toString position ++
        ", got " ++ debugChar (Char.ofUInt8 other)
  | .unexpectedStart other =>
      "json envelope decode failed: unexpected value start byte " ++
        debugChar (Char.ofUInt8 other)
  | .missingField name => "missing field: " ++ name

/-- `skip_ws`: a position in the payload is what is left from there on. -/
def skipWs (payload : List UInt8) : List UInt8 := payload.dropWhile isSpace

/-- `scan_string_end`: what is before the closing quote, and what is left behind it. -/
def scanStringEnd : List UInt8 → Except JsonEnvelopeError (List UInt8 × List UInt8)
  | [] => .error (.decode "unterminated string")
  | [byte] =>
      if byte = quote then .ok ([],[])
      else if byte = backslash then .error (.decode "trailing backslash in string")
      else .error (.decode "unterminated string")
  | byte :: next :: rest =>
      if byte = quote then .ok ([],next :: rest)
      else if byte = backslash then
        (scanStringEnd rest).map fun scanned => (byte :: next :: scanned.1,scanned.2)
      else
        (scanStringEnd (next :: rest)).map fun scanned => (byte :: scanned.1,scanned.2)

def scanBalanced (opening closing : UInt8) :
    Int → Bool → List UInt8 → Except JsonEnvelopeError (List UInt8)
  | _, _, [] => .error (.decode "unterminated container")
  | _, true, [byte] =>
      if byte = backslash then .error (.decode "trailing backslash in container")
      else .error (.decode "unterminated container")
  | depth, true, byte :: next :: rest =>
      if byte = quote then scanBalanced opening closing depth false (next :: rest)
      else if byte = backslash then scanBalanced opening closing depth true rest
      else scanBalanced opening closing depth true (next :: rest)
  | depth, false, byte :: rest =>
      if byte = quote then scanBalanced opening closing depth true rest
      else if byte = opening then scanBalanced opening closing (depth + 1) false rest
      else if byte = closing then
        if depth - 1 = 0 then .ok rest else scanBalanced opening closing (depth - 1) false rest
      else scanBalanced opening closing depth false rest

def isAlphabetic (byte : UInt8) : Bool :=
  (0x41 ≤ byte && byte ≤ 0x5A) || (0x61 ≤ byte && byte ≤ 0x7A)

def isDigit (byte : UInt8) : Bool := 0x30 ≤ byte && byte ≤ 0x39

def isNumeric (byte : UInt8) : Bool :=
  isDigit byte || byte = 0x2D || byte = 0x2B || byte = 0x2E || byte = 0x65 || byte = 0x45

def scanValueEnd (payload : List UInt8) : Except JsonEnvelopeError (List UInt8) :=
  match payload with
  | [] => .error (.decode "value start past end")
  | byte :: rest =>
      if byte = Bracket.brace.opening then
        scanBalanced Bracket.brace.opening Bracket.brace.closing 0 false (byte :: rest)
      else if byte = Bracket.square.opening then
        scanBalanced Bracket.square.opening Bracket.square.closing 0 false (byte :: rest)
      else if byte = quote then (scanStringEnd rest).map Prod.snd
      else if byte = 0x74 || byte = 0x66 || byte = 0x6E then
        .ok ((byte :: rest).dropWhile isAlphabetic)
      else if byte = 0x2D || isDigit byte then .ok ((byte :: rest).dropWhile isNumeric)
      else .error (.unexpectedStart byte)

def sliceTo (start rest : List UInt8) : List UInt8 := start.take (start.length - rest.length)

def decodeJsonStringFragment (fragment : List UInt8) : Except JsonEnvelopeError String :=
  match strFromUtf8 fragment with
  | none => .error (.decode "invalid utf-8")
  | some raw =>
      if backslash ∉ fragment then .ok raw
      else
        match libraries.stringFromSlice (quote :: fragment ++ [quote]) with
        | .ok text => .ok text
        | .error reason => .error (.decode ("invalid string escape: " ++ reason))

structure EnvelopeParts where
  eventName : Option String
  bodySlice : Option (List UInt8)

def eventKey : List UInt8 := [0x65,0x76,0x65,0x6E,0x74]

def bodyKey : List UInt8 := [0x62,0x6F,0x64,0x79]

def scanMember (key : List UInt8) (parts : EnvelopeParts) (value : List UInt8) :
    Except JsonEnvelopeError (EnvelopeParts × List UInt8) :=
  if key = eventKey then
    match value with
    | byte :: rest =>
        if byte = quote then
          match scanStringEnd rest with
          | .error error => .error error
          | .ok (fragment,rest) =>
              match decodeJsonStringFragment libraries fragment with
              | .error error => .error error
              | .ok eventName => .ok ({ parts with eventName := some eventName },rest)
        else .error (.decode "event must be a string")
    | [] => .error (.decode "event must be a string")
  else
    match scanValueEnd value with
    | .error error => .error error
    | .ok rest =>
        if key = bodyKey then .ok ({ parts with bodySlice := some (sliceTo value rest) },rest)
        else .ok (parts,rest)

inductive Round where
  | done (parts : EnvelopeParts)
  | more (parts : EnvelopeParts) (rest : List UInt8)

def scanSeparator (length : Nat) (parts : EnvelopeParts) (rest : List UInt8) :
    Except JsonEnvelopeError Round :=
  match skipWs rest with
  | [] => .error (.decode "truncated envelope")
  | byte :: after =>
      if byte = comma then .ok (.more parts after)
      else if byte = Bracket.brace.closing then .ok (.done parts)
      else .error (.unexpectedSeparator (length - (byte :: after).length) byte)

def envelopeRound (length : Nat) (parts : EnvelopeParts) (rest : List UInt8) :
    Except JsonEnvelopeError Round :=
  match skipWs rest with
  | [] => .error (.decode "truncated envelope")
  | byte :: afterByte =>
      if byte = Bracket.brace.closing then .ok (.done parts)
      else if byte ≠ quote then .error (.decode "expected string key")
      else
        match scanStringEnd afterByte with
        | .error error => .error error
        | .ok (key,afterKey) =>
            match skipWs afterKey with
            | [] => .error (.decode "expected ':'")
            | separator :: afterColon =>
                if separator ≠ colon then .error (.decode "expected ':'")
                else
                  match scanMember libraries key parts (skipWs afterColon) with
                  | .error error => .error error
                  | .ok (parts,rest) => scanSeparator length parts rest

def envelopeRounds (length : Nat) :
    Nat → EnvelopeParts → List UInt8 → Except JsonEnvelopeError EnvelopeParts
  | 0, _, _ => .error (.decode "truncated envelope")
  | rounds + 1, parts, rest =>
      match envelopeRound libraries length parts rest with
      | .error error => .error error
      | .ok (.done parts) => .ok parts
      | .ok (.more parts rest) => envelopeRounds length rounds parts rest

def parseJsonEnvelope (payload : List UInt8) :
    Except JsonEnvelopeError (String × List UInt8) :=
  match skipWs payload with
  | [] => .error (.decode "expected '\x7b'")
  | byte :: rest =>
      if byte ≠ Bracket.brace.opening then .error (.decode "expected '\x7b'")
      else
        match envelopeRounds libraries payload.length (rest.length + 1) ⟨none,none⟩ rest with
        | .error error => .error error
        | .ok parts =>
            match parts.eventName, parts.bodySlice with
            | none, _ => .error (.missingField "event")
            | some _, none => .error (.missingField "body")
            | some eventName, some body => .ok (eventName,body)

def tcpPushRequest (debugChar : Char → String) (payload : List UInt8) : WireRequest :=
  match parseJsonEnvelope libraries payload with
  | .ok (eventName,body) => .tcpPush eventName body ctJson
  | .error error => .parseError (error.display debugChar)

end Parsers

/-- The event name and the row of `dispatch_push_sync`; nothing when the request is
rejected before or its body is no row. -/
def handed (readers : BodyReaders) (f64OfInt : Int → F64) : WireRequest → Option (String × Row)
  | .httpPush eventName body bodyFormat =>
      (readers.row f64OfInt bodyFormat body).map fun row => (eventName,row)
  | .httpPushSync eventName body bodyFormat =>
      (readers.row f64OfInt bodyFormat body).map fun row => (eventName,row)
  | .tcpPush eventName body bodyFormat =>
      (readers.row f64OfInt bodyFormat body).map fun row => (eventName,row)
  | .parseError _ => none

end Beava.Server
