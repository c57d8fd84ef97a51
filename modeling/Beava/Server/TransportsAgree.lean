/-
Whether the transports agree on a push.

By its path and from an envelope the text of a payload reaches the apply loop as it
is, and the fields of the row are the members of the object as they are written.
With the name in the body the payload is a map in between: its members come in the
order of their keys, and of a key that is repeated only the last one is left.
-/

import Beava.Lib.OrderedEntries
import Beava.Server.History
import Beava.Server.RegisteredNames

namespace Beava.Server

open Beava.Core Beava.Registry Beava.Wal JsonText OrderedEntries

section Trees

variable (scalar : List UInt8 → Option Json) (string : List UInt8 → Option String)
variable {other : List UInt8 → Option Json}
variable {doc : Doc}

mutual

/-- The value of a document, with the members of its objects in the order of the text. -/
def treeOf : Doc → Option Json
  | .token token => scalar token.bytes
  | .string pieces => (string (content pieces)).map .string
  | .emptyArray _ => some (.array [])
  | .array items => (treeItems items).map .array
  | .emptyObject _ => some (.object [])
  | .object members => (treeMembers members).map .object

def treeItems : Items → Option (List Json)
  | .last _ item _ => (treeOf item).map fun item => [item]
  | .more _ item _ rest =>
      (treeOf item).bind fun item => (treeItems rest).map fun rest => item :: rest

def treeMembers : Members → Option (List (String × Json))
  | .last _ key _ _ value _ =>
      (string (content key)).bind fun key => (treeOf value).map fun value => [(key,value)]
  | .more _ key _ _ value _ rest =>
      (string (content key)).bind fun key => (treeOf value).bind fun value =>
        (treeMembers rest).map fun rest => (key,value) :: rest

end

/-- The members of an object, in the order of the text. -/
def pairsOf : Doc → Option (List (String × Json))
  | .emptyObject _ => some []
  | .object members => treeMembers scalar string members
  | _ => none

theorem treeOf_object (isObject : doc.isObject = true) :
    treeOf scalar string doc = (pairsOf scalar string doc).map .object := by
  cases doc with
  | emptyObject inside => simp only [treeOf,pairsOf,Option.map_some]
  | object members => simp only [treeOf,pairsOf]
  | _ => cases isObject

variable {scalar string}

theorem treeMembers_keys :
    (members : Members) → {first second : List (String × Json)} →
      treeMembers scalar string members = some first →
      treeMembers other string members = some second → first.map Prod.fst = second.map Prod.fst
  | .last _ key _ _ value _, first, second, isFirst, isSecond => by
      simp only [treeMembers,Option.bind_eq_some_iff,Option.map_eq_some_iff] at isFirst isSecond
      obtain ⟨name,isName,value,-,rfl⟩ := isFirst
      obtain ⟨other,isOther,value,-,rfl⟩ := isSecond
      rw [isName] at isOther
      cases isOther
      rfl
  | .more _ key _ _ value _ rest, first, second, isFirst, isSecond => by
      simp only [treeMembers,Option.bind_eq_some_iff,Option.map_eq_some_iff] at isFirst isSecond
      obtain ⟨name,isName,value,-,firstRest,isFirstRest,rfl⟩ := isFirst
      obtain ⟨other,isOther,value,-,secondRest,isSecondRest,rfl⟩ := isSecond
      rw [isName] at isOther
      cases isOther
      rw [List.map_cons,List.map_cons,treeMembers_keys rest isFirstRest isSecondRest]

theorem pairsOf_keys {first second : List (String × Json)}
    (isFirst : pairsOf scalar string doc = some first)
    (isSecond : pairsOf other string doc = some second) :
    first.map Prod.fst = second.map Prod.fst := by
  cases doc with
  | emptyObject inside =>
      cases isFirst
      cases isSecond
      rfl
  | object members => exact treeMembers_keys members isFirst isSecond
  | _ => cases isFirst

end Trees

/-! ### Maps in between -/

mutual

/-- What is left of a value whose objects are maps. -/
def collectValue : Json → Json
  | .array items => .array (collectItems items)
  | .object members => .object (collected compare (collectMembers members))
  | .null => .null
  | .bool value => .bool value
  | .number value => .number value
  | .string value => .string value

def collectItems : List Json → List Json
  | [] => []
  | item :: rest => collectValue item :: collectItems rest

def collectMembers : List (String × Json) → List (String × Json)
  | [] => []
  | (key,value) :: rest => (key,collectValue value) :: collectMembers rest

end

section Presented

variable (number : JsonNumber → Data)

mutual

def presentValue : Json → Data
  | .null => .unit
  | .bool value => .bool value
  | .number value => number value
  | .string value => .str value
  | .array items => .seq (presentItems items)
  | .object members => .map (presentMembers members)

def presentItems : List Json → List Data
  | [] => []
  | item :: rest => presentValue item :: presentItems rest

def presentMembers : List (String × Json) → List (String × Data)
  | [] => []
  | (key,value) :: rest => (key,presentValue value) :: presentMembers rest

end

variable (f64OfInt : Int → F64)

def visited (value : Json) : Value := visitValue f64OfInt (presentValue number value)

theorem visitEntries_presentMembers (members : List (String × Json)) :
    visitEntries f64OfInt (presentMembers number members) =
      mapValues (visited number f64OfInt) members := by
  induction members with
  | nil => rfl
  | cons member rest ih =>
      rw [presentMembers,visitEntries,ih]
      rfl

mutual

theorem visited_collectValue : (value : Json) →
    visitValue f64OfInt (presentValue number (collectValue value)) =
      visitValue f64OfInt (presentValue number value)
  | .null => rfl
  | .bool _ => rfl
  | .number _ => rfl
  | .string _ => rfl
  | .array items => by
      simp only [collectValue,presentValue,visitValue]
      rw [visited_collectItems items]
  | .object members => by
      have inner := visited_collectMembers members
      rw [visitEntries_presentMembers] at inner
      simp only [collectValue,presentValue,visitValue]
      rw [visitEntries_presentMembers,← inner,← collected_mapValues]
      exact congrArg Value.map (collected_collected _)

theorem visited_collectItems : (items : List Json) →
    visitItems f64OfInt (presentItems number (collectItems items)) =
      visitItems f64OfInt (presentItems number items)
  | [] => rfl
  | item :: rest => by
      simp only [collectItems,presentItems,visitItems]
      rw [visited_collectValue item,visited_collectItems rest]

theorem visited_collectMembers : (members : List (String × Json)) →
    visitEntries f64OfInt (presentMembers number (collectMembers members)) =
      visitEntries f64OfInt (presentMembers number members)
  | [] => rfl
  | (key,value) :: rest => by
      simp only [collectMembers,presentMembers,visitEntries]
      rw [visited_collectValue value,visited_collectMembers rest]

end

theorem visitMap_collected (members : List (String × Json)) :
    visitMap f64OfInt (presentMembers number (collected compare (collectMembers members))) =
      ⟨collected compare (visitMap f64OfInt (presentMembers number members)).fields⟩ := by
  rw [visitMap,visitMap,visitEntries_presentMembers,← collected_mapValues,
    ← visitEntries_presentMembers,visited_collectMembers]

end Presented

/-- How the JSON libraries read the parts of a text. -/
structure Reading where
  string : List UInt8 → Option String
  /-- A number or a word, in a `serde_json::Value`. -/
  valueScalar : List UInt8 → Option Json
  rowScalar : List UInt8 → Option Json
  /-- A number of a `serde_json::Value` that is written and then presented. -/
  written : JsonNumber → Data

/-- A number is presented by its kind. -/
def numberData : JsonNumber → Data
  | .posInt value => .u64 value
  | .negInt value => .i64 value
  | .float value => .f64 value

namespace Reading

variable (reading : Reading) (payload : Doc)

def direct : Option (List (String × Json)) := pairsOf reading.rowScalar reading.string payload

def inValue : Option (List (String × Json)) := pairsOf reading.valueScalar reading.string payload

variable (f64OfInt : Int → F64)

def directRow : Option Row :=
  (reading.direct payload).map fun members =>
    visitMap f64OfInt (presentMembers numberData members)

def writtenRow : Option Row :=
  (reading.inValue payload).map fun members =>
    visitMap f64OfInt (presentMembers reading.written members)

end Reading

/-- `"data"`. -/
def dataKey : List UInt8 := [0x64,0x61,0x74,0x61]

theorem ordinary_dataKey : Ordinary dataKey := by
  intro byte member
  simp only [dataKey,List.mem_cons,List.not_mem_nil,or_false] at member
  rcases member with rfl | rfl | rfl | rfl
  all_goals decide

/-- The libraries read a request and its payload as JSON: an object is its members in the
order of the text, and in a `Value` a map of them, which `to_vec` writes. -/
structure Reads (libraries : JsonLibraries) (reading : Reading) (name : String)
    (request payload : Doc) : Prop where
  eventIs : reading.string eventKey = some "event"
  dataIs : reading.string dataKey = some "data"
  nameIs : reading.string (strAsBytes name) = some name
  requestIs : libraries.fromSlice request.text =
    (treeOf reading.valueScalar reading.string request).map collectValue
  payloadIs : libraries.readers.json payload.text =
    (reading.direct payload).map (presentMembers numberData)
  rewritten : ∀ members, reading.inValue payload = some members →
    libraries.readers.json
        (libraries.toVec (.object (collected compare (collectMembers members)))) =
      some (presentMembers reading.written (collected compare (collectMembers members)))

section Handed

variable {libraries : JsonLibraries} {reading : Reading} {name : String} {payload : Doc}
  (f64OfInt : Int → F64)

theorem handed_httpPush (body : List UInt8) :
    handed libraries.readers f64OfInt (.httpPush name body ctJson) =
      (libraries.readers.json body).map fun members => (name,visitMap f64OfInt members) := by
  have isJson : ctJson ≠ ctMsgpack := by decide
  rw [handed,BodyReaders.row,BodyReaders.read,if_neg isJson,Option.map_map]
  rfl

theorem handed_tcpPush (body : List UInt8) :
    handed libraries.readers f64OfInt (.tcpPush name body ctJson) =
      handed libraries.readers f64OfInt (.httpPush name body ctJson) := rfl

theorem treeOf_envelope {scalar : List UInt8 → Option Json}
    {string : List UInt8 → Option String} (gaps : EnvelopeGaps)
    (ordinary : Ordinary (strAsBytes name)) (isEvent : string eventKey = some "event")
    (isData : string dataKey = some "data") (isName : string (strAsBytes name) = some name) :
    treeOf scalar string (envelope gaps (piecesOf dataKey ordinary_dataKey) ordinary payload) =
      (treeOf scalar string payload).map fun data =>
        .object [("event",.string name),("data",data)] := by
  simp only [envelope,treeOf,treeMembers,content_piecesOf,isEvent,isData,isName,
    Option.bind_some,Option.map_some,Option.map_map]
  rfl

theorem collectValue_request (name : String) (data : Json) :
    collectValue (.object [("event",.string name),("data",data)]) =
      .object [("data",collectValue data),("event",.string name)] := by
  have ascending : Ascending compare [("data",collectValue data),("event",.string name)] := by
    rw [ascending_iff_keys]
    simp only [List.map_cons,List.map_nil]
    decide
  rw [collectValue]
  exact congrArg Json.object (collected_eq_of_perm (.swap _ _ _) ascending)

theorem parseVerbPush_envelope {gaps : EnvelopeGaps} {ordinary : Ordinary (strAsBytes name)}
    (isObject : payload.isObject = true)
    (reads : Reads libraries reading name
      (envelope gaps (piecesOf dataKey ordinary_dataKey) ordinary payload) payload) :
    handed libraries.readers f64OfInt (parseVerbPush libraries
        (envelope gaps (piecesOf dataKey ordinary_dataKey) ordinary payload).text false) =
      (reading.writtenRow payload f64OfInt).map fun row =>
        (name,⟨collected compare row.fields⟩) := by
  rw [parseVerbPush,reads.requestIs,
    treeOf_envelope gaps ordinary reads.eventIs reads.dataIs reads.nameIs,
    treeOf_object _ _ isObject,Reading.writtenRow,← Reading.inValue]
  cases isInValue : reading.inValue payload with
  | none => rfl
  | some members =>
      simp only [Option.map_some,collectValue_request]
      show handed libraries.readers f64OfInt (.httpPush name (libraries.toVec
        (.object (collected compare (collectMembers members)))) ctJson) = _
      rw [handed_httpPush,reads.rewritten members isInValue,Option.map_some,visitMap_collected]

theorem handed_text (isRead : libraries.readers.json payload.text =
    (reading.direct payload).map (presentMembers numberData)) :
    handed libraries.readers f64OfInt (.httpPush name payload.text ctJson) =
      (reading.directRow payload f64OfInt).map fun row => (name,row) := by
  rw [handed_httpPush,isRead,Reading.directRow,Option.map_map,Option.map_map]
  rfl

end Handed

/-! ### Agreement -/

def SameFields (first second : Row) : Prop := first.fields.Perm second.fields

/-- The same event and rows that are the same, or both are rejected. -/
def SamePush (same : Row → Row → Prop) : Option (String × Row) → Option (String × Row) → Prop :=
  Option.Rel fun first second => first.1 = second.1 ∧ same first.2 second.2

section Agreement

variable (libraries : JsonLibraries) (debugChar : Char → String) (f64OfInt : Int → F64)

structure TransportsAgree (same : Row → Row → Prop) (verbBody : Doc) (name : String)
    (payload tcpPayload : Doc) : Prop where
  verb : SamePush same
    ((pushRequest libraries "POST" "/push" verbBody.text).bind
      (handed libraries.readers f64OfInt))
    ((pushRequest libraries "POST" ("/push/" ++ name) payload.text).bind
      (handed libraries.readers f64OfInt))
  tcp : SamePush same
    ((pushRequest libraries "POST" ("/push/" ++ name) payload.text).bind
      (handed libraries.readers f64OfInt))
    (handed libraries.readers f64OfInt (tcpPushRequest libraries debugChar tcpPayload.text))

end Agreement

theorem samePush_collected_iff {same : Row → Row → Prop} {Kept : Row → Prop}
    (each : ∀ written direct : Row,
      written.fields.map Prod.fst = direct.fields.map Prod.fst →
        (same ⟨collected compare written.fields⟩ direct ↔ written = direct ∧ Kept direct))
    (name : String) {written direct : Option Row}
    (keys : ∀ first second, written = some first → direct = some second →
      first.fields.map Prod.fst = second.fields.map Prod.fst) :
    SamePush same (written.map fun row => (name,⟨collected compare row.fields⟩))
        (direct.map fun row => (name,row)) ↔
      written = direct ∧ ∀ row, direct = some row → Kept row := by
  cases written with
  | none =>
      cases direct with
      | none =>
          constructor
          · intro _
            exact ⟨rfl,fun row isRow => by cases isRow⟩
          · intro _
            exact .none
      | some second =>
          constructor
          · intro related
            cases related
          · intro alike
            cases alike.1
  | some first =>
      cases direct with
      | none =>
          constructor
          · intro related
            cases related
          · intro alike
            cases alike.1
      | some second =>
          have iff := each first second (keys first second rfl rfl)
          constructor
          · intro related
            cases related with
            | some both =>
                obtain ⟨alike,kept⟩ := iff.mp both.2
                refine ⟨congrArg some alike,?_⟩
                intro row isRow
                cases isRow
                exact kept
          · intro alike
            exact .some ⟨rfl,iff.mpr ⟨Option.some.inj alike.1,alike.2 second rfl⟩⟩

theorem collected_eq_row_iff (written direct : Row)
    (keys : written.fields.map Prod.fst = direct.fields.map Prod.fst) :
    (⟨collected compare written.fields⟩ : Row) = direct ↔
      written = direct ∧ Ascending compare direct.fields := by
  constructor
  · intro same
    have ascending : Ascending compare direct.fields := by
      rw [← same]
      exact collected_ascending written.fields
    have kept := collected_eq_iff.mpr (ascending_iff_keys.mpr (keys ▸
      ascending_iff_keys.mp ascending) : Ascending compare written.fields)
    rw [kept] at same
    exact ⟨same,ascending⟩
  · rintro ⟨rfl,ascending⟩
    rw [collected_eq_iff.mpr ascending]

theorem collected_perm_row_iff (written direct : Row)
    (keys : written.fields.map Prod.fst = direct.fields.map Prod.fst) :
    SameFields ⟨collected compare written.fields⟩ direct ↔
      written = direct ∧ (direct.fields.map Prod.fst).Nodup := by
  constructor
  · intro same
    have distinct : (direct.fields.map Prod.fst).Nodup :=
      (same.map Prod.fst).nodup_iff.mp (collected_nodup written.fields)
    have writtenDistinct : (written.fields.map Prod.fst).Nodup := keys ▸ distinct
    have perm := (collected_perm writtenDistinct).symm.trans same
    have equal := eq_of_perm_of_keys perm keys writtenDistinct
    cases written
    cases direct
    exact ⟨congrArg Row.mk equal,distinct⟩
  · rintro ⟨rfl,distinct⟩
    exact collected_perm distinct

section Rows

variable {reading : Reading} {payload : Doc} {f64OfInt : Int → F64}

theorem directRow_keys {row : Row} {members : List (String × Json)}
    (isRow : reading.directRow payload f64OfInt = some row)
    (isDirect : reading.direct payload = some members) :
    row.fields.map Prod.fst = members.map Prod.fst := by
  rw [Reading.directRow,isDirect] at isRow
  cases isRow
  show (visitEntries f64OfInt (presentMembers numberData members)).map Prod.fst = _
  rw [visitEntries_presentMembers,keys_mapValues]

theorem rows_keys {written direct : Row}
    (isWritten : reading.writtenRow payload f64OfInt = some written)
    (isDirect : reading.directRow payload f64OfInt = some direct) :
    written.fields.map Prod.fst = direct.fields.map Prod.fst := by
  obtain ⟨writtenMembers,inValue,rfl⟩ := Option.map_eq_some_iff.mp isWritten
  obtain ⟨directMembers,inText,rfl⟩ := Option.map_eq_some_iff.mp isDirect
  rw [visitMap,visitMap,visitEntries_presentMembers,visitEntries_presentMembers,
    keys_mapValues,keys_mapValues]
  exact pairsOf_keys inValue inText

theorem directRow_forall_iff {Kept : List String → Prop} :
    (∀ row, reading.directRow payload f64OfInt = some row → Kept (row.fields.map Prod.fst)) ↔
      ∀ members, reading.direct payload = some members → Kept (members.map Prod.fst) := by
  constructor
  · intro kept members isDirect
    have isRow : reading.directRow payload f64OfInt =
        some (visitMap f64OfInt (presentMembers numberData members)) := by
      rw [Reading.directRow,isDirect]
      rfl
    rw [← directRow_keys isRow isDirect]
    exact kept _ isRow
  · intro kept row isRow
    obtain ⟨members,isDirect,-⟩ := Option.map_eq_some_iff.mp isRow
    rw [directRow_keys isRow isDirect]
    exact kept members isDirect

end Rows

section Transports

variable {Expr : Type} {env : Env Expr} {calls : List (RegisterCall × AppendOutcome)} {name : String}
  {event : EventDescriptor}

theorem registered_ordinary (registered : (registryAfter env calls).events[name]? = some event) :
    Ordinary (strAsBytes name) :=
  ordinary_of_checked (registryAfter_namesChecked env calls name event registered)

/-- A push with the name in the body. -/
def verbRequest (registered : (registryAfter env calls).events[name]? = some event)
    (gaps : EnvelopeGaps) (payload : Doc) : Doc :=
  envelope gaps (piecesOf dataKey ordinary_dataKey) (registered_ordinary registered) payload

/-- A push in an envelope. -/
def tcpRequest (registered : (registryAfter env calls).events[name]? = some event)
    (gaps : EnvelopeGaps) (payload : Doc) : Doc :=
  envelope gaps (piecesOf bodyKey ordinary_bodyKey) (registered_ordinary registered) payload

variable (registered : (registryAfter env calls).events[name]? = some event)
  {libraries : JsonLibraries} {reading : Reading} {payload : Doc} {gaps : EnvelopeGaps}

include registered

theorem pushRequest_path :
    pushRequest libraries "POST" ("/push/" ++ name) payload.text =
      some (.httpPush name payload.text ctJson) := by
  have route := route_push (registryAfter_namesChecked env calls name event registered)
  rw [pushRequest,route]

omit registered in
theorem pushRequest_verb (body : List UInt8) :
    pushRequest libraries "POST" "/push" body = some (parseVerbPush libraries body false) := by
  have route : Router.route "POST" "/push" = .pushVerb := by decide
  rw [pushRequest,route]

theorem tcpPushRequest_envelope (debugChar : Char → String)
    (isObject : payload.isObject = true) :
    tcpPushRequest libraries debugChar (tcpRequest registered gaps payload).text =
      .tcpPush name payload.text ctJson := by
  rw [tcpPushRequest,tcpRequest,
    parseJsonEnvelope_envelope libraries gaps (registered_ordinary registered) isObject]

theorem transportsAgree_iff {same : Row → Row → Prop} {Kept : List String → Prop}
    (refl : ∀ row, same row row)
    (each : ∀ written direct : Row,
      written.fields.map Prod.fst = direct.fields.map Prod.fst →
        (same ⟨collected compare written.fields⟩ direct ↔
          written = direct ∧ Kept (direct.fields.map Prod.fst)))
    (debugChar : Char → String) (f64OfInt : Int → F64) (tcpGaps : EnvelopeGaps)
    (isObject : payload.isObject = true)
    (reads : Reads libraries reading name (verbRequest registered gaps payload) payload) :
    TransportsAgree libraries debugChar f64OfInt same (verbRequest registered gaps payload) name
        payload (tcpRequest registered tcpGaps payload) ↔
      reading.writtenRow payload f64OfInt = reading.directRow payload f64OfInt ∧
        ∀ members, reading.direct payload = some members → Kept (members.map Prod.fst) := by
  have path : (pushRequest libraries "POST" ("/push/" ++ name) payload.text).bind
      (handed libraries.readers f64OfInt) =
        (reading.directRow payload f64OfInt).map fun row => (name,row) := by
    rw [pushRequest_path registered,Option.bind_some,handed_text f64OfInt reads.payloadIs]
  have verb : (pushRequest libraries "POST" "/push"
      (verbRequest registered gaps payload).text).bind (handed libraries.readers f64OfInt) =
        (reading.writtenRow payload f64OfInt).map fun row =>
          (name,⟨collected compare row.fields⟩) := by
    rw [pushRequest_verb,Option.bind_some]
    exact parseVerbPush_envelope f64OfInt isObject reads
  have tcp : handed libraries.readers f64OfInt (tcpPushRequest libraries debugChar
      (tcpRequest registered tcpGaps payload).text) =
        (reading.directRow payload f64OfInt).map fun row => (name,row) := by
    rw [tcpPushRequest_envelope registered debugChar isObject,handed_tcpPush,
      handed_text f64OfInt reads.payloadIs]
  have rows := @samePush_collected_iff same (fun row => Kept (row.fields.map Prod.fst)) each name
    (reading.writtenRow payload f64OfInt) (reading.directRow payload f64OfInt)
    fun first second => rows_keys
  rw [directRow_forall_iff] at rows
  rw [← rows]
  constructor
  · intro agree
    have sameVerb := agree.verb
    rw [path,verb] at sameVerb
    exact sameVerb
  · intro sameVerb
    constructor
    · rw [path,verb]
      exact sameVerb
    · rw [path,tcp]
      cases reading.directRow payload f64OfInt with
      | none => exact .none
      | some row => exact .some ⟨rfl,refl row⟩

/-- The transports hand over the same row exactly when the keys of the payload go up and its
numbers are read alike, and the same fields in some order when its keys are distinct. -/
theorem transports_agree (debugChar : Char → String) (f64OfInt : Int → F64)
    (tcpGaps : EnvelopeGaps) (isObject : payload.isObject = true)
    (reads : Reads libraries reading name (verbRequest registered gaps payload) payload) :
    (TransportsAgree libraries debugChar f64OfInt Eq (verbRequest registered gaps payload) name
        payload (tcpRequest registered tcpGaps payload) ↔
      reading.writtenRow payload f64OfInt = reading.directRow payload f64OfInt ∧
        ∀ members, reading.direct payload = some members → Ascending compare members) ∧
    (TransportsAgree libraries debugChar f64OfInt SameFields
        (verbRequest registered gaps payload) name payload
        (tcpRequest registered tcpGaps payload) ↔
      reading.writtenRow payload f64OfInt = reading.directRow payload f64OfInt ∧
        ∀ members, reading.direct payload = some members → (members.map Prod.fst).Nodup) := by
  constructor
  · simp only [ascending_iff_keys]
    apply transportsAgree_iff registered (fun row => rfl) _ debugChar f64OfInt tcpGaps isObject
      reads
    intro written direct keys
    rw [collected_eq_row_iff written direct keys,ascending_iff_keys]
  · exact transportsAgree_iff registered (fun row => .refl row.fields) collected_perm_row_iff
      debugChar f64OfInt tcpGaps isObject reads

end Transports

/-! ### Two payloads -/

abbrev sampleCalls : List (RegisterCall × AppendOutcome) :=
  [(⟨[sampleEvent "E"],false,false⟩,.durable)]

def sampleStored : EventDescriptor := (registryAfter sampleEnv sampleCalls).events["E"]?.get (by
  decide)

theorem sampleStored_registered :
    (registryAfter sampleEnv sampleCalls).events["E"]? = some sampleStored :=
  (Option.some_get _).symm

def noGaps : EnvelopeGaps := ⟨.empty,.empty,.empty,.empty,.empty,.empty,.empty,.empty⟩

def sampleScalar : List UInt8 → Option Json
  | [byte] => if isDigit byte then some (.number (.posInt (byte - 0x30).toUInt64)) else none
  | _ => none

def sampleReading : Reading :=
  { string := strFromUtf8
    valueScalar := sampleScalar
    rowScalar := sampleScalar
    written := numberData }

def digitToken (byte : UInt8) (plain : isStructural byte = false) : JsonText.Token where
  bytes := [byte]
  plain := by
    intro other member
    rw [List.mem_singleton.mp member]
    exact plain

/-- `"a"`. -/
def keyA : List Piece := [.plain 0x61 (by decide) (by decide)]

def one : Doc := .token (digitToken 0x31 (by decide))

def two : Doc := .token (digitToken 0x32 (by decide))

/-- `{"a":_}`. -/
def single (value : Doc) : Doc := .object (.last .empty keyA .empty .empty value .empty)

/-- `{"a":1,"a":2}`. -/
def repeated : Doc :=
  .object (.more .empty keyA .empty .empty one .empty
    (.last .empty keyA .empty .empty two .empty))

def sampleLibraries (request payload written : Doc) : JsonLibraries where
  fromSlice body :=
    if body = request.text then (treeOf sampleScalar strFromUtf8 request).map collectValue
    else none
  stringFromSlice _ := .error "no string"
  toVec _ := written.text
  readers :=
    { json := fun body =>
        if body = payload.text then
          (sampleReading.direct payload).map (presentMembers numberData)
        else if body = written.text then
          (sampleReading.direct written).map (presentMembers numberData)
        else none
      msgpack := fun _ => none }

theorem strFromUtf8_of_eq {text : String} {bytes : List UInt8}
    (same : text.toList.flatMap String.utf8EncodeChar = bytes) :
    strFromUtf8 bytes = some text := by
  rw [← same,← strAsBytes_eq,strFromUtf8_strAsBytes]

theorem sampleLibraries_reads {request payload written : Doc}
    (differ : payload.text = written.text → payload = written)
    (rewritten : ∀ members, sampleReading.direct payload = some members →
      sampleReading.direct written = some (collected compare (collectMembers members))) :
    Reads (sampleLibraries request payload written) sampleReading "E" request payload where
  eventIs := @strFromUtf8_of_eq "event" eventKey (by decide)
  dataIs := @strFromUtf8_of_eq "data" dataKey (by decide)
  nameIs := strFromUtf8_strAsBytes "E"
  requestIs := if_pos rfl
  payloadIs := if_pos rfl
  rewritten := by
    intro members isMembers
    have isWritten := rewritten members isMembers
    by_cases sameText : written.text = payload.text
    · refine (if_pos sameText).trans ?_
      rw [differ sameText.symm,isWritten]
      rfl
    · refine (if_neg sameText).trans ((if_pos rfl).trans ?_)
      rw [isWritten]
      rfl

theorem sampleReading_single {value : Doc} {number : JsonNumber}
    (isNumber : treeOf sampleScalar strFromUtf8 value = some (.number number)) :
    sampleReading.direct (single value) = some [("a",.number number)] := by
  have isKey : strFromUtf8 (content keyA) = some "a" := strFromUtf8_of_eq (by decide)
  simp only [Reading.direct,sampleReading,single,pairsOf,treeMembers,isKey,isNumber,
    Option.bind_some,Option.map_some]

theorem sampleReading_repeated :
    sampleReading.direct repeated =
      some [("a",.number (.posInt 1)),("a",.number (.posInt 2))] := by
  have isKey : strFromUtf8 (content keyA) = some "a" := strFromUtf8_of_eq (by decide)
  have isOne : treeOf sampleScalar strFromUtf8 one = some (.number (.posInt 1)) := rfl
  have isTwo : treeOf sampleScalar strFromUtf8 two = some (.number (.posInt 2)) := rfl
  simp only [Reading.direct,sampleReading,repeated,pairsOf,treeMembers,isKey,isOne,isTwo,
    Option.bind_some,Option.map_some]

/-- One key goes up. -/
theorem transports_agree_single :
    TransportsAgree (sampleLibraries (verbRequest sampleStored_registered noGaps (single one))
        (single one) (single one)) (fun ch => ch.toString) sampleEnv.f64OfInt Eq
      (verbRequest sampleStored_registered noGaps (single one)) "E" (single one)
      (tcpRequest sampleStored_registered noGaps (single one)) := by
  have isSingle := @sampleReading_single one (.posInt 1) rfl
  have reads := @sampleLibraries_reads (verbRequest sampleStored_registered noGaps (single one))
    (single one) (single one) (fun _ => rfl) (by
      intro members isMembers
      rw [isSingle] at isMembers ⊢
      cases isMembers
      decide)
  apply (transports_agree sampleStored_registered (fun ch => ch.toString) sampleEnv.f64OfInt
    noGaps rfl reads).1.mpr
  constructor
  · rfl
  · intro members isMembers
    rw [isSingle] at isMembers
    cases isMembers
    exact List.pairwise_singleton _ _

/-- Of a repeated key the last value is left where the name is in the body, and both are
handed over elsewhere. -/
theorem transports_differ :
    ∃ libraries : JsonLibraries,
      Reads libraries sampleReading "E" (verbRequest sampleStored_registered noGaps repeated)
        repeated ∧
      (pushRequest libraries "POST" "/push"
          (verbRequest sampleStored_registered noGaps repeated).text).bind
            (handed libraries.readers sampleEnv.f64OfInt) = some ("E",⟨[("a",.i64 2)]⟩) ∧
      (pushRequest libraries "POST" ("/push/" ++ "E") repeated.text).bind
        (handed libraries.readers sampleEnv.f64OfInt) =
        some ("E",⟨[("a",.i64 1),("a",.i64 2)]⟩) ∧
      ¬ TransportsAgree libraries (fun ch => ch.toString) sampleEnv.f64OfInt Eq
        (verbRequest sampleStored_registered noGaps repeated) "E" repeated
        (tcpRequest sampleStored_registered noGaps repeated) := by
  have isWritten := @sampleReading_single two (.posInt 2) rfl
  have differ : repeated.text ≠ (single two).text := by decide
  have reads := @sampleLibraries_reads (verbRequest sampleStored_registered noGaps repeated)
    repeated (single two) (fun sameText => absurd sameText differ) (by
      intro members isMembers
      rw [sampleReading_repeated] at isMembers
      cases isMembers
      rw [isWritten]
      decide)
  generalize sampleLibraries (verbRequest sampleStored_registered noGaps repeated) repeated
    (single two) = libraries at reads
  have verb : (pushRequest libraries "POST" "/push"
      (verbRequest sampleStored_registered noGaps repeated).text).bind
        (handed libraries.readers sampleEnv.f64OfInt) = some ("E",⟨[("a",.i64 2)]⟩) := by
    rw [pushRequest_verb,Option.bind_some]
    refine (parseVerbPush_envelope sampleEnv.f64OfInt rfl reads).trans ?_
    have inValue : sampleReading.inValue repeated = _ := sampleReading_repeated
    rw [Reading.writtenRow,inValue]
    decide
  have path : (pushRequest libraries "POST" ("/push/" ++ "E") repeated.text).bind
      (handed libraries.readers sampleEnv.f64OfInt) =
        some ("E",⟨[("a",.i64 1),("a",.i64 2)]⟩) := by
    rw [pushRequest_path sampleStored_registered,Option.bind_some,
      handed_text sampleEnv.f64OfInt reads.payloadIs,Reading.directRow,sampleReading_repeated]
    decide
  refine ⟨libraries,reads,verb,path,?_⟩
  intro agree
  have sameVerb := agree.verb
  rw [verb,path] at sameVerb
  cases sameVerb with
  | some both =>
      have sameRow := both.2
      revert sameRow
      decide

end Beava.Server
