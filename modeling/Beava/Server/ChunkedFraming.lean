/-
Requests whose body comes in chunks.

A request of this form is taken off the buffer exactly, and not before it is
complete, when its size lines are texts and its head is short enough for the
guard.  The parser returns as long as no size overflows, and what bounds a body
with a length does not bound a body in chunks.
-/

import Beava.Server.ChunkedRequests

namespace Beava.Server

open Beava.Core Beava.Wal Checked Delimiter

structure AnnouncesChunks (libraries : HttpLibraries) (buf : List UInt8) (headerEnd : Nat)
    (head : HttpHead) (fields : HeaderFields) : Prop where
  guarded : headerIsTooLarge buf = false
  complete : libraries.parseHead buf = .ok (some (headerEnd,head))
  scanned : scanHeaders libraries head.headers = .ok fields
  isChunked : fields.isChunked = true

/-- The buffer begins with a request whose body has the length that a header says, or which has
no body. -/
inductive HoldsSized (libraries : HttpLibraries) (buf : List UInt8) : FramedRequest → Prop where
  | sized {headerEnd : Nat} {head : HttpHead} {fields : HeaderFields} {length : Nat}
      (guarded : headerIsTooLarge buf = false)
      (complete : libraries.parseHead buf = .ok (some (headerEnd,head)))
      (scanned : scanHeaders libraries head.headers = .ok fields)
      (notChunked : fields.isChunked = false) (isLength : fields.contentLength = some length)
      (small : length ≤ maxBodyBytes) (isThere : headerEnd + length ≤ buf.length) :
      HoldsSized libraries buf (framedRequest head fields ((buf.drop headerEnd).take length))
  | bare {headerEnd : Nat} {head : HttpHead} {fields : HeaderFields}
      (guarded : headerIsTooLarge buf = false)
      (complete : libraries.parseHead buf = .ok (some (headerEnd,head)))
      (scanned : scanHeaders libraries head.headers = .ok fields)
      (notChunked : fields.isChunked = false) (noLength : fields.contentLength = none) :
      HoldsSized libraries buf (framedRequest head fields [])

/-- The head that a library reads is in the buffer. -/
def HeadsInside (libraries : HttpLibraries) : Prop :=
  ∀ buf headerEnd head, libraries.parseHead buf = .ok (some (headerEnd,head)) →
    headerEnd ≤ buf.length

section Framing

variable {libraries : HttpLibraries} {overflowChecks : Bool} {buf : List UInt8} {headerEnd : Nat}
  {head : HttpHead} {fields : HeaderFields}

section Announced

variable (announced : AnnouncesChunks libraries buf headerEnd head fields)
  (inside : headerEnd ≤ buf.length)
variable {body : List UInt8} {consumed : Nat}

include announced inside

theorem frame_panics {panic : HttpPanic}
    (panics : parseChunkedBody overflowChecks (buf.drop headerEnd) = .error panic) :
    frameHttpRequest libraries overflowChecks buf = .error panic := by
  obtain ⟨guarded,complete,scanned,isChunked⟩ := announced
  simp only [frameHttpRequest,guarded,complete,scanned,isChunked,sliced_toEnd inside,panics,
    bind,Except.bind,if_true,if_false,Bool.false_eq_true]

theorem frame_incomplete
    (incomplete : parseChunkedBody overflowChecks (buf.drop headerEnd) = .ok .incomplete) :
    frameHttpRequest libraries overflowChecks buf = .ok (.ok none,buf) := by
  obtain ⟨guarded,complete,scanned,isChunked⟩ := announced
  simp only [frameHttpRequest,guarded,complete,scanned,isChunked,sliced_toEnd inside,
    incomplete,bind,Except.bind,if_true,if_false,Bool.false_eq_true]
  rfl

theorem frame_badChunked {reason : String}
    (bad : parseChunkedBody overflowChecks (buf.drop headerEnd) = .ok (.error reason)) :
    frameHttpRequest libraries overflowChecks buf = .ok (.error (.badChunked reason),buf) := by
  obtain ⟨guarded,complete,scanned,isChunked⟩ := announced
  simp only [frameHttpRequest,guarded,complete,scanned,isChunked,sliced_toEnd inside,bad,
    bind,Except.bind,if_true,if_false,Bool.false_eq_true]
  rfl

theorem frame_complete
    (completed : parseChunkedBody overflowChecks (buf.drop headerEnd) =
      .ok (.complete body consumed)) (isThere : headerEnd + consumed ≤ buf.length) :
    frameHttpRequest libraries overflowChecks buf =
      .ok (.ok (some (framedRequest head fields body)),buf.drop (headerEnd + consumed)) := by
  obtain ⟨guarded,complete,scanned,isChunked⟩ := announced
  simp only [frameHttpRequest,guarded,complete,scanned,isChunked,sliced_toEnd inside,
    completed,splitTo,sliced_toEnd isThere,bind,Except.bind,if_true,if_false,
    Bool.false_eq_true]
  rfl

omit announced in
theorem consumed_inside (allocated : buf.length < 2 ^ 63)
    (completed : parseChunkedBody overflowChecks (buf.drop headerEnd) =
      .ok (.complete body consumed)) : headerEnd + consumed ≤ buf.length := by
  have dropped : (buf.drop headerEnd).length = buf.length - headerEnd := List.length_drop
  have small : (buf.drop headerEnd).length < 2 ^ 63 := by omega
  obtain ⟨chunks,⟨pos,length,-,-,-,-,isThere⟩,-⟩ :=
    (parseChunkedBody_complete small).mp completed
  omega

end Announced

theorem frame_without_chunks (heads : HeadsInside libraries)
    (none : ∀ headerEnd head fields, ¬ AnnouncesChunks libraries buf headerEnd head fields) :
    ∃ result rest, frameHttpRequest libraries overflowChecks buf = .ok (result,rest) ∧
      ∀ request, result = .ok (some request) → HoldsSized libraries buf request := by
  unfold frameHttpRequest
  split
  · refine ⟨_,_,rfl,?_⟩
    rintro request ⟨⟩
  · rename_i guarded
    have isGuarded : headerIsTooLarge buf = false := Bool.eq_false_iff.mpr guarded
    split
    · refine ⟨_,_,rfl,?_⟩
      rintro request ⟨⟩
    · refine ⟨_,_,rfl,?_⟩
      rintro request ⟨⟩
    · rename_i headerEnd head complete
      have inside := heads _ _ _ complete
      split
      · refine ⟨_,_,rfl,?_⟩
        rintro request ⟨⟩
      · rename_i fields scanned
        split
        · rename_i isChunked
          exact absurd ⟨isGuarded,complete,scanned,isChunked⟩ (none headerEnd head fields)
        · rename_i notChunked
          have isPlain : fields.isChunked = false := Bool.eq_false_iff.mpr notChunked
          split
          · rename_i length isLength
            split
            · refine ⟨_,_,rfl,?_⟩
              rintro request ⟨⟩
            · rename_i small
              split
              · refine ⟨_,_,rfl,?_⟩
                rintro request ⟨⟩
              · rename_i isThere
                rw [sliced_eq (by omega) (by omega),splitTo,sliced_toEnd (by omega)]
                refine ⟨_,_,rfl,?_⟩
                rintro request ⟨⟩
                rw [Nat.add_sub_cancel_left]
                exact .sized isGuarded complete scanned isPlain isLength (Nat.le_of_not_lt small)
                  (Nat.le_of_not_lt isThere)
          · rename_i noLength
            rw [splitTo,sliced_toEnd inside]
            refine ⟨_,_,rfl,?_⟩
            rintro request ⟨⟩
            exact .bare isGuarded complete scanned isPlain noLength

theorem frame_sized (heads : HeadsInside libraries) {request : FramedRequest}
    (holds : HoldsSized libraries buf request) :
    ∃ rest, frameHttpRequest libraries overflowChecks buf = .ok (.ok (some request),rest) := by
  cases holds with
  | @sized headerEnd head fields length guarded complete scanned notChunked isLength small
      isThere =>
      refine ⟨buf.drop (headerEnd + length),?_⟩
      have taken := @sliced_eq buf headerEnd (headerEnd + length) (by omega) isThere
      rw [Nat.add_sub_cancel_left] at taken
      simp only [frameHttpRequest,guarded,complete,scanned,notChunked,isLength,
        if_neg (Nat.not_lt_of_le small),if_neg (Nat.not_lt_of_le isThere),taken,splitTo,
        sliced_toEnd isThere,bind,Except.bind,if_false,Bool.false_eq_true]
      rfl
  | @bare headerEnd head fields guarded complete scanned notChunked noLength =>
      refine ⟨buf.drop headerEnd,?_⟩
      simp only [frameHttpRequest,guarded,complete,scanned,notChunked,noLength,splitTo,
        sliced_toEnd (heads _ _ _ complete),bind,Except.bind,if_false,Bool.false_eq_true]
      rfl

end Framing

section Buffers

variable (libraries : HttpLibraries) (buf : List UInt8)

def ReturnsOn : Prop :=
  ∀ overflowChecks, ∃ outcome, parseHttpRequest libraries overflowChecks buf = .ok outcome

/-- A size line of the body does not fit behind its line. -/
def BodyOverflows : Prop :=
  ∃ headerEnd head fields, AnnouncesChunks libraries buf headerEnd head fields ∧
    SizeOverflows (buf.drop headerEnd)

/-- A request that is returned has a body within the limit. -/
def WithinLimit : Prop :=
  ∀ overflowChecks request keepAlive rest,
    parseHttpRequest libraries overflowChecks buf = .ok (.ok (some (request,keepAlive)),rest) →
    request.body.length ≤ maxBodyBytes

/-- The buffer begins with a request that has this body, in chunks or with a length. -/
inductive Holds : FramedRequest → Prop where
  | chunked {headerEnd : Nat} {head : HttpHead} {fields : HeaderFields}
      {chunks : List (List UInt8)} {consumed : Nat}
      (announced : AnnouncesChunks libraries buf headerEnd head fields)
      (encodes : EncodesChunks (buf.drop headerEnd) chunks consumed) :
      Holds (framedRequest head fields chunks.flatten)
  | plain {request : FramedRequest} (sized : HoldsSized libraries buf request) : Holds request

/-- What the request of a route carries is within the limit: the payload of a push by verb as it
is written again, the body of other routes as it came. -/
def IsSmall (request : FramedRequest) : Prop :=
  match Router.route request.method request.path with
  | .pushVerb | .pushSyncVerb =>
      ∀ parsed eventName, libraries.json.fromSlice request.body = some parsed →
        (parsed.get "event").bind Json.asStr = some eventName →
        (libraries.json.toVec ((parsed.get "data").getD (.object []))).length ≤ maxBodyBytes
  | .push _ | .pushSync _ | .pushBatch _ | .get | .batchGet | .reset =>
      request.body.length ≤ maxBodyBytes
  | .register =>
      (asciiLower request.method = "post".toList →
        ∃ contentType ∈ request.contentType, isJsonContentType contentType = true) →
      request.body.length ≤ maxBodyBytes
  | .getSingle .. | .health | .ready | .registry | .ping | .notFound | .methodNotAllowed => True

/-- The request that the buffer begins with is small. -/
def SmallRequest : Prop := ∀ request, Holds libraries buf request → IsSmall libraries request

variable {libraries buf}

theorem parseHttpRequest_returns {overflowChecks : Bool} :
    (∃ outcome, parseHttpRequest libraries overflowChecks buf = .ok outcome) ↔
      ∃ outcome, frameHttpRequest libraries overflowChecks buf = .ok outcome := by
  rw [parseHttpRequest]
  cases frameHttpRequest libraries overflowChecks buf with
  | error panic =>
      constructor
      · rintro ⟨outcome,⟨⟩⟩
      · rintro ⟨outcome,⟨⟩⟩
  | ok framed => exact ⟨fun _ => ⟨_,rfl⟩,fun _ => ⟨_,rfl⟩⟩

variable (heads : HeadsInside libraries) (allocated : buf.length < 2 ^ 63)

include heads

include allocated in
theorem returnsOn_iff : ReturnsOn libraries buf ↔ ¬ BodyOverflows libraries buf := by
  constructor
  · rintro returns ⟨headerEnd,head,fields,announced,overflows⟩
    have inside := heads _ _ _ announced.complete
    refine parseChunkedBody_returns_iff.mp ?_ overflows
    intro overflowChecks
    obtain ⟨outcome,framed⟩ := parseHttpRequest_returns.mp (returns overflowChecks)
    cases parsed : parseChunkedBody overflowChecks (buf.drop headerEnd) with
    | ok result => exact ⟨result,rfl⟩
    | error panic =>
        rw [frame_panics announced inside parsed] at framed
        cases framed
  · intro noOverflow overflowChecks
    apply parseHttpRequest_returns.mpr
    by_cases announces : ∃ headerEnd head fields,
        AnnouncesChunks libraries buf headerEnd head fields
    · obtain ⟨headerEnd,head,fields,announced⟩ := announces
      have inside := heads _ _ _ announced.complete
      have returns := parseChunkedBody_returns_iff.mpr fun overflows =>
        noOverflow ⟨headerEnd,head,fields,announced,overflows⟩
      obtain ⟨result,parsed⟩ := returns overflowChecks
      cases result with
      | complete body consumed =>
          have isThere := consumed_inside inside allocated parsed
          exact ⟨_,frame_complete announced inside parsed isThere⟩
      | incomplete => exact ⟨_,frame_incomplete announced inside parsed⟩
      | error reason => exact ⟨_,frame_badChunked announced inside parsed⟩
    · obtain ⟨result,rest,framed,-⟩ := @frame_without_chunks libraries overflowChecks buf heads
        fun headerEnd head fields announced => announces ⟨headerEnd,head,fields,announced⟩
      exact ⟨_,framed⟩

omit heads in
theorem isSmall_iff (request : FramedRequest) :
    (httpRequestOf libraries request).body.length ≤ maxBodyBytes ↔ IsSmall libraries request := by
  have verb : ∀ sync, (parseVerbPush libraries.json request.body sync).body.length ≤ maxBodyBytes ↔
      ∀ parsed eventName, libraries.json.fromSlice request.body = some parsed →
        (parsed.get "event").bind Json.asStr = some eventName →
        (libraries.json.toVec ((parsed.get "data").getD (.object []))).length ≤ maxBodyBytes := by
    intro sync
    unfold parseVerbPush
    cases read : libraries.json.fromSlice request.body with
    | none => exact iff_of_true (Nat.zero_le _) nofun
    | some parsed =>
        cases named : (parsed.get "event").bind Json.asStr with
        | none =>
            simp only [named]
            refine iff_of_true (Nat.zero_le _) ?_
            rintro _ eventName ⟨⟩ isNamed
            rw [named] at isNamed
            cases isNamed
        | some eventName =>
            have body : (if sync then WireRequest.httpPushSync eventName
                  (libraries.json.toVec ((parsed.get "data").getD (.object []))) ctJson
                else .httpPush eventName
                  (libraries.json.toVec ((parsed.get "data").getD (.object []))) ctJson).body =
                libraries.json.toVec ((parsed.get "data").getD (.object [])) := by
              cases sync <;> rfl
            simp only [named,body]
            constructor
            · rintro small _ _ ⟨⟩ -
              exact small
            · exact fun small => small parsed eventName rfl named
  unfold httpRequestOf IsSmall
  cases Router.route request.method request.path with
  | pushVerb => exact verb false
  | pushSyncVerb => exact verb true
  | push | pushSync | pushBatch | get | batchGet | reset => exact Iff.rfl
  | getSingle | health | ready | registry | ping | notFound | methodNotAllowed =>
      exact iff_of_true (Nat.zero_le _) trivial
  | register =>
      dsimp only
      split
      · rename_i isPost
        cases isType : request.contentType with
        | none =>
            refine iff_of_true (Nat.zero_le _) ?_
            intro typed
            obtain ⟨_,⟨⟩,-⟩ := typed isPost
        | some contentType =>
            dsimp only
            split
            · rename_i isJson
              exact ⟨fun small _ => small,fun small => small fun _ => ⟨_,rfl,isJson⟩⟩
            · rename_i notJson
              refine iff_of_true (Nat.zero_le _) ?_
              intro typed
              obtain ⟨_,⟨⟩,isJson⟩ := typed isPost
              exact absurd isJson notJson
      · rename_i notPost
        exact ⟨fun small _ => small,fun small => small fun isPost => absurd isPost notPost⟩

include allocated in
theorem frame_iff_holds {overflowChecks : Bool} {request : FramedRequest} :
    (∃ rest, frameHttpRequest libraries overflowChecks buf = .ok (.ok (some request),rest)) ↔
      Holds libraries buf request := by
  have dropped : ∀ headerEnd, (buf.drop headerEnd).length < 2 ^ 63 := by
    intro headerEnd
    rw [List.length_drop]
    omega
  constructor
  · rintro ⟨rest,framed⟩
    by_cases announces : ∃ headerEnd head fields,
        AnnouncesChunks libraries buf headerEnd head fields
    · obtain ⟨headerEnd,head,fields,announced⟩ := announces
      have inside := heads _ _ _ announced.complete
      cases parsed : parseChunkedBody overflowChecks (buf.drop headerEnd) with
      | error panic =>
          rw [frame_panics announced inside parsed] at framed
          cases framed
      | ok result =>
          cases result with
          | complete body consumed =>
              rw [frame_complete announced inside parsed
                (consumed_inside inside allocated parsed)] at framed
              cases framed
              obtain ⟨chunks,encodes,rfl⟩ :=
                (parseChunkedBody_complete (dropped headerEnd)).mp parsed
              exact .chunked announced encodes
          | incomplete =>
              rw [frame_incomplete announced inside parsed] at framed
              cases framed
          | error reason =>
              rw [frame_badChunked announced inside parsed] at framed
              cases framed
    · obtain ⟨result,left,unannounced,sized⟩ :=
        @frame_without_chunks libraries overflowChecks buf heads
          fun headerEnd head fields announced => announces ⟨headerEnd,head,fields,announced⟩
      rw [unannounced] at framed
      cases framed
      exact .plain (sized request rfl)
  · intro holds
    cases holds with
    | @chunked headerEnd head fields chunks consumed announced encodes =>
        have inside := heads _ _ _ announced.complete
        have completed := (@parseChunkedBody_complete overflowChecks _ (dropped headerEnd) _ _).mpr
          ⟨chunks,encodes,rfl⟩
        have isThere := consumed_inside inside allocated completed
        exact ⟨_,frame_complete announced inside completed isThere⟩
    | plain sized => exact frame_sized heads sized

include allocated in
theorem withinLimit_iff : WithinLimit libraries buf ↔ SmallRequest libraries buf := by
  constructor
  · intro within request holds
    obtain ⟨rest,framed⟩ := (@frame_iff_holds _ _ heads allocated true request).mpr holds
    apply (isSmall_iff request).mp
    apply within true _ request.keepAlive rest
    rw [parseHttpRequest,framed]
    rfl
  · intro small overflowChecks request keepAlive rest parsed
    rw [parseHttpRequest] at parsed
    cases framed : frameHttpRequest libraries overflowChecks buf with
    | error panic =>
        rw [framed] at parsed
        cases parsed
    | ok outcome =>
        rw [framed] at parsed
        obtain ⟨result,left⟩ := outcome
        cases result with
        | error error => cases parsed
        | ok found =>
            cases found with
            | none => cases parsed
            | some taken =>
                cases parsed
                apply (isSmall_iff taken).mpr
                exact small taken ((frame_iff_holds heads allocated).mp ⟨left,framed⟩)

end Buffers

/-! ### Messages in chunks -/

structure ChunkedMessage (libraries : HttpLibraries) where
  headBytes : List UInt8
  head : HttpHead
  fields : HeaderFields
  body : ChunkedBody
  reads : ∀ rest, libraries.parseHead (headBytes ++ rest) = .ok (some (headBytes.length,head))
  waits : ∀ cut < headBytes.length, libraries.parseHead (headBytes.take cut) = .ok none
  endsBlank : blankLine <:+ headBytes
  scanned : scanHeaders libraries head.headers = .ok fields
  isChunked : fields.isChunked = true
  /-- A buffer has at most `isize::MAX` bytes. -/
  allocated : headBytes.length + body.bytes.length < 2 ^ 63

namespace ChunkedMessage

variable {libraries : HttpLibraries} (message : ChunkedMessage libraries)

def bytes : List UInt8 := message.headBytes ++ message.body.bytes

def framed : FramedRequest := framedRequest message.head message.fields message.body.data

/-- The guard does not stop the head before it is complete. -/
def HeadIsShort : Prop :=
  message.headBytes.length ≤ maxHeaderBytes + 1 ∨
    blankLine <:+: message.headBytes.take (maxHeaderBytes + 1)

/-- The request is returned with exactly the data of its chunks and leaves what follows it, and
no front part of it is returned or changed. -/
def DecodesExactly : Prop :=
  ∀ overflowChecks,
    (∀ rest, parseHttpRequest libraries overflowChecks (message.bytes ++ rest) =
      .ok (.ok (some (httpRequestOf libraries message.framed,message.fields.keepAlive)),rest)) ∧
    ∀ cut < message.bytes.length,
      parseHttpRequest libraries overflowChecks (message.bytes.take cut) =
        .ok (.ok none,message.bytes.take cut)

theorem headerIsTooLarge_eq {buf : List UInt8}
    (short : buf.length ≤ maxHeaderBytes ∨ blankLine <:+: buf) : headerIsTooLarge buf = false := by
  rw [headerIsTooLarge,Bool.and_eq_false_iff,Bool.not_eq_false',decide_eq_true_iff,
    decide_eq_false_iff_not,Nat.not_lt]
  exact short.symm

variable {message}

theorem announced (rest : List UInt8) :
    AnnouncesChunks libraries (message.headBytes ++ rest) message.headBytes.length message.head
      message.fields where
  guarded := by
    obtain ⟨front,isHead⟩ := message.endsBlank
    refine headerIsTooLarge_eq (.inr ⟨front,rest,?_⟩)
    rw [isHead]
  complete := message.reads rest
  scanned := message.scanned
  isChunked := message.isChunked

theorem length_bytes : message.bytes.length = message.headBytes.length + message.body.bytes.length :=
  List.length_append

theorem guarded_front (isShort : message.HeadIsShort) (cut : Nat) :
    headerIsTooLarge (message.bytes.take cut) = false := by
  apply headerIsTooLarge_eq
  by_cases few : cut ≤ maxHeaderBytes
  · refine .inl ((List.length_take_le _ _).trans few)
  · have enough : maxHeaderBytes + 1 ≤ cut := Nat.not_le.mp few
    refine .inr ?_
    rcases isShort with short | blank
    · obtain ⟨front,isHead⟩ := message.endsBlank
      refine ⟨front,message.body.bytes.take (cut - message.headBytes.length),?_⟩
      rw [isHead,bytes,List.take_append,List.take_of_length_le (short.trans enough)]
    · refine blank.trans ?_
      have inFront : message.headBytes.take (maxHeaderBytes + 1) <+: message.headBytes :=
        List.take_prefix _ _
      have inBytes : message.headBytes.take (maxHeaderBytes + 1) <+: message.bytes :=
        inFront.trans (List.prefix_append _ _)
      refine List.IsPrefix.isInfix (List.prefix_take_iff.mpr ⟨inBytes,?_⟩)
      exact (List.length_take_le _ _).trans enough

theorem parse_whole (areTexts : message.body.LinesAreText) (overflowChecks : Bool)
    (rest : List UInt8) :
    parseHttpRequest libraries overflowChecks (message.bytes ++ rest) =
      .ok (.ok (some (httpRequestOf libraries message.framed,message.fields.keepAlive)),rest) := by
  have announced := message.announced (message.body.bytes ++ rest)
  have inside : message.headBytes.length ≤
      (message.headBytes ++ (message.body.bytes ++ rest)).length := by
    rw [List.length_append]
    exact Nat.le_add_right _ _
  have small : message.body.bytes.length < 2 ^ 63 :=
    (Nat.le_add_left _ _).trans_lt message.allocated
  have parsed := @parseChunkedBody_whole overflowChecks message.body small areTexts rest
  rw [← @List.drop_left _ message.headBytes (message.body.bytes ++ rest)] at parsed
  have isThere : message.headBytes.length + message.body.bytes.length ≤
      (message.headBytes ++ (message.body.bytes ++ rest)).length := by
    rw [List.length_append,List.length_append]
    omega
  have left : (message.headBytes ++ (message.body.bytes ++ rest)).drop
      (message.headBytes.length + message.body.bytes.length) = rest := by
    rw [← List.drop_drop,List.drop_left,List.drop_left]
  rw [parseHttpRequest,bytes,List.append_assoc,frame_complete announced inside parsed isThere,
    left]
  rfl

theorem parse_front (areTexts : message.body.LinesAreText) (isShort : message.HeadIsShort)
    (overflowChecks : Bool) {cut : Nat} (short : cut < message.bytes.length) :
    parseHttpRequest libraries overflowChecks (message.bytes.take cut) =
      .ok (.ok none,message.bytes.take cut) := by
  have guarded := guarded_front isShort cut
  by_cases inHead : cut < message.headBytes.length
  · have isFront : message.bytes.take cut = message.headBytes.take cut := by
      rw [bytes,List.take_append_of_le_length (Nat.le_of_lt inHead)]
    have waits := message.waits cut inHead
    rw [← isFront] at waits
    simp only [parseHttpRequest,frameHttpRequest,guarded,waits,if_false,Bool.false_eq_true]
    rfl
  · obtain ⟨more,rfl⟩ := Nat.exists_eq_add_of_le (Nat.not_lt.mp inHead)
    have isFront : message.bytes.take (message.headBytes.length + more) =
        message.headBytes ++ message.body.bytes.take more := by
      rw [bytes,List.take_length_add_append]
    have announced := message.announced (message.body.bytes.take more)
    have inside : message.headBytes.length ≤
        (message.headBytes ++ message.body.bytes.take more).length := by
      rw [List.length_append]
      exact Nat.le_add_right _ _
    have small : message.body.bytes.length < 2 ^ 63 :=
      (Nat.le_add_left _ _).trans_lt message.allocated
    have inBody : more < message.body.bytes.length := by
      rw [length_bytes] at short
      omega
    have parsed := @parseChunkedBody_front overflowChecks message.body small areTexts more inBody
    rw [← @List.drop_left _ message.headBytes (message.body.bytes.take more)] at parsed
    rw [parseHttpRequest,isFront,frame_incomplete announced inside parsed]
    rfl

theorem parse_notText (notText : ¬ message.body.LinesAreText) (overflowChecks : Bool) :
    ∃ reason, parseHttpRequest libraries overflowChecks message.bytes =
      .ok (.error (.badChunked reason),message.bytes) := by
  have announced := message.announced message.body.bytes
  have inside : message.headBytes.length ≤ (message.headBytes ++ message.body.bytes).length := by
    rw [List.length_append]
    exact Nat.le_add_right _ _
  have small : message.body.bytes.length < 2 ^ 63 :=
    (Nat.le_add_left _ _).trans_lt message.allocated
  obtain ⟨reason,parsed⟩ :=
    @parseChunkedBody_notText overflowChecks message.body small notText []
  rw [List.append_nil,← @List.drop_left _ message.headBytes message.body.bytes] at parsed
  refine ⟨reason,?_⟩
  rw [parseHttpRequest,bytes,frame_badChunked announced inside parsed]
  rfl

theorem parse_longHead (notShort : ¬ message.HeadIsShort) (overflowChecks : Bool) :
    maxHeaderBytes + 1 < message.bytes.length ∧
      parseHttpRequest libraries overflowChecks (message.bytes.take (maxHeaderBytes + 1)) =
        .ok (.error .tooLarge,message.bytes.take (maxHeaderBytes + 1)) := by
  obtain ⟨long,noBlank⟩ := not_or.mp notShort
  have headLong := Nat.not_le.mp long
  have isFront : message.bytes.take (maxHeaderBytes + 1) =
      message.headBytes.take (maxHeaderBytes + 1) := by
    rw [bytes,List.take_append_of_le_length (Nat.le_of_lt headLong)]
  have stopped : headerIsTooLarge (message.bytes.take (maxHeaderBytes + 1)) = true := by
    rw [isFront,headerIsTooLarge,Bool.and_eq_true,Bool.not_eq_true',decide_eq_false_iff_not,
      decide_eq_true_iff,List.length_take_of_le (Nat.le_of_lt headLong)]
    exact ⟨noBlank,Nat.lt_succ_self _⟩
  constructor
  · rw [length_bytes]
    omega
  · simp only [parseHttpRequest,frameHttpRequest,stopped,if_true]
    rfl

theorem decodesExactly_iff :
    message.DecodesExactly ↔ message.body.LinesAreText ∧ message.HeadIsShort := by
  constructor
  · intro decodes
    constructor
    · by_contra notText
      obtain ⟨reason,stopped⟩ := parse_notText notText true
      have whole := (decodes true).1 []
      rw [List.append_nil,stopped] at whole
      cases whole
    · by_contra notShort
      obtain ⟨inside,stopped⟩ := parse_longHead notShort true
      have waits := (decodes true).2 _ inside
      rw [stopped] at waits
      cases waits
  · rintro ⟨areTexts,isShort⟩ overflowChecks
    exact ⟨parse_whole areTexts overflowChecks,
      fun cut short => parse_front areTexts isShort overflowChecks short⟩

end ChunkedMessage

/-! ### What holds of the parser -/

/-- `POST /push/E HTTP/1.1` with `Transfer-Encoding: chunked`. -/
def sampleHead : List UInt8 :=
  strAsBytes "POST /push/E HTTP/1.1\r\nTransfer-Encoding: chunked\r\n\r\n"

def sampleHttpHead : HttpHead where
  method := some "POST"
  path := some "/push/E"
  headers := [("Transfer-Encoding",strAsBytes "chunked")]

def sampleFields : HeaderFields where
  keepAlive := true
  contentLength := none
  isChunked := true
  contentType := none

def sampleHttp : HttpLibraries where
  parseHead buf :=
    if sampleHead.isPrefixOf buf then .ok (some (sampleHead.length,sampleHttpHead))
    else if buf.isPrefixOf sampleHead then .ok none else .error "invalid token"
  utf8Error _ := "invalid utf-8 sequence"
  json :=
    { fromSlice := fun _ => none, stringFromSlice := fun _ => .error "", toVec := fun _ => [],
      readers := { json := fun _ => none, msgpack := fun _ => none } }

theorem sampleHttp_reads (rest : List UInt8) :
    sampleHttp.parseHead (sampleHead ++ rest) = .ok (some (sampleHead.length,sampleHttpHead)) := by
  dsimp only [sampleHttp]
  exact if_pos (List.isPrefixOf_iff_prefix.mpr (List.prefix_append _ _))

theorem sampleHttp_waits {cut : Nat} (inHead : cut < sampleHead.length) :
    sampleHttp.parseHead (sampleHead.take cut) = .ok none := by
  have notWhole : ¬ sampleHead.isPrefixOf (sampleHead.take cut) = true := by
    intro isPrefix
    have length := (List.isPrefixOf_iff_prefix.mp isPrefix).length_le
    rw [List.length_take] at length
    omega
  dsimp only [sampleHttp]
  rw [if_neg notWhole]
  exact if_pos (List.isPrefixOf_iff_prefix.mpr (List.take_prefix _ _))

theorem sampleHttp_inside : HeadsInside sampleHttp := by
  intro buf headerEnd head complete
  dsimp only [sampleHttp] at complete
  split at complete
  · rename_i isPrefix
    cases complete
    exact (List.isPrefixOf_iff_prefix.mp isPrefix).length_le
  · split at complete
    · cases complete
    · cases complete

theorem sampleHttp_scanned : scanHeaders sampleHttp sampleHttpHead.headers = .ok sampleFields := by
  decide +kernel

def sizeLine (digit : UInt8) (isDigit : (hexDigit digit).isSome = true)
    (oneLine : ¬ [cr,lf] <:+: [digit] ++ ([tab] ++ [semicolon])) : SizeLine where
  digits := [digit]
  blanks := [tab]
  extension := [semicolon]
  someDigits := List.cons_ne_nil _ _
  areDigits := List.forall_mem_singleton.mpr isDigit
  areBlanks := List.forall_mem_singleton.mpr (.inr rfl)
  isExtension := .inr rfl
  oneLine := oneLine

def sampleChunk : Chunk where
  line := sizeLine 0x31 (by decide) (by decide)
  data := [0x7B]
  someData := List.cons_ne_nil _ _
  isSize := by decide

def sampleBody : ChunkedBody where
  chunks := [sampleChunk]
  last := sizeLine 0x30 (by decide) (by decide)
  isLast := by decide

def sampleMessage : ChunkedMessage sampleHttp where
  headBytes := sampleHead
  head := sampleHttpHead
  fields := sampleFields
  body := sampleBody
  reads := sampleHttp_reads
  waits _ inHead := sampleHttp_waits inHead
  endsBlank := by decide +kernel
  scanned := sampleHttp_scanned
  isChunked := rfl
  allocated := by decide +kernel

/-- The size line `ffffffffffffffff`, and one byte behind it. -/
def overflowingBody : List UInt8 := List.replicate 16 0x66 ++ [cr,lf,0x7B]

end Beava.Server
