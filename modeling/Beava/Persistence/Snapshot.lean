/-
Snapshot files.

A snapshot is written to a temporary file, which takes the name of the snapshot
when all of it is there.  The reader takes the header and as many bytes as it
says; a read may bring fewer bytes than there are, may be interrupted and may
fail.
-/

import Beava.Persistence.Reader
import Beava.Persistence.SnapshotHeader

namespace Beava.Persistence

open Checked

inductive IoErrorKind where
  | notFound
  | unexpectedEof
  | other (code : Nat)
  deriving DecidableEq

/-- Why there is no snapshot: an error, or a panic of `vec!`. -/
inductive SnapshotFailure where
  | io (kind : IoErrorKind)
  | snapshot (error : SnapshotError)
  | capacityOverflow
  deriving DecidableEq

structure SnapshotDir where
  files : String → Option (List UInt8)

namespace SnapshotDir

variable (dir : SnapshotDir)

def put (name : String) (bytes : List UInt8) : SnapshotDir :=
  ⟨fun other => if other = name then some bytes else dir.files other⟩

/-- `fs::rename`. -/
def rename (source target : String) : SnapshotDir :=
  ⟨fun other =>
    if other = target then dir.files source
    else if other = source then none
    else dir.files other⟩

theorem put_self (name : String) (bytes : List UInt8) :
    (dir.put name bytes).files name = some bytes :=
  if_pos rfl

theorem put_other {name other : String} (bytes : List UInt8) (differs : other ≠ name) :
    (dir.put name bytes).files other = dir.files other :=
  if_neg differs

theorem rename_target (source target : String) :
    (dir.rename source target).files target = dir.files source :=
  if_pos rfl

theorem rename_other {source target other : String} (notSource : other ≠ source)
    (notTarget : other ≠ target) : (dir.rename source target).files other = dir.files other :=
  (if_neg notTarget).trans (if_neg notSource)

end SnapshotDir

/-- `snapshot-{lsn:016x}` with an extension. -/
def snapshotPath (snapshotLsn : UInt64) (extension : String) : String :=
  String.ofList ("snapshot-".toList ++ hexDigits 16 snapshotLsn.toNat ++ ['.']) ++ extension

inductive WriteStep where
  | createDirAll
  | openTmp
  | writeHeader
  | writeBody
  | syncAll
  | rename

structure WriteIo where
  fails : WriteStep → Option IoErrorKind
  reached : Nat

structure SnapshotWriteStats where
  path : String
  bytes : Nat

section Files

variable (crc32c : List UInt8 → UInt32)

def writtenHeader (nowMs : Int64) (snapshotLsn registryVersion : UInt64) (body : List UInt8) :
    SnapshotHeader where
  formatVersion := snapshotFormatVersion
  flags := 0
  createdAtMs := nowMs
  snapshotLsn := snapshotLsn
  registryVersion := registryVersion
  bodyLen := UInt64.ofNat body.length
  bodyCrc32c := crc32c body

/-- `SnapshotWriter::write_with_stats`, and the directory after it. -/
def writeWithStats (io : WriteIo) (nowMs : Int64) (dir : SnapshotDir)
    (snapshotLsn registryVersion : UInt64) (body : List UInt8) :
    Except SnapshotFailure SnapshotWriteStats × SnapshotDir :=
  let tmpPath := snapshotPath snapshotLsn "tmp"
  let finalPath := snapshotPath snapshotLsn snapshotExt
  let headerBytes :=
    (writtenHeader crc32c nowMs snapshotLsn registryVersion body).encode crc32c
  match io.fails .createDirAll with
  | some kind => (.error (.io kind),dir)
  | none =>
    match io.fails .openTmp with
    | some kind => (.error (.io kind),dir)
    | none =>
      match io.fails .writeHeader with
      | some kind => (.error (.io kind),dir.put tmpPath (headerBytes.take io.reached))
      | none =>
        match io.fails .writeBody with
        | some kind =>
            (.error (.io kind),dir.put tmpPath (headerBytes ++ body.take io.reached))
        | none =>
          let written := dir.put tmpPath (headerBytes ++ body)
          match io.fails .syncAll with
          | some kind => (.error (.io kind),written)
          | none =>
            match io.fails .rename with
            | some kind => (.error (.io kind),written)
            | none =>
                (.ok ⟨finalPath,headerBytes.length + body.length⟩,
                  written.rename tmpPath finalPath)

/-- What a `read` does. -/
inductive ReadEvent where
  | interrupted
  | failed (kind : IoErrorKind)
  | data (most : Nat)

/-- Reads until there are `wanted` bytes; behind the events a read brings all that there is.  At
the end of the file a read brings nothing. -/
def fill (eof : Nat → SnapshotFailure) (wanted : Nat) :
    List ReadEvent → List UInt8 → List UInt8 →
      Except SnapshotFailure (List UInt8 × List UInt8 × List ReadEvent)
  | [], rest, got =>
      if wanted ≤ got.length + rest.length then
        .ok (got ++ rest.take (wanted - got.length),rest.drop (wanted - got.length),[])
      else .error (eof (got.length + rest.length))
  | event :: events, rest, got =>
      if wanted ≤ got.length then .ok (got,rest,event :: events)
      else
        match event with
        | .interrupted => fill eof wanted events rest got
        | .failed kind => .error (.io kind)
        | .data most =>
            let count := min (max most 1) (min (wanted - got.length) rest.length)
            if count = 0 then .error (eof got.length)
            else fill eof wanted events (rest.drop count) (got ++ rest.take count)

/-- `SnapshotReader::open` on the bytes of a file. -/
def openFile (events : List ReadEvent) (file : List UInt8) :
    Except SnapshotFailure (SnapshotHeader × List UInt8) := do
  let (headerBytes,rest,events) ←
    fill (fun _ => .io .unexpectedEof) snapshotHeaderSize events file []
  let header ← (SnapshotHeader.decode crc32c headerBytes).mapError .snapshot
  if 2 ^ 63 ≤ header.bodyLen.toNat then .error .capacityOverflow
  else
    let truncated := fun got => .snapshot (.truncated header.bodyLen (UInt64.ofNat got))
    let (body,_,_) ← fill truncated header.bodyLen.toNat events rest []
    let computed := crc32c body
    if computed ≠ header.bodyCrc32c then
      .error (.snapshot (.bodyCrcMismatch header.bodyCrc32c computed))
    else return (header,body)

/-- `SnapshotReader::open`. -/
def openSnapshot (events : List ReadEvent) (dir : SnapshotDir) (path : String) :
    Except SnapshotFailure (SnapshotHeader × List UInt8) :=
  match dir.files path with
  | none => .error (.io .notFound)
  | some file => openFile crc32c events file

end Files

def Calm (events : List ReadEvent) : Prop := ∀ kind, .failed kind ∉ events

section Reads

variable {eof : Nat → SnapshotFailure} {wanted : Nat} {events : List ReadEvent}
  {rest got : List UInt8}

theorem fill_there (isThere : got.length = wanted) :
    fill eof wanted events rest got =
      .ok (got ++ rest.take (wanted - got.length),rest.drop (wanted - got.length),events) := by
  have none : wanted - got.length = 0 := by omega
  have noMore : wanted ≤ got.length := by omega
  rw [none,List.take_zero,List.append_nil,List.drop_zero]
  cases events with
  | nil =>
      have enough : wanted ≤ got.length + rest.length := by omega
      rw [fill,if_pos enough,none,List.take_zero,List.append_nil,List.drop_zero]
  | cons event events =>
      cases event with
      | interrupted => rw [fill,if_pos noMore]
      | failed kind => rw [fill,if_pos noMore]
      | data most => rw [fill,if_pos noMore]

theorem fill_data {most : Nat} (fewer : got.length < wanted)
    (enough : wanted ≤ got.length + rest.length) :
    ∃ count, 0 < count ∧ count ≤ wanted - got.length ∧ count ≤ rest.length ∧
      fill eof wanted (.data most :: events) rest got =
        fill eof wanted events (rest.drop count) (got ++ rest.take count) := by
  have notThere : ¬ wanted ≤ got.length := by omega
  refine ⟨min (max most 1) (min (wanted - got.length) rest.length),by omega,by omega,by omega,
    ?_⟩
  have some : min (max most 1) (min (wanted - got.length) rest.length) ≠ 0 := by omega
  rw [fill,if_neg notThere]
  exact if_neg some

theorem taken_and_missing {count : Nat} (within : count ≤ wanted - got.length)
    (inRest : count ≤ rest.length) :
    got ++ rest.take count ++ (rest.drop count).take (wanted - (got ++ rest.take count).length) =
        got ++ rest.take (wanted - got.length) ∧
      (rest.drop count).drop (wanted - (got ++ rest.take count).length) =
        rest.drop (wanted - got.length) := by
  have longer : (got ++ rest.take count).length = got.length + count := by
    rw [List.length_append,List.length_take_of_le inRest]
  have missing : count + (wanted - (got.length + count)) = wanted - got.length := by omega
  rw [longer,List.drop_drop,List.append_assoc,← List.take_add,missing]
  exact ⟨rfl,rfl⟩

theorem fill_cases (fewer : got.length ≤ wanted) (enough : wanted ≤ got.length + rest.length) :
    (∃ kind, .failed kind ∈ events ∧ fill eof wanted events rest got = .error (.io kind)) ∨
      ∃ left, left <:+ events ∧ fill eof wanted events rest got =
        .ok (got ++ rest.take (wanted - got.length),rest.drop (wanted - got.length),left) := by
  induction events generalizing rest got with
  | nil => exact .inr ⟨[],List.suffix_refl _,if_pos enough⟩
  | cons event events ih =>
      by_cases isThere : got.length = wanted
      · exact .inr ⟨event :: events,List.suffix_refl _,fill_there isThere⟩
      have notThere : ¬ wanted ≤ got.length := by omega
      cases event with
      | interrupted =>
          rw [fill,if_neg notThere]
          rcases ih fewer enough with ⟨kind,fails,failed⟩ | ⟨left,behind,filled⟩
          · exact .inl ⟨kind,List.mem_cons_of_mem _ fails,failed⟩
          · exact .inr ⟨left,behind.trans (List.suffix_cons _ _),filled⟩
      | failed kind =>
          rw [fill,if_neg notThere]
          exact .inl ⟨kind,List.mem_cons_self,rfl⟩
      | data most =>
          obtain ⟨count,some,within,inRest,next⟩ :=
            @fill_data eof wanted events rest got most (by omega) enough
          obtain ⟨taken,left⟩ := @taken_and_missing wanted rest got count within inRest
          have longer : (got ++ rest.take count).length = got.length + count := by
            rw [List.length_append,List.length_take_of_le inRest]
          have fewer' : (got ++ rest.take count).length ≤ wanted := by omega
          have enough' :
              wanted ≤ (got ++ rest.take count).length + (rest.drop count).length := by
            rw [List.length_drop]
            omega
          rw [next]
          rcases ih fewer' enough' with ⟨kind,fails,failed⟩ | ⟨later,behind,filled⟩
          · exact .inl ⟨kind,List.mem_cons_of_mem _ fails,failed⟩
          · refine .inr ⟨later,behind.trans (List.suffix_cons _ _),?_⟩
            rw [filled,taken,left]

theorem fill_enough (calm : Calm events) (fewer : got.length ≤ wanted)
    (enough : wanted ≤ got.length + rest.length) :
    ∃ left, Calm left ∧ fill eof wanted events rest got =
      .ok (got ++ rest.take (wanted - got.length),rest.drop (wanted - got.length),left) := by
  rcases @fill_cases eof wanted events rest got fewer enough with
    ⟨kind,fails,-⟩ | ⟨left,behind,filled⟩
  · exact absurd fails (calm kind)
  · exact ⟨left,fun kind member => calm kind (behind.subset member),filled⟩

theorem fill_short (short : got.length + rest.length < wanted) :
    (∃ kind, fill eof wanted events rest got = .error (.io kind)) ∨
      ∃ count, fill eof wanted events rest got = .error (eof count) := by
  induction events generalizing rest got with
  | nil => exact .inr ⟨_,if_neg (Nat.not_le.mpr short)⟩
  | cons event events ih =>
      have notThere : ¬ wanted ≤ got.length := by omega
      cases event with
      | interrupted =>
          rw [fill,if_neg notThere]
          exact ih short
      | failed kind =>
          rw [fill,if_neg notThere]
          exact .inl ⟨kind,rfl⟩
      | data most =>
          rw [fill,if_neg notThere]
          dsimp only
          split
          · exact .inr ⟨_,rfl⟩
          · apply ih
            rw [List.length_append,List.length_take,List.length_drop]
            omega

end Reads

def Rejected {α : Type} (result : Except SnapshotFailure α) : Prop :=
  ∃ failure, failure ≠ .capacityOverflow ∧ result = .error failure

section Written

variable (crc32c : List UInt8 → UInt32) {io : WriteIo} {nowMs : Int64} {dir after : SnapshotDir}
  {snapshotLsn registryVersion : UInt64} {body : List UInt8}

theorem writeWithStats_ok {stats : SnapshotWriteStats}
    (written : writeWithStats crc32c io nowMs dir snapshotLsn registryVersion body =
      (.ok stats,after)) :
    stats.path = snapshotPath snapshotLsn snapshotExt ∧
      after.files stats.path = some
        ((writtenHeader crc32c nowMs snapshotLsn registryVersion body).encode crc32c ++ body) ∧
      ∀ other, other ≠ snapshotPath snapshotLsn "tmp" → other ≠ stats.path →
        after.files other = dir.files other := by
  unfold writeWithStats at written
  dsimp only at written
  split at written
  · cases written
  · split at written
    · cases written
    · split at written
      · cases written
      · split at written
        · cases written
        · split at written
          · cases written
          · split at written
            · cases written
            · obtain ⟨isStats,isAfter⟩ := Prod.mk.inj written
              rw [← isAfter,← Except.ok.inj isStats]
              refine ⟨rfl,?_,?_⟩
              · rw [SnapshotDir.rename_target,SnapshotDir.put_self]
              · intro other notTmp notFinal
                rw [SnapshotDir.rename_other _ notTmp notFinal,SnapshotDir.put_other _ _ notTmp]

theorem writeWithStats_error {failure : SnapshotFailure} {other : String}
    (failed : writeWithStats crc32c io nowMs dir snapshotLsn registryVersion body =
      (.error failure,after)) (notTmp : other ≠ snapshotPath snapshotLsn "tmp") :
    after.files other = dir.files other := by
  unfold writeWithStats at failed
  dsimp only at failed
  split at failed
  · cases failed
    rfl
  · split at failed
    · cases failed
      rfl
    · split at failed
      · cases failed
        exact dir.put_other _ notTmp
      · split at failed
        · cases failed
          exact dir.put_other _ notTmp
        · split at failed
          · cases failed
            exact dir.put_other _ notTmp
          · split at failed
            · cases failed
              exact dir.put_other _ notTmp
            · cases failed

variable {crc32c} {header : SnapshotHeader} {events : List ReadEvent}

theorem openFile_whole (calm : Calm events)
    (current : header.formatVersion = snapshotFormatVersion)
    (isLength : header.bodyLen.toNat = body.length) (fits : body.length < 2 ^ 63)
    (isCrc : header.bodyCrc32c = crc32c body) :
    openFile crc32c events (header.encode crc32c ++ body) = .ok (header,body) := by
  have length : (header.encode crc32c).length = snapshotHeaderSize := header.length_encode
  have enough : snapshotHeaderSize ≤
      ([] : List UInt8).length + (header.encode crc32c ++ body).length := by
    rw [List.length_append,length]
    exact Nat.le_add_left_of_le (Nat.le_add_right _ _)
  obtain ⟨left,calmLeft,headerRead⟩ := @fill_enough (fun _ => .io .unexpectedEof) _ events _ []
    calm (Nat.zero_le _) enough
  obtain ⟨last,-,bodyRead⟩ := @fill_enough
    (fun got => .snapshot (.truncated header.bodyLen (UInt64.ofNat got))) header.bodyLen.toNat left
    body [] calmLeft (Nat.zero_le _) (by simp [isLength])
  have small : ¬ 2 ^ 63 ≤ header.bodyLen.toNat := by omega
  rw [List.nil_append,List.length_nil,Nat.sub_zero,List.take_left' length,
    List.drop_left' length] at headerRead
  rw [List.nil_append,List.length_nil,Nat.sub_zero,List.take_of_length_le isLength.ge]
    at bodyRead
  unfold openFile
  rw [headerRead]
  simp only [bind,Except.bind,SnapshotHeader.decode_encode crc32c current,Except.mapError,
    if_neg small,bodyRead,isCrc,ne_eq,not_true_eq_false,if_false]
  rfl

theorem openFile_cut (events : List ReadEvent)
    (current : header.formatVersion = snapshotFormatVersion)
    (isLength : header.bodyLen.toNat = body.length) (fits : body.length < 2 ^ 63) {cut : Nat}
    (isCut : cut < (header.encode crc32c ++ body).length) :
    Rejected (openFile crc32c events ((header.encode crc32c ++ body).take cut)) := by
  have length : (header.encode crc32c).length = snapshotHeaderSize := header.length_encode
  have whole : (header.encode crc32c ++ body).length = snapshotHeaderSize + body.length := by
    rw [List.length_append,length]
  have left : ((header.encode crc32c ++ body).take cut).length = cut :=
    List.length_take_of_le isCut.le
  unfold openFile
  by_cases inHeader : cut < snapshotHeaderSize
  · have short : ([] : List UInt8).length + ((header.encode crc32c ++ body).take cut).length <
        snapshotHeaderSize := by
      rw [left,List.length_nil,Nat.zero_add]
      exact inHeader
    rcases @fill_short (fun _ => .io .unexpectedEof) _ events _ [] short with
      ⟨kind,failed⟩ | ⟨count,failed⟩
    · rw [failed]
      exact ⟨.io kind,by simp,rfl⟩
    · rw [failed]
      exact ⟨.io .unexpectedEof,by simp,rfl⟩
  · have enough : snapshotHeaderSize ≤
        ([] : List UInt8).length + ((header.encode crc32c ++ body).take cut).length := by
      rw [left,List.length_nil,Nat.zero_add]
      exact Nat.le_of_not_lt inHeader
    have parts : (header.encode crc32c ++ body).take cut =
        header.encode crc32c ++ body.take (cut - snapshotHeaderSize) := by
      rw [List.take_append,length,List.take_of_length_le (length.trans_le (by omega))]
    rcases @fill_cases (fun _ => .io .unexpectedEof) _ events _ [] (Nat.zero_le _) enough with
      ⟨kind,-,failed⟩ | ⟨later,-,headerRead⟩
    · rw [failed]
      exact ⟨.io kind,by simp,rfl⟩
    · rw [parts,List.nil_append,List.length_nil,Nat.sub_zero,List.take_left' length,
        List.drop_left' length] at headerRead
      have small : ¬ 2 ^ 63 ≤ header.bodyLen.toNat := by omega
      have short : ([] : List UInt8).length + (body.take (cut - snapshotHeaderSize)).length <
          header.bodyLen.toNat := by
        rw [List.length_nil,List.length_take]
        omega
      rw [parts,headerRead]
      simp only [bind,Except.bind,SnapshotHeader.decode_encode crc32c current,Except.mapError,
        if_neg small]
      rcases @fill_short (fun got => .snapshot (.truncated header.bodyLen (UInt64.ofNat got))) _
          later _ [] short with ⟨kind,failed⟩ | ⟨count,failed⟩
      · rw [failed]
        exact ⟨.io kind,by simp,rfl⟩
      · rw [failed]
        exact ⟨.snapshot (.truncated header.bodyLen (UInt64.ofNat count)),by simp,rfl⟩

end Written

/-- A header is decoded as it was encoded and encoded as it was decoded; a written snapshot is
read as it was written, and no front of it is read at all. -/
theorem snapshots_intact (crc32c : List UInt8 → UInt32) :
    (∀ header : SnapshotHeader, header.formatVersion = snapshotFormatVersion →
      SnapshotHeader.decode crc32c (header.encode crc32c) = .ok header) ∧
    (∀ (bytes : List UInt8) (header : SnapshotHeader), bytes.length = snapshotHeaderSize →
      SnapshotHeader.decode crc32c bytes = .ok header → header.encode crc32c = bytes) ∧
    ∀ (io : WriteIo) (nowMs : Int64) (dir after : SnapshotDir)
      (snapshotLsn registryVersion : UInt64) (body : List UInt8) (stats : SnapshotWriteStats),
      body.length < 2 ^ 63 →
      writeWithStats crc32c io nowMs dir snapshotLsn registryVersion body = (.ok stats,after) →
      ∃ (header : SnapshotHeader) (file : List UInt8),
        header.snapshotLsn = snapshotLsn ∧ header.registryVersion = registryVersion ∧
        after.files stats.path = some file ∧
        (∀ events, Calm events →
          openSnapshot crc32c events after stats.path = .ok (header,body)) ∧
        ∀ cut < file.length, ∀ events,
          Rejected
            (openSnapshot crc32c events (after.put stats.path (file.take cut)) stats.path) := by
  refine ⟨fun header current => SnapshotHeader.decode_encode crc32c current,
    fun bytes header isSize accepted => SnapshotHeader.encode_decode crc32c isSize accepted,?_⟩
  intro io nowMs dir after snapshotLsn registryVersion body stats fits written
  obtain ⟨-,isFile,-⟩ := writeWithStats_ok crc32c written
  have isLength : (writtenHeader crc32c nowMs snapshotLsn registryVersion body).bodyLen.toNat =
      body.length := UInt64.toNat_ofNat_of_lt' (fits.trans (by decide))
  refine ⟨writtenHeader crc32c nowMs snapshotLsn registryVersion body,_,rfl,rfl,isFile,?_,
    ?_⟩
  · intro events calm
    rw [openSnapshot,isFile]
    exact openFile_whole calm rfl isLength fits rfl
  · intro cut isCut events
    rw [openSnapshot,SnapshotDir.put_self]
    exact openFile_cut events rfl isLength fits isCut

def byteSum (bytes : List UInt8) : UInt32 := UInt32.ofNat (bytes.map UInt8.toNat).sum

/-- The header of the body `[7, 8]`, written at 9 ms with LSN 1 and registry version 2. -/
def headerBytes : List UInt8 :=
  [66,69,65,86,65,83,78,80,1,0,0,0,9,0,0,0,0,0,0,0,1,0,0,0,0,0,0,0,
    2,0,0,0,0,0,0,0,2,0,0,0,0,0,0,0,15,0,0,0,110,2,0,0]

theorem snapshots_intact_sample :
    SnapshotHeader.decode byteSum ((writtenHeader byteSum 9 1 2 [7,8]).encode byteSum) =
        .ok (writtenHeader byteSum 9 1 2 [7,8]) ∧
      (writtenHeader byteSum 9 1 2 [7,8]).encode byteSum = headerBytes ∧
      ∃ header file after path, after.files path = some file ∧
        openSnapshot byteSum [.interrupted,.data 1] after path = .ok (header,[7,8]) ∧
        ∀ cut < file.length, Rejected
          (openSnapshot byteSum [.data 60] (after.put path (file.take cut)) path) := by
  obtain ⟨decodes,encodes,reads⟩ := snapshots_intact byteSum
  have decoded := decodes (writtenHeader byteSum 9 1 2 [7,8]) rfl
  have read : SnapshotHeader.decode byteSum headerBytes =
      .ok (writtenHeader byteSum 9 1 2 [7,8]) := by rfl
  obtain ⟨header,file,-,-,isFile,whole,cuts⟩ := reads ⟨fun _ => none,0⟩ 9 ⟨fun _ => none⟩ _
    1 2 [7,8] _ (by decide) rfl
  have calm : Calm [.interrupted,.data 1] := by
    intro kind member
    simp at member
  exact ⟨decoded,encodes headerBytes _ rfl read,header,file,_,_,isFile,whole _ calm,
    fun cut isCut => cuts cut isCut _⟩

end Beava.Persistence
