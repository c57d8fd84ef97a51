/-
Reading the segment files of a directory.

The names of segment files carry their first LSN in 16 hexadecimal digits, so the
order of the names is the order of the LSNs.  Every file is read until its reader
ends; the records of all files are put together.

When the last file is cut behind its header, exactly the records before the cut
are read, provided that no length field has wrapped.
-/

import Beava.Persistence.Record
import Mathlib.Data.List.Sort
import Mathlib.Data.String.Basic

namespace Beava.Persistence

/-! ### Segment files -/

def magic : List UInt8 := [0x42,0x45,0x41,0x56,0x41,0x57,0x41,0x4C]

def formatVersion : Nat := 1

def headerSize : Nat := 24

def hexDigit (value : Nat) : Char :=
  if value < 10 then Char.ofNat ('0'.toNat + value) else Char.ofNat ('a'.toNat + (value - 10))

/-- The low `width` hexadecimal digits. -/
def hexDigits : Nat → Nat → List Char
  | 0, _ => []
  | width + 1, value => hexDigits width (value / 16) ++ [hexDigit (value % 16)]

def segmentFilename (startLsn : UInt64) : String :=
  String.ofList (['w','a','l','-'] ++ hexDigits 16 startLsn.toNat ++ ['.','l','o','g'])

def writeHeader (startLsn : UInt64) (registryVersion : UInt32) : List UInt8 :=
  magic ++ toLeBytes 4 formatVersion ++ toLeBytes 8 startLsn.toNat ++
    toLeBytes 4 registryVersion.toNat

/-- `read_exact`. -/
def readExact (r : List UInt8) (count : Nat) : Except PersistError (List UInt8 × List UInt8) :=
  if count ≤ r.length then .ok (r.take count,r.drop count) else .error .unexpectedEof

structure Header where
  startLsn : UInt64
  registryVersion : UInt32
  deriving DecidableEq, Repr

def readHeader (r : List UInt8) : Except PersistError (Header × List UInt8) := do
  let (magicBuf,r) ← readExact r 8
  if magicBuf ≠ magic then .error (.badMagic magicBuf)
  else
    let (versionBuf,r) ← readExact r 4
    let version := fromLeBytes versionBuf
    if version ≠ formatVersion then .error (.unsupportedVersion version)
    else
      let (lsnBuf,r) ← readExact r 8
      let (versionBuf,r) ← readExact r 4
      return (⟨UInt64.ofNat (fromLeBytes lsnBuf),UInt32.ofNat (fromLeBytes versionBuf)⟩,r)

structure WalReader where
  file : List UInt8
  pos : Nat
  header : Header
  fused : Bool

structure DirEntry where
  name : String
  bytes : List UInt8
  deriving DecidableEq, Repr

/-- `Path::extension`: what is behind the last dot, unless the name starts there. -/
def DirEntry.extension (entry : DirEntry) : Option String :=
  let chars := entry.name.toList
  let behind := chars.reverse.takeWhile (· ≠ '.')
  if behind.length + 1 < chars.length then some (String.ofList behind.reverse) else none

section Read

variable (crc32c : List UInt8 → UInt32)

namespace WalReader

def openFile (bytes : List UInt8) : Except PersistError WalReader := do
  let (header,file) ← readHeader bytes
  return ⟨file,headerSize,header,false⟩

/-- `Iterator::next`. -/
def next (reader : WalReader) : Option (Except PersistError WalRecord) × WalReader :=
  if reader.fused then (none,reader)
  else
    match decodeRecord crc32c reader.file reader.pos with
    | (.ok (some rec),rest) =>
        (some (.ok rec),
          { reader with file := rest, pos := reader.pos + (4 + 4 + 8 + 1 + rec.payload.length) })
    | (.ok none,rest) => (none,{ reader with file := rest, fused := true })
    | (.error error,rest) => (some (.error error),{ reader with file := rest, fused := true })

def collect : Nat → WalReader → Except PersistError (List WalRecord)
  | 0, _ => .ok []
  | fuel + 1, reader =>
      match reader.next crc32c with
      | (none,_) => .ok []
      | (some (.error error),_) => .error error
      | (some (.ok rec),after) => (collect fuel after).map (rec :: ·)

end WalReader

def readFile (bytes : List UInt8) : Except PersistError (List WalRecord) := do
  let reader ← WalReader.openFile bytes
  reader.collect crc32c (bytes.length + 1)

def readFiles : List DirEntry → Except PersistError (List WalRecord)
  | [] => .ok []
  | entry :: rest => do
      let records ← readFile crc32c entry.bytes
      let others ← readFiles rest
      return records ++ others

/-- `WalReader::read_all` on a directory. -/
def readAll (dir : List DirEntry) : Except PersistError (List WalRecord) :=
  readFiles crc32c ((dir.filter fun entry => entry.extension = some "log").insertionSort
    fun first second => first.name ≤ second.name)

end Read

theorem length_hexDigits (width value : Nat) : (hexDigits width value).length = width := by
  induction width generalizing value with
  | zero => rfl
  | succ width ih => rw [hexDigits,List.length_append,ih,List.length_singleton]

theorem hexDigit_lt {first second : Nat} (less : first < second) (isDigit : second < 16) :
    hexDigit first < hexDigit second := by
  have all : ∀ second < 16, ∀ first < second, hexDigit first < hexDigit second := by decide
  exact all second isDigit first less

theorem append_lt_append {first second : List Char} (sameLength : first.length = second.length)
    (less : first < second) (firstRest secondRest : List Char) :
    first ++ firstRest < second ++ secondRest := by
  induction first generalizing second with
  | nil =>
      cases second with
      | nil => exact absurd less (List.not_lt_nil _)
      | cons char rest => cases sameLength
  | cons char rest ih =>
      cases second with
      | nil => cases sameLength
      | cons other others =>
          rw [List.cons_append,List.cons_append,List.cons_lt_cons_iff]
          rw [List.cons_lt_cons_iff] at less
          rcases less with less | ⟨same,less⟩
          · exact .inl less
          · exact .inr ⟨same,ih (Nat.succ.inj sameLength) less⟩

theorem hexDigits_lt {width first second : Nat} (less : first < second)
    (fits : second < 16 ^ width) : hexDigits width first < hexDigits width second := by
  induction width generalizing first second with
  | zero => omega
  | succ width ih =>
      rw [Nat.pow_succ] at fits
      rw [hexDigits,hexDigits]
      by_cases sameFront : first / 16 = second / 16
      · rw [sameFront]
        apply List.append_left_lt
        exact List.cons_lt_cons_iff.mpr
          (.inl (hexDigit_lt (by omega) (Nat.mod_lt _ (by omega))))
      · apply append_lt_append (by rw [length_hexDigits,length_hexDigits])
        exact ih (by omega) (by omega)

theorem segmentFilename_lt {first second : UInt64} (less : first < second) :
    segmentFilename first < segmentFilename second := by
  have fits : second.toNat < 16 ^ 16 := by
    have := second.toNat_lt
    omega
  have digits := hexDigits_lt (UInt64.lt_iff_toNat_lt.mp less) fits
  rw [String.lt_iff_toList_lt,segmentFilename,segmentFilename,String.toList_ofList,
    String.toList_ofList,List.append_assoc,List.append_assoc]
  apply List.append_left_lt
  exact append_lt_append (by rw [length_hexDigits,length_hexDigits]) digits _ _

theorem segmentFilename_extension (startLsn : UInt64) (bytes : List UInt8) :
    (DirEntry.mk (segmentFilename startLsn) bytes).extension = some "log" := by
  unfold DirEntry.extension
  simp only [segmentFilename,String.toList_ofList,List.reverse_append]
  simp [length_hexDigits]

section File

variable {crc32c : List UInt8 → UInt32}

theorem readExact_append {front rest : List UInt8} {count : Nat} (isLength : front.length = count) :
    readExact (front ++ rest) count = .ok (front,rest) := by
  subst isLength
  rw [readExact,if_pos (by rw [List.length_append]; omega),List.take_left,List.drop_left]

theorem length_writeHeader (startLsn : UInt64) (registryVersion : UInt32) :
    (writeHeader startLsn registryVersion).length = headerSize := by
  simp only [writeHeader,List.length_append,length_toLeBytes]
  rfl

theorem readHeader_writeHeader (startLsn : UInt64) (registryVersion : UInt32)
    (rest : List UInt8) :
    readHeader (writeHeader startLsn registryVersion ++ rest) =
      .ok (⟨startLsn,registryVersion⟩,rest) := by
  have lsnFits : startLsn.toNat < 256 ^ 8 := by
    have := startLsn.toNat_lt
    omega
  have versionFits : registryVersion.toNat < 256 ^ 4 := by
    have := registryVersion.toNat_lt
    omega
  have formatFits : fromLeBytes (toLeBytes 4 formatVersion) = formatVersion := by decide
  unfold readHeader
  simp only [writeHeader,List.append_assoc]
  simp only [readExact_append (show magic.length = 8 from rfl),
    readExact_append (length_toLeBytes 4 formatVersion),
    readExact_append (length_toLeBytes 8 startLsn.toNat),
    readExact_append (length_toLeBytes 4 registryVersion.toNat),bind,Except.bind,ne_eq,
    not_true_eq_false,if_false,formatFits,fromLeBytes_toLeBytes_of_lt lsnFits,
    fromLeBytes_toLeBytes_of_lt versionFits,UInt64.ofNat_toNat,UInt32.ofNat_toNat]
  rfl

theorem toOption_map {ε α β : Type} (result : Except ε α) (f : α → β) :
    (result.map f).toOption = result.toOption.map f := by
  cases result <;> rfl

theorem collect_toOption (fuel : Nat) (data : List UInt8) (pos : Nat) (header : Header) :
    ((WalReader.mk data pos header false).collect crc32c fuel).toOption =
      (Incremental.readAll (recordStep crc32c) fuel data).toOption := by
  induction fuel generalizing data pos with
  | zero => rfl
  | succ fuel ih =>
      rw [WalReader.collect,Incremental.readAll,← resultStep_decodeRecord data pos,
        WalReader.next,if_neg Bool.false_ne_true]
      rcases decoded : decodeRecord crc32c data pos with ⟨error | found,rest⟩
      · rfl
      · cases found with
        | none => rfl
        | some rec =>
            obtain ⟨-,isRest,within⟩ := decodeRecord_some decoded
            have consumed : data.drop (data.length - rest.length) = rest := by
              rw [isRest,List.length_drop]
              congr 1
              omega
            simp only [resultStep,consumed,toOption_map]
            rw [ih]

theorem readFile_toOption (startLsn : UInt64) (registryVersion : UInt32) (data : List UInt8) :
    (readFile crc32c (writeHeader startLsn registryVersion ++ data)).toOption =
      (Incremental.readAll (recordStep crc32c)
        ((writeHeader startLsn registryVersion ++ data).length + 1) data).toOption := by
  rw [← collect_toOption _ data headerSize ⟨startLsn,registryVersion⟩]
  simp only [readFile,WalReader.openFile,readHeader_writeHeader]
  rfl

end File

/-! ### The directory -/

structure Segment where
  startLsn : UInt64
  registryVersion : UInt32
  records : List WalRecord

section Directory

variable (crc32c : List UInt8 → UInt32)

def Segment.file (segment : Segment) : DirEntry :=
  { name := segmentFilename segment.startLsn
    bytes := writeHeader segment.startLsn segment.registryVersion ++
      segment.records.flatMap (WalRecord.bytes crc32c) }

def DirEntry.truncate (cut : Nat) (entry : DirEntry) : DirEntry :=
  { entry with bytes := entry.bytes.take cut }

def survivingFiles (earlier : List Segment) (last : Segment) (cut : Nat) : List DirEntry :=
  earlier.map (Segment.file crc32c) ++ [(last.file crc32c).truncate cut]

def survivingRecords (earlier : List Segment) (last : Segment) (cut : Nat) : List WalRecord :=
  earlier.flatMap Segment.records ++
    Incremental.wholeItems (WalRecord.bytes crc32c) last.records (cut - headerSize)

/-- Wherever the last file is cut behind its header and in whatever order the
directory is listed, exactly the surviving records are read. -/
def ReadsBack (earlier : List Segment) (last : Segment) : Prop :=
  ∀ cut, headerSize ≤ cut → ∀ dir : List DirEntry,
    dir.Perm (survivingFiles crc32c earlier last cut) →
      readAll crc32c dir = .ok (survivingRecords crc32c earlier last cut)

variable {crc32c}

theorem insertionSort_names {dir files : List DirEntry} (isPerm : dir.Perm files)
    (ascending : files.Pairwise fun first second => first.name < second.name) :
    (dir.insertionSort fun first second => first.name ≤ second.name) = files := by
  have : Std.Total fun first second : DirEntry => first.name ≤ second.name :=
    ⟨fun _ _ => le_total _ _⟩
  have : IsTrans DirEntry fun first second => first.name ≤ second.name :=
    ⟨fun _ _ _ => le_trans⟩
  have sorted := List.pairwise_insertionSort
    (fun first second : DirEntry => first.name ≤ second.name) dir
  have sameFiles := (List.perm_insertionSort
    (fun first second : DirEntry => first.name ≤ second.name) dir).trans isPerm
  refine List.Perm.eq_of_pairwise ?_ sorted (ascending.imp le_of_lt) sameFiles
  intro first second inSorted inFiles firstLe secondLe
  have distinct : (files.map DirEntry.name).Nodup :=
    List.pairwise_map.mpr (ascending.imp ne_of_lt)
  exact List.inj_on_of_nodup_map distinct (sameFiles.mem_iff.mp inSorted) inFiles
    (le_antisymm firstLe secondLe)

variable {earlier : List Segment} {last : Segment}

theorem survivingFiles_ascending (cut : Nat)
    (ordered : (earlier ++ [last]).Pairwise fun first second => first.startLsn < second.startLsn) :
    (survivingFiles crc32c earlier last cut).Pairwise
      fun first second => first.name < second.name := by
  have names : (survivingFiles crc32c earlier last cut).map DirEntry.name =
      (earlier ++ [last]).map fun segment => segmentFilename segment.startLsn := by
    simp only [survivingFiles,List.map_append,List.map_map,List.map_cons,List.map_nil]
    rfl
  rw [← List.pairwise_map (f := DirEntry.name) (R := fun first second => first < second),names,
    List.pairwise_map]
  exact ordered.imp segmentFilename_lt

theorem readAll_perm {cut : Nat} {dir : List DirEntry}
    (ordered : (earlier ++ [last]).Pairwise fun first second => first.startLsn < second.startLsn)
    (isPerm : dir.Perm (survivingFiles crc32c earlier last cut)) :
    readAll crc32c dir = readFiles crc32c (survivingFiles crc32c earlier last cut) := by
  have allLogs : (dir.filter fun entry => entry.extension = some "log") = dir := by
    apply List.filter_eq_self.mpr
    intro entry member
    rw [decide_eq_true_eq]
    rcases List.mem_append.mp (isPerm.mem_iff.mp member) with inEarlier | isLast
    · obtain ⟨segment,-,rfl⟩ := List.mem_map.mp inEarlier
      exact segmentFilename_extension ..
    · rw [List.mem_singleton.mp isLast]
      exact segmentFilename_extension ..
  rw [readAll,allLogs,insertionSort_names isPerm (survivingFiles_ascending cut ordered)]

theorem ok_of_toOption {ε α : Type} {result : Except ε α} {value : α}
    (isSome : result.toOption = some value) : result = .ok value := by
  cases result with
  | error error => cases isSome
  | ok found =>
      cases isSome
      rfl

variable (crc32c) in
theorem readFile_cut (startLsn : UInt64) (registryVersion : UInt32) {records : List WalRecord}
    (fits : ∀ rec ∈ records, rec.Fits) (cut : Nat) :
    readFile crc32c (writeHeader startLsn registryVersion ++
        (records.flatMap (WalRecord.bytes crc32c)).take cut) =
      .ok (Incremental.wholeItems (WalRecord.bytes crc32c) records cut) := by
  apply ok_of_toOption
  have reads : ∀ rec ∈ records,
      Incremental.Reads (recordStep crc32c) (WalRecord.bytes crc32c) rec := by
    intro rec member
    exact (fits rec member).reads
  rw [readFile_toOption,Incremental.readAll_take recordStep_nil reads cut
    (by rw [List.length_append]; omega),Incremental.wholeItems_length_take]
  rfl

theorem readFile_whole {segment : Segment} (fits : ∀ rec ∈ segment.records, rec.Fits) :
    readFile crc32c (segment.file crc32c).bytes = .ok segment.records := by
  have whole := readFile_cut crc32c segment.startLsn segment.registryVersion fits
    (segment.records.flatMap (WalRecord.bytes crc32c)).length
  rw [List.take_length,Incremental.wholeItems_all _ (Nat.le_refl _)] at whole
  exact whole

variable {segments : List Segment}

theorem readFiles_append (rest : List DirEntry)
    (fits : ∀ segment ∈ segments, ∀ rec ∈ segment.records, rec.Fits) :
    readFiles crc32c (segments.map (Segment.file crc32c) ++ rest) =
      (readFiles crc32c rest).map (segments.flatMap Segment.records ++ ·) := by
  induction segments with
  | nil =>
      rw [List.map_nil,List.nil_append]
      cases readFiles crc32c rest <;> rfl
  | cons segment others ih =>
      rw [List.map_cons,List.cons_append,readFiles,readFile_whole (fits segment List.mem_cons_self),
        ih fun other member => fits other (List.mem_cons_of_mem _ member)]
      cases readFiles crc32c rest with
      | error error => rfl
      | ok records =>
          simp only [bind,Except.bind,Except.map,pure,Except.pure,List.flatMap_cons,
            List.append_assoc]

theorem readAll_surviving
    (ordered : (earlier ++ [last]).Pairwise fun first second => first.startLsn < second.startLsn)
    (fits : ∀ segment ∈ earlier ++ [last], ∀ rec ∈ segment.records, rec.Fits) :
    ReadsBack crc32c earlier last := by
  intro cut behindHeader dir isPerm
  have inEarlier : ∀ segment ∈ earlier, ∀ rec ∈ segment.records, rec.Fits := by
    intro segment member
    exact fits segment (List.mem_append_left _ member)
  have inLast : ∀ rec ∈ last.records, rec.Fits :=
    fits last (List.mem_append_right _ List.mem_cons_self)
  have isCut : ((last.file crc32c).truncate cut).bytes =
      writeHeader last.startLsn last.registryVersion ++
        (last.records.flatMap (WalRecord.bytes crc32c)).take (cut - headerSize) := by
    simp only [DirEntry.truncate,Segment.file]
    rw [List.take_append,length_writeHeader,List.take_of_length_le]
    rw [length_writeHeader]
    exact behindHeader
  rw [readAll_perm ordered isPerm,survivingFiles,readFiles_append _ inEarlier,readFiles,isCut,
    readFile_cut crc32c _ _ inLast]
  simp only [bind,Except.bind,readFiles,pure,Except.pure,Except.map,List.append_nil]
  rfl

theorem fits_of_read {records found : List WalRecord} {fuel : Nat}
    (enough : (records.flatMap (WalRecord.bytes crc32c)).length < fuel)
    (isRead : Incremental.readAll (recordStep crc32c) fuel
      (records.flatMap (WalRecord.bytes crc32c)) = .ok found)
    {more others : List WalRecord} (agree : found ++ more = records ++ others) :
    ∀ rec ∈ records, rec.Fits := by
  induction records generalizing found fuel with
  | nil =>
      intro rec member
      cases member
  | cons rec rest ih =>
      cases fuel with
      | zero => omega
      | succ fuel =>
          rw [List.flatMap_cons] at isRead enough
          rw [Incremental.readAll] at isRead
          by_cases fits : rec.Fits
          · rw [fits.reads.whole] at isRead
            simp only [List.drop_left] at isRead
            cases later : Incremental.readAll (recordStep crc32c) fuel
                (rest.flatMap (WalRecord.bytes crc32c)) with
            | error error =>
                rw [later] at isRead
                cases isRead
            | ok records =>
                rw [later] at isRead
                cases isRead
                rw [List.cons_append,List.cons_append,List.cons_inj_right] at agree
                rw [List.length_append,WalRecord.length_bytes] at enough
                intro other member
                rcases List.mem_cons.mp member with rfl | inRest
                · exact fits
                · exact ih (by omega) later agree other inRest
          · -- The reading would have stopped with an error or with another record.
            obtain ⟨notItem,notMore⟩ := recordStep_wrapped crc32c fits
              (rest.flatMap (WalRecord.bytes crc32c))
            split at isRead
            · rename_i needsMore
              exact absurd needsMore notMore
            · cases isRead
            · rename_i value size isItem
              cases later : Incremental.readAll (recordStep crc32c) fuel
                  ((rec.bytes crc32c ++ rest.flatMap (WalRecord.bytes crc32c)).drop size) with
              | error error =>
                  rw [later] at isRead
                  cases isRead
              | ok records =>
                  rw [later] at isRead
                  cases isRead
                  rw [List.cons_append,List.cons_append] at agree
                  rw [(List.cons.inj agree).1] at isItem
                  exact absurd isItem (notItem size)

theorem fits_of_readFiles
    (isRead : readFiles crc32c (segments.map (Segment.file crc32c)) =
      .ok (segments.flatMap Segment.records)) :
    ∀ segment ∈ segments, ∀ rec ∈ segment.records, rec.Fits := by
  induction segments with
  | nil =>
      intro segment member
      cases member
  | cons segment rest ih =>
      rw [List.map_cons,readFiles] at isRead
      cases isFile : readFile crc32c (segment.file crc32c).bytes with
      | error error =>
          rw [isFile] at isRead
          cases isRead
      | ok found =>
          rw [isFile] at isRead
          cases later : readFiles crc32c (rest.map (Segment.file crc32c)) with
          | error error =>
              rw [later] at isRead
              cases isRead
          | ok others =>
              rw [later] at isRead
              have agree : found ++ others = segment.records ++ rest.flatMap Segment.records :=
                Except.ok.inj isRead
              have asRead := congrArg Except.toOption isFile
              rw [Segment.file,readFile_toOption] at asRead
              have here : ∀ rec ∈ segment.records, rec.Fits :=
                fits_of_read (by rw [List.length_append]; omega) (ok_of_toOption asRead) agree
              rw [readFile_whole here] at isFile
              cases isFile
              rw [List.append_cancel_left agree] at later
              intro other member
              rcases List.mem_cons.mp member with rfl | inRest
              · exact here
              · exact ih later other inRest

theorem fits_of_readsBack
    (ordered : (earlier ++ [last]).Pairwise fun first second => first.startLsn < second.startLsn)
    (readsBack : ReadsBack crc32c earlier last) :
    ∀ segment ∈ earlier ++ [last], ∀ rec ∈ segment.records, rec.Fits := by
  have notCut : headerSize ≤ headerSize +
      (last.records.flatMap (WalRecord.bytes crc32c)).length := Nat.le_add_right _ _
  have isRead := readsBack _ notCut _ (List.Perm.refl _)
  rw [readAll_perm ordered (List.Perm.refl _),survivingRecords,Nat.add_sub_cancel_left,
    Incremental.wholeItems_all _ (Nat.le_refl _)] at isRead
  have sameFiles : survivingFiles crc32c earlier last (headerSize +
      (last.records.flatMap (WalRecord.bytes crc32c)).length) =
        (earlier ++ [last]).map (Segment.file crc32c) := by
    have noCut : (last.file crc32c).truncate (headerSize +
        (last.records.flatMap (WalRecord.bytes crc32c)).length) = last.file crc32c := by
      simp only [DirEntry.truncate,Segment.file]
      rw [List.take_of_length_le (by rw [List.length_append,length_writeHeader])]
    rw [survivingFiles,noCut,List.map_append,List.map_singleton]
  rw [sameFiles] at isRead
  apply fits_of_readFiles
  rw [isRead,List.flatMap_append,List.flatMap_singleton]

/-- The log reads back what survived exactly when no record is too long for its
length field. -/
theorem readsBack_iff (crc32c : List UInt8 → UInt32) (earlier : List Segment) (last : Segment)
    (ordered : (earlier ++ [last]).Pairwise fun first second => first.startLsn < second.startLsn) :
    ReadsBack crc32c earlier last ↔
      ∀ segment ∈ earlier ++ [last], ∀ rec ∈ segment.records, rec.Fits :=
  ⟨fits_of_readsBack ordered,readAll_surviving ordered⟩

def firstSegment : Segment := ⟨1,1,[⟨1,.registryBump,[1,2]⟩,⟨2,.event,[]⟩]⟩

def secondSegment : Segment := ⟨5,1,[⟨7,.registryBump,[3]⟩,⟨9,.registryBump,[4,5]⟩]⟩

theorem twoSegments_readBack :
    ReadsBack (fun bytes => UInt32.ofNat bytes.length) [firstSegment] secondSegment := by
  apply (readsBack_iff _ [firstSegment] secondSegment (by decide)).mpr
  intro segment member rec inRecords
  rw [List.singleton_append,List.mem_cons,List.mem_singleton] at member
  rcases member with rfl | rfl
  · rw [firstSegment,List.mem_cons,List.mem_singleton] at inRecords
    rcases inRecords with rfl | rfl <;> decide
  · rw [secondSegment,List.mem_cons,List.mem_singleton] at inRecords
    rcases inRecords with rfl | rfl <;> decide

/-- A record whose length field becomes 0. -/
theorem longestRecord_not_readBack : ∃ payload : List UInt8, payload.length = 2 ^ 32 - 13 ∧
    ∀ crc32c, ¬ReadsBack crc32c [] ⟨1,1,[⟨1,.registryBump,payload⟩]⟩ := by
  have isLong : (List.replicate (2 ^ 32 - 13) (0 : UInt8)).length = 2 ^ 32 - 13 :=
    List.length_replicate
  generalize List.replicate (2 ^ 32 - 13) (0 : UInt8) = payload at isLong
  refine ⟨payload,isLong,fun crc32c readsBack => ?_⟩
  have fits := fits_of_readsBack (List.pairwise_singleton _ _) readsBack _
    (List.mem_singleton.mpr rfl) _ (List.mem_singleton.mpr rfl)
  rw [WalRecord.Fits,u32Size] at fits
  simp only [isLong] at fits
  omega

end Directory

end Beava.Persistence
