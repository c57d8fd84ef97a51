/-
The directory of the snapshots.

A snapshot is written, the log that it covers is given up, and the snapshots before
the last few are removed.  The process may end at any moment in between and start
again on the directory as it is then.  Recovery takes the snapshot of the highest
LSN that it can read.
-/

import Mathlib.Data.List.Dedup
import Mathlib.Data.List.Sort
import Beava.Persistence.Snapshot
import Beava.Server.HttpFraming

namespace Beava.Server

open Beava.Persistence

/-- `Path::file_stem`: what is before the last dot, unless the name starts there. -/
def fileStem (name : String) : List Char :=
  let chars := name.toList
  let behind := chars.reverse.takeWhile (· ≠ '.')
  if behind.length + 1 < chars.length then chars.take (chars.length - (behind.length + 1))
  else chars

/-- The LSN of a file in `list_snapshots`. -/
def snapshotLsnOf (name : String) : Option UInt64 :=
  if (DirEntry.mk name []).extension ≠ some snapshotExt then none
  else
    match (fileStem name).dropPrefix? "snapshot-".toList with
    | none => none
    | some hex =>
        match usizeFromStrRadix 16 hex with
        | .error _ => none
        | .ok lsn => some (UInt64.ofNat lsn)

section Names

theorem toDigit_hexDigit {value : Nat} (small : value < 16) :
    toDigit 16 (Persistence.hexDigit value) = some value := by
  have all : ∀ value < 16, toDigit 16 (Persistence.hexDigit value) = some value := by decide
  exact all value small

theorem digitsValue_hexDigits {width value : Nat} (fits : value < 16 ^ width)
    (inRange : width ≤ 16) (rest : List Char) :
    digitsValue 16 0 (hexDigits width value ++ rest) = digitsValue 16 value rest := by
  induction width generalizing value rest with
  | zero =>
      have isZero : value = 0 := by simpa using fits
      rw [isZero]
      rfl
  | succ width ih =>
      have high : value / 16 < 16 ^ width := by
        rw [Nat.pow_succ] at fits
        omega
      have room : value / 16 * 16 + value % 16 < 2 ^ 64 := by
        have bound : 16 ^ (width + 1) ≤ 16 ^ 16 := Nat.pow_le_pow_right (by decide) inRange
        have sameBound : (16 : Nat) ^ 16 = 2 ^ 64 := by decide
        omega
      rw [hexDigits,List.append_assoc,ih high (by omega),List.singleton_append,digitsValue,
        toDigit_hexDigit (Nat.mod_lt _ (by decide))]
      simp only
      rw [if_neg (Nat.not_le.mpr room),Nat.div_add_mod']

theorem usizeFromStrRadix_hexDigits (lsn : UInt64) :
    usizeFromStrRadix 16 (hexDigits 16 lsn.toNat) = .ok lsn.toNat := by
  have fits : lsn.toNat < 16 ^ 16 := by
    have := lsn.toNat_lt
    omega
  have value := digitsValue_hexDigits fits (Nat.le_refl 16) []
  rw [List.append_nil] at value
  have noSign : ∀ rest, hexDigits 16 lsn.toNat ≠ '+' :: rest := by
    intro rest isSign
    rw [isSign,digitsValue] at value
    cases value
  unfold usizeFromStrRadix
  split
  · rename_i isNil
    have length := length_hexDigits 16 lsn.toNat
    rw [isNil] at length
    cases length
  · rename_i isSign
    exact absurd isSign (noSign _)
  · rename_i isSign
    exact absurd isSign (noSign _)
  · exact value

theorem snapshotPath_parts (lsn : UInt64) (extension : String) (noDot : '.' ∉ extension.toList) :
    fileStem (snapshotPath lsn extension) = "snapshot-".toList ++ hexDigits 16 lsn.toNat ∧
      (DirEntry.mk (snapshotPath lsn extension) []).extension = some extension := by
  have chars : (snapshotPath lsn extension).toList =
      ("snapshot-".toList ++ hexDigits 16 lsn.toNat) ++ '.' :: extension.toList := by
    unfold snapshotPath
    generalize "snapshot-".toList = front
    rw [String.toList_append,String.toList_ofList,List.append_assoc,List.singleton_append]
  have behind : ((snapshotPath lsn extension).toList.reverse.takeWhile (· ≠ '.')) =
      extension.toList.reverse := by
    rw [chars,List.reverse_append,List.reverse_cons,List.append_assoc,
      List.takeWhile_append_of_pos]
    · simp
    · intro ch isChar
      simp only [decide_eq_true_eq]
      rintro rfl
      exact noDot (List.mem_reverse.mp isChar)
  obtain ⟨stem,isStem⟩ : ∃ stem, "snapshot-".toList ++ hexDigits 16 lsn.toNat = stem := ⟨_,rfl⟩
  have someStem : 0 < stem.length := by
    rw [← isStem,List.length_append,length_hexDigits]
    omega
  rw [isStem] at chars ⊢
  have length : (snapshotPath lsn extension).toList.length =
      stem.length + (extension.toList.length + 1) := by
    rw [chars,List.length_append,List.length_cons]
  have inside : extension.toList.reverse.length + 1 <
      (snapshotPath lsn extension).toList.length := by
    rw [length,List.length_reverse]
    omega
  constructor
  · unfold fileStem
    simp only [behind]
    rw [if_pos inside,length,List.length_reverse,Nat.add_sub_cancel,chars,List.take_left]
  · unfold DirEntry.extension
    simp only [behind]
    rw [if_pos inside,List.reverse_reverse,String.ofList_toList]

theorem snapshotLsnOf_snapshotPath (lsn : UInt64) :
    snapshotLsnOf (snapshotPath lsn snapshotExt) = some lsn := by
  obtain ⟨stem,extension⟩ := snapshotPath_parts lsn snapshotExt (by decide)
  unfold snapshotLsnOf
  rw [extension,if_neg (not_not_intro rfl),stem]
  have dropped : ("snapshot-".toList ++ hexDigits 16 lsn.toNat).dropPrefix? "snapshot-".toList =
      some (hexDigits 16 lsn.toNat) :=
    List.dropPrefix?_eq_some_iff.mpr ⟨_,rfl,BEq.rfl⟩
  rw [dropped]
  simp only [usizeFromStrRadix_hexDigits,UInt64.ofNat_toNat]

theorem snapshotLsnOf_tmp (lsn : UInt64) : snapshotLsnOf (snapshotPath lsn "tmp") = none := by
  obtain ⟨-,extension⟩ := snapshotPath_parts lsn "tmp" (by decide)
  unfold snapshotLsnOf
  rw [extension,if_pos (by decide)]

end Names

/-! ### Directories -/

structure ListedDir extends SnapshotDir where
  names : List String
  listed : ∀ name, name ∈ names ↔ files name ≠ none
  nodup : names.Nodup

theorem mem_present {dir : SnapshotDir} {names : List String}
    (covers : ∀ name, dir.files name ≠ none → name ∈ names) (name : String) :
    name ∈ names.dedup.filter (fun name => (dir.files name).isSome) ↔ dir.files name ≠ none := by
  rw [List.mem_filter,List.mem_dedup,Option.isSome_iff_ne_none]
  exact ⟨And.right,fun isFile => ⟨covers name isFile,isFile⟩⟩

theorem nodup_present (dir : SnapshotDir) (names : List String) :
    (names.dedup.filter fun name => (dir.files name).isSome).Nodup :=
  (List.nodup_dedup names).filter _

def ListedDir.relist (dir : SnapshotDir) (names : List String)
    (covers : ∀ name, dir.files name ≠ none → name ∈ names) : ListedDir where
  toSnapshotDir := dir
  names := names.dedup.filter fun name => (dir.files name).isSome
  listed := mem_present covers
  nodup := nodup_present dir names

theorem ListedDir.mem_remaining (dir : ListedDir) (path name : String) :
    name ∈ dir.names.filter (fun name => name ≠ path) ↔
      (if name = path then none else dir.files name) ≠ none := by
  rw [List.mem_filter,dir.listed name]
  by_cases isPath : name = path <;> simp [isPath]

theorem ListedDir.nodup_remaining (dir : ListedDir) (path : String) :
    (dir.names.filter fun name => name ≠ path).Nodup :=
  dir.nodup.filter _

/-- `fs::remove_file`. -/
def ListedDir.remove (dir : ListedDir) (path : String) : ListedDir where
  files := fun name => if name = path then none else dir.files name
  names := dir.names.filter fun name => name ≠ path
  listed := dir.mem_remaining path
  nodup := dir.nodup_remaining path

/-- The order in which `read_dir` brings the entries. -/
structure ReadDir where
  entries : List String → List String
  isPerm : ∀ names, (entries names).Perm names

/-- `list_snapshots`, where reading the directory does not fail. -/
def listSnapshots (readDir : ReadDir) (dir : ListedDir) : List (UInt64 × String) :=
  ((readDir.entries dir.names).filterMap fun name =>
    (snapshotLsnOf name).map fun lsn => (lsn,name)).insertionSort
      fun first second => second.1 ≤ first.1

/-- The loop of `prune_old_snapshots`; `removes` says where `fs::remove_file` fails. -/
def removeAll (removes : String → Option IoErrorKind) :
    List (UInt64 × String) → Nat → ListedDir → Except IoErrorKind Nat × ListedDir
  | [], removed, dir => (.ok removed,dir)
  | (_,path) :: rest, removed, dir =>
      match removes path with
      | none => removeAll removes rest (removed + 1) (dir.remove path)
      | some .notFound => removeAll removes rest removed dir
      | some kind => (.error kind,dir)

def pruneOldSnapshots (readDir : ReadDir) (removes : String → Option IoErrorKind)
    (dir : ListedDir) (keep : Nat) : Except IoErrorKind Nat × ListedDir :=
  removeAll removes ((listSnapshots readDir dir).drop keep) 0 dir

section Write

variable (crc32c : List UInt8 → UInt32) (io : WriteIo) (nowMs : Int64) (dir : SnapshotDir)
  (snapshotLsn registryVersion : UInt64) (body : List UInt8)

theorem writeWithStats_other {name : String} (notTmp : name ≠ snapshotPath snapshotLsn "tmp")
    (notFinal : name ≠ snapshotPath snapshotLsn snapshotExt) :
    (writeWithStats crc32c io nowMs dir snapshotLsn registryVersion body).2.files name =
      dir.files name := by
  cases isWritten : writeWithStats crc32c io nowMs dir snapshotLsn registryVersion body with
  | mk result after =>
      cases result with
      | error failure => exact writeWithStats_error crc32c isWritten notTmp
      | ok stats =>
          obtain ⟨isPath,-,others⟩ := writeWithStats_ok crc32c isWritten
          exact others name notTmp (isPath ▸ notFinal)

theorem written_covered (dir : ListedDir) (name : String)
    (isFile : (writeWithStats crc32c io nowMs dir.toSnapshotDir snapshotLsn registryVersion
      body).2.files name ≠ none) :
    name ∈ dir.names ++
      [snapshotPath snapshotLsn "tmp",snapshotPath snapshotLsn snapshotExt] := by
  by_cases notTmp : name = snapshotPath snapshotLsn "tmp"
  · simp [notTmp]
  by_cases notFinal : name = snapshotPath snapshotLsn snapshotExt
  · simp [notFinal]
  rw [writeWithStats_other crc32c io nowMs dir.toSnapshotDir snapshotLsn registryVersion body
    notTmp notFinal] at isFile
  exact List.mem_append_left _ ((dir.listed name).mpr isFile)

/-- `SnapshotWriter::write_with_stats` on a directory with its names. -/
def ListedDir.write (dir : ListedDir) :
    Except SnapshotFailure SnapshotWriteStats × ListedDir :=
  let written :=
    writeWithStats crc32c io nowMs dir.toSnapshotDir snapshotLsn registryVersion body
  (written.1,.relist written.2
    (dir.names ++ [snapshotPath snapshotLsn "tmp",snapshotPath snapshotLsn snapshotExt])
    (written_covered crc32c io nowMs snapshotLsn registryVersion body dir))

end Write

/-- Where the process ends during a snapshot, when the file is already there.  When the segments
of the other log cannot be truncated, the call ends there as well. -/
inductive CrashPoint where
  | beforeTruncate
  | beforePrune
  deriving DecidableEq, Repr

/-- What a call of `do_snapshot` finds: the capture, the outcomes of its system calls and where
the process ends.  A process that ends during the write leaves what a failed write leaves. -/
structure SnapshotCall (β : Type) where
  snapshotLsn : UInt64
  registryVersion : UInt64
  body : β
  nowMs : Int64
  io : WriteIo
  crash : Option CrashPoint
  readDir : ReadDir
  removes : String → Option IoErrorKind

structure SnapshotStore (β : Type) where
  dir : ListedDir
  committed : List (UInt64 × β)
  /-- `requested_lsn` of the log: records up to it may be given up. -/
  requestedLsn : UInt64

section Snapshots

variable {β : Type} (crc32c : List UInt8 → UInt32) (encode : β → Option (List UInt8))
  (retain : Nat)

/-- `do_snapshot`. -/
def doSnapshot (store : SnapshotStore β) (call : SnapshotCall β) : SnapshotStore β :=
  match encode call.body with
  | none => store
  | some encoded =>
      let written := store.dir.write crc32c call.io call.nowMs call.snapshotLsn
        call.registryVersion encoded
      match written.1 with
      | .error _ => { store with dir := written.2 }
      | .ok _ =>
          let committed := store.committed ++ [(call.snapshotLsn,call.body)]
          if call.crash = some .beforeTruncate then { store with dir := written.2, committed }
          else
            let requestedLsn :=
              if 0 < call.snapshotLsn then max store.requestedLsn call.snapshotLsn
              else store.requestedLsn
            if call.crash = some .beforePrune then ⟨written.2,committed,requestedLsn⟩
            else
              ⟨(pruneOldSnapshots call.readDir call.removes written.2 retain).2,committed,
                requestedLsn⟩

variable (decode : List UInt8 → Option β) (events : String → List ReadEvent)

/-- The loop of `load_snapshot_if_any`: the first snapshot that can be opened and decoded.  A
panic of the reader is no error that it could pass. -/
def loadFirst (dir : SnapshotDir) :
    List (UInt64 × String) → Except SnapshotFailure (Option (UInt64 × β))
  | [] => .ok none
  | (lsn,path) :: rest =>
      match openSnapshot crc32c (events path) dir path with
      | .error .capacityOverflow => .error .capacityOverflow
      | .error _ => loadFirst dir rest
      | .ok (_,bytes) =>
          match decode bytes with
          | none => loadFirst dir rest
          | some body => .ok (some (lsn,body))

def loadSnapshotIfAny (readDir : ReadDir) (dir : ListedDir) :
    Except SnapshotFailure (Option (UInt64 × β)) :=
  loadFirst crc32c decode events dir.toSnapshotDir (listSnapshots readDir dir)

end Snapshots

section Listing

variable (readDir : ReadDir) (dir : ListedDir)
variable {lsn : UInt64} {path : String}

theorem mem_listSnapshots :
    (lsn,path) ∈ listSnapshots readDir dir ↔
      dir.files path ≠ none ∧ snapshotLsnOf path = some lsn := by
  unfold listSnapshots
  rw [List.mem_insertionSort,List.mem_filterMap]
  constructor
  · rintro ⟨name,isEntry,isPair⟩
    obtain ⟨found,isLsn,samePair⟩ := Option.map_eq_some_iff.mp isPair
    cases samePair
    exact ⟨(dir.listed _).mp ((readDir.isPerm _).mem_iff.mp isEntry),isLsn⟩
  · rintro ⟨isFile,isLsn⟩
    refine ⟨path,(readDir.isPerm _).mem_iff.mpr ((dir.listed path).mpr isFile),?_⟩
    rw [isLsn]
    rfl

theorem sorted_listSnapshots :
    (listSnapshots readDir dir).Pairwise fun first second => second.1 ≤ first.1 := by
  have total : Std.Total fun first second : UInt64 × String => second.1 ≤ first.1 :=
    ⟨fun first second => UInt64.le_total second.1 first.1⟩
  have trans : IsTrans (UInt64 × String) fun first second => second.1 ≤ first.1 :=
    ⟨fun _ _ _ second first => UInt64.le_trans first second⟩
  exact List.pairwise_insertionSort _ _

theorem nodup_paths : ((listSnapshots readDir dir).map Prod.snd).Nodup := by
  have perm := (List.perm_insertionSort (fun first second : UInt64 × String => second.1 ≤ first.1)
    ((readDir.entries dir.names).filterMap fun name =>
      (snapshotLsnOf name).map fun lsn => (lsn,name))).map Prod.snd
  refine perm.nodup_iff.mpr ?_
  rw [List.map_filterMap]
  have sublist : ((readDir.entries dir.names).filterMap fun name =>
      ((snapshotLsnOf name).map fun lsn => (lsn,name)).map Prod.snd).Sublist
        (readDir.entries dir.names) := by
    generalize readDir.entries dir.names = names
    induction names with
    | nil => exact .slnil
    | cons name rest ih =>
        cases isLsn : snapshotLsnOf name with
        | none =>
            rw [List.filterMap_cons_none (by rw [isLsn]; rfl)]
            exact ih.cons name
        | some lsn =>
            rw [List.filterMap_cons_some (b := name) (by rw [isLsn]; rfl)]
            exact ih.cons_cons name
  exact sublist.nodup ((readDir.isPerm _).nodup_iff.mpr dir.nodup)

theorem listSnapshots_head (isFile : dir.files path ≠ none)
    (isLsn : snapshotLsnOf path = some lsn)
    (highest : ∀ name other, dir.files name ≠ none → snapshotLsnOf name = some other →
      other ≤ lsn ∧ (other = lsn → name = path)) :
    ∃ rest, listSnapshots readDir dir = (lsn,path) :: rest ∧ ∀ entry ∈ rest, entry.2 ≠ path := by
  have member := (mem_listSnapshots readDir dir).mpr ⟨isFile,isLsn⟩
  have sorted := sorted_listSnapshots readDir dir
  have onlyOnce := nodup_paths readDir dir
  cases isList : listSnapshots readDir dir with
  | nil =>
      rw [isList] at member
      cases member
  | cons first rest =>
      have isFirst : first ∈ listSnapshots readDir dir := by
        rw [isList]
        exact List.mem_cons_self
      obtain ⟨firstIsFile,firstLsn⟩ := (mem_listSnapshots readDir dir).mp isFirst
      obtain ⟨atMost,samePath⟩ := highest _ _ firstIsFile firstLsn
      have atLeast : lsn ≤ first.1 := by
        rw [isList,List.pairwise_cons] at sorted
        rw [isList] at member
        rcases List.mem_cons.mp member with same | later
        · exact same ▸ UInt64.le_refl lsn
        · exact sorted.1 _ later
      have sameLsn : first.1 = lsn := UInt64.le_antisymm atMost atLeast
      refine ⟨rest,?_,?_⟩
      · rw [← sameLsn,← samePath sameLsn]
      · rw [isList,List.map_cons,List.nodup_cons] at onlyOnce
        intro entry later same
        refine onlyOnce.1 ?_
        rw [samePath sameLsn,← same]
        exact List.mem_map_of_mem later

end Listing

section Newest

variable {β : Type}

def newest (committed : List (UInt64 × β)) : Option (UInt64 × β) :=
  committed.foldl (fun best entry =>
    match best with
    | none => some entry
    | some top => if top.1 ≤ entry.1 then some entry else some top) none

theorem newest_concat (committed : List (UInt64 × β)) (entry : UInt64 × β) :
    newest (committed ++ [entry]) =
      match newest committed with
      | none => some entry
      | some top => if top.1 ≤ entry.1 then some entry else some top := by
  rw [newest,List.foldl_concat]
  rfl

theorem newest_concat_cases (committed : List (UInt64 × β)) (entry : UInt64 × β) :
    (newest (committed ++ [entry]) = some entry ∧
        ∀ top, newest committed = some top → top.1 ≤ entry.1) ∨
      ∃ top, newest committed = some top ∧ entry.1 < top.1 ∧
        newest (committed ++ [entry]) = some top := by
  rw [newest_concat]
  cases isNewest : newest committed with
  | none => exact .inl ⟨rfl,fun top isTop => by cases isTop⟩
  | some top =>
      simp only
      by_cases higher : top.1 ≤ entry.1
      · refine .inl ⟨if_pos higher,fun other isTop => ?_⟩
        cases isTop
        exact higher
      · exact .inr ⟨top,rfl,UInt64.not_le.mp higher,if_neg higher⟩

theorem newest_concat_le (committed : List (UInt64 × β)) (entry : UInt64 × β) :
    ∃ top, newest (committed ++ [entry]) = some top ∧ entry.1 ≤ top.1 ∧
      ∀ before, newest committed = some before → before.1 ≤ top.1 := by
  rcases newest_concat_cases committed entry with ⟨isNewest,higher⟩ | ⟨top,isTop,less,isNewest⟩
  · exact ⟨entry,isNewest,UInt64.le_refl _,higher⟩
  · refine ⟨top,isNewest,UInt64.le_of_lt less,fun before isBefore => ?_⟩
    rw [isTop] at isBefore
    cases isBefore
    exact UInt64.le_refl _

end Newest

/-! ### What every call keeps -/

section Kept

variable {β : Type} (crc32c : List UInt8 → UInt32) (encode : β → Option (List UInt8))
variable {retain : Nat}

def HoldsBody (body : β) (file : List UInt8) : Prop :=
  ∃ (header : SnapshotHeader) (encoded : List UInt8), encode body = some encoded ∧
    header.formatVersion = snapshotFormatVersion ∧ header.bodyLen.toNat = encoded.length ∧
    header.bodyCrc32c = crc32c encoded ∧ file = header.encode crc32c ++ encoded

/-- The newest snapshot is a whole file, and no other file stands before it. -/
structure SnapshotStore.Kept (store : SnapshotStore β) : Prop where
  below : ∀ name lsn, store.dir.files name ≠ none → snapshotLsnOf name = some lsn →
    name = snapshotPath lsn snapshotExt ∧ ∃ top, newest store.committed = some top ∧ lsn ≤ top.1
  whole : ∀ top, newest store.committed = some top →
    ∃ file, store.dir.files (snapshotPath top.1 snapshotExt) = some file ∧
      HoldsBody crc32c encode top.2 file
  covered : store.requestedLsn ≤ ((newest store.committed).map Prod.fst).getD 0

variable {crc32c encode} {store : SnapshotStore β}

theorem snapshotPath_inj {first second : UInt64}
    (same : snapshotPath first snapshotExt = snapshotPath second snapshotExt) : first = second := by
  have sameLsn := snapshotLsnOf_snapshotPath first
  rw [same,snapshotLsnOf_snapshotPath] at sameLsn
  exact (Option.some.inj sameLsn).symm

theorem SnapshotStore.Kept.head (kept : store.Kept crc32c encode) (readDir : ReadDir)
    {top : UInt64 × β} (isNewest : newest store.committed = some top) :
    ∃ rest, listSnapshots readDir store.dir = (top.1,snapshotPath top.1 snapshotExt) :: rest ∧
      ∀ entry ∈ rest, entry.2 ≠ snapshotPath top.1 snapshotExt := by
  obtain ⟨file,isFile,-⟩ := kept.whole top isNewest
  have present : store.dir.files (snapshotPath top.1 snapshotExt) ≠ none := by
    rw [isFile]
    exact Option.some_ne_none file
  refine listSnapshots_head readDir store.dir present (snapshotLsnOf_snapshotPath top.1) ?_
  intro name other otherFile otherLsn
  obtain ⟨isPath,found,isFound,atMost⟩ := kept.below name other otherFile otherLsn
  rw [isNewest] at isFound
  cases isFound
  exact ⟨atMost,fun sameLsn => sameLsn ▸ isPath⟩

variable {dir : ListedDir}

theorem SnapshotStore.Kept.of_fewer (kept : store.Kept crc32c encode)
    (fewer : ∀ name, dir.files name ≠ none → store.dir.files name ≠ none)
    (same : ∀ top, newest store.committed = some top →
      dir.files (snapshotPath top.1 snapshotExt) =
        store.dir.files (snapshotPath top.1 snapshotExt)) :
    SnapshotStore.Kept crc32c encode { store with dir } where
  below name lsn isFile isLsn := kept.below name lsn (fewer name isFile) isLsn
  whole top isNewest := by
    rw [show ({ store with dir } : SnapshotStore β).dir = dir from rfl,same top isNewest]
    exact kept.whole top isNewest
  covered := kept.covered

theorem removeAll_files (removes : String → Option IoErrorKind) (entries : List (UInt64 × String))
    (removed : Nat) (dir : ListedDir) :
    (∀ name, (removeAll removes entries removed dir).2.files name ≠ none →
        dir.files name ≠ none) ∧
      ∀ name, (∀ entry ∈ entries, entry.2 ≠ name) →
        (removeAll removes entries removed dir).2.files name = dir.files name := by
  induction entries generalizing removed dir with
  | nil => exact ⟨fun name isFile => isFile,fun name absent => rfl⟩
  | cons entry rest ih =>
      obtain ⟨lsn,path⟩ := entry
      unfold removeAll
      cases outcome : removes path with
      | none =>
          obtain ⟨fewer,same⟩ := ih (removed + 1) (dir.remove path)
          refine ⟨fun name isFile => ?_,fun name absent => ?_⟩
          · have remains := fewer name isFile
            simp only [ListedDir.remove,ne_eq,ite_eq_left_iff,not_forall] at remains
            exact remains.2
          · rw [same name fun entry later => absent entry (.tail _ later)]
            exact if_neg (absent (lsn,path) List.mem_cons_self).symm
      | some kind =>
          obtain ⟨fewer,same⟩ := ih removed dir
          cases kind with
          | notFound => exact ⟨fewer,fun name absent => same name fun entry later =>
              absent entry (.tail _ later)⟩
          | unexpectedEof => exact ⟨fun name isFile => isFile,fun name absent => rfl⟩
          | other code => exact ⟨fun name isFile => isFile,fun name absent => rfl⟩

theorem SnapshotStore.Kept.prune (kept : store.Kept crc32c encode) (readDir : ReadDir)
    (removes : String → Option IoErrorKind) (keeps : 0 < retain) :
    SnapshotStore.Kept crc32c encode
      { store with dir := (pruneOldSnapshots readDir removes store.dir retain).2 } := by
  unfold pruneOldSnapshots
  obtain ⟨fewer,same⟩ :=
    removeAll_files removes ((listSnapshots readDir store.dir).drop retain) 0 store.dir
  refine kept.of_fewer fewer fun top isNewest => same _ fun entry dropped => ?_
  obtain ⟨rest,isList,others⟩ := kept.head readDir isNewest
  obtain ⟨less,isSucc⟩ := Nat.exists_eq_succ_of_ne_zero (Nat.ne_of_gt keeps)
  rw [isList,isSucc,List.drop_succ_cons] at dropped
  exact others entry (List.mem_of_mem_drop dropped)

theorem ne_tmp {name : String} {lsn : UInt64} (isLsn : snapshotLsnOf name = some lsn)
    (other : UInt64) : name ≠ snapshotPath other "tmp" := by
  rintro rfl
  rw [snapshotLsnOf_tmp] at isLsn
  cases isLsn

section Write

variable {io : WriteIo} {nowMs : Int64} {snapshotLsn registryVersion : UInt64}
  {encoded : List UInt8} {after : ListedDir}

theorem SnapshotStore.Kept.writeFailed (kept : store.Kept crc32c encode)
    {failure : SnapshotFailure}
    (failed : store.dir.write crc32c io nowMs snapshotLsn registryVersion encoded =
      (.error failure,after)) :
    SnapshotStore.Kept crc32c encode { store with dir := after } := by
  obtain ⟨isResult,isAfter⟩ := Prod.mk.inj failed
  have unchanged : ∀ name, name ≠ snapshotPath snapshotLsn "tmp" →
      after.files name = store.dir.files name := by
    intro name notTmp
    rw [← isAfter]
    exact writeWithStats_error crc32c (Prod.ext isResult rfl) notTmp
  constructor
  · intro name lsn isFile isLsn
    refine kept.below name lsn ?_ isLsn
    rw [← unchanged name (ne_tmp isLsn snapshotLsn)]
    exact isFile
  · intro top isNewest
    obtain ⟨file,isFile,holds⟩ := kept.whole top isNewest
    refine ⟨file,?_,holds⟩
    rw [← isFile]
    exact unchanged _ (ne_tmp (snapshotLsnOf_snapshotPath top.1) snapshotLsn)
  · exact kept.covered

theorem SnapshotStore.Kept.written (kept : store.Kept crc32c encode) {body : β}
    (isEncoded : encode body = some encoded) (fits : encoded.length < 2 ^ 63)
    {stats : SnapshotWriteStats}
    (written : store.dir.write crc32c io nowMs snapshotLsn registryVersion encoded =
      (.ok stats,after)) {requestedLsn : UInt64}
    (requested : requestedLsn = store.requestedLsn ∨
      requestedLsn = max store.requestedLsn snapshotLsn) :
    SnapshotStore.Kept crc32c encode
      ⟨after,store.committed ++ [(snapshotLsn,body)],requestedLsn⟩ := by
  obtain ⟨isResult,isAfter⟩ := Prod.mk.inj written
  obtain ⟨isPath,isFinal,others⟩ := writeWithStats_ok crc32c (Prod.ext isResult rfl)
  rw [isPath] at isFinal others
  have unchanged : ∀ name, name ≠ snapshotPath snapshotLsn "tmp" →
      name ≠ snapshotPath snapshotLsn snapshotExt → after.files name = store.dir.files name := by
    intro name notTmp notFinal
    rw [← isAfter]
    exact others name notTmp notFinal
  obtain ⟨top,isNewest,atLeast,grows⟩ :=
    newest_concat_le store.committed (snapshotLsn,body)
  constructor
  · intro name lsn isFile isLsn
    by_cases isNew : name = snapshotPath snapshotLsn snapshotExt
    · rw [isNew,snapshotLsnOf_snapshotPath] at isLsn
      cases isLsn
      exact ⟨isNew,top,isNewest,atLeast⟩
    · have wasFile : store.dir.files name ≠ none := by
        rw [← unchanged name (ne_tmp isLsn snapshotLsn) isNew]
        exact isFile
      obtain ⟨isPath,before,isBefore,atMost⟩ := kept.below name lsn wasFile isLsn
      exact ⟨isPath,top,isNewest,UInt64.le_trans atMost (grows before isBefore)⟩
  · intro found isFound
    rcases newest_concat_cases store.committed (snapshotLsn,body) with
      ⟨isEntry,-⟩ | ⟨before,isBefore,less,isTop⟩
    · rw [isEntry] at isFound
      cases isFound
      refine ⟨_,?_,writtenHeader crc32c nowMs snapshotLsn registryVersion encoded,encoded,
        isEncoded,rfl,UInt64.toNat_ofNat_of_lt' (fits.trans (by decide)),rfl,rfl⟩
      rw [← isFinal,← isAfter]
      rfl
    · rw [isTop] at isFound
      have isOld := isBefore.trans isFound
      obtain ⟨file,isFile,holds⟩ := kept.whole found isOld
      have notNew : snapshotPath found.1 snapshotExt ≠ snapshotPath snapshotLsn snapshotExt := by
        intro same
        rw [Option.some.inj isFound,snapshotPath_inj same] at less
        exact UInt64.lt_irrefl _ less
      have stays := unchanged _ (ne_tmp (snapshotLsnOf_snapshotPath found.1) snapshotLsn) notNew
      exact ⟨file,stays.trans isFile,holds⟩
  · have wasCovered : store.requestedLsn ≤ top.1 := by
      refine UInt64.le_trans kept.covered ?_
      cases isBefore : newest store.committed with
      | none => exact UInt64.zero_le
      | some before => exact grows before isBefore
    simp only [isNewest,Option.map_some,Option.getD_some]
    rcases requested with rfl | rfl
    · exact wasCovered
    · change (if store.requestedLsn ≤ snapshotLsn then snapshotLsn else store.requestedLsn) ≤ top.1
      split
      · exact atLeast
      · exact wasCovered

end Write

/-- A call of `do_snapshot` keeps the newest snapshot, wherever it fails or the process ends. -/
theorem SnapshotStore.Kept.doSnapshot (kept : store.Kept crc32c encode) (keeps : 0 < retain)
    (call : SnapshotCall β)
    (fits : ∀ encoded, encode call.body = some encoded → encoded.length < 2 ^ 63) :
    (Beava.Server.doSnapshot crc32c encode retain store call).Kept crc32c encode := by
  unfold Beava.Server.doSnapshot
  cases isEncoded : encode call.body with
  | none => exact kept
  | some encoded =>
      simp only
      cases isWritten : store.dir.write crc32c call.io call.nowMs call.snapshotLsn
          call.registryVersion encoded with
      | mk result after =>
          cases result with
          | error failure => exact kept.writeFailed isWritten
          | ok stats =>
              simp only
              split
              · exact kept.written isEncoded (fits encoded isEncoded) isWritten (.inl rfl)
              · have requested : (if 0 < call.snapshotLsn then
                    max store.requestedLsn call.snapshotLsn else store.requestedLsn) =
                      store.requestedLsn ∨ (if 0 < call.snapshotLsn then
                        max store.requestedLsn call.snapshotLsn else store.requestedLsn) =
                          max store.requestedLsn call.snapshotLsn := by
                  split
                  · exact .inr rfl
                  · exact .inl rfl
                have keptAfter :=
                  kept.written isEncoded (fits encoded isEncoded) isWritten requested
                split
                · exact keptAfter
                · exact keptAfter.prune call.readDir call.removes keeps

theorem SnapshotStore.Kept.start (fresh : ∀ name ∈ dir.names, snapshotLsnOf name = none) :
    SnapshotStore.Kept crc32c encode ⟨dir,[],0⟩ where
  below name lsn isFile isLsn := by
    rw [fresh name ((dir.listed name).mpr isFile)] at isLsn
    cases isLsn
  whole top isNewest := by cases isNewest
  covered := UInt64.le_refl 0

theorem SnapshotStore.Kept.run (kept : store.Kept crc32c encode) (keeps : 0 < retain)
    (fits : ∀ body encoded, encode body = some encoded → encoded.length < 2 ^ 63)
    (calls : List (SnapshotCall β)) :
    (calls.foldl (Beava.Server.doSnapshot crc32c encode retain) store).Kept crc32c encode := by
  induction calls generalizing store with
  | nil => exact kept
  | cons call rest ih => exact ih (kept.doSnapshot keeps call (fits call.body))

variable {decode : List UInt8 → Option β} {events : String → List ReadEvent}

theorem SnapshotStore.Kept.load (kept : store.Kept crc32c encode)
    (roundTrip : ∀ body encoded, encode body = some encoded → decode encoded = some body)
    (fits : ∀ body encoded, encode body = some encoded → encoded.length < 2 ^ 63)
    (calm : ∀ path, Calm (events path)) (readDir : ReadDir) :
    loadSnapshotIfAny crc32c decode events readDir store.dir = .ok (newest store.committed) := by
  unfold loadSnapshotIfAny
  cases isNewest : newest store.committed with
  | none =>
      have isNil : listSnapshots readDir store.dir = [] := by
        refine List.eq_nil_iff_forall_not_mem.mpr fun entry member => ?_
        obtain ⟨isFile,isLsn⟩ := (mem_listSnapshots readDir store.dir).mp member
        obtain ⟨-,top,isTop,-⟩ := kept.below _ _ isFile isLsn
        rw [isNewest] at isTop
        cases isTop
      rw [isNil,loadFirst]
  | some top =>
      obtain ⟨rest,isList,-⟩ := kept.head readDir isNewest
      obtain ⟨file,isFile,header,encoded,isEncoded,current,isLength,isCrc,isWhole⟩ :=
        kept.whole top isNewest
      have opened := openFile_whole (calm (snapshotPath top.1 snapshotExt)) current isLength
        (fits _ _ isEncoded) isCrc
      rw [isList,loadFirst,openSnapshot,isFile,isWhole]
      simp only [opened,roundTrip _ _ isEncoded]

/-- However snapshots are taken, fail and are cut short, recovery loads the last one of the
highest LSN that was ever committed, and no more of the log has been given up than that one
covers. -/
theorem newest_survives
    (roundTrip : ∀ body encoded, encode body = some encoded → decode encoded = some body)
    (fits : ∀ body encoded, encode body = some encoded → encoded.length < 2 ^ 63)
    {retain : Nat} (keeps : 0 < retain) {dir : ListedDir}
    (fresh : ∀ name ∈ dir.names, snapshotLsnOf name = none) (calls : List (SnapshotCall β))
    (readDir : ReadDir) (calm : ∀ path, Calm (events path)) :
    let store := calls.foldl (Beava.Server.doSnapshot crc32c encode retain) ⟨dir,[],0⟩
    loadSnapshotIfAny crc32c decode events readDir store.dir = .ok (newest store.committed) ∧
      store.requestedLsn ≤ ((newest store.committed).map Prod.fst).getD 0 :=
  have kept := (SnapshotStore.Kept.start fresh).run keeps fits calls
  ⟨kept.load roundTrip fits calm readDir,kept.covered⟩

end Kept

theorem mem_no_names (name : String) :
    name ∈ ([] : List String) ↔ (none : Option (List UInt8)) ≠ none := by
  simp

def emptyDir : ListedDir := ⟨⟨fun _ => none⟩,[],mem_no_names,List.nodup_nil⟩

def encodeShort (body : List UInt8) : Option (List UInt8) :=
  if body.length < 100 then some body else none

theorem encodeShort_eq_some {body encoded : List UInt8}
    (isEncoded : encodeShort body = some encoded) : encoded = body ∧ body.length < 100 := by
  unfold encodeShort at isEncoded
  split at isEncoded
  · rename_i short
    exact ⟨(Option.some.inj isEncoded).symm,short⟩
  · cases isEncoded

def smoothIo : WriteIo := ⟨fun _ => none,0⟩

def brokenIo : WriteIo where
  fails
    | .writeBody => some (.other 28)
    | _ => none
  reached := 1

def backwards : ReadDir := ⟨List.reverse,List.reverse_perm⟩

/-- A snapshot, one that the disk has no room for, and one after which the process ends before it
prunes. -/
def crashedCalls : List (SnapshotCall (List UInt8)) :=
  [⟨5,1,[1],0,smoothIo,none,backwards,fun _ => none⟩,
    ⟨9,1,[2,2],0,brokenIo,none,backwards,fun _ => none⟩,
    ⟨12,1,[3],0,smoothIo,some .beforePrune,backwards,fun _ => none⟩]

theorem newest_survives_crashes :
    loadSnapshotIfAny byteSum some (fun _ => [.interrupted,.data 1]) backwards
        (crashedCalls.foldl (doSnapshot byteSum encodeShort 1) ⟨emptyDir,[],0⟩).dir =
          .ok (some (12,[3])) := by
  have roundTrip : ∀ body encoded, encodeShort body = some encoded → some encoded = some body := by
    intro body encoded isEncoded
    rw [(encodeShort_eq_some isEncoded).1]
  have fits : ∀ body encoded, encodeShort body = some encoded → encoded.length < 2 ^ 63 := by
    intro body encoded isEncoded
    obtain ⟨rfl,short⟩ := encodeShort_eq_some isEncoded
    omega
  have calm : ∀ path : String, Calm ((fun _ => [.interrupted,.data 1]) path) := by
    intro path kind member
    simp at member
  have keeps : 0 < 1 := by decide
  have fresh : ∀ name ∈ emptyDir.names, snapshotLsnOf name = none := by simp [emptyDir]
  exact (newest_survives roundTrip fits keeps fresh crashedCalls backwards calm).1

end Beava.Server
