/-
The header of a snapshot.

A header has 52 bytes: a magic, the version, the fields, the checksum of the body
and the checksum of the 48 bytes before it.  Every byte belongs to a field, so what
is decoded is encoded as the same bytes again.

The checksum is a parameter.
-/

import Beava.Lib.Checked
import Beava.Persistence.Record

namespace Beava.Persistence

open Checked

variable {bytes : List UInt8} {width : Nat}

/-! ### The format -/

def snapshotMagic : List UInt8 := [0x42,0x45,0x41,0x56,0x41,0x53,0x4E,0x50]

def snapshotFormatVersion : UInt16 := 1

def snapshotHeaderSize : Nat := 52

def snapshotExt : String := "bvs"

structure SnapshotHeader where
  formatVersion : UInt16
  flags : UInt16
  createdAtMs : Int64
  snapshotLsn : UInt64
  registryVersion : UInt64
  bodyLen : UInt64
  bodyCrc32c : UInt32
  deriving DecidableEq

inductive SnapshotError where
  | badMagic (got : List UInt8)
  | unsupportedVersion (version : UInt16)
  | headerCrcMismatch (expected got : UInt32)
  | bodyCrcMismatch (expected got : UInt32)
  | truncated (expected got : UInt64)
  deriving DecidableEq

/-- `buf[start..stop].copy_from_slice(data)`. -/
def copyRange (buf : List UInt8) (start stop : Nat) (data : List UInt8) : List UInt8 :=
  buf.take start ++ data ++ buf.drop stop

def leU16 (value : UInt16) : List UInt8 := toLeBytes 2 value.toNat

def leU32 (value : UInt32) : List UInt8 := toLeBytes 4 value.toNat

def leU64 (value : UInt64) : List UInt8 := toLeBytes 8 value.toNat

def leI64 (value : Int64) : List UInt8 := leU64 value.toUInt64

def u16At (bytes : List UInt8) (offset : Nat) : UInt16 :=
  UInt16.ofNat (fromLeBytes (window bytes offset 2))

def u32At (bytes : List UInt8) (offset : Nat) : UInt32 :=
  UInt32.ofNat (fromLeBytes (window bytes offset 4))

def u64At (bytes : List UInt8) (offset : Nat) : UInt64 :=
  UInt64.ofNat (fromLeBytes (window bytes offset 8))

def i64At (bytes : List UInt8) (offset : Nat) : Int64 := (u64At bytes offset).toInt64

namespace SnapshotHeader

section Codec

variable (crc32c : List UInt8 → UInt32)

def encode (header : SnapshotHeader) : List UInt8 :=
  let buf := List.replicate snapshotHeaderSize 0
  let buf := copyRange buf 0 8 snapshotMagic
  let buf := copyRange buf 8 10 (leU16 header.formatVersion)
  let buf := copyRange buf 10 12 (leU16 header.flags)
  let buf := copyRange buf 12 20 (leI64 header.createdAtMs)
  let buf := copyRange buf 20 28 (leU64 header.snapshotLsn)
  let buf := copyRange buf 28 36 (leU64 header.registryVersion)
  let buf := copyRange buf 36 44 (leU64 header.bodyLen)
  let buf := copyRange buf 44 48 (leU32 header.bodyCrc32c)
  copyRange buf 48 52 (leU32 (crc32c (window buf 0 48)))

def decode (bytes : List UInt8) : Except SnapshotError SnapshotHeader :=
  let magic := window bytes 0 8
  if magic ≠ snapshotMagic then .error (.badMagic magic)
  else
    let formatVersion := u16At bytes 8
    if formatVersion ≠ snapshotFormatVersion then .error (.unsupportedVersion formatVersion)
    else
      let storedCrc := u32At bytes 48
      let computedCrc := crc32c (window bytes 0 48)
      if storedCrc ≠ computedCrc then .error (.headerCrcMismatch storedCrc computedCrc)
      else
        .ok { formatVersion := formatVersion, flags := u16At bytes 10,
              createdAtMs := i64At bytes 12, snapshotLsn := u64At bytes 20,
              registryVersion := u64At bytes 28, bodyLen := u64At bytes 36,
              bodyCrc32c := u32At bytes 44 }

end Codec

/-! ### Encoded headers -/

/-- What the header's own checksum covers. -/
def front (header : SnapshotHeader) : List UInt8 :=
  snapshotMagic ++ leU16 header.formatVersion ++ leU16 header.flags ++
    leI64 header.createdAtMs ++ leU64 header.snapshotLsn ++ leU64 header.registryVersion ++
    leU64 header.bodyLen ++ leU32 header.bodyCrc32c

end SnapshotHeader

@[simp] theorem length_leU16 (value : UInt16) : (leU16 value).length = 2 := length_toLeBytes _ _

@[simp] theorem length_leU32 (value : UInt32) : (leU32 value).length = 4 := length_toLeBytes _ _

@[simp] theorem length_leU64 (value : UInt64) : (leU64 value).length = 8 := length_toLeBytes _ _

@[simp] theorem length_leI64 (value : Int64) : (leI64 value).length = 8 := length_toLeBytes _ _

@[simp] theorem length_snapshotMagic : snapshotMagic.length = 8 := rfl

theorem copyRange_zeros {front data : List UInt8} {start stop zeros : Nat}
    (isStart : front.length = start) (isStop : start + data.length = stop) :
    copyRange (front ++ List.replicate zeros 0) start stop data =
      front ++ data ++ List.replicate (zeros - data.length) 0 := by
  have behind : (front ++ List.replicate zeros (0 : UInt8)).drop stop =
      List.replicate (zeros - data.length) 0 := by
    rw [← isStop,← isStart,← List.drop_drop,List.drop_left,List.drop_replicate]
  rw [copyRange,List.take_left' isStart,behind]

namespace SnapshotHeader

variable {crc32c : List UInt8 → UInt32} (header : SnapshotHeader)

@[simp] theorem length_front : header.front.length = 48 := by
  simp only [front,List.length_append,length_snapshotMagic,length_leU16,length_leU32,
    length_leU64,length_leI64]

theorem encode_eq : header.encode crc32c = header.front ++ leU32 (crc32c header.front) := by
  have zeros : List.replicate snapshotHeaderSize (0 : UInt8) =
      [] ++ List.replicate snapshotHeaderSize 0 := rfl
  have covered : ∀ rest, window (header.front ++ rest) 0 48 = header.front :=
    fun rest => window_front rest header.length_front
  unfold encode
  dsimp only
  rw [zeros]
  rw [copyRange_zeros,copyRange_zeros,copyRange_zeros,copyRange_zeros,copyRange_zeros,
    copyRange_zeros,copyRange_zeros,copyRange_zeros,copyRange_zeros]
  · rw [List.nil_append]
    rw [← front,covered]
    simp [snapshotHeaderSize]
  all_goals simp

@[simp] theorem length_encode : (header.encode crc32c).length = snapshotHeaderSize := by
  rw [encode_eq,List.length_append,length_front,length_leU32]
  rfl

end SnapshotHeader

/-! ### Fields -/

theorem fromLeBytes_lt (isWidth : bytes.length = width) : fromLeBytes bytes < 256 ^ width := by
  have small := BigEndian.decode_lt bytes.reverse
  rw [List.length_reverse,isWidth] at small
  exact small

theorem toLeBytes_fromLeBytes (isWidth : bytes.length = width) :
    toLeBytes width (fromLeBytes bytes) = bytes := by
  have same := BigEndian.encode_decode bytes.reverse
  rw [List.length_reverse,isWidth] at same
  rw [toLeBytes,fromLeBytes,same,List.reverse_reverse]

section Fields

variable {bytes : List UInt8} {offset : Nat}

theorem leU16_u16At (inside : offset + 2 ≤ bytes.length) :
    leU16 (u16At bytes offset) = window bytes offset 2 := by
  have width := length_window inside
  rw [leU16,u16At,UInt16.toNat_ofNat_of_lt' (fromLeBytes_lt width),toLeBytes_fromLeBytes width]

theorem leU32_u32At (inside : offset + 4 ≤ bytes.length) :
    leU32 (u32At bytes offset) = window bytes offset 4 := by
  have width := length_window inside
  rw [leU32,u32At,UInt32.toNat_ofNat_of_lt' (fromLeBytes_lt width),toLeBytes_fromLeBytes width]

theorem leU64_u64At (inside : offset + 8 ≤ bytes.length) :
    leU64 (u64At bytes offset) = window bytes offset 8 := by
  have width := length_window inside
  rw [leU64,u64At,UInt64.toNat_ofNat_of_lt' (fromLeBytes_lt width),toLeBytes_fromLeBytes width]

theorem leI64_i64At (inside : offset + 8 ≤ bytes.length) :
    leI64 (i64At bytes offset) = window bytes offset 8 := by
  rw [leI64,i64At,UInt64.toUInt64_toInt64,leU64_u64At inside]

theorem u16At_leU16 {value : UInt16} (isField : window bytes offset 2 = leU16 value) :
    u16At bytes offset = value := by
  rw [u16At,isField,leU16,fromLeBytes_toLeBytes_of_lt value.toNat_lt,UInt16.ofNat_toNat]

theorem u32At_leU32 {value : UInt32} (isField : window bytes offset 4 = leU32 value) :
    u32At bytes offset = value := by
  rw [u32At,isField,leU32,fromLeBytes_toLeBytes_of_lt value.toNat_lt,UInt32.ofNat_toNat]

theorem u64At_leU64 {value : UInt64} (isField : window bytes offset 8 = leU64 value) :
    u64At bytes offset = value := by
  rw [u64At,isField,leU64,fromLeBytes_toLeBytes_of_lt value.toNat_lt,UInt64.ofNat_toNat]

theorem i64At_leI64 {value : Int64} (isField : window bytes offset 8 = leI64 value) :
    i64At bytes offset = value := by
  rw [i64At,u64At_leU64 isField,Int64.toInt64_toUInt64]

end Fields

namespace SnapshotHeader

variable (crc32c : List UInt8 → UInt32) {header : SnapshotHeader}
variable {bytes : List UInt8}

theorem window_fields {magic version flags created lsn registry bodyLen bodyCrc crc : List UInt8}
    (magicWidth : magic.length = 8) (versionWidth : version.length = 2) (flagsWidth : flags.length = 2)
    (createdWidth : created.length = 8) (lsnWidth : lsn.length = 8)
    (registryWidth : registry.length = 8) (bodyLenWidth : bodyLen.length = 8)
    (bodyCrcWidth : bodyCrc.length = 4) (crcWidth : crc.length = 4)
    (isBytes : bytes = magic ++ version ++ flags ++ created ++ lsn ++ registry ++ bodyLen ++
      bodyCrc ++ crc) :
    window bytes 0 8 = magic ∧ window bytes 8 2 = version ∧ window bytes 10 2 = flags ∧
      window bytes 12 8 = created ∧ window bytes 20 8 = lsn ∧ window bytes 28 8 = registry ∧
      window bytes 36 8 = bodyLen ∧ window bytes 44 4 = bodyCrc ∧ window bytes 48 4 = crc := by
  have last : window crc 0 4 = crc := by
    have whole := window_front [] crcWidth
    rw [List.append_nil] at whole
    exact whole
  rw [isBytes]
  simp [window_behind,window_front,last,magicWidth,versionWidth,flagsWidth,createdWidth,
    lsnWidth,registryWidth,bodyLenWidth,bodyCrcWidth]

theorem decode_encode (current : header.formatVersion = snapshotFormatVersion) :
    decode crc32c (header.encode crc32c) = .ok header := by
  have covered := window_front (leU32 (crc32c header.front)) header.length_front
  obtain ⟨isMagic,isVersion,isFlags,isCreated,isLsn,isRegistry,isBodyLen,isBodyCrc,isCrc⟩ :=
    window_fields length_snapshotMagic (length_leU16 header.formatVersion)
      (length_leU16 header.flags) (length_leI64 header.createdAtMs)
      (length_leU64 header.snapshotLsn) (length_leU64 header.registryVersion)
      (length_leU64 header.bodyLen) (length_leU32 header.bodyCrc32c)
      (length_leU32 (crc32c header.front)) rfl
  rw [← front] at isMagic isVersion isFlags isCreated isLsn isRegistry isBodyLen isBodyCrc isCrc
  rw [encode_eq]
  unfold decode
  simp only [covered,isMagic,u16At_leU16 isVersion,u16At_leU16 isFlags,i64At_leI64 isCreated,
    u64At_leU64 isLsn,u64At_leU64 isRegistry,u64At_leU64 isBodyLen,u32At_leU32 isBodyCrc,
    u32At_leU32 isCrc,current,ne_eq,not_true_eq_false,if_false]
  rw [← current]

theorem encode_decode (isSize : bytes.length = snapshotHeaderSize)
    (accepted : decode crc32c bytes = .ok header) : header.encode crc32c = bytes := by
  have length : bytes.length = 52 := isSize
  unfold decode at accepted
  dsimp only at accepted
  split at accepted
  · cases accepted
  · rename_i isMagic
    split at accepted
    · cases accepted
    · rename_i isVersion
      split at accepted
      · cases accepted
      · rename_i isCrc
        cases accepted
        have magic := not_not.mp isMagic
        have covered : front ⟨u16At bytes 8,u16At bytes 10,i64At bytes 12,u64At bytes 20,
            u64At bytes 28,u64At bytes 36,u32At bytes 44⟩ = window bytes 0 48 := by
          rw [front,← magic,leU16_u16At (by omega),leU16_u16At (by omega),
            leI64_i64At (by omega),leU64_u64At (by omega),leU64_u64At (by omega),
            leU64_u64At (by omega),leU32_u32At (by omega)]
          rw [window_append bytes 0 8 2,window_append bytes 0 10 2,window_append bytes 0 12 8,
            window_append bytes 0 20 8,window_append bytes 0 28 8,window_append bytes 0 36 8,
            window_append bytes 0 44 4]
        rw [encode_eq,covered,← not_not.mp isCrc,leU32_u32At (by omega),
          window_append bytes 0 48 4,window,List.drop_zero,List.take_of_length_le (by omega)]

end SnapshotHeader

end Beava.Persistence
