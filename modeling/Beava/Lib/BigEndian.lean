/-
Fixed-width big-endian integers over byte lists.

Encoding truncates to the requested width, exactly as a machine integer of that
width does, so decoding an encoding returns the value modulo `256 ^ width`.
-/

import Mathlib.Data.List.Basic
import Mathlib.Data.List.Induction
import Mathlib.Tactic.Ring

namespace BigEndian

/-- The `width` low-order base-256 digits of `value`, most significant first. -/
def encode : Nat → Nat → List UInt8
  | 0, _ => []
  | width + 1, value => encode width (value / 256) ++ [UInt8.ofNat value]

def decode (bytes : List UInt8) : Nat :=
  bytes.foldl (fun total byte => total * 256 + byte.toNat) 0

@[simp] theorem length_encode (width value : Nat) :
    (encode width value).length = width := by
  induction width generalizing value with
  | zero => rfl
  | succ width ih =>
      simp only [encode,List.length_append,ih,List.length_singleton]

theorem decode_concat (bytes : List UInt8) (last : UInt8) :
    decode (bytes ++ [last]) = decode bytes * 256 + last.toNat := by
  simp only [decode,List.foldl_append,List.foldl_cons,List.foldl_nil]

theorem decode_encode (width value : Nat) :
    decode (encode width value) = value % 256 ^ width := by
  induction width generalizing value with
  | zero => simp only [encode,decode,List.foldl_nil,Nat.pow_zero,Nat.mod_one]
  | succ width ih =>
      have lastDigit : (UInt8.ofNat value).toNat = value % 256 := by
        rw [UInt8.toNat_ofNat']
      rw [encode,decode_concat,ih,lastDigit,Nat.pow_succ,Nat.mul_comm (256 ^ width),
        Nat.mod_mul]
      ring

theorem decode_encode_of_lt {width value : Nat} (fits : value < 256 ^ width) :
    decode (encode width value) = value := by
  rw [decode_encode,Nat.mod_eq_of_lt fits]

theorem decode_lt (bytes : List UInt8) : decode bytes < 256 ^ bytes.length := by
  induction bytes using List.reverseRecOn with
  | nil => exact Nat.one_pos
  | append_singleton bytes last ih =>
      have small := last.toNat_lt
      rw [decode_concat,List.length_append,List.length_singleton,Nat.pow_succ]
      omega

theorem encode_decode (bytes : List UInt8) : encode bytes.length (decode bytes) = bytes := by
  induction bytes using List.reverseRecOn with
  | nil => rfl
  | append_singleton bytes last ih =>
      have small := last.toNat_lt
      have high : (decode bytes * 256 + last.toNat) / 256 = decode bytes := by omega
      have low : UInt8.ofNat (decode bytes * 256 + last.toNat) = last := by
        rw [← UInt8.toNat_inj,UInt8.toNat_ofNat']
        omega
      rw [List.length_append,List.length_singleton,decode_concat,encode,high,ih,low]

end BigEndian
