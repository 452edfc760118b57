import Mathlib.Data.BitVec
import Mathlib.Tactic.Common

/-! # Fields of bits in a word

A field is read by a shift and a mask. A mask of the low bits keeps the bits below its
width, and a value that fits into the width as it is.
-/

namespace Shmily.Foundation

namespace BitFields

variable {w k pos i : Nat} {word mask : BitVec w}

theorem getLsbD_mask (w k i : Nat) :
    (BitVec.ofNat w (2 ^ k - 1)).getLsbD i = decide (i < w ∧ i < k) := by
  rw [BitVec.getLsbD_ofNat, Nat.testBit_two_pow_sub_one, Bool.decide_and]

/-- The bits of a field of `k` bits, read into a word of another width. -/
theorem getLsbD_field (k v : Nat) (hmask : mask = BitVec.ofNat w (2 ^ k - 1)) :
    (((word >>> pos) &&& mask).setWidth v).getLsbD i =
      (decide (i < v ∧ i < k) && word.getLsbD (pos + i)) := by
  rw [hmask, BitVec.getLsbD_setWidth, BitVec.getLsbD_and, getLsbD_mask, BitVec.getLsbD_ushiftRight]
  rcases Nat.lt_or_ge i w with hi | hi
  · grind
  · have hout : word.getLsbD (pos + i) = false := BitVec.getLsbD_of_ge word (pos + i) (by omega)
    rw [hout, Bool.false_and, Bool.and_false, Bool.and_false]

/-- A field that holds a value of the target's width is that value. -/
theorem field_eq {v : Nat} {value : BitVec v} (k : Nat) (hmask : mask = BitVec.ofNat w (2 ^ k - 1))
    (hsame : ∀ i < k, word.getLsbD (pos + i) = value.getLsbD i) (hvalue : value.toNat < 2 ^ k) :
    ((word >>> pos) &&& mask).setWidth v = value := by
  apply BitVec.eq_of_getLsbD_eq
  intro i hi
  rw [getLsbD_field k v hmask]
  rcases Nat.lt_or_ge i k with hlt | hge
  · rw [hsame i hlt, decide_eq_true ⟨hi, hlt⟩, Bool.true_and]
  · have hclear : value.getLsbD i = false :=
      Nat.testBit_lt_two_pow (Nat.lt_of_lt_of_le hvalue (Nat.pow_le_pow_right (by decide) hge))
    rw [hclear, decide_eq_false fun hboth => absurd hboth.2 (Nat.not_lt.mpr hge), Bool.false_and]

/-! ## Four bytes -/

/-- A word of four bytes, the lowest first. -/
def joinBytes (byte0 byte1 byte2 byte3 : BitVec 8) : BitVec 32 :=
  byte0.setWidth 32 ||| (byte1.setWidth 32 <<< 8) ||| (byte2.setWidth 32 <<< 16) |||
    (byte3.setWidth 32 <<< 24)

section

variable (byte0 byte1 byte2 byte3 : BitVec 8)

/-- Joined from the highest byte on. -/
theorem or_eq_joinBytes :
    (0 : BitVec 32) ||| byte3.setWidth 32 <<< 24 ||| byte2.setWidth 32 <<< 16 |||
      byte1.setWidth 32 <<< 8 ||| byte0.setWidth 32 <<< 0 = joinBytes byte0 byte1 byte2 byte3 := by
  have hlow : byte0.setWidth 32 <<< 0 = byte0.setWidth 32 := BitVec.shiftLeft_zero _
  have hhigh : (0 : BitVec 32) ||| byte3.setWidth 32 <<< 24 = byte3.setWidth 32 <<< 24 :=
    BitVec.zero_or
  rw [hlow, hhigh, joinBytes]
  generalize byte3.setWidth 32 <<< 24 = word3, byte2.setWidth 32 <<< 16 = word2,
    byte1.setWidth 32 <<< 8 = word1, byte0.setWidth 32 = word0
  rw [BitVec.or_comm _ word0, BitVec.or_comm _ word1, BitVec.or_comm word3 word2, BitVec.or_assoc,
    BitVec.or_assoc]

theorem getLsbD_joinBytes (hi : i < 8) :
    (joinBytes byte0 byte1 byte2 byte3).getLsbD (0 + i) = byte0.getLsbD i ∧
      (joinBytes byte0 byte1 byte2 byte3).getLsbD (8 + i) = byte1.getLsbD i ∧
      (joinBytes byte0 byte1 byte2 byte3).getLsbD (16 + i) = byte2.getLsbD i ∧
      (joinBytes byte0 byte1 byte2 byte3).getLsbD (24 + i) = byte3.getLsbD i := by
  simp only [joinBytes, BitVec.getLsbD_or, BitVec.getLsbD_shiftLeft, BitVec.getLsbD_setWidth]
  grind

/-- The bytes are read by shifts. -/
theorem bytes_joinBytes :
    (joinBytes byte0 byte1 byte2 byte3 &&& 0xff).setWidth 8 = byte0 ∧
      ((joinBytes byte0 byte1 byte2 byte3 >>> 8) &&& 0xff).setWidth 8 = byte1 ∧
      ((joinBytes byte0 byte1 byte2 byte3 >>> 16) &&& 0xff).setWidth 8 = byte2 ∧
      ((joinBytes byte0 byte1 byte2 byte3 >>> 24) &&& 0xff).setWidth 8 = byte3 := by
  have hbits := fun i (hi : i < 8) => getLsbD_joinBytes byte0 byte1 byte2 byte3 hi
  have hfirst := field_eq 8 rfl (fun i hi => (hbits i hi).1) byte0.isLt
  rw [BitVec.ushiftRight_zero] at hfirst
  exact ⟨hfirst, field_eq 8 rfl (fun i hi => (hbits i hi).2.1) byte1.isLt,
    field_eq 8 rfl (fun i hi => (hbits i hi).2.2.1) byte2.isLt,
    field_eq 8 rfl (fun i hi => (hbits i hi).2.2.2) byte3.isLt⟩

end

end BitFields

end Shmily.Foundation
