import Mathlib.Algebra.Order.Ring.Nat
import Mathlib.Data.BitVec
import Mathlib.Tactic.Common

/-! # Areas of bytes

Memory from an address on, as a function of the offset. Numbers are stored in a
fixed number of bytes, the lowest first; a store truncates them. Reads only
depend on the bytes they cover, so stores elsewhere do not matter.
-/

namespace Shmily.Foundation

/-- The bytes from some address on. -/
abbrev ByteArea := Nat → BitVec 8

namespace ByteArea

/-- The number stored in `width` bytes, the lowest first. -/
def getLE (area : ByteArea) : Nat → Nat → Nat
  | 0, _ => 0
  | width + 1, offset => (area offset).toNat + 256 * getLE area width (offset + 1)

/-- Store a number in `width` bytes. -/
def putLE (area : ByteArea) (width offset value : Nat) : ByteArea := fun k =>
  if offset ≤ k ∧ k < offset + width then BitVec.ofNat 8 (value / 256 ^ (k - offset)) else area k

/-- Copy `cnt` bytes of `source`, from `start` on, to an offset. -/
def copyIn (area : ByteArea) (offset : Nat) (source : ByteArea) (start cnt : Nat) : ByteArea :=
  fun k => if offset ≤ k ∧ k < offset + cnt then source (start + (k - offset)) else area k

/-- All bytes zero. -/
def zeros : ByteArea := fun _ => 0

variable {area other : ByteArea} {width offset value k : Nat}

theorem getLE_congr (hsame : ∀ i < width, area (offset + i) = other (offset + i)) :
    getLE area width offset = getLE other width offset := by
  induction width generalizing offset with
  | zero => rfl
  | succ width ih =>
      have hfirst : area offset = other offset := hsame 0 (by omega)
      have hrest : ∀ i < width, area (offset + 1 + i) = other (offset + 1 + i) := by
        intro i hi
        rw [Nat.add_assoc, Nat.add_comm 1 i]
        exact hsame (i + 1) (by omega)
      rw [getLE, getLE, hfirst, ih hrest]

theorem getLE_lt (area : ByteArea) (width offset : Nat) : getLE area width offset < 256 ^ width := by
  induction width generalizing offset with
  | zero => simp [getLE]
  | succ width ih =>
      have hbyte : (area offset).toNat < 256 := (area offset).isLt
      have hrest := ih (offset + 1)
      rw [getLE, Nat.pow_succ']
      omega

theorem getLE_eq_zero_iff :
    getLE area width offset = 0 ↔ ∀ i < width, area (offset + i) = 0 := by
  induction width generalizing offset with
  | zero => exact iff_of_true rfl fun i hi => absurd hi (Nat.not_lt_zero i)
  | succ width ih =>
      have hbyte : (area offset).toNat = 0 ↔ area offset = 0 :=
        ⟨fun h => BitVec.eq_of_toNat_eq h, fun h => by rw [h]; rfl⟩
      have hrest : 256 * getLE area width (offset + 1) = 0 ↔ getLE area width (offset + 1) = 0 :=
        Nat.mul_eq_zero.trans (or_iff_right (by decide))
      rw [getLE, Nat.add_eq_zero_iff, hbyte, hrest, ih]
      constructor
      · rintro ⟨hfirst, hlater⟩ i hi
        cases i with
        | zero => exact hfirst
        | succ i =>
            rw [Nat.add_comm i 1, ← Nat.add_assoc]
            exact hlater i (Nat.lt_of_succ_lt_succ hi)
      · intro hall
        refine ⟨hall 0 (Nat.succ_pos width), fun i hi => ?_⟩
        rw [Nat.add_assoc, Nat.add_comm 1 i]
        exact hall (i + 1) (Nat.succ_lt_succ hi)

/-- Bytes that are the digits of a number. -/
theorem getLE_digits (hdigits : ∀ i < width, area (offset + i) = BitVec.ofNat 8 (value / 256 ^ i)) :
    getLE area width offset = value % 256 ^ width := by
  induction width generalizing offset value with
  | zero => simp [getLE, Nat.mod_one]
  | succ width ih =>
      have hfirst : area offset = BitVec.ofNat 8 value := by
        have := hdigits 0 (by omega)
        rwa [Nat.add_zero, Nat.pow_zero, Nat.div_one] at this
      have hrest : ∀ i < width, area (offset + 1 + i) = BitVec.ofNat 8 (value / 256 / 256 ^ i) := by
        intro i hi
        rw [Nat.div_div_eq_div_mul, ← Nat.pow_succ', Nat.add_assoc, Nat.add_comm 1 i]
        exact hdigits (i + 1) (by omega)
      rw [getLE, hfirst, ih hrest, Nat.pow_succ', Nat.mod_mul, BitVec.toNat_ofNat]

/-- What was stored is read back, up to truncation. -/
theorem getLE_putLE_self (area : ByteArea) (width offset value : Nat) :
    getLE (putLE area width offset value) width offset = value % 256 ^ width := by
  refine getLE_digits fun i hi => ?_
  rw [putLE, if_pos (by omega), Nat.add_sub_cancel_left]

theorem putLE_of_not (hout : ¬ (offset ≤ k ∧ k < offset + width)) :
    putLE area width offset value k = area k := if_neg hout

/-- A store elsewhere does not change what is read. -/
theorem getLE_putLE_of_disjoint {width' offset' : Nat}
    (hdisjoint : offset + width ≤ offset' ∨ offset' + width' ≤ offset) :
    getLE (putLE area width' offset' value) width offset = getLE area width offset :=
  getLE_congr fun i hi => putLE_of_not (by omega)

theorem copyIn_of_not {source : ByteArea} {start cnt : Nat}
    (hout : ¬ (offset ≤ k ∧ k < offset + cnt)) :
    copyIn area offset source start cnt k = area k := if_neg hout

theorem copyIn_at {source : ByteArea} {start cnt : Nat} (hlow : offset ≤ k)
    (hhigh : k < offset + cnt) :
    copyIn area offset source start cnt k = source (start + (k - offset)) :=
  if_pos ⟨hlow, hhigh⟩

end ByteArea

end Shmily.Foundation
