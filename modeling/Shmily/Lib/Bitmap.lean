import Mathlib.Logic.Function.Basic
import Mathlib.Data.BitVec
import Mathlib.Data.Finset.Card
import Mathlib.Tactic.Common

/-! # The bitmap of the memory and file system servers

`bitmap.cc` keeps one bit per page or block in an array of bytes. A search
looks for a byte that is not full, then for a clear bit in it; a search for
several bits goes on from there with a counter of clear bits. Bit numbers are
natural numbers here, and the servers use no map that has too many bits for an
`int`; what happens with 32 bits is in `Bitmap.Words`.
-/

namespace Shmily.Lib

/-- `unsigned char`. -/
abbrev Byte := BitVec 8

/-- `struct bitmap`; the memory behind `base` is not bounded by `bytesLen`. -/
structure Bitmap where
  bytesLen : Nat
  base : Nat → Byte

namespace Bitmap

/-- The mask `1 << bit_idx` of one bit in a byte. -/
def bitMask (bitIdx : Nat) : Byte := 1#8 <<< bitIdx

/-- `init_bitmap`. -/
def initBitmap (bmap : Bitmap) : Bitmap :=
  { bmap with base := fun byteIdx => if byteIdx < bmap.bytesLen then 0 else bmap.base byteIdx }

/-- `bitmap_verify_bit`. -/
def verifyBit (bmap : Bitmap) (idx : Nat) : Bool :=
  bmap.base (idx / 8) &&& bitMask (idx % 8) ≠ 0

/-- What `bitmap_set_bit` makes of the byte that holds the bit. -/
def setBitIn (byte : Byte) (bitIdx : Nat) (val : Bool) : Byte :=
  if val then byte ||| bitMask bitIdx else byte &&& ~~~bitMask bitIdx

/-- `bitmap_set_bit`. -/
def setBit (bmap : Bitmap) (idx : Nat) (val : Bool) : Bitmap :=
  { bmap with
    base := Function.update bmap.base (idx / 8) (setBitIn (bmap.base (idx / 8)) (idx % 8) val) }

/-- The loop of `bitmap_scan` over full bytes, with the number of bytes left. -/
def skipFull (bmap : Bitmap) : Nat → Nat → Nat
  | 0, byteIdx => byteIdx
  | left + 1, byteIdx =>
      if bmap.base byteIdx = 0xff#8 then skipFull bmap left (byteIdx + 1) else byteIdx

/-- The loop of `bitmap_scan` inside a byte. The mask of bit 8 is zero as an
`unsigned char`, so eight steps are enough for any byte. -/
def firstClear (byte : Byte) : Nat → Nat → Nat
  | 0, bitIdx => bitIdx
  | left + 1, bitIdx =>
      if bitMask bitIdx &&& byte ≠ 0 then firstClear byte left (bitIdx + 1) else bitIdx

/-- The loop of `bitmap_scan` that looks for several clear bits in a row, on numbers. -/
def scanMore (bmap : Bitmap) (cnt : Nat) : Nat → Nat → Nat → Option Nat
  | 0, _, _ => none
  | left + 1, nextBit, count =>
      let count := if bmap.verifyBit nextBit then 0 else count + 1
      if cnt = count then some (nextBit + 1 - cnt) else scanMore bmap cnt left (nextBit + 1) count

/-- `bitmap_scan` on numbers; `none` is the result `-1`. -/
def bitmapScan (bmap : Bitmap) (cnt : Nat) : Option Nat :=
  let byteIdx := bmap.skipFull bmap.bytesLen 0
  if byteIdx = bmap.bytesLen then none
  else
    let ret := byteIdx * 8 + firstClear (bmap.base byteIdx) 8 0
    if cnt = 1 then some ret
    else bmap.scanMore cnt (bmap.bytesLen * 8 - ret) (ret + 1) 1

/-- The number of clear bits. -/
def clearCount (bmap : Bitmap) : Nat :=
  ((Finset.range (bmap.bytesLen * 8)).filter fun idx => bmap.verifyBit idx = false).card

variable {bmap : Bitmap} {idx other : Nat}

/-- Testing with the mask reads one bit. -/
theorem and_bitMask (byte : Byte) (bitIdx : Fin 8) :
    decide (byte &&& bitMask bitIdx ≠ 0) = byte.getLsbD bitIdx := by
  revert byte bitIdx
  decide

theorem getLsbD_bitMask (left right : Fin 8) :
    (bitMask left).getLsbD right = decide (left = right) := by
  revert left right
  decide

theorem setBitIn_verify (byte : Byte) (left right : Fin 8) (val : Bool) :
    decide (setBitIn byte left val &&& bitMask right ≠ 0) =
      if left = right then val else decide (byte &&& bitMask right ≠ 0) := by
  rw [and_bitMask, and_bitMask]
  cases val with
  | false =>
      simp only [setBitIn, Bool.false_eq_true, if_false, BitVec.getLsbD_and, BitVec.getLsbD_not,
        getLsbD_bitMask, right.isLt, decide_true, Bool.true_and]
      by_cases heq : left = right <;> simp [heq]
  | true =>
      simp only [setBitIn, if_true, BitVec.getLsbD_or, getLsbD_bitMask]
      by_cases heq : left = right <;> simp [heq]

/-- Setting a bit changes this bit and no other one. -/
theorem verifyBit_setBit (bmap : Bitmap) (idx other : Nat) (val : Bool) :
    (bmap.setBit idx val).verifyBit other = if idx = other then val else bmap.verifyBit other := by
  by_cases hbyte : other / 8 = idx / 8
  · have hsame : idx = other ↔
        (⟨idx % 8, Nat.mod_lt _ (by decide)⟩ : Fin 8) = ⟨other % 8, Nat.mod_lt _ (by decide)⟩ := by
      rw [Fin.mk.injEq]
      omega
    have hbits := setBitIn_verify (bmap.base (idx / 8)) ⟨idx % 8, Nat.mod_lt _ (by decide)⟩
      ⟨other % 8, Nat.mod_lt _ (by decide)⟩ val
    simp only [verifyBit, setBit, hbyte, Function.update_self, hsame]
    exact hbits
  · have hne : idx ≠ other := fun heq => hbyte (by rw [heq])
    simp only [verifyBit, setBit, Function.update_of_ne hbyte, if_neg hne]

@[simp] theorem setBit_bytesLen (bmap : Bitmap) (idx : Nat) (val : Bool) :
    (bmap.setBit idx val).bytesLen = bmap.bytesLen := rfl

theorem initBitmap_verifyBit (bmap : Bitmap) {idx : Nat} (hidx : idx < bmap.bytesLen * 8) :
    bmap.initBitmap.verifyBit idx = false := by
  have hbyte : idx / 8 < bmap.bytesLen := by omega
  simp [verifyBit, initBitmap, hbyte]

theorem skipFull_spec (bmap : Bitmap) (left byteIdx : Nat) :
    byteIdx ≤ bmap.skipFull left byteIdx ∧ bmap.skipFull left byteIdx ≤ byteIdx + left ∧
      (bmap.skipFull left byteIdx < byteIdx + left →
        bmap.base (bmap.skipFull left byteIdx) ≠ 0xff#8) := by
  induction left generalizing byteIdx with
  | zero => simp [skipFull]
  | succ left ih =>
      rw [skipFull]
      split
      next hfull =>
        obtain ⟨hlow, hhigh, hfree⟩ := ih (byteIdx + 1)
        refine ⟨by omega, by omega, fun hlt => hfree (by omega)⟩
      next hfree => exact ⟨le_rfl, by omega, fun _ => hfree⟩

theorem firstClear_spec (byte : Byte) (hfree : byte ≠ 0xff#8) :
    firstClear byte 8 0 < 8 ∧ byte &&& bitMask (firstClear byte 8 0) = 0 := by
  revert byte
  decide

/-- A search for one bit finds a clear bit inside the map. -/
theorem bitmapScan_one_spec (hscan : bmap.bitmapScan 1 = some idx) :
    idx < bmap.bytesLen * 8 ∧ bmap.verifyBit idx = false := by
  simp only [bitmapScan, if_true] at hscan
  split at hscan
  next => cases hscan
  next hbyte =>
    obtain ⟨-, hhigh, hfree⟩ := skipFull_spec bmap bmap.bytesLen 0
    have hlt : bmap.skipFull bmap.bytesLen 0 < bmap.bytesLen := by omega
    obtain ⟨hbit, hclear⟩ := firstClear_spec _ (hfree (by omega))
    rw [Option.some.injEq] at hscan
    subst hscan
    refine ⟨by omega, ?_⟩
    have hdiv : (bmap.skipFull bmap.bytesLen 0 * 8 +
        firstClear (bmap.base (bmap.skipFull bmap.bytesLen 0)) 8 0) / 8 =
        bmap.skipFull bmap.bytesLen 0 := by omega
    have hmod : (bmap.skipFull bmap.bytesLen 0 * 8 +
        firstClear (bmap.base (bmap.skipFull bmap.bytesLen 0)) 8 0) % 8 =
        firstClear (bmap.base (bmap.skipFull bmap.bytesLen 0)) 8 0 := by omega
    simp [verifyBit, hdiv, hmod, hclear]

theorem skipFull_full (bmap : Bitmap) (left byteIdx : Nat) {full : Nat} (hlow : byteIdx ≤ full)
    (hhigh : full < bmap.skipFull left byteIdx) : bmap.base full = 0xff#8 := by
  induction left generalizing byteIdx with
  | zero =>
      rw [skipFull] at hhigh
      omega
  | succ left ih =>
      rw [skipFull] at hhigh
      split at hhigh
      next hfull =>
        rcases Nat.eq_or_lt_of_le hlow with rfl | hlt
        · exact hfull
        · exact ih (byteIdx + 1) hlt hhigh
      next => omega

theorem full_and_bitMask (bitIdx : Fin 8) : 0xff#8 &&& bitMask bitIdx ≠ 0 := by
  revert bitIdx
  decide

/-- A search for one bit fails only when all bits are set. -/
theorem exists_bitmapScan_one (hidx : idx < bmap.bytesLen * 8) (hclear : bmap.verifyBit idx = false) :
    ∃ found, bmap.bitmapScan 1 = some found := by
  simp only [bitmapScan, if_true]
  split
  next hnone =>
    have hbyte : bmap.base (idx / 8) = 0xff#8 :=
      bmap.skipFull_full bmap.bytesLen 0 (Nat.zero_le _) (by omega)
    have hmask := full_and_bitMask ⟨idx % 8, Nat.mod_lt _ (by decide)⟩
    rw [verifyBit, hbyte, decide_eq_false_iff_not] at hclear
    exact absurd hmask hclear
  next => exact ⟨_, rfl⟩

theorem exists_bitmapScan_of_clearCount (hpos : 0 < bmap.clearCount) :
    ∃ found, bmap.bitmapScan 1 = some found := by
  obtain ⟨idx, hmem⟩ := Finset.card_pos.mp hpos
  obtain ⟨hidx, hclear⟩ := Finset.mem_filter.mp hmem
  exact exists_bitmapScan_one (Finset.mem_range.mp hidx) hclear

/-- Setting a clear bit leaves one clear bit less. -/
theorem clearCount_setBit (hidx : idx < bmap.bytesLen * 8) (hclear : bmap.verifyBit idx = false) :
    (bmap.setBit idx true).clearCount + 1 = bmap.clearCount := by
  have herase : ((Finset.range (bmap.bytesLen * 8)).filter fun other =>
      (bmap.setBit idx true).verifyBit other = false) =
      ((Finset.range (bmap.bytesLen * 8)).filter fun other =>
        bmap.verifyBit other = false).erase idx := by
    ext other
    simp only [Finset.mem_filter, Finset.mem_erase, verifyBit_setBit]
    by_cases heq : idx = other
    · simp [heq]
    · simp [heq, Ne.symm heq]
  rw [clearCount, setBit_bytesLen, herase, clearCount]
  exact Finset.card_erase_add_one
    (Finset.mem_filter.mpr ⟨Finset.mem_range.mpr hidx, hclear⟩)

end Bitmap

end Shmily.Lib
