import Shmily.Foundation.FirstFit
import Shmily.Lib.Bitmap

/-! # The two-bit map of virtual pages

`DoublebitMap` keeps two bits per page. A run of several pages is marked by its
first and last slot, so that the length of a run need not be stored: freeing a
run walks from its first slot to the next end mark. Slots are natural numbers here,
as in the map of the memory manager, which has at most `2 ^ 20` of them; the index of
the bits, which wraps from the slot `2 ^ 31` on, is in `DoublebitMap.Words`.
-/

namespace Shmily.Mm

open Foundation Lib

/-- `DoublebitMap`; four slots to a byte, and `bytesLen * 8` slots are searched. -/
structure DoublebitMap where
  bytesLen : Nat
  base : Nat → Byte

namespace DoublebitMap

def slotFree : Byte := 0x0
def slotUsedSingle : Byte := 0x1
def slotSeqStart : Byte := 0x2
def slotSeqEnd : Byte := 0x3

/-- The number of slots that `get_free_slots` looks at. -/
def slots (bmap : DoublebitMap) : Nat := bmap.bytesLen * 8

/-- The mask `3 << bit_idx` of one slot in a byte. -/
def slotMask (bitIdx : Nat) : Byte := 3#8 <<< bitIdx

/-- The two bits of a byte at a bit position. -/
def slotIn (byte : Byte) (bitIdx : Nat) : Byte := (byte &&& slotMask bitIdx) >>> bitIdx

/-- The byte after `set_slot_value` has cleared and then set the two bits. -/
def setSlotIn (byte : Byte) (bitIdx : Nat) (val : Byte) : Byte :=
  byte &&& ~~~slotMask bitIdx ||| val <<< bitIdx

/-- `DoublebitMap::get_slot_status` on numbers: the two bits of a slot in the storage. -/
def getSlotStatus (bmap : DoublebitMap) (idx : Nat) : Byte :=
  slotIn (bmap.base (idx * 2 / 8)) (idx * 2 % 8)

/-- `DoublebitMap::set_slot_value` on numbers. -/
def setSlotValue (bmap : DoublebitMap) (idx : Nat) (val : Byte) : DoublebitMap :=
  { bmap with
    base := Function.update bmap.base (idx * 2 / 8)
      (setSlotIn (bmap.base (idx * 2 / 8)) (idx * 2 % 8) val) }

/-- The loop of `DoublebitMap::sync` over the inner slots of a run. -/
def syncInner (start : Nat) : Nat → Nat → DoublebitMap → DoublebitMap
  | 0, _, bmap => bmap
  | left + 1, i, bmap =>
      syncInner start left (i + 1) (bmap.setSlotValue (start + i) slotUsedSingle)

/-- `DoublebitMap::sync`: mark a run as used. -/
def sync (bmap : DoublebitMap) (start cnt : Nat) : DoublebitMap :=
  if cnt = 1 then bmap.setSlotValue start slotUsedSingle
  else
    let bmap := bmap.setSlotValue start slotSeqStart
    let bmap := syncInner start (cnt - 2) 1 bmap
    bmap.setSlotValue (start + cnt - 1) slotSeqEnd

/-- The search loop of `get_free_slots`, with the number of slots left. -/
def findFree (bmap : DoublebitMap) (cnt : Nat) : Nat → Nat → Nat → Option Nat
  | 0, _, _ => none
  | left + 1, idx, foundCnt =>
      if bmap.getSlotStatus idx = slotFree ∧ cnt = 1 then some idx
      else if bmap.getSlotStatus idx = slotFree then
        if foundCnt + 1 = cnt then some (idx + 1 - cnt)
        else findFree bmap cnt left (idx + 1) (foundCnt + 1)
      else findFree bmap cnt left (idx + 1) 0

/-- `DoublebitMap::get_free_slots`; `none` is the result `-1`. -/
def getFreeSlots (bmap : DoublebitMap) (cnt : Nat) : DoublebitMap × Option Nat :=
  match bmap.findFree cnt bmap.slots 0 0 with
  | some start => (bmap.sync start cnt, some start)
  | none => (bmap, none)

/-- The loop of `free_slots`. It walks to the next end mark and is undefined
if it finds none. -/
def freeToEnd : Nat → DoublebitMap → Nat → Nat → Option (DoublebitMap × Nat)
  | 0, _, _, _ => none
  | fuel + 1, bmap, idx, cnt =>
      if bmap.getSlotStatus idx = slotSeqEnd then
        some (bmap.setSlotValue idx slotFree, cnt + 1)
      else freeToEnd fuel (bmap.setSlotValue idx slotFree) (idx + 1) (cnt + 1)

/-- `DoublebitMap::free_slots`: the run that starts at a slot becomes free, and
its length is returned. -/
def freeSlots (bmap : DoublebitMap) (idx : Nat) : Option (DoublebitMap × Nat) :=
  if bmap.getSlotStatus idx = slotUsedSingle then some (bmap.setSlotValue idx slotFree, 1)
  else if bmap.getSlotStatus idx ≠ slotSeqStart then some (bmap, 0)
  else freeToEnd bmap.slots bmap idx 0

/-- Slots become free one after the other. -/
def clear : Nat → DoublebitMap → Nat → DoublebitMap
  | 0, bmap, _ => bmap
  | n + 1, bmap, idx => clear n (bmap.setSlotValue idx slotFree) (idx + 1)

/-- The walk of `free_slots` from a slot meets its first end mark this many slots further. -/
structure WalkEnds (bmap : DoublebitMap) (idx n : Nat) : Prop where
  inner : ∀ k < n, bmap.getSlotStatus (idx + k) ≠ slotSeqEnd
  last : bmap.getSlotStatus (idx + n) = slotSeqEnd

/-- The mark of the slot at a position in a run. -/
def mark (cnt offset : Nat) : Byte :=
  if cnt = 1 then slotUsedSingle
  else if offset = 0 then slotSeqStart
  else if offset + 1 = cnt then slotSeqEnd
  else slotUsedSingle

/-- The slots that a search may take. -/
abbrev IsFree (bmap : DoublebitMap) : Nat → Prop := fun slot => bmap.getSlotStatus slot = slotFree

/-- A run of slots carries the marks that `sync` gives it. -/
def Marked (bmap : DoublebitMap) (start cnt : Nat) : Prop :=
  ∀ offset < cnt, bmap.getSlotStatus (start + offset) = mark cnt offset

variable {bmap : DoublebitMap} {start cnt idx : Nat}

theorem getLsbD_slotMask (slot : Fin 4) (bit : Fin 8) :
    (slotMask (2 * slot)).getLsbD bit = decide (bit.val / 2 = slot.val) := by
  revert slot bit
  decide

theorem getLsbD_slotIn (byte : Byte) (slot : Fin 4) (bit : Nat) :
    (slotIn byte (2 * slot)).getLsbD bit =
      (decide (bit < 2) && byte.getLsbD (2 * slot + bit)) := by
  by_cases hbit : 2 * slot.val + bit < 8
  · have hmask := getLsbD_slotMask slot ⟨2 * slot + bit, hbit⟩
    have hslot : (2 * slot.val + bit) / 2 = slot.val ↔ bit < 2 := by omega
    simp only [slotIn, BitVec.getLsbD_ushiftRight, BitVec.getLsbD_and, hmask, hslot]
    rw [Bool.and_comm]
  · have hout : byte.getLsbD (2 * slot.val + bit) = false := BitVec.getLsbD_of_ge _ _ (by omega)
    simp [slotIn, hout]

theorem getLsbD_of_lt_four {val : Byte} (hval : val < 4) {bit : Nat} (hbit : 2 ≤ bit) :
    val.getLsbD bit = false := by
  have hlt : val.toNat < 2 ^ 2 := hval
  exact Nat.testBit_lt_two_pow (lt_of_lt_of_le hlt (Nat.pow_le_pow_right (by decide) hbit))

theorem getLsbD_setSlotIn (byte : Byte) (slot : Fin 4) {val : Byte} (hval : val < 4)
    {bit : Nat} (hbit : bit < 8) :
    (setSlotIn byte (2 * slot) val).getLsbD bit =
      if bit / 2 = slot.val then val.getLsbD (bit - 2 * slot) else byte.getLsbD bit := by
  have hmask := getLsbD_slotMask slot ⟨bit, hbit⟩
  simp only [setSlotIn, BitVec.getLsbD_or, BitVec.getLsbD_and, BitVec.getLsbD_not, hmask,
    BitVec.getLsbD_shiftLeft, hbit, decide_true, Bool.true_and]
  by_cases hslot : bit / 2 = slot.val
  · have hge : ¬ bit < 2 * slot.val := by omega
    simp [hslot, hge]
  · by_cases hlow : bit < 2 * slot.val
    · simp [hslot, hlow]
    · have hzero : val.getLsbD (bit - 2 * slot.val) = false :=
        getLsbD_of_lt_four hval (by omega)
      simp [hslot, hzero]

theorem slotIn_setSlotIn (byte : Byte) (left right : Fin 4) {val : Byte} (hval : val < 4) :
    slotIn (setSlotIn byte (2 * left) val) (2 * right) =
      if left = right then val else slotIn byte (2 * right) := by
  apply BitVec.eq_of_getLsbD_eq
  intro bit hbit
  rw [getLsbD_slotIn]
  by_cases hlow : bit < 2
  · rw [getLsbD_setSlotIn byte left hval (by omega)]
    by_cases heq : left = right
    · subst heq
      have hslot : (2 * left.val + bit) / 2 = left.val := by omega
      simp [hlow, hslot]
    · have hslot : (2 * right.val + bit) / 2 ≠ left.val := fun h => heq (Fin.ext (by omega))
      simp [heq, hlow, hslot, getLsbD_slotIn]
  · split
    next => simp [hlow, getLsbD_of_lt_four hval (Nat.le_of_not_lt hlow)]
    next => simp [hlow, getLsbD_slotIn]

/-- Setting a slot changes this slot and no other one. -/
theorem getSlotStatus_setSlotValue (bmap : DoublebitMap) (idx other : Nat) {val : Byte}
    (hval : val < 4) :
    (bmap.setSlotValue idx val).getSlotStatus other =
      if idx = other then val else bmap.getSlotStatus other := by
  by_cases hbyte : other * 2 / 8 = idx * 2 / 8
  · let left : Fin 4 := ⟨idx % 4, Nat.mod_lt _ (by decide)⟩
    let right : Fin 4 := ⟨other % 4, Nat.mod_lt _ (by decide)⟩
    have hsame : idx = other ↔ left = right := by
      simp only [left, right, Fin.mk.injEq]
      omega
    have hleft : idx * 2 % 8 = 2 * left.val := by
      change idx * 2 % 8 = 2 * (idx % 4)
      omega
    have hright : other * 2 % 8 = 2 * right.val := by
      change other * 2 % 8 = 2 * (other % 4)
      omega
    simp only [getSlotStatus, setSlotValue, hbyte, Function.update_self, hsame, hleft, hright]
    exact slotIn_setSlotIn _ left right hval
  · have hne : idx ≠ other := fun heq => hbyte (by rw [heq])
    simp only [getSlotStatus, setSlotValue, Function.update_of_ne hbyte, if_neg hne]

theorem mark_ne_free (cnt offset : Nat) : mark cnt offset ≠ slotFree := by
  unfold mark
  repeat' split
  all_goals decide

@[simp] theorem setSlotValue_bytesLen (bmap : DoublebitMap) (idx : Nat) (val : Byte) :
    (bmap.setSlotValue idx val).bytesLen = bmap.bytesLen := rfl

@[simp] theorem syncInner_bytesLen (start left i : Nat) (bmap : DoublebitMap) :
    (syncInner start left i bmap).bytesLen = bmap.bytesLen := by
  induction left generalizing i bmap with
  | zero => rfl
  | succ left ih => rw [syncInner, ih, setSlotValue_bytesLen]

@[simp] theorem sync_bytesLen (bmap : DoublebitMap) (start cnt : Nat) :
    (bmap.sync start cnt).bytesLen = bmap.bytesLen := by
  unfold sync
  split <;> simp

theorem syncInner_status (start left i other : Nat) (bmap : DoublebitMap) :
    (syncInner start left i bmap).getSlotStatus other =
      if start + i ≤ other ∧ other < start + i + left then slotUsedSingle
      else bmap.getSlotStatus other := by
  induction left generalizing i bmap with
  | zero => rw [syncInner, if_neg (by omega)]
  | succ left ih =>
      rw [syncInner, ih, getSlotStatus_setSlotValue _ _ _ (by decide)]
      split
      next hinner => rw [if_pos (by omega)]
      next hinner =>
        split
        next hhere => rw [if_pos (by omega)]
        next hhere => rw [if_neg (by omega)]

/-- `sync` marks the slots of the run and no other ones. -/
theorem sync_status (bmap : DoublebitMap) (start : Nat) {cnt : Nat} (hcnt : 1 ≤ cnt)
    (other : Nat) :
    (bmap.sync start cnt).getSlotStatus other =
      if start ≤ other ∧ other < start + cnt then mark cnt (other - start)
      else bmap.getSlotStatus other := by
  unfold sync
  split
  next hone =>
    rw [getSlotStatus_setSlotValue _ _ _ (by decide)]
    split
    next heq => rw [if_pos (by omega), mark, if_pos hone]
    next hne => rw [if_neg (by omega)]
  next hone =>
    simp only
    rw [getSlotStatus_setSlotValue _ _ _ (by decide), syncInner_status,
      getSlotStatus_setSlotValue _ _ _ (by decide)]
    split
    next hend =>
      rw [if_pos (by omega), mark, if_neg hone, if_neg (by omega), if_pos (by omega)]
    next hend =>
      split
      next hinner =>
        rw [if_pos (by omega), mark, if_neg hone, if_neg (by omega), if_neg (by omega)]
      next hinner =>
        split
        next hstart => rw [if_pos (by omega), mark, if_neg hone, if_pos (by omega)]
        next hstart => rw [if_neg (by omega)]

/-- The special case for one slot makes no difference to the pass. -/
theorem findFree_eq_search {left foundCnt : Nat} (hless : foundCnt < cnt) :
    bmap.findFree cnt left idx foundCnt = FirstFit.search bmap.IsFree cnt left idx foundCnt := by
  induction left generalizing idx foundCnt with
  | zero => rfl
  | succ left ih =>
      rw [findFree, FirstFit.search]
      by_cases hfree : bmap.getSlotStatus idx = slotFree
      · rw [if_pos hfree, if_pos hfree]
        by_cases hlast : foundCnt + 1 = cnt
        · rw [if_pos hlast, if_pos hlast]
          split
          next hone => rw [hone.2, Nat.add_sub_cancel]
          next => rfl
        · have hone : ¬ (bmap.getSlotStatus idx = slotFree ∧ cnt = 1) := by
            rintro ⟨-, rfl⟩
            omega
          rw [if_neg hone, if_neg hlast, if_neg hlast]
          exact ih (by omega)
      · rw [if_neg fun h => hfree h.1, if_neg hfree, if_neg hfree]
        exact ih (by omega)

/-- No run of no slots is ever found. -/
theorem getFreeSlots_zero (bmap : DoublebitMap) : bmap.getFreeSlots 0 = (bmap, none) := by
  have hnone : ∀ left idx foundCnt, bmap.findFree 0 left idx foundCnt = none := by
    intro left
    induction left with
    | zero => exact fun _ _ => rfl
    | succ left ih =>
        intro idx foundCnt
        rw [findFree, if_neg fun h => absurd h.2 Nat.zero_ne_one]
        split
        next => rw [if_neg (Nat.succ_ne_zero _), ih]
        next => exact ih _ _
  rw [getFreeSlots, hnone]

/-- The first run of free slots is taken, or there is none and nothing changes. -/
theorem getFreeSlots_cases (bmap : DoublebitMap) (hcnt : 1 ≤ cnt) :
    (∃ start, IsLeast {start | FirstFit.IsRun bmap.IsFree bmap.slots start cnt} start ∧
        bmap.getFreeSlots cnt = (bmap.sync start cnt, some start)) ∨
      (∀ start, ¬ FirstFit.IsRun bmap.IsFree bmap.slots start cnt) ∧
        bmap.getFreeSlots cnt = (bmap, none) := by
  have hsearch : bmap.findFree cnt bmap.slots 0 0 =
      FirstFit.search bmap.IsFree cnt bmap.slots 0 0 := findFree_eq_search hcnt
  rcases FirstFit.search_spec bmap.IsFree bmap.slots hcnt with ⟨start, hstart, hleast⟩ | ⟨hnone, hnorun⟩
  · refine .inl ⟨start, hleast, ?_⟩
    rw [getFreeSlots, hsearch, hstart]
  · refine .inr ⟨hnorun, ?_⟩
    rw [getFreeSlots, hsearch, hnone]

@[simp] theorem clear_bytesLen (n idx : Nat) (bmap : DoublebitMap) :
    (clear n bmap idx).bytesLen = bmap.bytesLen := by
  induction n generalizing bmap idx with
  | zero => rfl
  | succ n ih => rw [clear, ih, setSlotValue_bytesLen]

theorem clear_status (n idx slot : Nat) (bmap : DoublebitMap) :
    (clear n bmap idx).getSlotStatus slot =
      if idx ≤ slot ∧ slot < idx + n then slotFree else bmap.getSlotStatus slot := by
  induction n generalizing bmap idx with
  | zero => rw [clear, if_neg (by omega)]
  | succ n ih =>
      rw [clear, ih, getSlotStatus_setSlotValue _ _ _ (by decide)]
      split
      next hrest => rw [if_pos (by omega)]
      next hrest =>
        split
        next hfirst => rw [if_pos (by omega)]
        next hfirst => rw [if_neg (by omega)]

theorem WalkEnds.at_end (hwalk : bmap.WalkEnds idx 0) : bmap.getSlotStatus idx = slotSeqEnd :=
  hwalk.last

theorem WalkEnds.at_inner {n : Nat} (hwalk : bmap.WalkEnds idx (n + 1)) :
    bmap.getSlotStatus idx ≠ slotSeqEnd :=
  hwalk.inner 0 (Nat.succ_pos n)

/-- Behind the slot that the walk has freed. -/
theorem WalkEnds.next {n : Nat} (hwalk : bmap.WalkEnds idx (n + 1)) :
    (bmap.setSlotValue idx slotFree).WalkEnds (idx + 1) n := by
  have hsame : ∀ k, (bmap.setSlotValue idx slotFree).getSlotStatus (idx + 1 + k) =
      bmap.getSlotStatus (idx + (k + 1)) := by
    intro k
    rw [getSlotStatus_setSlotValue _ _ _ (by decide), if_neg (by omega), Nat.add_assoc,
      Nat.add_comm 1 k]
  constructor
  · intro k hk
    rw [hsame]
    exact hwalk.inner (k + 1) (Nat.succ_lt_succ hk)
  · rw [hsame]
    exact hwalk.last

/-- The walk frees the slots up to the end mark and counts them. -/
theorem WalkEnds.freeToEnd {fuel n done : Nat} (hwalk : bmap.WalkEnds idx n) (hfuel : n < fuel) :
    freeToEnd fuel bmap idx done = some (clear (n + 1) bmap idx, done + (n + 1)) := by
  induction fuel generalizing bmap idx n done with
  | zero => exact absurd hfuel (Nat.not_lt_zero n)
  | succ fuel ih =>
      rw [DoublebitMap.freeToEnd]
      cases n with
      | zero => rw [if_pos hwalk.at_end, clear, clear]
      | succ n =>
          have hcount : done + 1 + (n + 1) = done + (n + 1 + 1) := by omega
          rw [if_neg hwalk.at_inner, ih hwalk.next (Nat.lt_of_succ_lt_succ hfuel), hcount]
          rfl

/-- The walk from the start of a marked run comes to its end mark. -/
theorem Marked.walkEnds (hmarked : bmap.Marked start cnt) (hcnt : 2 ≤ cnt) :
    bmap.WalkEnds start (cnt - 1) := by
  have hone : cnt ≠ 1 := by omega
  constructor
  · intro k hk
    rw [hmarked k (by omega), mark, if_neg hone, if_neg (c := k + 1 = cnt) (by omega)]
    split <;> decide
  · rw [hmarked (cnt - 1) (by omega), mark, if_neg hone, if_neg (by omega), if_pos (by omega)]

/-- Freeing a marked run clears exactly its slots and returns its length. -/
theorem freeSlots_eq (hcnt : 1 ≤ cnt) (hfits : cnt ≤ bmap.slots) (hmarked : bmap.Marked start cnt) :
    bmap.freeSlots start = some (clear cnt bmap start, cnt) := by
  have hfirst : bmap.getSlotStatus start = mark cnt 0 := hmarked 0 (by omega)
  unfold freeSlots
  by_cases hone : cnt = 1
  · have hsingle : bmap.getSlotStatus start = slotUsedSingle := by
      rw [hfirst, mark, if_pos hone]
    rw [if_pos hsingle, hone, clear, clear]
  · have hstart : bmap.getSlotStatus start = slotSeqStart := by
      rw [hfirst, mark, if_neg hone, if_pos rfl]
    obtain ⟨n, rfl⟩ : ∃ n, cnt = n + 1 := ⟨cnt - 1, by omega⟩
    rw [if_neg (by rw [hstart]; decide), if_neg (by rw [hstart]; exact fun h => h rfl),
      (hmarked.walkEnds (by omega)).freeToEnd (by omega), Nat.add_sub_cancel, Nat.zero_add]

end DoublebitMap

end Shmily.Mm
