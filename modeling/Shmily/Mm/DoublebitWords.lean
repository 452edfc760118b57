import Mathlib.Data.List.Range
import Shmily.Mm.DoublebitMap

/-! # The two-bit map on machine words

`DoublebitMap` indexes with `unsigned int` and counts slots with `int`. The functions here
wrap as these do, and also tell the slots whose byte they read or write. As long as the
slots of the map are numbered by `int`, they do what the functions on numbers do.
-/

namespace Shmily.Mm.DoublebitMap.Words

open Foundation Lib

/-- `idx *= 2` on `unsigned int`. -/
def bitOffset (idx : Nat) : Nat := idx * 2 % 2 ^ 32

/-- The byte of the storage that holds a slot. -/
def byteIdx (idx : Nat) : Nat := bitOffset idx / 8

def bitIdx (idx : Nat) : Nat := bitOffset idx % 8

/-- `DoublebitMap::get_slot_status`. -/
def getSlotStatus (bmap : DoublebitMap) (idx : Nat) : Byte :=
  slotIn (bmap.base (byteIdx idx)) (bitIdx idx)

/-- `DoublebitMap::set_slot_value`. -/
def setSlotValue (bmap : DoublebitMap) (idx : Nat) (val : Byte) : DoublebitMap :=
  { bmap with
    base := Function.update bmap.base (byteIdx idx)
      (setSlotIn (bmap.base (byteIdx idx)) (bitIdx idx) val) }

/-- `memset(dst, val, cnt)`. -/
def memset (dst : Nat → Byte) (val : Byte) (cnt : Nat) : Nat → Byte := fun k =>
  if k < cnt then val else dst k

/-- `DoublebitMap::initialize`, which passes the length to `memset` as the value and zero
as the length. -/
def initializeMap (bytesLen : Nat) (base : Nat → Byte) : DoublebitMap where
  bytesLen := bytesLen
  base := memset base (BitVec.ofNat 8 bytesLen) 0

/-- The loop of `DoublebitMap::sync` over the inner slots of a run. -/
def syncInner (start : Nat) : Nat → Nat → DoublebitMap → DoublebitMap
  | 0, _, bmap => bmap
  | left + 1, i, bmap => syncInner start left (i + 1) (setSlotValue bmap (start + i) slotUsedSingle)

/-- `DoublebitMap::sync`. -/
def sync (bmap : DoublebitMap) (start cnt : Nat) : DoublebitMap :=
  if cnt = 1 then setSlotValue bmap start slotUsedSingle
  else
    let bmap := setSlotValue bmap start slotSeqStart
    let bmap := syncInner start (cnt - 2) 1 bmap
    setSlotValue bmap (start + cnt - 1) slotSeqEnd

/-- The search loop of `get_free_slots`: what it returns, and the slots it reads. -/
def findFree (bmap : DoublebitMap) (cnt : Nat) : Nat → Nat → Nat → Option Nat × List Nat
  | 0, _, _ => (none, [])
  | left + 1, idx, foundCnt =>
      if getSlotStatus bmap idx = slotFree ∧ cnt = 1 then (some idx, [idx])
      else if getSlotStatus bmap idx = slotFree then
        if foundCnt + 1 = cnt then (some (idx + 1 - cnt), [idx])
        else
          let (result, reads) := findFree bmap cnt left (idx + 1) (foundCnt + 1)
          (result, idx :: reads)
      else
        let (result, reads) := findFree bmap cnt left (idx + 1) 0
        (result, idx :: reads)

/-- A slot number as `int`. -/
def toInt (slot : Nat) : Int := if slot < 2 ^ 31 then slot else slot - 2 ^ 32

/-- The number of turns of the search, `bytes_len * 8` on `unsigned int`. -/
def turns (bmap : DoublebitMap) : Nat := bmap.bytesLen * 8 % 2 ^ 32

/-- `DoublebitMap::get_free_slots`, with the slots that it reads and writes. -/
def getFreeSlots (bmap : DoublebitMap) (cnt : Nat) : (DoublebitMap × Int) × List Nat :=
  match findFree bmap cnt (turns bmap) 0 0 with
  | (some start, reads) => ((sync bmap start cnt, toInt start), reads ++ List.range' start cnt)
  | (none, reads) => ((bmap, -1), reads)

/-- The loop of `free_slots`, with the slots that it reads and writes; without a result if
it goes on for ever. After `2 ^ 32` turns it comes back to where it started. -/
def freeToEnd : Nat → DoublebitMap → Nat → Nat → Option (DoublebitMap × Nat) × List Nat
  | 0, _, _, _ => (none, [])
  | fuel + 1, bmap, idx, cnt =>
      if getSlotStatus bmap idx = slotSeqEnd then
        (some (setSlotValue bmap idx slotFree, cnt + 1), [idx])
      else
        let (result, touched) := freeToEnd fuel (setSlotValue bmap idx slotFree) (idx + 1) (cnt + 1)
        (result, idx :: touched)

/-- `DoublebitMap::free_slots`, with the slots that it reads and writes. -/
def freeSlots (bmap : DoublebitMap) (idx : Nat) : Option (DoublebitMap × Nat) × List Nat :=
  if getSlotStatus bmap idx = slotUsedSingle then
    (some (setSlotValue bmap idx slotFree, 1), [idx])
  else if getSlotStatus bmap idx ≠ slotSeqStart then (some (bmap, 0), [idx])
  else freeToEnd (2 ^ 32) bmap idx 0

variable {bmap : DoublebitMap} {start cnt idx : Nat}

theorem syncInner_bytesLen (left i : Nat) :
    (syncInner start left i bmap).bytesLen = bmap.bytesLen := by
  induction left generalizing i bmap with
  | zero => rfl
  | succ left ih => exact ih (i + 1)

theorem sync_bytesLen : (sync bmap start cnt).bytesLen = bmap.bytesLen := by
  unfold sync
  split
  next => rfl
  next => exact syncInner_bytesLen (cnt - 2) 1

theorem getFreeSlots_bytesLen : (getFreeSlots bmap cnt).1.1.bytesLen = bmap.bytesLen := by
  unfold getFreeSlots
  split
  next => exact sync_bytesLen
  next => rfl

theorem freeToEnd_bytesLen {fuel done : Nat} {freed : DoublebitMap × Nat}
    (hfreed : (freeToEnd fuel bmap idx done).1 = some freed) : freed.1.bytesLen = bmap.bytesLen := by
  induction fuel generalizing bmap idx done with
  | zero => cases hfreed
  | succ fuel ih =>
      rw [freeToEnd] at hfreed
      split at hfreed
      next =>
        cases hfreed
        rfl
      next =>
        have hlength := ih hfreed
        exact hlength

theorem freeSlots_bytesLen {freed : DoublebitMap × Nat}
    (hfreed : (freeSlots bmap idx).1 = some freed) : freed.1.bytesLen = bmap.bytesLen := by
  rw [freeSlots] at hfreed
  split at hfreed
  next =>
    cases hfreed
    rfl
  next =>
    split at hfreed
    next =>
      cases hfreed
      rfl
    next => exact freeToEnd_bytesLen hfreed

/-! ### Slots that are numbered by `int` -/

theorem bitOffset_eq (hidx : idx < 2 ^ 31) : bitOffset idx = idx * 2 :=
  Nat.mod_eq_of_lt (by omega)

theorem getSlotStatus_eq (hidx : idx < 2 ^ 31) :
    getSlotStatus bmap idx = bmap.getSlotStatus idx := by
  rw [getSlotStatus, byteIdx, bitIdx, bitOffset_eq hidx, DoublebitMap.getSlotStatus]

theorem setSlotValue_eq (hidx : idx < 2 ^ 31) (val : Byte) :
    setSlotValue bmap idx val = bmap.setSlotValue idx val := by
  rw [setSlotValue, byteIdx, bitIdx, bitOffset_eq hidx, DoublebitMap.setSlotValue]

theorem syncInner_eq {left i : Nat} (hend : start + i + left ≤ 2 ^ 31) :
    syncInner start left i bmap = DoublebitMap.syncInner start left i bmap := by
  induction left generalizing i bmap with
  | zero => rfl
  | succ left ih =>
      rw [syncInner, DoublebitMap.syncInner, setSlotValue_eq (by omega)]
      exact ih (by omega)

theorem sync_eq (hcnt : 1 ≤ cnt) (hend : start + cnt ≤ 2 ^ 31) :
    sync bmap start cnt = bmap.sync start cnt := by
  unfold sync DoublebitMap.sync
  split
  next => rw [setSlotValue_eq (by omega)]
  next hone =>
    simp only
    rw [setSlotValue_eq (by omega), syncInner_eq (by omega), setSlotValue_eq (by omega)]

/-! ### The search -/

/-- The slots that a search may take. -/
abbrev IsFree (bmap : DoublebitMap) : Nat → Prop := fun slot => getSlotStatus bmap slot = slotFree

/-- The special case for one slot makes no difference to the pass. -/
theorem findFree_eq_search {left foundCnt : Nat} (hless : foundCnt < cnt) :
    (findFree bmap cnt left idx foundCnt).1 =
      FirstFit.search (IsFree bmap) cnt left idx foundCnt := by
  induction left generalizing idx foundCnt with
  | zero => rfl
  | succ left ih =>
      rw [findFree, FirstFit.search]
      by_cases hfree : getSlotStatus bmap idx = slotFree
      · rw [if_pos hfree, if_pos hfree]
        by_cases hlast : foundCnt + 1 = cnt
        · rw [if_pos hlast, if_pos hlast]
          split
          next hone => rw [hone.2, Nat.add_sub_cancel]
          next => rfl
        · have hone : ¬ (getSlotStatus bmap idx = slotFree ∧ cnt = 1) := by
            rintro ⟨-, rfl⟩
            omega
          rw [if_neg hone, if_neg hlast, if_neg hlast]
          exact ih (by omega)
      · rw [if_neg fun h => hfree h.1, if_neg hfree, if_neg hfree]
        exact ih (by omega)

/-- The search reads slot after slot, up to the end of the run that it finds. -/
theorem findFree_reads {left foundCnt : Nat} (hfound : foundCnt ≤ idx) :
    ∃ n, (findFree bmap cnt left idx foundCnt).2 = List.range' idx n ∧
      (findFree bmap cnt left idx foundCnt).1.elim (idx + left) (· + cnt) = idx + n := by
  induction left generalizing idx foundCnt with
  | zero => exact ⟨0, rfl, rfl⟩
  | succ left ih =>
      have hlimit : idx + 1 + left = idx + (left + 1) := by omega
      rw [findFree]
      split
      next hone => exact ⟨1, rfl, congrArg (idx + ·) hone.2⟩
      next hone =>
        split
        next hfree =>
          split
          next hlast => exact ⟨1, rfl, Nat.sub_add_cancel (by omega)⟩
          next hlast =>
            obtain ⟨n, hreads, hend⟩ := ih (Nat.succ_le_succ hfound)
            rw [hlimit] at hend
            exact ⟨n + 1, congrArg (idx :: ·) hreads, hend.trans (by omega)⟩
        next hused =>
          obtain ⟨n, hreads, hend⟩ := ih (Nat.zero_le (idx + 1))
          rw [hlimit] at hend
          exact ⟨n + 1, congrArg (idx :: ·) hreads, hend.trans (by omega)⟩

/-- All slots are read when no slots are asked for. -/
theorem findFree_zero {left foundCnt : Nat} : (findFree bmap 0 left idx foundCnt).1 = none := by
  induction left generalizing idx foundCnt with
  | zero => rfl
  | succ left ih =>
      rw [findFree, if_neg (by simp)]
      split
      next =>
        rw [if_neg (Nat.succ_ne_zero foundCnt)]
        exact ih
      next => exact ih

/-- The first run of free slots is taken, or there is none and nothing changes. -/
theorem getFreeSlots_cases (bmap : DoublebitMap) (hcnt : 1 ≤ cnt) :
    (∃ start, IsLeast {start | FirstFit.IsRun (IsFree bmap) (turns bmap) start cnt} start ∧
        getFreeSlots bmap cnt =
          ((sync bmap start cnt, toInt start), List.range (start + cnt) ++ List.range' start cnt)) ∨
      (∀ start, ¬ FirstFit.IsRun (IsFree bmap) (turns bmap) start cnt) ∧
        getFreeSlots bmap cnt = ((bmap, -1), List.range (turns bmap)) := by
  have hsearch : (findFree bmap cnt (turns bmap) 0 0).1 =
      FirstFit.search (IsFree bmap) cnt (turns bmap) 0 0 := findFree_eq_search hcnt
  obtain ⟨n, hreads, hend⟩ :
      ∃ n, (findFree bmap cnt (turns bmap) 0 0).2 = List.range' 0 n ∧
        (findFree bmap cnt (turns bmap) 0 0).1.elim (0 + turns bmap) (· + cnt) = 0 + n :=
    findFree_reads (Nat.zero_le 0)
  rw [Nat.zero_add, Nat.zero_add] at hend
  rw [← List.range_eq_range'] at hreads
  rcases hfound : findFree bmap cnt (turns bmap) 0 0 with ⟨result, reads⟩
  rw [hfound] at hsearch hreads hend
  dsimp only at hsearch hreads hend
  subst hreads
  rcases FirstFit.search_spec (IsFree bmap) (turns bmap) hcnt with
    ⟨start, hstart, hleast⟩ | ⟨hnone, hnorun⟩
  · rw [hstart] at hsearch
    subst hsearch
    refine .inl ⟨start, hleast, ?_⟩
    rw [getFreeSlots, hfound, ← hend]
    rfl
  · rw [hnone] at hsearch
    subst hsearch
    refine .inr ⟨hnorun, ?_⟩
    rw [getFreeSlots, hfound, ← hend]
    rfl

theorem toInt_of_lt {slot : Nat} (hslot : slot < 2 ^ 31) : toInt slot = slot := if_pos hslot

/-- What was returned as `int` is the same number as `unsigned int`. -/
theorem toNat_toInt {slot : Nat} (hslot : slot < 2 ^ 32 - 1) :
    toInt slot ≠ -1 ∧ (toInt slot % 2 ^ 32).toNat = slot := by
  rw [toInt]
  split
  all_goals omega

/-- The search of a map whose slots are numbered by `int` returns the first run, and `-1`
without a change of the map exactly where there is none. -/
theorem getFreeSlots_firstFit (bmap : DoublebitMap) (hslots : bmap.bytesLen * 8 < 2 ^ 31)
    (hcnt : 1 ≤ cnt) :
    (∀ start : Nat, (getFreeSlots bmap cnt).1.2 = start ↔
        IsLeast {start | FirstFit.IsRun (IsFree bmap) (bmap.bytesLen * 8) start cnt} start) ∧
      ((getFreeSlots bmap cnt).1 = (bmap, -1) ↔
        ∀ start, ¬ FirstFit.IsRun (IsFree bmap) (bmap.bytesLen * 8) start cnt) := by
  have hturns : turns bmap = bmap.bytesLen * 8 := Nat.mod_eq_of_lt (by omega)
  have hcases := getFreeSlots_cases bmap hcnt
  rw [hturns] at hcases
  rcases hcases with ⟨first, hleast, hresult⟩ | ⟨hnorun, hresult⟩
  · have hinside := hleast.1.inside
    have hint : toInt first = first := toInt_of_lt (by omega)
    rw [hresult, hint]
    constructor
    · intro start
      rw [Nat.cast_inj]
      constructor
      · rintro rfl
        exact hleast
      · exact fun hstart => hleast.unique hstart
    · refine iff_of_false (fun hfailed => ?_) fun hnorun => hnorun first hleast.1
      have hnegative := congrArg Prod.snd hfailed
      dsimp only at hnegative
      omega
  · rw [hresult]
    refine ⟨fun start => iff_of_false ?_ fun hstart => hnorun start hstart.1, iff_of_true rfl hnorun⟩
    dsimp only
    omega

/-- In a map of four slots to a byte the first two are taken. -/
theorem getFreeSlots_firstFit_three :
    (∀ start : Nat, (getFreeSlots { bytesLen := 1, base := fun _ => 5 } 3).1.2 = start ↔
        IsLeast {start | FirstFit.IsRun (IsFree { bytesLen := 1, base := fun _ => 5 }) (1 * 8)
          start 3} start) ∧
      ((getFreeSlots { bytesLen := 1, base := fun _ => 5 } 3).1 =
          ({ bytesLen := 1, base := fun _ => 5 }, -1) ↔
        ∀ start, ¬ FirstFit.IsRun (IsFree { bytesLen := 1, base := fun _ => 5 }) (1 * 8) start 3) :=
  getFreeSlots_firstFit { bytesLen := 1, base := fun _ => 5 } (by decide) (by decide)

/-! ### What the functions on numbers do -/

/-- Slots are taken as by the search on numbers. -/
theorem getFreeSlots_refines (bmap : DoublebitMap) (hslots : bmap.slots ≤ 2 ^ 31) (hcnt : 1 ≤ cnt) :
    (getFreeSlots bmap cnt).1 =
      ((bmap.getFreeSlots cnt).1, (bmap.getFreeSlots cnt).2.elim (-1) fun start => (start : Int)) := by
  have hturns : turns bmap = bmap.slots := Nat.mod_eq_of_lt (lt_of_le_of_lt hslots (by decide))
  have hsame : ∀ start, FirstFit.IsRun (IsFree bmap) bmap.slots start cnt ↔
      FirstFit.IsRun bmap.IsFree bmap.slots start cnt := by
    intro start
    constructor
    · refine fun hrun => ⟨hrun.inside, fun slot hlow hhigh => ?_⟩
      have hinside := hrun.inside
      rw [DoublebitMap.IsFree, ← getSlotStatus_eq (by omega)]
      exact hrun.free slot hlow hhigh
    · refine fun hrun => ⟨hrun.inside, fun slot hlow hhigh => ?_⟩
      have hinside := hrun.inside
      rw [IsFree, getSlotStatus_eq (by omega)]
      exact hrun.free slot hlow hhigh
  have hcases := getFreeSlots_cases bmap hcnt
  simp only [hturns, hsame] at hcases
  rcases hcases with ⟨start, hleast, hresult⟩ | ⟨hnorun, hresult⟩ <;>
    rcases bmap.getFreeSlots_cases hcnt with ⟨first, hfirst, hnumbers⟩ | ⟨hnone, hnumbers⟩
  · obtain rfl := hfirst.unique hleast
    have hinside := hleast.1.inside
    have hpos : first < 2 ^ 31 := by omega
    rw [hresult, hnumbers, sync_eq hcnt (hinside.trans hslots), toInt_of_lt hpos]
    rfl
  · exact absurd hleast.1 (hnone start)
  · exact absurd hfirst.1 (hnorun first)
  · rw [hresult, hnumbers]
    rfl

/-- The walk frees the slots up to the end mark, and touches no others. -/
theorem freeToEnd_eq {fuel n done : Nat} (hwalk : bmap.WalkEnds idx n) (hlast : idx + n < 2 ^ 31)
    (hfuel : n < fuel) :
    freeToEnd fuel bmap idx done = (some (clear (n + 1) bmap idx, done + (n + 1)), List.range' idx (n + 1)) := by
  induction fuel generalizing bmap idx n done with
  | zero => exact absurd hfuel (Nat.not_lt_zero n)
  | succ fuel ih =>
      have hidx : idx < 2 ^ 31 := by omega
      rw [freeToEnd, getSlotStatus_eq hidx, setSlotValue_eq hidx]
      cases n with
      | zero =>
          rw [if_pos hwalk.at_end]
          rfl
      | succ n =>
          have hcount : done + 1 + (n + 1) = done + (n + 1 + 1) := by omega
          rw [if_neg hwalk.at_inner, ih hwalk.next (by omega) (Nat.lt_of_succ_lt_succ hfuel), hcount]
          rfl

/-- Giving back a run that carries its marks touches its slots and no others. -/
theorem freeSlots_eq (hcnt : 1 ≤ cnt) (hend : start + cnt ≤ 2 ^ 31) (hmarked : bmap.Marked start cnt) :
    freeSlots bmap start = (some (clear cnt bmap start, cnt), List.range' start cnt) := by
  have hfirst : bmap.getSlotStatus start = mark cnt 0 := hmarked 0 (by omega)
  have hstart : start < 2 ^ 31 := by omega
  rw [freeSlots, getSlotStatus_eq hstart, setSlotValue_eq hstart, hfirst]
  by_cases hone : cnt = 1
  · subst hone
    rfl
  · obtain ⟨n, rfl⟩ : ∃ n, cnt = n + 1 := ⟨cnt - 1, by omega⟩
    have hseq : mark (n + 1) 0 = slotSeqStart := by rw [mark, if_neg hone, if_pos rfl]
    have hwalk := hmarked.walkEnds (by omega)
    rw [Nat.add_sub_cancel] at hwalk
    rw [hseq, if_neg (by decide), if_neg (fun hne => hne rfl),
      freeToEnd_eq hwalk (by omega) (by omega), Nat.zero_add]

/-- Giving back a run is the same on numbers. -/
theorem freeSlots_refines (hslots : bmap.slots ≤ 2 ^ 31) (hcnt : 1 ≤ cnt)
    (hinside : start + cnt ≤ bmap.slots) (hmarked : bmap.Marked start cnt) :
    (freeSlots bmap start).1 = bmap.freeSlots start := by
  rw [freeSlots_eq hcnt (by omega) hmarked, DoublebitMap.freeSlots_eq hcnt (by omega) hmarked]

/-! ### Slots that share their bits -/

/-- From `2 ^ 31` on the slots have the bits of the slots from zero on. -/
theorem bitOffset_home (idx : Nat) : bitOffset idx = idx % 2 ^ 31 * 2 := by
  rw [bitOffset]
  omega

theorem getSlotStatus_home (bmap : DoublebitMap) (idx : Nat) :
    getSlotStatus bmap idx = bmap.getSlotStatus (idx % 2 ^ 31) := by
  rw [getSlotStatus, byteIdx, bitIdx, bitOffset_home, DoublebitMap.getSlotStatus]

theorem setSlotValue_home (bmap : DoublebitMap) (idx : Nat) (val : Byte) :
    setSlotValue bmap idx val = bmap.setSlotValue (idx % 2 ^ 31) val := by
  rw [setSlotValue, byteIdx, bitIdx, bitOffset_home, DoublebitMap.setSlotValue]

theorem setSlotValue_status (bmap : DoublebitMap) (idx slot : Nat) {val : Byte} (hval : val < 4) :
    (setSlotValue bmap idx val).getSlotStatus slot =
      if idx % 2 ^ 31 = slot then val else bmap.getSlotStatus slot := by
  rw [setSlotValue_home, getSlotStatus_setSlotValue _ _ _ hval]

variable {bad : Byte} {slot : Nat}

/-- A slot that is written does not keep a value that is not written to it. -/
theorem setSlotValue_ne {val : Byte} (hval : val < 4) (hbad : val ≠ bad)
    (hslot : bmap.getSlotStatus slot ≠ bad ∨ idx % 2 ^ 31 = slot) :
    (setSlotValue bmap idx val).getSlotStatus slot ≠ bad := by
  rw [setSlotValue_status _ _ _ hval]
  split
  next => exact hbad
  next hother => exact hslot.resolve_right hother

theorem syncInner_ne {left i : Nat} (hbad : slotUsedSingle ≠ bad)
    (hslot : bmap.getSlotStatus slot ≠ bad ∨ ∃ k < left, (start + i + k) % 2 ^ 31 = slot) :
    (syncInner start left i bmap).getSlotStatus slot ≠ bad := by
  induction left generalizing i bmap with
  | zero => exact hslot.resolve_right fun ⟨k, hk, _⟩ => Nat.not_lt_zero k hk
  | succ left ih =>
      apply ih
      by_cases hfirst : bmap.getSlotStatus slot ≠ bad ∨ (start + i) % 2 ^ 31 = slot
      · exact .inl (setSlotValue_ne (by decide) hbad hfirst)
      · rw [not_or, not_not] at hfirst
        obtain ⟨k, hk, hhome⟩ := hslot.resolve_left (not_not.mpr hfirst.1)
        have hpos : k ≠ 0 := by
          rintro rfl
          exact hfirst.2 hhome
        refine .inr ⟨k - 1, by omega, ?_⟩
        rw [show start + (i + 1) + (k - 1) = start + i + k by omega]
        exact hhome

/-- No slot of a run is free once the run is marked. -/
theorem sync_ne_free (hcnt : 1 ≤ cnt) {k : Nat} (hk : k < cnt)
    (hhome : (start + k) % 2 ^ 31 = slot) :
    (sync bmap start cnt).getSlotStatus slot ≠ slotFree := by
  unfold sync
  split
  next hone =>
    obtain rfl : k = 0 := by omega
    exact setSlotValue_ne (by decide) (by decide) (.inr hhome)
  next hone =>
    apply setSlotValue_ne (by decide) (by decide)
    by_cases hlast : k + 1 = cnt
    · exact .inr (by rw [← hhome, ← hlast]; rfl)
    · refine .inl (syncInner_ne (by decide) ?_)
      by_cases hfirst : k = 0
      · subst hfirst
        exact .inl (setSlotValue_ne (by decide) (by decide) (.inr hhome))
      · exact .inr ⟨k - 1, by omega, by rwa [show start + 1 + (k - 1) = start + k by omega]⟩

/-- A run that comes around to its first slot loses its start mark. -/
theorem sync_ne_start (hcnt : 2 ^ 31 < cnt) :
    (sync bmap 0 cnt).getSlotStatus 0 ≠ slotSeqStart := by
  unfold sync
  rw [if_neg (by omega)]
  apply setSlotValue_ne (by decide) (by decide)
  by_cases hlast : cnt = 2 ^ 31 + 1
  · exact .inr (by rw [hlast]; decide)
  · exact .inl (syncInner_ne (by decide) (.inr ⟨2 ^ 31 - 1, by omega, by decide⟩))

end Shmily.Mm.DoublebitMap.Words
