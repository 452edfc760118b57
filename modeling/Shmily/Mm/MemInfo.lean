import Mathlib.Data.Set.Card
import Shmily.Foundation.BitFields
import Shmily.Foundation.DigitSums
import Shmily.Lib.Strings
import Shmily.Mm.PageMapping

/-! # The pages in use

`print_mem_info` reads the bitmap of physical pages as an array of words and adds up what
`swar` finds in each of them. Bytes behind the last whole word are left out.
-/

namespace Shmily.Mm

open Foundation BitFields DigitSums Lib Finset

/-! ## One word -/

/-- `swar`. -/
def swar (n : BitVec 32) : BitVec 32 :=
  let n := (n &&& 0x55555555#32) + ((n >>> 1) &&& 0x55555555#32)
  let n := (n &&& 0x33333333#32) + ((n >>> 2) &&& 0x33333333#32)
  let n := (n &&& 0x0f0f0f0f#32) + ((n >>> 4) &&& 0x0f0f0f0f#32)
  (n * 0x01010101#32) >>> 24

/-- One step of `swar`: no sum of two neighbours leaves its pair, and none leaves the word. -/
theorem digitSum_step (width cnt : Nat) {mask : BitVec 32} (hwidth : 0 < width)
    (hmask : mask.toNat = pairMask width cnt) (hfits : (2 ^ (2 * width)) ^ cnt = 2 ^ 32)
    (n : BitVec 32) :
    digitSum (2 ^ (2 * width)) ((n &&& mask) + ((n >>> width) &&& mask)).toNat =
      digitSum (2 ^ width) n.toNat := by
  have hpairs : ((n &&& mask) + ((n >>> width) &&& mask)).toNat = pairSums width cnt n.toNat := by
    have hlt := pairSums_lt hwidth cnt n.toNat
    rw [hfits] at hlt
    rw [BitVec.toNat_add, BitVec.toNat_and, BitVec.toNat_and, BitVec.toNat_ushiftRight, hmask]
    exact Nat.mod_eq_of_lt hlt
  have hn : n.toNat < (2 ^ (2 * width)) ^ cnt := by
    rw [hfits]
    exact n.isLt
  rw [hpairs, digitSum_pairSums hwidth hn]

/-- The product of `swar` adds the four bytes up in the highest one. -/
theorem toNat_top_byte {n : BitVec 32} (hsum : digitSum 256 n.toNat < 256) :
    ((n * 0x01010101#32) >>> 24).toNat = digitSum 256 n.toNat := by
  have htop : (0 + n.toNat) * ones 256 4 % 256 ^ 4 / 256 ^ 3 = 0 + digitSum 256 n.toNat :=
    mul_ones_div (by decide) n.isLt (by rw [Nat.zero_add]; exact hsum)
  have hones : (0x01010101#32).toNat = ones 256 4 := rfl
  rw [Nat.zero_add, Nat.zero_add] at htop
  rw [BitVec.toNat_ushiftRight, BitVec.toNat_mul, hones, Nat.shiftRight_eq_div_pow]
  exact htop

/-- `swar` counts the bits that are set. -/
theorem toNat_swar (n : BitVec 32) :
    (swar n).toNat = ∑ bit ∈ range 32, (n.getLsbD bit).toNat := by
  generalize hpairs : (n &&& 0x55555555#32) + ((n >>> 1) &&& 0x55555555#32) = pairs
  generalize hnibbles : (pairs &&& 0x33333333#32) + ((pairs >>> 2) &&& 0x33333333#32) = nibbles
  generalize hbytes : (nibbles &&& 0x0f0f0f0f#32) + ((nibbles >>> 4) &&& 0x0f0f0f0f#32) = bytes
  have hswar : swar n = (bytes * 0x01010101#32) >>> 24 := by
    rw [← hbytes, ← hnibbles, ← hpairs, swar]
  have hsum : digitSum 256 bytes.toNat = digitSum 2 n.toNat := calc
    digitSum 256 bytes.toNat = digitSum 16 nibbles.toNat :=
      hbytes ▸ digitSum_step 4 4 (by decide) rfl rfl nibbles
    _ = digitSum 4 pairs.toNat := hnibbles ▸ digitSum_step 2 8 (by decide) rfl rfl pairs
    _ = digitSum 2 n.toNat := hpairs ▸ digitSum_step 1 16 (by decide) rfl rfl n
  have hle : digitSum 2 n.toNat ≤ 32 := digitSum_two_le n.isLt
  rw [hswar, toNat_top_byte (by omega), hsum, digitSum_two n.isLt]
  rfl

/-! ## The words of the bitmap -/

/-- `start[i]`. -/
def wordAt (bmap : Bitmap) (i : Nat) : BitVec 32 :=
  joinBytes (bmap.base (4 * i)) (bmap.base (4 * i + 1)) (bmap.base (4 * i + 2))
    (bmap.base (4 * i + 3))

/-- The bits that are set in the first bytes. -/
def setBits (bmap : Bitmap) (bytes : Nat) : Finset Nat :=
  (range (bytes * 8)).filter fun idx => bmap.verifyBit idx = true

/-- `used_pages` of `print_mem_info` after so many rounds of its loop. -/
def usedAfter (bmap : Bitmap) : Nat → BitVec 32
  | 0 => 0
  | i + 1 => usedAfter bmap i + swar (wordAt bmap i)

/-- `used_pages` of `print_mem_info`. -/
def usedPages (bmap : Bitmap) : BitVec 32 := usedAfter bmap (bmap.bytesLen / 4)

variable {bmap : Bitmap} {bit : Nat}

theorem verifyBit_eq_getLsbD (bmap : Bitmap) (byteIdx : Nat) (hbit : bit < 8) :
    bmap.verifyBit (byteIdx * 8 + bit) = (bmap.base byteIdx).getLsbD bit := by
  have hbyte : (byteIdx * 8 + bit) / 8 = byteIdx := by omega
  have hpos : (byteIdx * 8 + bit) % 8 = bit := by omega
  rw [Bitmap.verifyBit, hbyte, hpos]
  exact Bitmap.and_bitMask _ ⟨bit, hbit⟩

theorem getLsbD_wordAt (bmap : Bitmap) (i : Nat) (hbit : bit < 32) :
    (wordAt bmap i).getLsbD bit = bmap.verifyBit (4 * i * 8 + bit) := by
  obtain ⟨low, hlow, hbit⟩ : ∃ low < 8,
      bit = 0 + low ∨ bit = 8 + low ∨ bit = 16 + low ∨ bit = 24 + low :=
    ⟨bit % 8, Nat.mod_lt _ (by decide), by omega⟩
  have hread : ∀ byte, (bmap.base (4 * i + byte)).getLsbD low =
      bmap.verifyBit (4 * i * 8 + (byte * 8 + low)) := fun byte => by
    rw [← verifyBit_eq_getLsbD bmap _ hlow, Nat.add_mul, Nat.add_assoc]
  obtain ⟨hfirst, hsecond, hthird, hfourth⟩ := getLsbD_joinBytes (bmap.base (4 * i))
    (bmap.base (4 * i + 1)) (bmap.base (4 * i + 2)) (bmap.base (4 * i + 3)) hlow
  rcases hbit with rfl | rfl | rfl | rfl
  · exact hfirst.trans (hread 0)
  · exact hsecond.trans (hread 1)
  · exact hthird.trans (hread 2)
  · exact hfourth.trans (hread 3)

theorem card_setBits (bmap : Bitmap) (bytes : Nat) :
    (setBits bmap bytes).card = ∑ idx ∈ range (bytes * 8), (bmap.verifyBit idx).toNat := by
  rw [setBits, card_filter]
  apply sum_congr rfl
  intro idx _
  cases bmap.verifyBit idx <;> rfl

theorem card_setBits_le (bmap : Bitmap) (bytes : Nat) : (setBits bmap bytes).card ≤ bytes * 8 := by
  have hfilter := card_filter_le (range (bytes * 8)) fun idx => bmap.verifyBit idx = true
  rwa [card_range] at hfilter

theorem card_setBits_succ (bmap : Bitmap) (i : Nat) : (setBits bmap (4 * (i + 1))).card =
    (setBits bmap (4 * i)).card + (swar (wordAt bmap i)).toNat := by
  have hword : (swar (wordAt bmap i)).toNat =
      ∑ bit ∈ range 32, (bmap.verifyBit (4 * i * 8 + bit)).toNat := by
    rw [toNat_swar]
    apply sum_congr rfl
    intro bit hbit
    rw [getLsbD_wordAt bmap i (mem_range.mp hbit)]
  have hbits : 4 * (i + 1) * 8 = 4 * i * 8 + 32 := by omega
  rw [card_setBits, card_setBits, hbits, sum_range_add, hword]

/-- After each round of the loop, the sum counts the bits of the words that were passed. -/
theorem usedAfter_eq (bmap : Bitmap) (i : Nat) :
    usedAfter bmap i = BitVec.ofNat 32 (setBits bmap (4 * i)).card := by
  induction i with
  | zero => rfl
  | succ i ih =>
      rw [usedAfter, ih, card_setBits_succ, BitVec.ofNat_add, BitVec.ofNat_toNat,
        BitVec.setWidth_eq]

/-! ## The bitmap of the pool -/

/-- Whatever capacity the constructor finds, its pages are too few for the sum to wrap
around. -/
theorem toNat_usedPages {capacity : Nat}
    (hlength : bmap.bytesLen = subU32 capacity stationaryMem / pageSize / 8) :
    (usedPages bmap).toNat = (setBits bmap (4 * (bmap.bytesLen / 4))).card := by
  have hcount := card_setBits_le bmap (4 * (bmap.bytesLen / 4))
  have hmemory : subU32 capacity stationaryMem < 2 ^ 32 := Nat.mod_lt _ (by decide)
  have hpages : bmap.bytesLen ≤ 2 ^ 17 := by
    rw [hlength, pageSize]
    omega
  rw [usedPages, usedAfter_eq, BitVec.toNat_ofNat, Nat.mod_eq_of_lt (by omega)]

theorem ncard_markedUsed (paging : Paging) :
    {phyaddr | paging.MarkedUsed phyaddr}.ncard =
      (setBits paging.phyaddrBmap paging.phyaddrBmap.bytesLen).card := by
  have himage : {phyaddr | paging.MarkedUsed phyaddr} =
      (setBits paging.phyaddrBmap paging.phyaddrBmap.bytesLen).image
        fun i => paging.phyaddrStart + i * pageSize := by
    ext phyaddr
    simp only [Set.mem_ofPred_eq, Paging.MarkedUsed, setBits, coe_image, coe_filter, mem_range,
      Set.mem_image, and_assoc]
    constructor
    · rintro ⟨i, hi, rfl, hbit⟩
      exact ⟨i, hi, hbit, rfl⟩
    · rintro ⟨i, hi, hbit, rfl⟩
      exact ⟨i, hi, rfl, hbit⟩
  rw [himage, Set.ncard_coe_finset, card_image_of_injective]
  intro i j heq
  exact Nat.eq_of_mul_eq_mul_right (by decide : 0 < pageSize) (Nat.add_left_cancel heq)

/-- The sum is the number of bits that are set in the whole words of the bitmap, whatever the
bitmap holds, and so the number of marked pages if the bitmap is made of whole words. -/
theorem used_pages_counted :
    (∀ bmap : Bitmap,
      usedPages bmap = BitVec.ofNat 32 (setBits bmap (4 * (bmap.bytesLen / 4))).card) ∧
    ∀ (capacity : Nat) (paging : Paging),
      paging.phyaddrBmap.bytesLen = subU32 capacity stationaryMem / pageSize / 8 →
      (usedPages paging.phyaddrBmap).toNat =
        (setBits paging.phyaddrBmap (4 * (paging.phyaddrBmap.bytesLen / 4))).card ∧
      (4 ∣ paging.phyaddrBmap.bytesLen →
        (usedPages paging.phyaddrBmap).toNat = {phyaddr | paging.MarkedUsed phyaddr}.ncard) := by
  refine ⟨fun bmap => usedAfter_eq bmap _, fun capacity paging hlength => ?_⟩
  have hcount := toNat_usedPages hlength
  refine ⟨hcount, fun hwhole => ?_⟩
  rw [hcount, Nat.mul_div_cancel' hwhole, ncard_markedUsed]

/-- The bitmap of four megabytes, in which each byte holds its own number. -/
theorem used_pages_counted_four_megabytes :
    {phyaddr | (Paging.mk ⟨64, BitVec.ofNat 8⟩ stationaryMem (fun _ _ => 0) false).MarkedUsed
      phyaddr}.ncard = 192 := by
  have hcount := (used_pages_counted.2 0x400000
    ⟨⟨64, BitVec.ofNat 8⟩, stationaryMem, fun _ _ => 0, false⟩ rfl).2 ⟨16, rfl⟩
  have hsum : (usedPages ⟨64, BitVec.ofNat 8⟩).toNat = 192 := by decide +kernel
  exact hcount.symm.trans hsum

/-! ## Runs -/

namespace Paging

@[simp] theorem getPhyPage_bytesLen (paging : Paging) :
    paging.getPhyPage.1.phyaddrBmap.bytesLen = paging.phyaddrBmap.bytesLen := by
  rw [getPhyPage]
  split <;> rfl

@[simp] theorem mapVirPhy_bytesLen (paging : Paging) (viraddr phyaddr : Nat) :
    (paging.mapVirPhy viraddr phyaddr).phyaddrBmap.bytesLen = paging.phyaddrBmap.bytesLen := by
  rw [mapVirPhy]
  split
  · split <;> rfl
  · exact getPhyPage_bytesLen paging

theorem mapPages_bytesLen (cnt vaddr : Nat) (paging : Paging) :
    (mapPages cnt vaddr paging).phyaddrBmap.bytesLen = paging.phyaddrBmap.bytesLen := by
  induction cnt generalizing vaddr paging with
  | zero => rfl
  | succ cnt ih => rw [mapPages, ih, mapVirPhy_bytesLen, getPhyPage_bytesLen]

theorem unmapPages_bytesLen (cnt vaddr : Nat) (paging : Paging) :
    (unmapPages cnt vaddr paging).phyaddrBmap.bytesLen = paging.phyaddrBmap.bytesLen := by
  induction cnt generalizing vaddr paging with
  | zero => rfl
  | succ cnt ih =>
      rw [unmapPages, ih]
      rfl

end Paging

namespace MemoryManager

variable {mm after : MemoryManager} {cntBytes addr : Nat}

theorem mallocPage_bytesLen (mm : MemoryManager) (cnt : Nat) :
    (mm.mallocPage cnt).1.paging.phyaddrBmap.bytesLen = mm.paging.phyaddrBmap.bytesLen := by
  have hpaging : (mm.getVirPage cnt).1.paging = mm.paging := by
    rw [getVirPage]
    split <;> rfl
  rw [mallocPage, Paging.mapPages_bytesLen, hpaging]

theorem malloc_bytesLen (hmalloc : mm.malloc cntBytes = some (after, addr)) :
    after.paging.phyaddrBmap.bytesLen = mm.paging.phyaddrBmap.bytesLen := by
  rw [malloc] at hmalloc
  split at hmalloc
  · cases hmalloc
    rfl
  · split at hmalloc
    · cases hmalloc
      exact mallocPage_bytesLen mm _
    · obtain ⟨descIdx, -, hmap⟩ := Option.bind_eq_some_iff.mp hmalloc
      obtain ⟨found, -, hfound⟩ := Option.map_eq_some_iff.mp hmap
      cases found with
      | some page =>
          cases hfound
          rfl
      | none =>
          cases hfound
          exact mallocPage_bytesLen mm 1

theorem freePage_bytesLen (hfree : mm.freePage addr = some after) :
    after.paging.phyaddrBmap.bytesLen = mm.paging.phyaddrBmap.bytesLen := by
  obtain ⟨freed, -, rfl⟩ := Option.map_eq_some_iff.mp hfree
  exact Paging.unmapPages_bytesLen ..

theorem free_bytesLen (hfree : mm.free addr = some after) :
    after.paging.phyaddrBmap.bytesLen = mm.paging.phyaddrBmap.bytesLen := by
  rw [free] at hfree
  split at hfree
  · exact freePage_bytesLen hfree
  · obtain ⟨descIdx, -, hsmall⟩ := Option.bind_eq_some_iff.mp hfree
    dsimp only at hsmall
    split at hsmall
    · have hlength := freePage_bytesLen hsmall
      exact hlength
    · split at hsmall <;> cases hsmall <;> rfl

end MemoryManager

namespace Heap

variable {boot : Boot} {admits : Heap → HeapEvent → Prop} {events : List HeapEvent} {heap : Heap}

theorem step_bytesLen {before after : Heap} {event : HeapEvent}
    (hstep : before.step event = some after) :
    after.mm.paging.phyaddrBmap.bytesLen = before.mm.paging.phyaddrBmap.bytesLen := by
  cases event with
  | malloc cntBytes =>
      obtain ⟨done, hmalloc, rfl⟩ := Option.map_eq_some_iff.mp hstep
      exact MemoryManager.malloc_bytesLen hmalloc
  | free addr =>
      obtain ⟨mm, hfree, rfl⟩ := Option.map_eq_some_iff.mp hstep
      exact MemoryManager.free_bytesLen hfree
  | write block cell first second =>
      cases hstep
      rfl

/-- No request changes the length of the bitmap. -/
theorem run_bytesLen (hrun : Run step admits (initial boot) events heap) :
    heap.mm.paging.phyaddrBmap.bytesLen = boot.bmapLength :=
  hrun.invariant (fun heap => heap.mm.paging.phyaddrBmap.bytesLen = boot.bmapLength) rfl
    fun _ _ _ hbefore _ hstep => (step_bytesLen hstep).trans hbefore

end Heap

/-! ## What is printed -/

/-- The format of `print_mem_info`. -/
def memInfoFormat : List Byte :=
  ['t', 'o', 't', 'o', 'a', 'l', ':', ' ', '%', 'd', 'K', 'B', ' ', ' ', ' ', 'u', 's', 'e', 'd',
    ':', ' ', '%', 'd', 'K', 'B', ' ', ' ', ' ', 'f', 'r', 'e', 'e', ':', ' ', ' ', '%', 'd', 'K',
    'B', '\n'].map ofChar

/-- `MemoryManager::print_mem_info`; `allMem` is what `get_mem_capacity` reads. -/
def MemoryManager.printMemInfo (mm : MemoryManager) (allMem : BitVec 32) : Option (List Byte) :=
  let allUsed := usedPages mm.paging.phyaddrBmap * BitVec.ofNat 32 pageSize
  vsprintf memInfoFormat
    [.int (allMem >>> 10), .int (allUsed >>> 10), .int ((allMem - allUsed) >>> 10)]

theorem toNat_kilobytes (bytes : BitVec 32) : (bytes >>> 10).toNat = bytes.toNat / 1024 := by
  rw [BitVec.toNat_ushiftRight, Nat.shiftRight_eq_div_pow]

/-- The pool ends where the memory ends. -/
theorem Boot.pool_le (boot : Boot) :
    stationaryMem + boot.bmapLength * 8 * pageSize ≤ boot.memCapacity := by
  have hge := boot.capacity_ge
  have hlt := boot.capacity_lt
  simp only [Boot.bmapLength, subU32, pageSize, stationaryMem] at hge ⊢
  omega

/-- The kilobytes of a number of pages, and what they leave. -/
theorem kilobytes_of_pages {capacity pages : Nat} (hcapacity : capacity < 2 ^ 32)
    (hpages : pages * pageSize ≤ capacity) :
    (BitVec.ofNat 32 capacity >>> 10).toNat = capacity / 1024 ∧
      ((BitVec.ofNat 32 pages * BitVec.ofNat 32 pageSize) >>> 10).toNat = 4 * pages ∧
      ((BitVec.ofNat 32 capacity - BitVec.ofNat 32 pages * BitVec.ofNat 32 pageSize) >>> 10).toNat =
        capacity / 1024 - 4 * pages := by
  have hbytes : BitVec.ofNat 32 pages * BitVec.ofNat 32 pageSize =
      BitVec.ofNat 32 (pages * pageSize) := (BitVec.ofNat_mul ..).symm
  have hused : (BitVec.ofNat 32 (pages * pageSize)).toNat = pages * pageSize :=
    Nat.mod_eq_of_lt (Nat.lt_of_le_of_lt hpages hcapacity)
  have hall : (BitVec.ofNat 32 capacity).toNat = capacity := Nat.mod_eq_of_lt hcapacity
  have hle : BitVec.ofNat 32 (pages * pageSize) ≤ BitVec.ofNat 32 capacity := by
    rw [BitVec.le_def, hall, hused]
    exact hpages
  have hpage : pages * pageSize = 1024 * (4 * pages) := by
    rw [pageSize]
    omega
  rw [hbytes, toNat_kilobytes, toNat_kilobytes, toNat_kilobytes, BitVec.toNat_sub_of_le hle, hall,
    hused, hpage, Nat.sub_mul_div, Nat.mul_div_cancel_left _ (by decide)]
  exact ⟨rfl, rfl, rfl⟩

namespace Heap

variable {boot : Boot} {admits : Heap → HeapEvent → Prop} {events : List HeapEvent} {heap : Heap}

/-- In every run, the three numbers that are printed are the kilobytes of the memory, of the
marked pages and of all else. -/
theorem printMemInfo_run (hrun : Run step admits (initial boot) events heap)
    (hwhole : 4 ∣ boot.bmapLength) :
    ∃ total used free : BitVec 32,
      heap.mm.printMemInfo (BitVec.ofNat 32 boot.memCapacity) =
        vsprintf memInfoFormat [.int total, .int used, .int free] ∧
      total.toNat = boot.memCapacity / 1024 ∧
      used.toNat = 4 * {phyaddr | heap.mm.paging.MarkedUsed phyaddr}.ncard ∧
      free.toNat =
        boot.memCapacity / 1024 - 4 * {phyaddr | heap.mm.paging.MarkedUsed phyaddr}.ncard := by
  have hlength := run_bytesLen hrun
  have hcount : usedPages heap.mm.paging.phyaddrBmap =
      BitVec.ofNat 32 {phyaddr | heap.mm.paging.MarkedUsed phyaddr}.ncard := by
    rw [usedPages, usedAfter_eq, ncard_markedUsed, hlength, Nat.mul_div_cancel' hwhole]
  have hpages : {phyaddr | heap.mm.paging.MarkedUsed phyaddr}.ncard * pageSize ≤ boot.memCapacity :=
    calc
      _ ≤ boot.bmapLength * 8 * pageSize := by
        rw [ncard_markedUsed, hlength]
        exact Nat.mul_le_mul_right _ (card_setBits_le ..)
      _ ≤ boot.memCapacity := (Nat.le_add_left ..).trans boot.pool_le
  obtain ⟨htotal, hused, hfree⟩ := kilobytes_of_pages boot.capacity_lt hpages
  refine ⟨_, _, _, ?_, htotal, hused, hfree⟩
  rw [MemoryManager.printMemInfo, hcount]

end Heap

end Shmily.Mm
