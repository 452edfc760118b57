import Shmily.Foundation.Run
import Shmily.Mm.HeapShape

/-! # The invariant of the heap

Every live allocation is a run of pages of its own or a block of a page of
blocks, every page that is not free belongs to exactly one of them, and the
blocks of a page are divided into the live and the free ones. The invariant is
kept by every request and by every write of a client into its own allocation.
-/

namespace Shmily.Mm

open Foundation Lib MemoryManager

variable {shape : Shape} {memory after : Memory} {slots memDesc slot descIdx start cnt cell : Nat}

/-! ## Sizes -/

/-- The loop ends at the first doubling that reaches the size. -/
theorem descFrom_spec {fuel cntStart bytes : Nat} (hbytes : bytes ≤ cntStart * 2 ^ fuel) :
    ∃ descIdx, descFrom (fuel + 1) cntStart bytes = some descIdx ∧
      bytes ≤ cntStart * 2 ^ descIdx ∧ ∀ less < descIdx, cntStart * 2 ^ less < bytes := by
  induction fuel generalizing cntStart with
  | zero =>
      rw [Nat.pow_zero, Nat.mul_one] at hbytes
      exact ⟨0, by rw [descFrom, if_neg (by omega)], by omega, by omega⟩
  | succ fuel ih =>
      rw [descFrom]
      split
      next hless =>
        obtain ⟨descIdx, hdesc, hsize, hfirst⟩ := ih (by rwa [Nat.mul_assoc, ← Nat.pow_succ'])
        refine ⟨descIdx + 1, by rw [hdesc, Option.map_some], ?_, fun less hlt => ?_⟩
        · rwa [Nat.pow_succ', ← Nat.mul_assoc]
        · cases less with
          | zero => omega
          | succ less =>
              rw [Nat.pow_succ', ← Nat.mul_assoc]
              exact hfirst less (by omega)
      next hless => exact ⟨0, rfl, by omega, by omega⟩

/-- The descriptor of a small request has blocks of at least its size. -/
theorem descIdxOf_small {bytes : Nat} (hbytes : bytes ≤ 1024) :
    ∃ descIdx < 7, descIdxOf bytes = some descIdx ∧ bytes ≤ classSize descIdx := by
  obtain ⟨descIdx, hdesc, hsize, hfirst⟩ :=
    descFrom_spec (show bytes ≤ 16 * 2 ^ 27 by omega)
  refine ⟨descIdx, ?_, hdesc, by rwa [classSize_eq]⟩
  by_contra hge
  have := hfirst 6 (by omega)
  omega

/-- The descriptor of a block size is the one it came from. -/
theorem descIdxOf_classSize (hdesc : descIdx < 7) :
    descIdxOf (classSize descIdx) = some descIdx := by
  have hall : ∀ descIdx : Fin 7, descIdxOf (classSize descIdx) = some descIdx.val := by
    decide
  exact hall ⟨descIdx, hdesc⟩

/-- The pages of a large request hold it, and their size does not overflow. -/
theorem pageCnt_spec {bytes : Nat} (hpos : 1 ≤ bytes) (hlt : bytes < 2 ^ 31) :
    1 ≤ pageCnt bytes ∧ bytes ≤ pageCnt bytes * pageSize ∧
      pageCnt bytes * pageSize < 2 ^ 32 := by
  simp only [pageCnt, pageSize]
  omega

theorem rangeBytes_large {bytes : Nat} (hlarge : 1024 < bytes) :
    Heap.rangeBytes bytes = pageCnt bytes * pageSize := if_pos hlarge

theorem rangeBytes_small {bytes : Nat} (hsmall : bytes ≤ 1024)
    (hdesc : descIdxOf bytes = some descIdx) : Heap.rangeBytes bytes = classSize descIdx := by
  rw [Heap.rangeBytes, if_neg (Nat.not_lt.mpr hsmall), hdesc, Option.getD_some, classSize]

/-! ## Cells that the allocator uses -/

/-- A cell of the manager itself, of a header, or the link of a free block. -/
def Shape.Administers (shape : Shape) (cell : Nat) : Prop :=
  cell < stationaryMem ∨ ∃ slot descIdx, shape.owner slot = .small descIdx ∧
    (pageAddr slot ≤ cell ∧ cell < pageAddr slot + headerSize ∨ cell ∈ shape.queue slot)

/-- Edits of other cells keep all lists. -/
theorem Follows.frame (hfollows : Follows memory memDesc shape) (hwf : shape.WF slots)
    (hbelow : memDesc + 112 ≤ stationaryMem)
    (hsame : ∀ cell, shape.Administers cell → SameAt memory after cell) :
    Follows after memDesc shape where
  desc hdesc := by
    refine (hfollows.desc hdesc).frame fun node hnode => hsame node ?_
    rcases hwf.desc_node hbelow hdesc hnode with ⟨hlow, -⟩ | ⟨slot, hpage, howner⟩
    · exact .inl hlow
    · exact .inr ⟨slot, _, howner, .inl ⟨hpage.ge, by rw [hpage, headerSize]; omega⟩⟩
  header howner := by
    refine (hfollows.header howner).frame ?_ fun node hnode => ?_
    · exact hsame _ (.inr ⟨_, _, howner, .inl (by rw [headerSize]; omega)⟩)
    · refine hsame _ (.inr ⟨_, _, howner, ?_⟩)
      rcases CycleList.mem_nodes.mp hnode with hhead | hblock | htail
      · exact .inl (by rw [hhead, pageInFreeQueue, headerSize]; simp only; omega)
      · exact .inr hblock
      · exact .inl (by rw [htail, pageInFreeQueue, headerSize]; simp only; omega)

theorem Follows.memset (hfollows : Follows memory memDesc shape) (hwf : shape.WF slots)
    (hbelow : memDesc + 112 ≤ stationaryMem) {addr bytes : Nat}
    (hrange : ∀ cell, addr ≤ cell → cell < addr + bytes → ¬ shape.Administers cell) :
    Follows (memset memory addr bytes) memDesc shape := by
  refine hfollows.frame hwf hbelow fun cell hcell => ?_
  have hout : ¬ (addr ≤ cell ∧ cell < addr + bytes) := fun h => hrange cell h.1 h.2 hcell
  simp [SameAt, Mm.memset, hout]

/-- A run of pages of a large allocation holds no such cell. -/
theorem Shape.WF.large_not_administers (hwf : shape.WF slots)
    (howner : ∀ i < cnt, shape.owner (start + i) = .large start)
    (hlow : pageAddr start ≤ cell) (hhigh : cell < pageAddr start + cnt * pageSize) :
    ¬ shape.Administers cell := by
  rintro (hbase | ⟨slot, descIdx, hsmall, hcell⟩)
  · simp only [pageAddr] at hlow
    omega
  · have hpage : pageAddr slot ≤ cell ∧ cell < pageAddr slot + pageSize := by
      rcases hcell with hheader | hblock
      · simp only [headerSize, pageSize] at hheader ⊢
        omega
      · obtain ⟨i, hi, rfl⟩ := hwf.blocks hsmall _ hblock
        have hfits := block_in_page slot hi
        have hpos := classSize_pos descIdx
        simp only [headerSize] at hfits
        omega
    have hslot : ∃ i < cnt, slot = start + i := by
      simp only [pageAddr, pageSize] at hpage hlow hhigh
      exact ⟨slot - start, by omega, by omega⟩
    obtain ⟨i, hi, rfl⟩ := hslot
    rw [howner i hi] at hsmall
    cases hsmall

/-- Nor does a block that is not free. -/
theorem Shape.WF.small_not_administers (hwf : shape.WF slots)
    (howner : shape.owner slot = .small descIdx) {i : Nat} (hi : i < blockCount descIdx)
    (hlive : blockAddr slot descIdx i ∉ shape.queue slot)
    (hlow : blockAddr slot descIdx i ≤ cell)
    (hhigh : cell < blockAddr slot descIdx i + classSize descIdx) : ¬ shape.Administers cell := by
  have hfits := block_in_page slot hi
  rintro (hbase | ⟨other, kind, hsmall, hcell⟩)
  · simp only [pageAddr] at hfits
    omega
  · have hsame : other = slot := by
      have hpage : pageAddr other ≤ cell ∧ cell < pageAddr other + pageSize := by
        rcases hcell with hheader | hblock
        · simp only [headerSize, pageSize] at hheader ⊢
          omega
        · obtain ⟨j, hj, rfl⟩ := hwf.blocks hsmall _ hblock
          have hfits' := block_in_page other hj
          have hpos := classSize_pos kind
          simp only [headerSize] at hfits'
          omega
      simp only [pageAddr, pageSize, headerSize] at hpage hfits
      omega
    subst hsame
    rw [howner, Owner.small.injEq] at hsmall
    subst hsmall
    rcases hcell with hheader | hblock
    · simp only [headerSize] at hheader hfits
      omega
    · obtain ⟨j, hj, rfl⟩ := hwf.blocks howner _ hblock
      have hpos := classSize_pos descIdx
      by_cases heq : i = j
      · subst heq
        exact hlive hblock
      · rcases block_disjoint other descIdx heq with h | h <;> omega

/-! ## The invariant -/

/-- Where an allocation lies: in pages of its own, or in a block. -/
inductive Placed (shape : Shape) (addr cntBytes : Nat) : Prop
  | large {start : Nat} (hlarge : 1024 < cntBytes) (haddr : addr = pageAddr start)
      (howner : ∀ i < pageCnt cntBytes, shape.owner (start + i) = .large start)
  | small {slot descIdx i : Nat} (hsmall : cntBytes ≤ 1024)
      (hdesc : descIdxOf cntBytes = some descIdx) (hi : i < blockCount descIdx)
      (haddr : addr = blockAddr slot descIdx i) (howner : shape.owner slot = .small descIdx)

/-- An allocation stays in place when its own slots do. -/
theorem Placed.mono {addr cntBytes : Nat} {next : Shape} (hplaced : Placed shape addr cntBytes)
    (hlarge : ∀ {slot start}, addr = pageAddr start → shape.owner slot = .large start →
      next.owner slot = .large start)
    (hsmall : ∀ {slot descIdx}, shape.owner slot = .small descIdx →
      next.owner slot = .small descIdx) : Placed next addr cntBytes := by
  cases hplaced with
  | large hbytes haddr howner =>
      exact .large hbytes haddr fun i hi => hlarge haddr (howner i hi)
  | small hbytes hdesc hi haddr howner => exact .small hbytes hdesc hi haddr (hsmall howner)

/-- The heap has the given shape. -/
structure HeapInv (heap : Heap) (shape : Shape) : Prop where
  wf : shape.WF heap.mm.vaddrBmap.slots
  follows : Follows heap.mm.memory heap.mm.memDesc shape
  start_eq : heap.mm.vaddrStart = stationaryMem
  below : heap.mm.memDesc + 112 ≤ stationaryMem
  room : pageAddr heap.mm.vaddrBmap.slots ≤ 2 ^ 32
  free_status : ∀ {slot}, slot < heap.mm.vaddrBmap.slots → shape.owner slot = .free →
    heap.mm.vaddrBmap.getSlotStatus slot = DoublebitMap.slotFree
  small_status : ∀ {slot descIdx}, shape.owner slot = .small descIdx →
    heap.mm.vaddrBmap.getSlotStatus slot = DoublebitMap.slotUsedSingle
  marked : ∀ {start cntBytes}, heap.live (pageAddr start) = some cntBytes →
    heap.mm.vaddrBmap.Marked start (pageCnt cntBytes)
  size : ∀ {addr cntBytes}, heap.live addr = some cntBytes → 1 ≤ cntBytes ∧ cntBytes < 2 ^ 31
  placed : ∀ {addr cntBytes}, heap.live addr = some cntBytes → Placed shape addr cntBytes
  owned : ∀ {slot start}, shape.owner slot = .large start →
    ∃ cntBytes, heap.live (pageAddr start) = some cntBytes ∧ start ≤ slot ∧
      slot < start + pageCnt cntBytes
  split : ∀ {slot descIdx i}, shape.owner slot = .small descIdx → i < blockCount descIdx →
    (blockAddr slot descIdx i ∈ shape.queue slot ↔ heap.live (blockAddr slot descIdx i) = none)

/-- The parts of the manager that no request changes. -/
structure Heap.SameLayout (heap next : Heap) : Prop where
  start_eq : next.mm.vaddrStart = heap.mm.vaddrStart
  desc_eq : next.mm.memDesc = heap.mm.memDesc

namespace HeapInv

variable {heap next : Heap} {addr cntBytes : Nat}

/-- A slot that the map shows as free belongs to nobody. -/
theorem owner_free (hinv : HeapInv heap shape)
    (hstatus : heap.mm.vaddrBmap.getSlotStatus slot = DoublebitMap.slotFree) :
    shape.owner slot = .free := by
  cases howner : shape.owner slot with
  | free => rfl
  | small descIdx =>
      rw [hinv.small_status howner] at hstatus
      exact absurd hstatus (by decide)
  | large start =>
      obtain ⟨cntBytes, hlive, hlow, hhigh⟩ := hinv.owned howner
      have hmark := hinv.marked hlive (slot - start) (by omega)
      rw [Nat.add_sub_cancel' hlow, hstatus] at hmark
      exact absurd hmark.symm (DoublebitMap.mark_ne_free _ _)

/-- An allocation at a page boundary is a run of pages. -/
theorem placed_aligned (hinv : HeapInv heap shape) (hlive : heap.live addr = some cntBytes) :
    addr % pageSize = 0 ↔ 1024 < cntBytes := by
  cases hinv.placed hlive with
  | large hlarge haddr _ => simp [haddr, pageAddr_mod, hlarge]
  | small hsmall _ hi haddr _ =>
      rw [haddr]
      exact iff_of_false (block_mod_ne hi) (Nat.not_lt.mpr hsmall)

theorem placed_page (hinv : HeapInv heap shape) (hlive : heap.live (pageAddr start) = some cntBytes) :
    1024 < cntBytes ∧ ∀ i < pageCnt cntBytes, shape.owner (start + i) = .large start := by
  cases hinv.placed hlive with
  | large hlarge haddr howner =>
      obtain rfl := pageAddr_inj haddr
      exact ⟨hlarge, howner⟩
  | small _ _ hi haddr _ => exact absurd (haddr ▸ pageAddr_mod start) (block_mod_ne hi)

/-- No cell of a live allocation is used by the allocator. -/
theorem live_not_administers (hinv : HeapInv heap shape) (hlive : heap.live addr = some cntBytes)
    (hlow : addr ≤ cell) (hhigh : cell < addr + Heap.rangeBytes cntBytes) :
    ¬ shape.Administers cell := by
  cases hinv.placed hlive with
  | large hlarge haddr howner =>
      subst haddr
      rw [rangeBytes_large hlarge] at hhigh
      exact hinv.wf.large_not_administers howner hlow hhigh
  | small hsmall hdesc hi haddr howner =>
      subst haddr
      rw [rangeBytes_small hsmall hdesc] at hhigh
      refine hinv.wf.small_not_administers howner hi ?_ hlow hhigh
      rw [hinv.split howner hi, hlive]
      simp

/-! ## Whole pages -/

/-- The first run of free slots is taken, or the pages at the null pointer are mapped. -/
theorem mallocPage_cases (mm : MemoryManager) (hcnt : 1 ≤ cnt) :
    (∃ start, IsLeast {start | FirstFit.IsRun mm.vaddrBmap.IsFree mm.vaddrBmap.slots start cnt}
        start ∧ mm.mallocPage cnt =
          ({ mm with
              vaddrBmap := mm.vaddrBmap.sync start cnt
              paging := mm.paging.mapPages cnt (mm.vaddrStart + start * pageSize) },
            mm.vaddrStart + start * pageSize)) ∨
      (∀ start, ¬ FirstFit.IsRun mm.vaddrBmap.IsFree mm.vaddrBmap.slots start cnt) ∧
        mm.mallocPage cnt =
          ({ mm with virExhausted := true, paging := mm.paging.mapPages cnt 0 }, 0) := by
  rcases mm.vaddrBmap.getFreeSlots_cases hcnt with ⟨start, hleast, hfound⟩ | ⟨hnone, hfound⟩
  · refine .inl ⟨start, hleast, ?_⟩
    simp only [mallocPage, getVirPage, hfound]
  · refine .inr ⟨hnone, ?_⟩
    simp only [mallocPage, getVirPage, hfound]

/-- Pages from the map that it showed as free. -/
theorem mallocPage_spec {mm : MemoryManager} (hcnt : 1 ≤ cnt)
    (hroom : (mm.mallocPage cnt).1.virExhausted = false) :
    mm.virExhausted = false ∧ ∃ start, start + cnt ≤ mm.vaddrBmap.slots ∧
      (∀ slot, start ≤ slot → slot < start + cnt →
        mm.vaddrBmap.getSlotStatus slot = DoublebitMap.slotFree) ∧
      mm.mallocPage cnt =
        ({ mm with
            vaddrBmap := mm.vaddrBmap.sync start cnt
            paging := mm.paging.mapPages cnt (mm.vaddrStart + start * pageSize) },
          mm.vaddrStart + start * pageSize) := by
  rcases mallocPage_cases mm hcnt with ⟨start, hleast, heq⟩ | ⟨-, heq⟩
  · rw [heq] at hroom
    exact ⟨hroom, start, hleast.1.inside, hleast.1.free, heq⟩
  · rw [heq] at hroom
    cases hroom

/-- Slots of one owner get another one, and their codes in the map change; the other slots are
as they were. -/
structure Reowns (heap next : Heap) (shape after : Shape) (touched : Nat → Prop) (old : Owner) :
    Prop where
  length : next.mm.vaddrBmap.bytesLen = heap.mm.vaddrBmap.bytesLen
  before : ∀ {slot}, touched slot → shape.owner slot = old
  owner : ∀ {slot}, ¬ touched slot → after.owner slot = shape.owner slot
  status : ∀ {slot}, ¬ touched slot →
    next.mm.vaddrBmap.getSlotStatus slot = heap.mm.vaddrBmap.getSlotStatus slot

section Reowns

variable {after : Shape} {touched : Nat → Prop} {old : Owner}

theorem Reowns.slots_eq (hreowns : Reowns heap next shape after touched old) :
    next.mm.vaddrBmap.slots = heap.mm.vaddrBmap.slots := by
  rw [DoublebitMap.slots, hreowns.length, DoublebitMap.slots]

/-- A slot of another owner is not touched. -/
theorem Reowns.untouched (hreowns : Reowns heap next shape after touched old)
    (hother : shape.owner slot ≠ old) : ¬ touched slot :=
  fun htouched => hother (hreowns.before htouched)

theorem Reowns.free_status (hreowns : Reowns heap next shape after touched old)
    (hinv : HeapInv heap shape)
    (hnew : ∀ {slot}, touched slot → after.owner slot = .free →
      next.mm.vaddrBmap.getSlotStatus slot = DoublebitMap.slotFree)
    (hslot : slot < next.mm.vaddrBmap.slots) (hfree : after.owner slot = .free) :
    next.mm.vaddrBmap.getSlotStatus slot = DoublebitMap.slotFree := by
  by_cases htouched : touched slot
  · exact hnew htouched hfree
  · rw [hreowns.owner htouched] at hfree
    rw [hreowns.status htouched]
    exact hinv.free_status (hreowns.slots_eq ▸ hslot) hfree

theorem Reowns.small_status (hreowns : Reowns heap next shape after touched old)
    (hinv : HeapInv heap shape)
    (hnew : ∀ {slot descIdx}, touched slot → after.owner slot = .small descIdx →
      next.mm.vaddrBmap.getSlotStatus slot = DoublebitMap.slotUsedSingle)
    (hsmall : after.owner slot = .small descIdx) :
    next.mm.vaddrBmap.getSlotStatus slot = DoublebitMap.slotUsedSingle := by
  by_cases htouched : touched slot
  · exact hnew htouched hsmall
  · rw [hreowns.owner htouched] at hsmall
    rw [hreowns.status htouched]
    exact hinv.small_status hsmall

/-- The pages of an allocation that stays keep their codes. -/
theorem Reowns.marked (hreowns : Reowns heap next shape after touched old)
    (hinv : HeapInv heap shape) (hlive : heap.live (pageAddr start) = some cntBytes)
    (hother : Owner.large start ≠ old) : next.mm.vaddrBmap.Marked start (pageCnt cntBytes) := by
  intro offset hoffset
  have howner := (hinv.placed_page hlive).2 offset hoffset
  rw [hreowns.status (hreowns.untouched (howner ▸ hother))]
  exact hinv.marked hlive offset hoffset

/-- An allocation that stays is where it was. -/
theorem Reowns.placed (hreowns : Reowns heap next shape after touched old)
    (hinv : HeapInv heap shape) (hlive : heap.live addr = some cntBytes)
    (hlarge : ∀ {start}, addr = pageAddr start → Owner.large start ≠ old)
    (hsmall : ∀ {descIdx}, Owner.small descIdx ≠ old) : Placed after addr cntBytes := by
  refine (hinv.placed hlive).mono (fun haddr howner => ?_) fun howner => ?_
  · rw [hreowns.owner (hreowns.untouched (howner ▸ hlarge haddr)), howner]
  · rw [hreowns.owner (hreowns.untouched (howner ▸ hsmall)), howner]

end Reowns

/-- What is live after an address was given out or given back. -/
theorem live_cases {here other bytes : Nat} {held : Option Nat}
    (hlives : next.live = Function.update heap.live here held) (hlive : next.live other = some bytes) :
    other = here ∧ held = some bytes ∨ other ≠ here ∧ heap.live other = some bytes := by
  rwa [hlives, Function.update_apply, ite_eq_iff] at hlive

/-- The owner of a run of slots that hold no blocks changes. -/
theorem reowns_run (hlen : next.mm.vaddrBmap.bytesLen = heap.mm.vaddrBmap.bytesLen) {old owner : Owner}
    (hold : ∀ {slot}, start ≤ slot ∧ slot < start + cnt → shape.owner slot = old)
    (hstatus : ∀ {slot}, ¬ (start ≤ slot ∧ slot < start + cnt) →
      next.mm.vaddrBmap.getSlotStatus slot = heap.mm.vaddrBmap.getSlotStatus slot) :
    Reowns heap next shape (shape.setOwners start cnt owner)
      (fun slot => start ≤ slot ∧ slot < start + cnt) old where
  length := hlen
  before := hold
  owner hout := by rw [Shape.setOwners_owner, if_neg hout]
  status := hstatus

/-- A new owner of a run of pages, none of them a page of blocks, leaves the blocks as they are. -/
theorem split_setOwners (hinv : HeapInv heap shape) {owner : Owner} {held : Option Nat} {i : Nat}
    (hold : ∀ slot, start ≤ slot → slot < start + cnt → ∀ {descIdx},
      shape.owner slot ≠ .small descIdx)
    (hnew : ∀ {descIdx}, owner ≠ .small descIdx)
    (hlives : next.live = Function.update heap.live (pageAddr start) held)
    (hsmall : (shape.setOwners start cnt owner).owner slot = .small descIdx)
    (hi : i < blockCount descIdx) :
    blockAddr slot descIdx i ∈ shape.queue slot ↔ next.live (blockAddr slot descIdx i) = none := by
  rw [Shape.small_setOwners hold hnew] at hsmall
  have hne : blockAddr slot descIdx i ≠ pageAddr start :=
    fun heq => block_mod_ne hi (heq ▸ pageAddr_mod start)
  rw [hlives, Function.update_of_ne hne]
  exact hinv.split hsmall hi

/-- Nothing is live in a page that belongs to nobody. -/
theorem live_free_page (hinv : HeapInv heap shape) (hfree : shape.owner start = .free) :
    heap.live (pageAddr start) = none := by
  rw [Option.eq_none_iff_forall_ne_some]
  intro bytes hlive
  have hfirst := (hinv.placed_page hlive).2 0 (pageCnt_spec (hinv.size hlive).1 (hinv.size hlive).2).1
  rw [Nat.add_zero, hfree] at hfirst
  cases hfirst

/-- The pages of the large allocations when one was added. -/
theorem owned_addLarge (hinv : HeapInv heap shape) (hfree : heap.live (pageAddr start) = none)
    (hlives : next.live = Function.update heap.live (pageAddr start) (some cntBytes)) {page first : Nat}
    (howner : (shape.setOwners start (pageCnt cntBytes) (.large start)).owner page = .large first) :
    ∃ bytes, next.live (pageAddr first) = some bytes ∧ first ≤ page ∧ page < first + pageCnt bytes := by
  rw [Shape.setOwners_owner] at howner
  rw [hlives]
  split at howner
  next hrun =>
    rw [Owner.large.injEq] at howner
    subst howner
    exact ⟨cntBytes, Function.update_self .., hrun⟩
  next hrun =>
    obtain ⟨bytes, hlive, hrun'⟩ := hinv.owned howner
    have hne : pageAddr first ≠ pageAddr start := by
      intro heq
      rw [heq, hfree] at hlive
      cases hlive
    exact ⟨bytes, by rw [Function.update_of_ne hne, hlive], hrun'⟩

/-- Free slots become the pages of a new large allocation. -/
theorem addLarge (hinv : HeapInv heap shape) (hlarge : 1024 < cntBytes) (hlt : cntBytes < 2 ^ 31)
    (hend : start + pageCnt cntBytes ≤ heap.mm.vaddrBmap.slots)
    (hfree : ∀ slot, start ≤ slot → slot < start + pageCnt cntBytes →
      heap.mm.vaddrBmap.getSlotStatus slot = DoublebitMap.slotFree)
    (hkept : heap.SameLayout next)
    (hmap : next.mm.vaddrBmap = heap.mm.vaddrBmap.sync start (pageCnt cntBytes))
    (hmemory : next.mm.memory =
      memset heap.mm.memory (pageAddr start) (pageCnt cntBytes * pageSize))
    (hlives : next.live = Function.update heap.live (pageAddr start) (some cntBytes)) :
    HeapInv next (shape.setOwners start (pageCnt cntBytes) (.large start)) := by
  obtain ⟨hcnt, -, -⟩ := pageCnt_spec (by omega : 1 ≤ cntBytes) hlt
  have howner : ∀ {slot}, start ≤ slot ∧ slot < start + pageCnt cntBytes →
      shape.owner slot = .free := fun hrun => hinv.owner_free (hfree _ hrun.1 hrun.2)
  have hold : ∀ slot, start ≤ slot → slot < start + pageCnt cntBytes → ∀ {descIdx},
      shape.owner slot ≠ .small descIdx := by
    intro slot hlow hhigh descIdx
    rw [howner ⟨hlow, hhigh⟩]
    exact Owner.free_ne_small
  have hnew : ∀ {descIdx}, Owner.large start ≠ .small descIdx := Owner.large_ne_small
  have hstatus : ∀ slot, next.mm.vaddrBmap.getSlotStatus slot =
      if start ≤ slot ∧ slot < start + pageCnt cntBytes then
        DoublebitMap.mark (pageCnt cntBytes) (slot - start)
      else heap.mm.vaddrBmap.getSlotStatus slot := by
    intro slot
    rw [hmap, DoublebitMap.sync_status _ _ hcnt]
  have hreowns := @reowns_run _ _ _ _ _ (by rw [hmap, DoublebitMap.sync_bytesLen]) .free (.large start)
    howner fun hout => (hstatus _).trans (if_neg hout)
  have hwf := hinv.wf.setOwners hold hnew fun _ => hend
  constructor
  case wf => rwa [hreowns.slots_eq]
  case follows =>
    rw [hmemory, hkept.desc_eq]
    refine (hinv.follows.setOwners hold hnew).memset hwf hinv.below fun cell hlow hhigh => ?_
    refine hwf.large_not_administers (fun i hi => ?_) hlow hhigh
    rw [Shape.setOwners_owner, if_pos (by omega)]
  case start_eq => exact hkept.start_eq.trans hinv.start_eq
  case below => rw [hkept.desc_eq]; exact hinv.below
  case room => rw [hreowns.slots_eq]; exact hinv.room
  case free_status =>
    refine hreowns.free_status hinv fun hrun hslot => ?_
    rw [Shape.setOwners_owner, if_pos hrun] at hslot
    cases hslot
  case small_status =>
    refine hreowns.small_status hinv fun hrun hslot => ?_
    rw [Shape.setOwners_owner, if_pos hrun] at hslot
    cases hslot
  case marked =>
    intro other bytes hlive
    rcases live_cases hlives hlive with ⟨heq, hheld⟩ | ⟨-, hlive⟩
    · obtain rfl := Option.some.inj hheld
      intro offset hoffset
      rw [pageAddr_inj heq, hstatus, if_pos (by omega), Nat.add_sub_cancel_left]
    · exact hreowns.marked hinv hlive Owner.large_ne_free
  case size =>
    intro other bytes hlive
    rcases live_cases hlives hlive with ⟨-, hheld⟩ | ⟨-, hlive⟩
    · obtain rfl := Option.some.inj hheld
      omega
    · exact hinv.size hlive
  case placed =>
    intro other bytes hlive
    rcases live_cases hlives hlive with ⟨heq, hheld⟩ | ⟨-, hlive⟩
    · obtain rfl := Option.some.inj hheld
      refine .large hlarge heq fun i hi => ?_
      rw [Shape.setOwners_owner, if_pos (by omega)]
    · exact hreowns.placed hinv hlive (fun _ => Owner.large_ne_free) Owner.small_ne_free
  case owned =>
    exact hinv.owned_addLarge (hinv.live_free_page (howner ⟨le_rfl, by omega⟩)) hlives
  case split => exact fun hsmall hi => hinv.split_setOwners hold hnew hlives hsmall hi

/-- The pages of the large allocations when one was given back. -/
theorem owned_dropLarge (hinv : HeapInv heap shape)
    (hlive : heap.live (pageAddr start) = some cntBytes)
    (hlives : next.live = Function.update heap.live (pageAddr start) none) {page first : Nat}
    (howner : (shape.setOwners start (pageCnt cntBytes) .free).owner page = .large first) :
    ∃ bytes, next.live (pageAddr first) = some bytes ∧ first ≤ page ∧ page < first + pageCnt bytes := by
  rw [Shape.setOwners_owner] at howner
  split at howner
  next => cases howner
  next hrun =>
    obtain ⟨bytes, hbytes, hrun'⟩ := hinv.owned howner
    have hne : pageAddr first ≠ pageAddr start := by
      intro heq
      obtain rfl := pageAddr_inj heq
      rw [hlive, Option.some.injEq] at hbytes
      subst hbytes
      exact hrun hrun'
    exact ⟨bytes, by rw [hlives, Function.update_of_ne hne, hbytes], hrun'⟩

/-- The pages of a large allocation become free slots. -/
theorem dropLarge (hinv : HeapInv heap shape)
    (hlive : heap.live (pageAddr start) = some cntBytes) (hkept : heap.SameLayout next)
    (hlen : next.mm.vaddrBmap.bytesLen = heap.mm.vaddrBmap.bytesLen)
    (hstatus : ∀ slot, next.mm.vaddrBmap.getSlotStatus slot =
      if start ≤ slot ∧ slot < start + pageCnt cntBytes then DoublebitMap.slotFree
      else heap.mm.vaddrBmap.getSlotStatus slot)
    (hmemory : next.mm.memory = heap.mm.memory)
    (hlives : next.live = Function.update heap.live (pageAddr start) none) :
    HeapInv next (shape.setOwners start (pageCnt cntBytes) .free) := by
  have howner : ∀ {slot}, start ≤ slot ∧ slot < start + pageCnt cntBytes →
      shape.owner slot = .large start := by
    intro slot hrun
    have hpage := (hinv.placed_page hlive).2 (slot - start) (by omega)
    rwa [Nat.add_sub_cancel' hrun.1] at hpage
  have hold : ∀ slot, start ≤ slot → slot < start + pageCnt cntBytes → ∀ {descIdx},
      shape.owner slot ≠ .small descIdx := by
    intro slot hlow hhigh descIdx
    rw [howner ⟨hlow, hhigh⟩]
    exact Owner.large_ne_small
  have hnew : ∀ {descIdx}, Owner.free ≠ .small descIdx := Owner.free_ne_small
  have hreowns := @reowns_run _ _ _ _ _ hlen (.large start) .free
    howner fun hout => (hstatus _).trans (if_neg hout)
  have hother : ∀ {addr bytes}, next.live addr = some bytes →
      addr ≠ pageAddr start ∧ heap.live addr = some bytes := by
    intro addr bytes hbytes
    rcases live_cases hlives hbytes with ⟨-, hheld⟩ | hbytes
    · cases hheld
    · exact hbytes
  have hstays : ∀ {first}, pageAddr first ≠ pageAddr start → Owner.large first ≠ .large start := by
    intro first hne heq
    rw [Owner.large.injEq] at heq
    exact hne (congrArg pageAddr heq)
  constructor
  case wf =>
    rw [hreowns.slots_eq]
    exact hinv.wf.setOwners hold hnew fun h => absurd rfl h
  case follows =>
    rw [hmemory, hkept.desc_eq]
    exact hinv.follows.setOwners hold hnew
  case start_eq => exact hkept.start_eq.trans hinv.start_eq
  case below => rw [hkept.desc_eq]; exact hinv.below
  case room => rw [hreowns.slots_eq]; exact hinv.room
  case free_status => exact hreowns.free_status hinv fun hrun _ => (hstatus _).trans (if_pos hrun)
  case small_status =>
    refine hreowns.small_status hinv fun hrun hslot => ?_
    rw [Shape.setOwners_owner, if_pos hrun] at hslot
    cases hslot
  case marked => exact fun hbytes => hreowns.marked hinv (hother hbytes).2 (hstays (hother hbytes).1)
  case size => exact fun hbytes => hinv.size (hother hbytes).2
  case placed =>
    intro addr bytes hbytes
    obtain ⟨hne, hbytes⟩ := hother hbytes
    refine hreowns.placed hinv hbytes (fun haddr => hstays ?_) Owner.large_ne_small.symm
    rwa [← haddr]
  case owned => exact hinv.owned_dropLarge hlive hlives
  case split => exact fun hsmall hi => hinv.split_setOwners hold hnew hlives hsmall hi

/-! ## Blocks -/

/-- A block of a page goes from the free to the live ones, or back; the order of
the page in its list may change. -/
theorem setBlock (hinv : HeapInv heap shape) {nextShape : Shape} {i : Nat} {held : Option Nat}
    (howner : shape.owner slot = .small descIdx) (hi : i < blockCount descIdx)
    (hheld : ∀ {bytes}, held = some bytes →
      1 ≤ bytes ∧ bytes ≤ 1024 ∧ descIdxOf bytes = some descIdx)
    (hkept : heap.SameLayout next) (hmap : next.mm.vaddrBmap = heap.mm.vaddrBmap)
    (hlives : next.live = Function.update heap.live (blockAddr slot descIdx i) held)
    (howners : nextShape.owner = shape.owner)
    (hqueues : ∀ other, other ≠ slot → nextShape.queue other = shape.queue other)
    (hblock : blockAddr slot descIdx i ∈ nextShape.queue slot ↔ held = none)
    (hothers : ∀ block, block ≠ blockAddr slot descIdx i →
      (block ∈ nextShape.queue slot ↔ block ∈ shape.queue slot))
    (hwf : nextShape.WF heap.mm.vaddrBmap.slots)
    (hfollows : Follows next.mm.memory heap.mm.memDesc nextShape) : HeapInv next nextShape := by
  have hpage : ∀ {start}, next.live (pageAddr start) = heap.live (pageAddr start) := by
    intro start
    have hne : pageAddr start ≠ blockAddr slot descIdx i :=
      fun heq => block_mod_ne hi (heq ▸ pageAddr_mod start)
    rw [hlives, Function.update_of_ne hne]
  constructor
  case wf => rwa [hmap]
  case follows => rwa [hkept.desc_eq]
  case start_eq => exact hkept.start_eq.trans hinv.start_eq
  case below => rw [hkept.desc_eq]; exact hinv.below
  case room => rw [hmap]; exact hinv.room
  case free_status => rw [hmap, howners]; exact hinv.free_status
  case small_status => rw [hmap, howners]; exact hinv.small_status
  case marked =>
    intro start bytes hbytes
    rw [hpage] at hbytes
    rw [hmap]
    exact hinv.marked hbytes
  case size =>
    intro addr bytes hbytes
    rcases live_cases hlives hbytes with ⟨-, hbytes⟩ | ⟨-, hbytes⟩
    · have := hheld hbytes
      omega
    · exact hinv.size hbytes
  case placed =>
    intro addr bytes hbytes
    rcases live_cases hlives hbytes with ⟨heq, hbytes⟩ | ⟨-, hbytes⟩
    · obtain ⟨-, hsmall, hdesc⟩ := hheld hbytes
      exact .small hsmall hdesc hi heq (by rw [howners, howner])
    · exact (hinv.placed hbytes).mono (fun _ h => by rw [howners, h]) fun h => by rw [howners, h]
  case owned =>
    intro other start hother
    rw [howners] at hother
    rw [hpage]
    exact hinv.owned hother
  case split =>
    intro other kind j hother hj
    rw [howners] at hother
    rw [hlives]
    by_cases hslot : other = slot
    · subst hslot
      rw [howner, Owner.small.injEq] at hother
      subst hother
      by_cases heq : j = i
      · subst heq
        rw [Function.update_self, hblock]
      · have hne : blockAddr other descIdx j ≠ blockAddr other descIdx i :=
          fun h => heq (block_index_inj h)
        rw [Function.update_of_ne hne, hothers _ hne]
        exact hinv.split howner hj
    · have hne : blockAddr other kind j ≠ blockAddr slot descIdx i :=
        fun h => hslot (block_slot_inj hj hi h)
      rw [Function.update_of_ne hne, hqueues other hslot]
      exact hinv.split hother hj

/-- All blocks of a new page are free. -/
theorem split_addPage (hinv : HeapInv heap shape) (hfree : shape.owner slot = .free)
    {page kind i : Nat}
    (howner : (shape.addPage slot descIdx (allBlocks slot descIdx (blockCount descIdx))).owner page =
      .small kind) (hi : i < blockCount kind) :
    blockAddr page kind i ∈
        (shape.addPage slot descIdx (allBlocks slot descIdx (blockCount descIdx))).queue page ↔
      heap.live (blockAddr page kind i) = none := by
  rw [Shape.addPage_queue]
  by_cases heq : page = slot
  · subst heq
    rw [Shape.addPage_owner, Function.update_self, Owner.small.injEq] at howner
    subst howner
    rw [Function.update_self]
    apply iff_of_true (List.mem_map_of_mem (List.mem_range.mpr hi))
    -- A live block here would give the slot an owner.
    rw [Option.eq_none_iff_forall_ne_some]
    intro bytes hlive
    cases hinv.placed hlive with
    | large _ haddr _ => exact block_mod_ne hi (haddr ▸ pageAddr_mod _)
    | small _ _ hj haddr hold =>
        rw [← block_slot_inj hi hj haddr, hfree] at hold
        cases hold
  · rw [Shape.addPage_owner, Function.update_of_ne heq] at howner
    rw [Function.update_of_ne heq]
    exact hinv.split howner hi

/-- A free slot becomes a page of free blocks. -/
theorem addPage (hinv : HeapInv heap shape) (hslot : slot < heap.mm.vaddrBmap.slots)
    (hdesc : descIdx < 7)
    (hfree : heap.mm.vaddrBmap.getSlotStatus slot = DoublebitMap.slotFree)
    (hkept : heap.SameLayout next) (hmap : next.mm.vaddrBmap = heap.mm.vaddrBmap.sync slot 1)
    (hlives : next.live = heap.live)
    (hfollows : Follows next.mm.memory heap.mm.memDesc
      (shape.addPage slot descIdx (allBlocks slot descIdx (blockCount descIdx)))) :
    HeapInv next (shape.addPage slot descIdx (allBlocks slot descIdx (blockCount descIdx))) := by
  have howner := hinv.owner_free hfree
  have hstatus : ∀ other, next.mm.vaddrBmap.getSlotStatus other =
      if other = slot then DoublebitMap.slotUsedSingle
      else heap.mm.vaddrBmap.getSlotStatus other := by
    intro other
    rw [hmap, DoublebitMap.sync_status _ _ le_rfl]
    refine if_congr (by omega) ?_ rfl
    rw [DoublebitMap.mark, if_pos rfl]
  have hreowns : Reowns heap next shape
      (shape.addPage slot descIdx (allBlocks slot descIdx (blockCount descIdx))) (· = slot)
      .free := by
    constructor
    case length => rw [hmap, DoublebitMap.sync_bytesLen]
    case before => exact fun h => h ▸ howner
    case owner => exact fun hne => by rw [Shape.addPage_owner, Function.update_of_ne hne]
    case status => exact fun hne => (hstatus _).trans (if_neg hne)
  constructor
  case wf =>
    rw [hreowns.slots_eq]
    exact hinv.wf.addPage hslot hdesc howner (allBlocks_areBlocks le_rfl)
  case follows => rwa [hkept.desc_eq]
  case start_eq => exact hkept.start_eq.trans hinv.start_eq
  case below => rw [hkept.desc_eq]; exact hinv.below
  case room => rw [hreowns.slots_eq]; exact hinv.room
  case free_status =>
    refine hreowns.free_status hinv fun heq hother => ?_
    rw [Shape.addPage_owner, heq, Function.update_self] at hother
    cases hother
  case small_status => exact hreowns.small_status hinv fun heq _ => (hstatus _).trans (if_pos heq)
  case marked =>
    intro start bytes hlive
    rw [hlives] at hlive
    exact hreowns.marked hinv hlive Owner.large_ne_free
  case size => rw [hlives]; exact hinv.size
  case placed =>
    intro addr bytes hlive
    rw [hlives] at hlive
    exact hreowns.placed hinv hlive (fun _ => Owner.large_ne_free) Owner.small_ne_free
  case owned =>
    intro other start hother
    by_cases heq : other = slot
    · rw [Shape.addPage_owner, heq, Function.update_self] at hother
      cases hother
    · rw [hreowns.owner heq] at hother
      rw [hlives]
      exact hinv.owned hother
  case split =>
    rw [hlives]
    exact hinv.split_addPage howner

/-- A client writes a cell of its allocation. -/
theorem write (hinv : HeapInv heap shape) {block first second : Nat}
    (hlive : heap.live block = some cntBytes) (hlow : block ≤ cell)
    (hhigh : cell + 8 ≤ block + Heap.rangeBytes cntBytes) (hkept : heap.SameLayout next)
    (hmap : next.mm.vaddrBmap = heap.mm.vaddrBmap)
    (hmemory : next.mm.memory = (heap.mm.memory.setPrev cell first).setNext cell second)
    (hlives : next.live = heap.live) : HeapInv next shape := by
  have hfollows : Follows next.mm.memory heap.mm.memDesc shape := by
    refine hinv.follows.frame hinv.wf hinv.below fun other hother => ?_
    have hne : other ≠ cell := by
      rintro rfl
      exact hinv.live_not_administers hlive hlow (by omega) hother
    simp [SameAt, hmemory, hne]
  constructor
  case wf => rw [hmap]; exact hinv.wf
  case follows => rwa [hkept.desc_eq]
  case start_eq => exact hkept.start_eq.trans hinv.start_eq
  case below => rw [hkept.desc_eq]; exact hinv.below
  case room => rw [hmap]; exact hinv.room
  case free_status => rw [hmap]; exact hinv.free_status
  case small_status => rw [hmap]; exact hinv.small_status
  case marked => rw [hmap, hlives]; exact hinv.marked
  case size => rw [hlives]; exact hinv.size
  case placed => rw [hlives]; exact hinv.placed
  case owned => rw [hlives]; exact hinv.owned
  case split => rw [hlives]; exact hinv.split

end HeapInv

end Shmily.Mm
