import Shmily.Mm.PageTables

/-! # Requests that cannot be served

`get_vir_page` and `get_phy_page` return null when nothing is left, and `malloc_page`, `map_vir_phy`
and `malloc` do not look at it: they go on with the pages at the null pointer. A request leaves
everything as it was when it fails, or ends in pages that were free, exactly in the cases below.
-/

namespace Shmily.Mm

open Foundation Lib MemoryManager

namespace MemoryManager

/-- The whole pages that a request takes, without overflow. -/
def pagesNeeded (mm : MemoryManager) (cntBytes : Nat) : Nat :=
  if cntBytes = 0 then 0
  else if cntBytes > 1024 then (cntBytes + pageSize - 1) / pageSize
  else if (descIdxOf cntBytes).bind mm.findPage = some none then 1 else 0

/-- The first run of free slots, with enough pages of the pool for its pages and page tables. -/
structure Serves (mm : MemoryManager) (cnt start : Nat) : Prop where
  first : IsLeast {start | FirstFit.IsRun mm.vaddrBmap.IsFree mm.vaddrBmap.slots start cnt} start
  frames : cnt + (mm.paging.tablesMissing (pageAddr start) cnt).card ≤
    mm.paging.phyaddrBmap.clearCount

/-- There are slots and pages for a request. -/
def Suffices (mm : MemoryManager) (cntBytes : Nat) : Prop :=
  ∃ start, mm.Serves (mm.pagesNeeded cntBytes) start

/-- The maps, the page table and all memory, with the lists of pages in it, are as they were. -/
structure Unchanged (mm after : MemoryManager) : Prop where
  vaddrBmap : after.vaddrBmap = mm.vaddrBmap
  phyaddrBmap : after.paging.phyaddrBmap = mm.paging.phyaddrBmap
  tables : after.paging.tables = mm.paging.tables
  memory : ∀ cell, 8 ∣ cell → SameAt mm.memory after.memory cell

/-- A request that cannot be served returns null and changes nothing. If a request that can be
served takes pages, then every page of the returned range is a page of the pool that was free. -/
def CleanMalloc (mm : MemoryManager) (cntBytes : Nat) : Prop :=
  ∃ after addr, mm.malloc cntBytes = some (after, addr) ∧
    (¬ mm.Suffices cntBytes → addr = 0 ∧ mm.Unchanged after) ∧
    (mm.Suffices cntBytes → mm.pagesNeeded cntBytes ≠ 0 → ∀ page, page % pageSize = 0 →
      page < addr + cntBytes → addr < page + pageSize →
      ∃ phyaddr, after.paging.translate page = some phyaddr ∧ mm.paging.FreeFrame phyaddr)

/-- A run serves a request, and what is mapped in it already are free pages of the pool. -/
structure ServesAfresh (mm : MemoryManager) (cnt start : Nat) : Prop extends mm.Serves cnt start where
  fresh : ∀ i < cnt, ∀ phyaddr, mm.paging.translate (pageAddr start + i * pageSize) = some phyaddr →
    mm.paging.FreeFrame phyaddr

/-- Nothing is left, and what a request does to the pages at the null pointer is not seen: they
are mapped already, and clear. -/
structure FailsUnseen (mm : MemoryManager) (cnt : Nat) : Prop where
  none_free : ∀ start, ¬ FirstFit.IsRun mm.vaddrBmap.IsFree mm.vaddrBmap.slots start cnt
  full : mm.paging.phyaddrBmap.clearCount = 0
  mapped : ∀ i < cnt, mm.paging.translate (i * pageSize) ≠ none
  clear : ∀ cell, 8 ∣ cell → cell < cnt * pageSize →
    mm.memory.next cell = 0 ∧ mm.memory.prev cell = 0

/-- When `malloc` does what is expected of it: it takes no page, the size overflows, a run serves
it afresh, or it fails unseen. -/
def CleanWhen (mm : MemoryManager) (cntBytes : Nat) : Prop :=
  mm.pagesNeeded cntBytes = 0 ∨ 2 ^ 32 < cntBytes + pageSize ∨
    (∃ start, mm.ServesAfresh (mm.pagesNeeded cntBytes) start) ∨
    cntBytes > 1024 ∧ mm.FailsUnseen (mm.pagesNeeded cntBytes)

variable {mm after : MemoryManager} {cntBytes addr cnt start : Nat}

/-! ## Sizes -/

theorem pageCnt_eq (hlt : cntBytes + pageSize ≤ 2 ^ 32) :
    pageCnt cntBytes = (cntBytes + pageSize - 1) / pageSize := by
  rw [pageCnt, Nat.mod_eq_of_lt (by simp only [pageSize] at hlt ⊢; omega)]

/-- A size in the last page wraps around. -/
theorem pageCnt_wraps (hlt : cntBytes < 2 ^ 32) (hwraps : 2 ^ 32 < cntBytes + pageSize) :
    pageCnt cntBytes = 0 := by
  simp only [pageCnt, pageSize] at hwraps ⊢
  omega

theorem pagesNeeded_large (hlarge : 1024 < cntBytes) :
    mm.pagesNeeded cntBytes = (cntBytes + pageSize - 1) / pageSize := by
  rw [pagesNeeded, if_neg (by omega), if_pos hlarge]

/-- Without pages to take there is nothing to fail. -/
theorem cleanMalloc_of_none (hneed : mm.pagesNeeded cntBytes = 0)
    (hmalloc : mm.malloc cntBytes = some (after, addr)) : mm.CleanMalloc cntBytes := by
  have hsuffices : mm.Suffices cntBytes := by
    rw [Suffices, hneed]
    refine ⟨0, ⟨⟨Nat.zero_le _, fun _ _ hlt => absurd hlt (Nat.not_lt_zero _)⟩,
      fun _ _ => Nat.zero_le _⟩, ?_⟩
    have hnone : mm.paging.tablesMissing (pageAddr 0) 0 = ∅ := by
      ext other
      rw [Paging.mem_tablesMissing]
      exact iff_of_false (fun h => by obtain ⟨-, -, i, hi, -⟩ := h; exact Nat.not_lt_zero i hi)
        (Finset.notMem_empty other)
    rw [hnone]
    exact Nat.zero_le _
  exact ⟨after, addr, hmalloc, fun h => absurd hsuffices h, fun _ h => absurd hneed h⟩

/-! ## A run of free slots is found -/

/-- A request that maps the pages of its range. -/
theorem cleanMalloc_run (htables : mm.paging.TablesOk)
    (hmalloc : mm.malloc cntBytes = some (after, addr)) (hneed : mm.pagesNeeded cntBytes = cnt)
    (hpos : 0 < cnt) (hsize : cntBytes + pageSize ≤ 2 ^ 32)
    (hfirst : IsLeast {start | FirstFit.IsRun mm.vaddrBmap.IsFree mm.vaddrBmap.slots start cnt} start)
    (hend : pageAddr start + cnt * pageSize ≤ 2 ^ 32)
    (hpaging : after.paging = mm.paging.mapPages cnt (pageAddr start)) (haddr : addr ≠ 0)
    (hpages : ∀ page, page % pageSize = 0 → (page < addr + cntBytes ∧ addr < page + pageSize ↔
      ∃ i < cnt, page = pageAddr start + i * pageSize)) :
    mm.CleanMalloc cntBytes ↔ mm.CleanWhen cntBytes := by
  have hserves : ∀ {other}, mm.Serves cnt other → mm.Serves cnt start := by
    intro other hother
    exact hother.first.unique hfirst ▸ hother
  have halign : ∀ i, (pageAddr start + i * pageSize) % pageSize = 0 := by
    intro i
    rw [Nat.add_mul_mod_self_right, pageAddr_mod]
  constructor
  · rintro ⟨after', addr', hmalloc', hfails, hserved⟩
    obtain ⟨rfl, rfl⟩ : after' = after ∧ addr' = addr := by
      rw [hmalloc, Option.some.injEq, Prod.mk.injEq] at hmalloc'
      exact ⟨hmalloc'.1.symm, hmalloc'.2.symm⟩
    have hsuffices : mm.Suffices cntBytes := by
      by_contra hnot
      exact haddr (hfails hnot).1
    rw [Suffices, hneed] at hsuffices
    obtain ⟨other, hother⟩ := hsuffices
    rw [Suffices, hneed] at hserved
    refine .inr (.inr (.inl ⟨start, ?_⟩))
    rw [hneed]
    refine ⟨hserves hother, fun i hi phyaddr htranslate => ?_⟩
    obtain ⟨hlow, hhigh⟩ := (hpages _ (halign i)).mpr ⟨i, hi, rfl⟩
    obtain ⟨phyaddr', hmapped, hfree⟩ :=
      hserved ⟨other, hother⟩ hpos.ne' _ (halign i) hlow hhigh
    -- The entry that was there is still there.
    have hlt : pageAddr start + i * pageSize < 2 ^ 32 := by
      simp only [pageSize] at hend ⊢
      omega
    rw [hpaging, (Paging.keeps_mapPages htables.toPoolOk).translate htables hlt htranslate,
      Option.some.injEq] at hmapped
    exact hmapped ▸ hfree
  · intro hwhen
    have hafresh : mm.ServesAfresh cnt start := by
      rw [CleanWhen, hneed] at hwhen
      rcases hwhen with hzero | hwraps | ⟨other, hother⟩ | ⟨-, hfails⟩
      · exact absurd hzero hpos.ne'
      · exact absurd hsize (Nat.not_le.mpr hwraps)
      · exact hother.first.unique hfirst ▸ hother
      · exact absurd hfirst.1 (hfails.none_free start)
    refine ⟨after, addr, hmalloc, fun hnot => ?_, fun _ _ page hpage hlow hhigh => ?_⟩
    · rw [Suffices, hneed] at hnot
      exact absurd ⟨start, hafresh.toServes⟩ hnot
    · obtain ⟨i, hi, rfl⟩ := (hpages page hpage).mp ⟨hlow, hhigh⟩
      obtain ⟨phyaddr, hmapped, hlands⟩ := (Paging.Extends.refl htables _).mapPages htables
        (pageAddr_mod start) hend hafresh.frames hi
      rw [hpaging]
      exact ⟨phyaddr, hmapped, hlands.elim (hafresh.fresh i hi phyaddr) id⟩

/-! ## No run is found -/

theorem cleanMalloc_failed (hmalloc : mm.malloc cntBytes = some (after, addr))
    (hneed : mm.pagesNeeded cntBytes = cnt)
    (hnone : ∀ start, ¬ FirstFit.IsRun mm.vaddrBmap.IsFree mm.vaddrBmap.slots start cnt) :
    mm.CleanMalloc cntBytes ↔ addr = 0 ∧ mm.Unchanged after := by
  have hnot : ¬ mm.Suffices cntBytes := by
    rw [Suffices, hneed]
    rintro ⟨start, hserves⟩
    exact hnone start hserves.first.1
  constructor
  · rintro ⟨after', addr', hmalloc', hfails, -⟩
    rw [hmalloc, Option.some.injEq, Prod.mk.injEq] at hmalloc'
    rw [hmalloc'.1, hmalloc'.2]
    exact hfails hnot
  · intro hclean
    exact ⟨after, addr, hmalloc, fun _ => hclean, fun h => absurd h hnot⟩

theorem cleanWhen_failed (hneed : mm.pagesNeeded cntBytes = cnt) (hpos : 0 < cnt)
    (hsize : cntBytes + pageSize ≤ 2 ^ 32)
    (hnone : ∀ start, ¬ FirstFit.IsRun mm.vaddrBmap.IsFree mm.vaddrBmap.slots start cnt) :
    mm.CleanWhen cntBytes ↔ 1024 < cntBytes ∧ mm.FailsUnseen cnt := by
  rw [CleanWhen, hneed]
  constructor
  · rintro (hzero | hwraps | ⟨start, hafresh⟩ | hfails)
    · exact absurd hzero hpos.ne'
    · exact absurd hsize (Nat.not_le.mpr hwraps)
    · exact absurd hafresh.first.1 (hnone start)
    · exact hfails
  · exact fun hfails => .inr (.inr (.inr hfails))

/-- The pages at the null pointer are mapped and cleared. -/
theorem unchanged_null (htables : mm.paging.TablesOk) (hpos : 0 < cnt)
    (hend : cnt * pageSize ≤ 2 ^ 32)
    (hnone : ∀ start, ¬ FirstFit.IsRun mm.vaddrBmap.IsFree mm.vaddrBmap.slots start cnt)
    (hmap : after.vaddrBmap = mm.vaddrBmap) (hpaging : after.paging = mm.paging.mapPages cnt 0)
    (hmemory : after.memory = memset mm.memory 0 (cnt * pageSize)) :
    mm.Unchanged after ↔ mm.FailsUnseen cnt := by
  have hfull := fun hzero => @Paging.mapPages_full mm.paging 0 cnt htables hzero
    (by rw [Nat.zero_add]; exact hend)
  simp only [Nat.zero_add] at hfull
  constructor
  · intro hunchanged
    have hbmap := hunchanged.phyaddrBmap
    have htable := hunchanged.tables
    rw [hpaging] at hbmap htable
    have hzero : mm.paging.phyaddrBmap.clearCount = 0 := by
      by_contra hleft
      exact Paging.mapPages_bmap_ne htables.toPoolOk (Nat.pos_of_ne_zero hleft) hpos hbmap
    refine ⟨hnone, hzero, (hfull hzero).mp ⟨hbmap, htable⟩, fun cell hcell hlt => ?_⟩
    obtain ⟨hnext, hprev⟩ := hunchanged.memory cell hcell
    have hin : 0 ≤ cell ∧ cell < 0 + cnt * pageSize := ⟨Nat.zero_le _, by omega⟩
    rw [hmemory, memset] at hnext hprev
    simp only [if_pos hin] at hnext hprev
    exact ⟨hnext.symm, hprev.symm⟩
  · intro hfails
    obtain ⟨hbmap, htable⟩ := (hfull hfails.full).mpr hfails.mapped
    refine ⟨hmap, by rw [hpaging, hbmap], by rw [hpaging, htable], fun cell hcell => ?_⟩
    rw [SameAt, hmemory, memset]
    dsimp only
    split
    next hin =>
      obtain ⟨hnext, hprev⟩ := hfails.clear cell hcell (by omega)
      exact ⟨hnext.symm, hprev.symm⟩
    next => exact ⟨rfl, rfl⟩

/-! ## Whole pages -/

theorem malloc_large (mm : MemoryManager) (hlarge : 1024 < cntBytes) :
    mm.malloc cntBytes = some (mm.mallocLarge cntBytes) := by
  rw [malloc, if_neg (by omega), if_pos hlarge]

theorem cleanMalloc_large (htables : mm.paging.TablesOk) (hstart : mm.vaddrStart = stationaryMem)
    (hroom : pageAddr mm.vaddrBmap.slots ≤ 2 ^ 32) (hlarge : 1024 < cntBytes)
    (hsize : cntBytes + pageSize ≤ 2 ^ 32) :
    mm.CleanMalloc cntBytes ↔ mm.CleanWhen cntBytes := by
  have hcnt := pageCnt_eq hsize
  have hneed : mm.pagesNeeded cntBytes = pageCnt cntBytes := by rw [pagesNeeded_large hlarge, hcnt]
  have hpos : 0 < pageCnt cntBytes := by
    rw [hcnt]
    simp only [pageSize]
    omega
  have hlt : pageCnt cntBytes * pageSize < 2 ^ 32 := by
    rw [hcnt]
    simp only [pageSize] at hsize ⊢
    omega
  have hmalloc := malloc_large mm hlarge
  rcases HeapInv.mallocPage_cases mm hpos with ⟨start, hfirst, hpage⟩ | ⟨hnone, hpage⟩
  · rw [mallocLarge, hpage, hstart] at hmalloc
    have hinside := hfirst.1.inside
    refine cleanMalloc_run htables hmalloc hneed hpos hsize hfirst ?_ rfl ?_ fun page hpage => ?_
    · simp only [pageAddr, pageSize] at hroom ⊢
      omega
    · simp only [stationaryMem]
      omega
    · rw [hcnt]
      simp only [pageAddr, pageSize, stationaryMem] at hpage ⊢
      constructor
      · rintro ⟨hlow, hhigh⟩
        exact ⟨(page - (0x200000 + start * 4096)) / 4096, by omega, by omega⟩
      · rintro ⟨i, hi, rfl⟩
        omega
  · rw [mallocLarge, hpage] at hmalloc
    dsimp only at hmalloc
    rw [Nat.mod_eq_of_lt hlt] at hmalloc
    rw [cleanMalloc_failed hmalloc hneed hnone, cleanWhen_failed hneed hpos hsize hnone,
      and_iff_right rfl, and_iff_right hlarge]
    exact unchanged_null htables hpos hlt.le hnone rfl rfl rfl

/-- A size in the last page takes no page and returns null. -/
theorem cleanMalloc_wraps (hroom : pageAddr mm.vaddrBmap.slots ≤ 2 ^ 32) (hlt : cntBytes < 2 ^ 32)
    (hwraps : 2 ^ 32 < cntBytes + pageSize) : mm.CleanMalloc cntBytes := by
  have hlarge : 1024 < cntBytes := by
    simp only [pageSize] at hwraps
    omega
  have hcnt := pageCnt_wraps hlt hwraps
  have hmalloc := malloc_large mm hlarge
  have hpage : mm.mallocPage 0 = ({ mm with virExhausted := true }, 0) := by
    simp only [mallocPage, getVirPage, DoublebitMap.getFreeSlots_zero, Paging.mapPages]
  rw [mallocLarge, hcnt, hpage, Nat.zero_mul] at hmalloc
  refine (cleanMalloc_failed hmalloc (pagesNeeded_large hlarge) fun start hrun => ?_).mpr ⟨rfl, ?_⟩
  · have hinside := hrun.inside
    simp only [pageAddr, pageSize, stationaryMem] at hroom hwraps hinside
    omega
  · refine ⟨rfl, rfl, rfl, fun cell _ => ?_⟩
    have hout : ¬ (0 ≤ cell ∧ cell < 0 + 0 % 2 ^ 32) := by omega
    simp only [SameAt, memset, if_neg hout, and_self]

end MemoryManager

/-! ## A new page of blocks -/

variable {memory : Memory} {page elem fuel i size first descIdx : Nat}

/-- Blocks behind the first one do not change which one is first. -/
theorem appendBlocks_first (hfirst : memory.next (page + 16) = first)
    (hlast : memory.prev (page + 24) ≠ page + 16) (helem : page + 24 < elem) :
    (appendBlocks page fuel i elem memory).next (page + 16) = first := by
  induction fuel generalizing i elem memory with
  | zero => exact hfirst
  | succ fuel ih =>
      rw [appendBlocks]
      split
      next =>
        apply ih
        · have htail : page + 24 ≠ elem := helem.ne
          have hself : page + 16 ≠ elem := by omega
          simp [CycleList.append, pageInFreeQueue, htail, hself, hlast.symm, hfirst]
        · have hself : elem ≠ page + 16 := by omega
          simpa [CycleList.append, pageInFreeQueue] using hself
        · omega
      next => exact hfirst

/-- The first block of a page lies behind its header. -/
theorem installMemHeader_first (memory : Memory) (halign : page % pageSize = 0)
    (hdesc : descIdx < 7) :
    (installMemHeader memory page (classSize descIdx)).next (page + 16) = page + headerSize := by
  have hcnts : 0 < (4095 + 1 - headerSize) / classSize descIdx := blockCount_pos hdesc
  have hfuel : pageSize = 4095 + 1 := rfl
  rw [installMemHeader, if_neg (by rw [halign]; exact fun h => h rfl), hfuel, appendBlocks]
  rw [if_pos]
  · apply appendBlocks_first
    · simp [CycleList.append, CycleList.initializeList, pageInFreeQueue, setFreeCnts, headerSize]
    · simp [CycleList.append, pageInFreeQueue, headerSize]
    · simp only [headerSize]
      omega
  · simpa [freeCnts, CycleList.initializeList, pageInFreeQueue, setFreeCnts] using hcnts

namespace MemoryManager

variable {mm after : MemoryManager} {cntBytes addr cnt start : Nat} {list : CycleList Nat}

/-- The block that is returned. -/
theorem newBlock_addr (hpage : (mm.mallocPage 1).2 = page) (halign : page % pageSize = 0)
    (hdesc : descIdx < 7) :
    (mm.newBlock list descIdx).2 = if page + 16 = list.head then page else page + headerSize := by
  have hblock := installMemHeader_first (mm.mallocPage 1).1.memory halign hdesc
  rw [classSize] at hblock
  simp only [newBlock, hpage, popBlock, CycleList.pop, CycleList.push, pageInFreeQueue]
  by_cases hhead : page + 16 = list.head
  · rw [if_pos hhead, hhead]
    simp
  · rw [if_neg hhead]
    simp [hhead, hblock]

/-- At the null pointer, when the list of pages lies where the list of the blocks does, a new page
leaves its first block there, or nothing. -/
theorem newBlock_null (hpage : (mm.mallocPage 1).2 = 0) (hhead : list.head = 16)
    (hdesc : descIdx < 7) :
    (mm.newBlock list descIdx).1.memory.next 16 = 0 ∨
      (mm.newBlock list descIdx).1.memory.next 16 = headerSize := by
  have hblock := installMemHeader_first (mm.mallocPage 1).1.memory (Nat.zero_mod pageSize) hdesc
  rw [classSize, Nat.zero_add, Nat.zero_add] at hblock
  have hpopped : (popBlock (list.push (installMemHeader (mm.mallocPage 1).1.memory 0
      (2 <<< (descIdx + 3))) 0) 0).1.next 16 = headerSize := by
    simp [popBlock, CycleList.pop, CycleList.remove, CycleList.push, pageInFreeQueue, setFreeCnts,
      hhead, hblock, headerSize]
  simp only [newBlock, hpage, memset]
  split
  next => exact .inl rfl
  next => exact .inr hpopped

/-- A list of pages starts with a page of the heap, or with its own end. -/
theorem next_head_ne {shape : Shape} (hfollows : Follows mm.memory mm.memDesc shape)
    (hwf : shape.WF mm.vaddrBmap.slots) (hdesc : descIdx < 7)
    (hhead : (mm.desc descIdx).head = 16) :
    mm.memory.next 16 ≠ 0 ∧ mm.memory.next 16 ≠ headerSize := by
  have hholds := hfollows.desc hdesc
  have htail : (mm.desc descIdx).tail = 16 + 8 := by
    rw [← hhead]
    rfl
  have hfirst : mm.memory.next (mm.desc descIdx).head =
      (shape.pages descIdx).headD (mm.desc descIdx).tail := hholds.next_head
  rw [hhead, htail] at hfirst
  rw [hfirst]
  cases hpages : shape.pages descIdx with
  | nil => exact ⟨by decide, by decide⟩
  | cons first others =>
      obtain ⟨slot, rfl, -⟩ := (hwf.mem_pages hdesc).mp (hpages ▸ List.mem_cons_self)
      simp only [List.headD_cons, pageAddr, stationaryMem, headerSize]
      exact ⟨by omega, by omega⟩

/-- At the null pointer a new page of blocks is always seen. -/
theorem newBlock_seen {shape : Shape} (hfollows : Follows mm.memory mm.memDesc shape)
    (hwf : shape.WF mm.vaddrBmap.slots) (hpage : (mm.mallocPage 1).2 = 0) (hdesc : descIdx < 7) :
    ¬ ((mm.newBlock (mm.desc descIdx) descIdx).2 = 0 ∧
      mm.Unchanged (mm.newBlock (mm.desc descIdx) descIdx).1) := by
  rintro ⟨haddr, hunchanged⟩
  rw [newBlock_addr hpage (Nat.zero_mod _) hdesc] at haddr
  have hhead : 16 = (mm.desc descIdx).head := by
    by_contra hne
    rw [if_neg (by rwa [Nat.zero_add])] at haddr
    cases haddr
  obtain ⟨hzero, hheader⟩ := next_head_ne hfollows hwf hdesc hhead.symm
  rw [← (hunchanged.memory 16 (by decide)).1] at hzero hheader
  rcases newBlock_null hpage hhead.symm hdesc with hnull | hnull
  · exact hzero hnull
  · exact hheader hnull

/-! ## Blocks -/

theorem malloc_fresh (hpos : 1 ≤ cntBytes) (hsmall : cntBytes ≤ 1024)
    (hdesc : descIdxOf cntBytes = some descIdx) (hfound : mm.findPage descIdx = some none) :
    mm.pagesNeeded cntBytes = 1 ∧
      mm.malloc cntBytes = some (mm.newBlock (mm.desc descIdx) descIdx) := by
  have hzero : cntBytes ≠ 0 := by omega
  have hlarge : ¬ cntBytes > 1024 := by omega
  rw [pagesNeeded, malloc, mallocSmall, if_neg hzero, if_neg hzero, if_neg hlarge, if_neg hlarge,
    hdesc, Option.bind_some, Option.bind_some, hfound, if_pos rfl]
  exact ⟨rfl, rfl⟩

theorem malloc_reuse (hpos : 1 ≤ cntBytes) (hsmall : cntBytes ≤ 1024)
    (hdesc : descIdxOf cntBytes = some descIdx) (hfound : mm.findPage descIdx = some (some page)) :
    mm.pagesNeeded cntBytes = 0 ∧
      mm.malloc cntBytes = some (mm.reuseBlock (mm.desc descIdx) page) := by
  have hzero : cntBytes ≠ 0 := by omega
  have hlarge : ¬ cntBytes > 1024 := by omega
  rw [pagesNeeded, malloc, mallocSmall, if_neg hzero, if_neg hzero, if_neg hlarge, if_neg hlarge,
    hdesc, Option.bind_some, Option.bind_some, hfound, if_neg (by simp)]
  exact ⟨rfl, rfl⟩

/-- A request that needs a page of blocks. -/
theorem cleanMalloc_fresh {heap : Heap} {shape : Shape} (hinv : HeapInv heap shape)
    (htables : heap.mm.paging.TablesOk) (hpos : 1 ≤ cntBytes) (hsmall : cntBytes ≤ 1024)
    (hlt : descIdx < 7) (hneed : heap.mm.pagesNeeded cntBytes = 1)
    (hmalloc : heap.mm.malloc cntBytes = some (heap.mm.newBlock (heap.mm.desc descIdx) descIdx)) :
    heap.mm.CleanMalloc cntBytes ↔ heap.mm.CleanWhen cntBytes := by
  have hsize : cntBytes + pageSize ≤ 2 ^ 32 := by
    simp only [pageSize]
    omega
  rcases HeapInv.mallocPage_cases heap.mm le_rfl with ⟨start, hfirst, hpage⟩ | ⟨hnone, hpage⟩
  · have haddr : (heap.mm.mallocPage 1).2 = pageAddr start := by rw [hpage, hinv.start_eq, pageAddr]
    have hlist : pageAddr start + 16 ≠ (heap.mm.desc descIdx).head := by
      have hbelow := hinv.below
      simp only [desc, descAt, pageAddr]
      omega
    have hblock := @newBlock_addr _ _ heap.mm (heap.mm.desc descIdx) haddr (pageAddr_mod start) hlt
    rw [if_neg hlist] at hblock
    have hpaging : (heap.mm.newBlock (heap.mm.desc descIdx) descIdx).1.paging =
        heap.mm.paging.mapPages 1 (pageAddr start) := by
      simp only [newBlock, hpage, hinv.start_eq, pageAddr]
    generalize heap.mm.newBlock (heap.mm.desc descIdx) descIdx = done at hmalloc hblock hpaging
    obtain ⟨after, addr⟩ := done
    obtain rfl : addr = pageAddr start + headerSize := hblock
    have hinside := hfirst.1.inside
    have hroom := hinv.room
    refine cleanMalloc_run htables hmalloc hneed Nat.one_pos hsize hfirst ?_ hpaging ?_ ?_
    · simp only [pageAddr, pageSize] at hroom ⊢
      omega
    · simp only [headerSize]
      omega
    · intro page haligned
      simp only [pageAddr, pageSize, stationaryMem, headerSize] at haligned ⊢
      constructor
      · rintro ⟨hlow, hhigh⟩
        exact ⟨0, Nat.one_pos, by omega⟩
      · rintro ⟨i, hi, rfl⟩
        omega
  · have hfails := newBlock_seen hinv.follows hinv.wf (by rw [hpage]) hlt
    rw [cleanMalloc_failed hmalloc hneed hnone,
      cleanWhen_failed hneed Nat.one_pos hsize hnone]
    exact iff_of_false hfails fun h => absurd h.1 (Nat.not_lt.mpr hsmall)

end MemoryManager

namespace Heap

variable {heap : Heap} {boot : Boot} {events : List HeapEvent} {cntBytes : Nat}

/-- The lists hold what they should, and page tables lie in frames that are in use. -/
def Sound (heap : Heap) : Prop :=
  (∃ shape, HeapInv heap shape) ∧ heap.mm.paging.TablesOk

/-- Every run whose requests map cleanly keeps the server sound. -/
theorem run_sound
    (hrun : Run step (fun heap event => heap.Admits event ∧ heap.MapsCleanly event)
      (initial boot) events heap)
    (hroom : heap.NotExhausted) : heap.Sound := by
  obtain ⟨shape, hinv, use, hpages⟩ := run_kept PagingInv.kept ⟨_, initial_paging boot⟩ hrun hroom
  exact ⟨⟨shape, hinv⟩, hpages.tablesOk⟩

/-- A request for `cntBytes` bytes either fails cleanly or ends in pages that were free, if and
only if it takes no page, its size wraps around, a run of slots serves it without meeting an entry
that maps a page in use, or it fails where nothing is left to be seen. -/
theorem malloc_clean_iff (hsound : heap.Sound) (hlt : cntBytes < 2 ^ 32) :
    heap.mm.CleanMalloc cntBytes ↔ heap.mm.CleanWhen cntBytes := by
  obtain ⟨⟨shape, hinv⟩, htables⟩ := hsound
  rcases Nat.eq_zero_or_pos cntBytes with rfl | hpos
  · have hneed : heap.mm.pagesNeeded 0 = 0 := by rw [pagesNeeded, if_pos rfl]
    exact iff_of_true (cleanMalloc_of_none hneed (by rw [malloc, if_pos rfl])) (.inl hneed)
  by_cases hlarge : 1024 < cntBytes
  · by_cases hsize : cntBytes + pageSize ≤ 2 ^ 32
    · exact cleanMalloc_large htables hinv.start_eq hinv.room hlarge hsize
    · rw [Nat.not_le] at hsize
      exact iff_of_true (cleanMalloc_wraps hinv.room hlt hsize) (.inr (.inl hsize))
  · have hsmall := Nat.le_of_not_lt hlarge
    obtain ⟨descIdx, hdescLt, hdesc, -⟩ := descIdxOf_small hsmall
    obtain ⟨found, hfound⟩ : ∃ found, heap.mm.findPage descIdx = some found :=
      ⟨_, hinv.findPage_eq hdescLt⟩
    cases found with
    | some page =>
        obtain ⟨hneed, hmalloc⟩ := malloc_reuse hpos hsmall hdesc hfound
        exact iff_of_true (cleanMalloc_of_none hneed hmalloc) (.inl hneed)
    | none =>
        obtain ⟨hneed, hmalloc⟩ := malloc_fresh hpos hsmall hdesc hfound
        exact cleanMalloc_fresh hinv htables hpos hsmall hdescLt hneed hmalloc

/-- Two pages and a block have been requested; the next two pages are free, and mapped to free
pages already. -/
theorem malloc_clean_third :
    ∃ heap, Run step (fun heap event => heap.Admits event ∧ heap.MapsCleanly event)
        (initial fourMegabytes) [.malloc 5000, .malloc 100] heap ∧ heap.mm.CleanMalloc 5000 := by
  have hseen : (exec step (fun heap event => heap.Admits event ∧ heap.MapsCleanly event)
      (initial fourMegabytes) [.malloc 5000, .malloc 100]).map (fun heap =>
        decide ((heap.mm.virExhausted = false ∧ heap.mm.paging.exhausted = false) ∧
          (heap.mm.vaddrBmap.slots = 512 ∧ ∀ slot < 3, ¬ heap.mm.vaddrBmap.IsFree slot) ∧
          (∀ slot < 5, 3 ≤ slot → heap.mm.vaddrBmap.IsFree slot) ∧
          (∀ i < 2, heap.mm.paging.translate (pageAddr 3 + i * pageSize) =
              some (heap.mm.paging.phyaddrStart + (3 + i) * pageSize) ∧
            3 + i < heap.mm.paging.phyaddrBmap.bytesLen * 8 ∧
            heap.mm.paging.phyaddrBmap.verifyBit (3 + i) = false) ∧
          2 + (heap.mm.paging.tablesMissing (pageAddr 3) 2).card ≤
            heap.mm.paging.phyaddrBmap.clearCount)) = some true := by
    decide +kernel
  obtain ⟨heap, hexec, hfacts⟩ := Option.map_eq_some_iff.mp hseen
  obtain ⟨hroom, ⟨hslots, hused⟩, hfree, hmapped, hframes⟩ := of_decide_eq_true hfacts
  have hrun := Run.of_exec _ _ _ _ hexec
  have hneed : heap.mm.pagesNeeded 5000 = 2 := pagesNeeded_large (by decide)
  refine ⟨heap, hrun, (malloc_clean_iff (run_sound hrun hroom) (by decide)).mpr
    (.inr (.inr (.inl ⟨3, ?_⟩)))⟩
  rw [hneed]
  refine ⟨⟨⟨⟨by rw [hslots]; decide, fun slot hge hlt => hfree slot hlt hge⟩, ?_⟩, hframes⟩, ?_⟩
  · intro start hfirst
    by_contra hlt
    exact hused start (Nat.lt_of_not_le hlt) (hfirst.2 start le_rfl (Nat.lt_add_of_pos_right (by decide)))
  · intro i hi phyaddr htranslate
    obtain ⟨hphyaddr, hlt, hclear⟩ := hmapped i hi
    rw [hphyaddr, Option.some.injEq] at htranslate
    exact ⟨3 + i, hlt, htranslate.symm, hclear⟩

/-- A machine with eight pages of memory for processes. -/
def eightPages : Boot where
  memCapacity := 0x208000
  phyaddrBytes _ := 0
  vaddrBytes _ := 0
  memory := ⟨fun _ => 0, fun _ => 0⟩
  frames _ _ := 0
  memDesc := 0x30000
  capacity_ge := by decide
  capacity_lt := by decide
  memDesc_le := fourMegabytes.memDesc_le
  vaddr_free slot _ := by simp [DoublebitMap.slotIn, DoublebitMap.slotFree]

/-- A request for nine pages returns null, and every page of the pool is marked as used. -/
theorem failed_malloc_marks :
    ¬ ∀ (boot : Boot) (events : List HeapEvent) (heap : Heap) (cntBytes : Nat),
      Run step (fun heap event => heap.Admits event ∧ heap.MapsCleanly event) (initial boot) events
        heap → heap.NotExhausted → cntBytes < 2 ^ 32 → heap.mm.CleanMalloc cntBytes := by
  intro hall
  obtain ⟨after, addr, hmalloc, hfails, -⟩ :=
    hall eightPages [] (initial eightPages) 36864 .nil ⟨rfl, rfl⟩ (by decide)
  have hnot : ¬ (initial eightPages).mm.Suffices 36864 := by
    rintro ⟨start, hserves⟩
    have hinside : start + 9 ≤ 8 := hserves.first.1.inside
    omega
  have hseen : ((initial eightPages).mm.malloc 36864).map
      (fun done => (done.2, done.1.paging.phyaddrBmap.verifyBit 0)) = some (0, true) := by
    decide
  have hbefore : (initial eightPages).mm.paging.phyaddrBmap.verifyBit 0 = false := by decide
  rw [hmalloc, Option.map_some, Option.some.injEq, Prod.mk.injEq, (hfails hnot).2.phyaddrBmap,
    hbefore] at hseen
  exact nomatch hseen.2

end Heap

end Shmily.Mm
