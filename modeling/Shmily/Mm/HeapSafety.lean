import Mathlib.Data.Set.Lattice
import Mathlib.Order.CompletePartialOrder
import Mathlib.Order.Interval.Set.Basic
import Shmily.Mm.HeapInvariant
import Shmily.Mm.DoublebitWords

/-! # Live allocations are disjoint

What a request does to the shape of the heap. Requests never fail to return, a
new allocation takes memory that nobody holds, and a freed one gives back
exactly its own range.
-/

namespace Shmily.Mm

open Foundation Lib MemoryManager

/-- The addresses of an allocation. -/
def Heap.range (addr cntBytes : Nat) : Set Nat := Set.Ico addr (addr + rangeBytes cntBytes)

namespace MemoryManager

/-- A page of small blocks: a member of one of the seven lists. -/
def SmallPage (mm : MemoryManager) (page : Nat) : Prop :=
  ∃ descIdx < 7, ∃ pages, (mm.desc descIdx).Holds mm.memory pages ∧ page ∈ pages

/-- The addresses that a later request can be given: pages whose slot is free, and
free blocks of the pages of small blocks. -/
def Available (mm : MemoryManager) : Set Nat :=
  { cell | (∃ slot < mm.vaddrBmap.slots,
        mm.vaddrBmap.getSlotStatus slot = DoublebitMap.slotFree ∧
        mm.vaddrStart + slot * pageSize ≤ cell ∧
        cell < mm.vaddrStart + slot * pageSize + pageSize) ∨
      ∃ page queue, mm.SmallPage page ∧ (pageInFreeQueue page).Holds mm.memory queue ∧
        ∃ block ∈ queue, block ≤ cell ∧ cell < block + eachBlockSize mm.memory page }

end MemoryManager

namespace Shape

/-- What a `malloc` that returns an address does to the shape: it takes free slots, a free
block, the last free block of a page, or the first block of a new page. -/
inductive Takes (shape : Shape) (cntBytes : Nat) : Nat → Shape → Prop
  | large {start : Nat} (hlarge : 1024 < cntBytes)
      (hfree : ∀ slot, start ≤ slot → slot < start + pageCnt cntBytes → shape.owner slot = .free) :
      Takes shape cntBytes (pageAddr start) (shape.setOwners start (pageCnt cntBytes) (.large start))
  | reuse {slot descIdx block : Nat} {rest : List Nat} (hsmall : cntBytes ≤ 1024)
      (howner : shape.owner slot = .small descIdx) (hqueue : shape.queue slot = block :: rest)
      (hleft : rest ≠ []) : Takes shape cntBytes block (shape.setQueue slot rest)
  | fill {slot descIdx block : Nat} {others : List Nat} (hsmall : cntBytes ≤ 1024)
      (howner : shape.owner slot = .small descIdx)
      (hpages : shape.pages descIdx = pageAddr slot :: others) (hqueue : shape.queue slot = [block]) :
      Takes shape cntBytes block
        ((shape.setQueue slot []).setPages descIdx (others ++ [pageAddr slot]))
  | fresh {slot descIdx block : Nat} {rest : List Nat} (hsmall : cntBytes ≤ 1024)
      (hdesc : descIdx < 7) (hfree : shape.owner slot = .free)
      (hqueue : allBlocks slot descIdx (blockCount descIdx) = block :: rest) :
      Takes shape cntBytes block
        ((shape.addPage slot descIdx (allBlocks slot descIdx (blockCount descIdx))).setQueue slot rest)

/-- What a `free` of an allocation does to the shape. -/
inductive Gives (shape : Shape) : Nat → Shape → Prop
  | large {start cnt : Nat} (howner : ∀ i < cnt, shape.owner (start + i) = .large start) :
      Gives shape (pageAddr start) (shape.setOwners start cnt .free)
  | small {slot descIdx i : Nat} (howner : shape.owner slot = .small descIdx)
      (hi : i < blockCount descIdx) :
      Gives shape (blockAddr slot descIdx i)
        (shape.setQueue slot (shape.queue slot ++ [blockAddr slot descIdx i]))

/-- What an event does to the shape. -/
inductive Steps (shape : Shape) : HeapEvent → Shape → Prop
  | malloc {cntBytes addr : Nat} {next : Shape} (htakes : shape.Takes cntBytes addr next) :
      Steps shape (.malloc cntBytes) next
  | free {addr : Nat} {next : Shape} (hgives : shape.Gives addr next) : Steps shape (.free addr) next
  | write {block cell first second : Nat} : Steps shape (.write block cell first second) shape

end Shape

namespace HeapInv

variable {heap : Heap} {shape : Shape} {slot descIdx start cnt cell addr other cntBytes : Nat}

/-! ## Cells and their owners -/

/-- A cell of a live allocation lies in a page of its own, or in its block. -/
theorem live_cell (hinv : HeapInv heap shape) (hlive : heap.live addr = some cntBytes)
    (hcell : cell ∈ Heap.range addr cntBytes) :
    (∃ slot start, pageAddr slot ≤ cell ∧ cell < pageAddr slot + pageSize ∧
        shape.owner slot = .large start ∧ addr = pageAddr start) ∨
      ∃ slot descIdx i, shape.owner slot = .small descIdx ∧ i < blockCount descIdx ∧
        addr = blockAddr slot descIdx i ∧ addr ≤ cell ∧ cell < addr + classSize descIdx := by
  obtain ⟨hlow, hhigh⟩ := hcell
  cases hinv.placed hlive with
  | @large start hlarge haddr howner =>
      subst haddr
      rw [rangeBytes_large hlarge] at hhigh
      obtain ⟨i, hi, hpage, hend⟩ : ∃ i < pageCnt cntBytes, pageAddr (start + i) ≤ cell ∧
          cell < pageAddr (start + i) + pageSize := by
        simp only [pageAddr_add, pageSize] at hhigh ⊢
        exact ⟨(cell - pageAddr start) / 4096, by omega, by omega, by omega⟩
      exact .inl ⟨start + i, start, hpage, hend, howner i hi, rfl⟩
  | small hsmall hdesc hi haddr howner =>
      rw [rangeBytes_small hsmall hdesc] at hhigh
      exact .inr ⟨_, _, _, howner, hi, haddr, hlow, hhigh⟩

theorem page_unique {left right : Nat} (hlow : pageAddr left ≤ cell)
    (hhigh : cell < pageAddr left + pageSize) (hlow' : pageAddr right ≤ cell)
    (hhigh' : cell < pageAddr right + pageSize) : left = right := by
  simp only [pageAddr, pageSize] at *
  omega

/-- A cell of a block lies in the page of the block. -/
theorem block_page {i : Nat} (hi : i < blockCount descIdx)
    (hlow : blockAddr slot descIdx i ≤ cell)
    (hhigh : cell < blockAddr slot descIdx i + classSize descIdx) :
    pageAddr slot ≤ cell ∧ cell < pageAddr slot + pageSize := by
  obtain ⟨hpage, hend⟩ := block_in_page slot hi
  omega

/-- Two live allocations share no cell. -/
theorem live_disjoint (hinv : HeapInv heap shape) (hlive : heap.live addr = some cntBytes)
    {bytes : Nat} (hother : heap.live other = some bytes) (hne : addr ≠ other) :
    Disjoint (Heap.range addr cntBytes) (Heap.range other bytes) := by
  rw [Set.disjoint_left]
  intro cell hcell hcell'
  rcases hinv.live_cell hlive hcell with
    ⟨slot, start, hlow, hhigh, howner, haddr⟩ | ⟨slot, descIdx, i, howner, hi, haddr, hlow, hhigh⟩
  · rcases hinv.live_cell hother hcell' with
      ⟨slot', start', hlow', hhigh', howner', haddr'⟩ |
      ⟨slot', descIdx', i', howner', hi', haddr', hlow', hhigh'⟩
    · obtain rfl := page_unique hlow hhigh hlow' hhigh'
      rw [howner, Owner.large.injEq] at howner'
      exact hne (by rw [haddr, haddr', howner'])
    · subst haddr'
      obtain ⟨hpage, hpageEnd⟩ := block_page hi' hlow' hhigh'
      obtain rfl := page_unique hlow hhigh hpage hpageEnd
      rw [howner] at howner'
      cases howner'
  · subst haddr
    obtain ⟨hpage, hpageEnd⟩ := block_page hi hlow hhigh
    rcases hinv.live_cell hother hcell' with
      ⟨slot', start', hlow', hhigh', howner', haddr'⟩ |
      ⟨slot', descIdx', i', howner', hi', haddr', hlow', hhigh'⟩
    · obtain rfl := page_unique hpage hpageEnd hlow' hhigh'
      rw [howner] at howner'
      cases howner'
    · subst haddr'
      obtain ⟨hpage', hpageEnd'⟩ := block_page hi' hlow' hhigh'
      obtain rfl := page_unique hpage hpageEnd hpage' hpageEnd'
      rw [howner, Owner.small.injEq] at howner'
      subst howner'
      rcases block_disjoint slot descIdx (fun heq : i = i' => hne (by rw [heq])) with h | h <;>
        omega

/-! ## The lists as the code finds them -/

theorem smallPage_iff (hinv : HeapInv heap shape) {page : Nat} :
    heap.mm.SmallPage page ↔
      ∃ slot descIdx, page = pageAddr slot ∧ shape.owner slot = .small descIdx := by
  constructor
  · rintro ⟨descIdx, hdesc, pages, hholds, hpage⟩
    rw [hholds.unique (hinv.follows.desc hdesc), hinv.wf.mem_pages hdesc] at hpage
    obtain ⟨slot, hslot, howner⟩ := hpage
    exact ⟨slot, descIdx, hslot, howner⟩
  · rintro ⟨slot, descIdx, hslot, howner⟩
    have hdesc := hinv.wf.desc_lt howner
    exact ⟨descIdx, hdesc, _, hinv.follows.desc hdesc,
      (hinv.wf.mem_pages hdesc).mpr ⟨slot, hslot, howner⟩⟩

/-- What is available, in terms of the shape. -/
theorem mem_available (hinv : HeapInv heap shape) :
    cell ∈ heap.mm.Available ↔
      (∃ slot < heap.mm.vaddrBmap.slots, shape.owner slot = .free ∧ pageAddr slot ≤ cell ∧
        cell < pageAddr slot + pageSize) ∨
      ∃ slot descIdx, shape.owner slot = .small descIdx ∧
        ∃ block ∈ shape.queue slot, block ≤ cell ∧ cell < block + classSize descIdx := by
  simp only [Available, Set.mem_ofPred_eq, hinv.start_eq]
  apply or_congr
  · refine exists_congr fun slot => and_congr_right fun hslot => and_congr_left fun _ => ?_
    exact ⟨fun hstatus => hinv.owner_free hstatus, fun howner => hinv.free_status hslot howner⟩
  · constructor
    · rintro ⟨page, queue, hpage, hqueue, block, hblock, hlow, hhigh⟩
      obtain ⟨slot, descIdx, rfl, howner⟩ := hinv.smallPage_iff.mp hpage
      have hheader := hinv.follows.header howner
      rw [hheader.size] at hhigh
      rw [hqueue.unique hheader.holds] at hblock
      exact ⟨slot, descIdx, howner, block, hblock, hlow, hhigh⟩
    · rintro ⟨slot, descIdx, howner, block, hblock, hlow, hhigh⟩
      have hheader := hinv.follows.header howner
      refine ⟨pageAddr slot, _, hinv.smallPage_iff.mpr ⟨slot, descIdx, rfl, howner⟩,
        hheader.holds, block, hblock, hlow, ?_⟩
      rwa [hheader.size]

/-! ## Requests -/

/-- The number of new pages that a request takes. -/
def newPages (mm : MemoryManager) (cntBytes : Nat) : Nat :=
  if cntBytes > 1024 then pageCnt cntBytes
  else if (descIdxOf cntBytes).bind mm.findPage = some none then 1 else 0

/-- A request has taken a run of free slots and has mapped its pages. -/
def Grows (heap : Heap) (shape : Shape) (mm : MemoryManager) (next : Shape) (cnt : Nat) : Prop :=
  ∃ start, mm.paging = heap.mm.paging.mapPages cnt (pageAddr start) ∧
    (0 < cnt → (heap.mm.getVirPage cnt).2 = pageAddr start) ∧
    (∀ slot, start ≤ slot → slot < start + cnt → shape.owner slot = .free) ∧
    ∀ slot, next.owner slot = .free ↔
      shape.owner slot = .free ∧ ¬ (start ≤ slot ∧ slot < start + cnt)

/-- A `free` has given back a run of slots, possibly none, and has unmapped its pages. -/
def Shrinks (heap : Heap) (shape : Shape) (mm : MemoryManager) (next : Shape) : Prop :=
  ∃ start cnt, mm.paging = heap.mm.paging.unmapPages cnt (pageAddr start) ∧
    (∀ slot, start ≤ slot → slot < start + cnt → shape.owner slot ≠ .free) ∧
    ∀ slot, next.owner slot = .free ↔
      shape.owner slot = .free ∨ start ≤ slot ∧ slot < start + cnt

/-- Nothing is taken or given back. -/
theorem grows_none {mm : MemoryManager} {next : Shape} (hpaging : mm.paging = heap.mm.paging)
    (howner : next.owner = shape.owner) : Grows heap shape mm next 0 :=
  ⟨0, hpaging, by omega, by omega, fun slot => by simp [howner]⟩

theorem mallocLarge_spec (hinv : HeapInv heap shape) (hlarge : 1024 < cntBytes)
    (hlt : cntBytes < 2 ^ 31)
    (hroom : (heap.mm.mallocLarge cntBytes).1.virExhausted = false) :
    heap.mm.virExhausted = false ∧ heap.live (heap.mm.mallocLarge cntBytes).2 = none ∧
      ∃ next, HeapInv ⟨(heap.mm.mallocLarge cntBytes).1,
          Function.update heap.live (heap.mm.mallocLarge cntBytes).2 (some cntBytes)⟩ next ∧
        Grows heap shape (heap.mm.mallocLarge cntBytes).1 next (pageCnt cntBytes) ∧
        shape.Takes cntBytes (heap.mm.mallocLarge cntBytes).2 next := by
  obtain ⟨hcnt, -, hsize⟩ := pageCnt_spec (by omega : 1 ≤ cntBytes) hlt
  obtain ⟨hbefore, start, hend, hfree, heq⟩ := mallocPage_spec hcnt hroom
  have haddr : heap.mm.vaddrStart + start * pageSize = pageAddr start := by
    rw [hinv.start_eq, pageAddr]
  have hpage : (heap.mm.getVirPage (pageCnt cntBytes)).2 = pageAddr start :=
    (congrArg Prod.snd heq).trans haddr
  have howner : ∀ slot, start ≤ slot → slot < start + pageCnt cntBytes →
      shape.owner slot = .free := fun slot hlow hhigh => hinv.owner_free (hfree slot hlow hhigh)
  simp only [mallocLarge, heq, haddr, Nat.mod_eq_of_lt hsize]
  refine ⟨hbefore, ?_, _, hinv.addLarge hlarge hlt hend hfree ⟨rfl, rfl⟩ rfl rfl rfl,
    ⟨start, rfl, fun _ => hpage, howner, ?_⟩, .large hlarge howner⟩
  · rw [Option.eq_none_iff_forall_ne_some]
    intro bytes hlive
    have hpos := (pageCnt_spec (hinv.size hlive).1 (hinv.size hlive).2).1
    have hfirst := (hinv.placed_page hlive).2 0 hpos
    rw [Nat.add_zero, howner start le_rfl (by omega)] at hfirst
    cases hfirst
  · intro slot
    rw [Shape.setOwners_owner]
    split
    next hrun => exact iff_of_false Owner.large_ne_free fun h => h.2 hrun
    next hrun => exact ⟨fun h => ⟨h, hrun⟩, fun h => h.1⟩

/-- A free block is not live. -/
theorem queue_head_none (hinv : HeapInv heap shape) (howner : shape.owner slot = .small descIdx)
    {block : Nat} {rest : List Nat} (hqueue : shape.queue slot = block :: rest) :
    heap.live block = none := by
  have hmem : block ∈ shape.queue slot := by rw [hqueue]; simp
  obtain ⟨i, hi, rfl⟩ := hinv.wf.blocks howner block hmem
  exact (hinv.split howner hi).mp hmem

/-- Taking the first free block of a page. `reordered` is what the list of pages
looks like afterwards. -/
theorem takeBlock (hinv : HeapInv heap shape) (hpos : 1 ≤ cntBytes) (hsmall : cntBytes ≤ 1024)
    (hdesc : descIdxOf cntBytes = some descIdx) (howner : shape.owner slot = .small descIdx)
    {block : Nat} {rest : List Nat} (hqueue : shape.queue slot = block :: rest)
    {reordered : Shape} {memory : Memory} (hwf : reordered.WF heap.mm.vaddrBmap.slots)
    (hfollows : Follows memory heap.mm.memDesc reordered)
    (howners : reordered.owner = shape.owner)
    (hqueues : reordered.queue = Function.update shape.queue slot rest)
    {next : Heap} (hkept : heap.SameLayout next)
    (hmap : next.mm.vaddrBmap = heap.mm.vaddrBmap)
    (hmemory : next.mm.memory = memset memory block (eachBlockSize memory (pageAddr slot)))
    (hlives : next.live = Function.update heap.live block (some cntBytes)) :
    HeapInv next reordered := by
  obtain ⟨i, hi, rfl⟩ := hinv.wf.blocks howner block (by rw [hqueue]; simp)
  have hnodup := (hinv.follows.header howner).holds.nodup
  rw [hqueue, List.nodup_cons] at hnodup
  have hself : reordered.queue slot = rest := by rw [hqueues, Function.update_self]
  have howner' : reordered.owner slot = .small descIdx := by rw [howners, howner]
  refine hinv.setBlock howner hi ?_ hkept hmap hlives howners ?_ ?_ ?_ hwf ?_
  · intro bytes hbytes
    rw [Option.some.injEq] at hbytes
    subst hbytes
    exact ⟨hpos, hsmall, hdesc⟩
  · intro other hother
    rw [hqueues, Function.update_of_ne hother]
  · rw [hself]
    exact iff_of_false hnodup.1 (Option.some_ne_none _)
  · intro other hother
    rw [hself, hqueue, List.mem_cons, or_iff_right hother]
  · rw [hmemory, (hfollows.header howner').size]
    refine hfollows.memset hwf hinv.below fun cell hlow hhigh => ?_
    exact hwf.small_not_administers howner' hi (by rw [hself]; exact hnodup.1) hlow hhigh

/-- The memory after `popBlock` follows the shape with one free block less. -/
theorem popBlock_follows (hinv : HeapInv heap shape) (howner : shape.owner slot = .small descIdx)
    {block : Nat} {rest : List Nat} (hqueue : shape.queue slot = block :: rest) :
    (popBlock heap.mm.memory (pageAddr slot)).2 = block ∧
      (shape.setQueue slot rest).WF heap.mm.vaddrBmap.slots ∧
      Follows (popBlock heap.mm.memory (pageAddr slot)).1 heap.mm.memDesc
        (shape.setQueue slot rest) := by
  have hheader := hinv.follows.header howner
  have hblocks := hinv.wf.blocks howner
  rw [hqueue] at hheader hblocks
  obtain ⟨hret, hpopped, hframe⟩ := popBlock_spec hheader hblocks
  have hkind : ∀ {kind}, shape.owner slot = .small kind → kind = descIdx := by
    intro kind hkind
    rw [howner, Owner.small.injEq] at hkind
    exact hkind.symm
  refine ⟨hret, hinv.wf.setQueue fun hother => ?_,
    hinv.follows.setQueue hinv.wf hinv.below hframe fun hother => ?_⟩
  · rw [hkind hother]
    exact fun other hmem => hblocks other (List.mem_cons_of_mem _ hmem)
  · rw [hkind hother]
    exact hpopped

theorem reuseBlock_spec (hinv : HeapInv heap shape) (hpos : 1 ≤ cntBytes)
    (hsmall : cntBytes ≤ 1024) (hdesc : descIdxOf cntBytes = some descIdx) (hlt : descIdx < 7)
    {page : Nat} {others : List Nat} (hpages : shape.pages descIdx = page :: others)
    (hcnts : freeCnts heap.mm.memory page ≠ 0) :
    heap.live (heap.mm.reuseBlock (heap.mm.desc descIdx) page).2 = none ∧
      ∃ next, HeapInv ⟨(heap.mm.reuseBlock (heap.mm.desc descIdx) page).1,
          Function.update heap.live (heap.mm.reuseBlock (heap.mm.desc descIdx) page).2
            (some cntBytes)⟩ next ∧
        Grows heap shape (heap.mm.reuseBlock (heap.mm.desc descIdx) page).1 next 0 ∧
        shape.Takes cntBytes (heap.mm.reuseBlock (heap.mm.desc descIdx) page).2 next := by
  have hmem : page ∈ shape.pages descIdx := by rw [hpages]; simp
  obtain ⟨slot, rfl, howner⟩ := (hinv.wf.mem_pages hlt).mp hmem
  cases hqueue : shape.queue slot with
  | nil =>
      rw [(hinv.follows.header howner).cnts, hqueue] at hcnts
      exact absurd rfl hcnts
  | cons block rest =>
      obtain ⟨hret, hwf, hfollows⟩ := hinv.popBlock_follows howner hqueue
      have hcnt : freeCnts (popBlock heap.mm.memory (pageAddr slot)).1 (pageAddr slot) =
          rest.length := by
        rw [(hfollows.header howner).cnts, Shape.setQueue_queue, Function.update_self]
      simp only [reuseBlock, hret, hcnt]
      split
      next hfull =>
        -- The page has become full and moves to the tail of its list.
        obtain rfl := List.eq_nil_of_length_eq_zero hfull
        obtain ⟨hwf', hfollows'⟩ := hfollows.moveToTail hwf hinv.below hlt hpages
        exact ⟨hinv.queue_head_none howner hqueue, _, hinv.takeBlock hpos hsmall hdesc howner
          hqueue hwf' hfollows' rfl rfl ⟨rfl, rfl⟩ rfl rfl rfl, grows_none rfl rfl,
          .fill hsmall howner hpages hqueue⟩
      next hleft =>
        exact ⟨hinv.queue_head_none howner hqueue, _, hinv.takeBlock hpos hsmall hdesc howner
          hqueue hwf hfollows rfl rfl ⟨rfl, rfl⟩ rfl rfl rfl, grows_none rfl rfl,
          .reuse hsmall howner hqueue fun hnil => hleft (by rw [hnil, List.length_nil])⟩

/-- Installing a header in a free page keeps all lists. -/
theorem install_follows (hinv : HeapInv heap shape) (hfree : shape.owner slot = .free) :
    Follows (installMemHeader heap.mm.memory (pageAddr slot) (classSize descIdx)) heap.mm.memDesc
      shape := by
  have hself : shape.setQueue slot (shape.queue slot) = shape := by simp [Shape.setQueue]
  rw [← hself]
  refine hinv.follows.setQueue hinv.wf hinv.below
    (installMemHeader_spec heap.mm.memory slot descIdx).2 fun howner => ?_
  rw [hfree] at howner
  cases howner

theorem newBlock_spec (hinv : HeapInv heap shape) (hpos : 1 ≤ cntBytes)
    (hsmall : cntBytes ≤ 1024) (hdesc : descIdxOf cntBytes = some descIdx) (hlt : descIdx < 7)
    (hroom : (heap.mm.newBlock (heap.mm.desc descIdx) descIdx).1.virExhausted = false) :
    heap.mm.virExhausted = false ∧
      heap.live (heap.mm.newBlock (heap.mm.desc descIdx) descIdx).2 = none ∧
      ∃ next, HeapInv ⟨(heap.mm.newBlock (heap.mm.desc descIdx) descIdx).1,
          Function.update heap.live (heap.mm.newBlock (heap.mm.desc descIdx) descIdx).2
            (some cntBytes)⟩ next ∧
        Grows heap shape (heap.mm.newBlock (heap.mm.desc descIdx) descIdx).1 next 1 ∧
        shape.Takes cntBytes (heap.mm.newBlock (heap.mm.desc descIdx) descIdx).2 next := by
  obtain ⟨hbefore, slot, hend, hstatus, heq⟩ := mallocPage_spec le_rfl hroom
  have hslot : heap.mm.vaddrBmap.getSlotStatus slot = DoublebitMap.slotFree :=
    hstatus slot le_rfl (by omega)
  have haddr : heap.mm.vaddrStart + slot * pageSize = pageAddr slot := by
    rw [hinv.start_eq, pageAddr]
  have hfree := hinv.owner_free hslot
  -- The heap once the page is in its list, with all its blocks free.
  let mid : Heap := ⟨{ (heap.mm.mallocPage 1).1 with
    memory := (heap.mm.desc descIdx).push
      (installMemHeader heap.mm.memory (pageAddr slot) (classSize descIdx)) (pageAddr slot) },
    heap.live⟩
  have hmid : HeapInv mid
      (shape.addPage slot descIdx (allBlocks slot descIdx (blockCount descIdx))) := by
    refine hinv.addPage (by omega) hlt hslot ?_ ?_ rfl ?_
    · exact ⟨by simp only [mid, heq], by simp only [mid, heq]⟩
    · simp only [mid, heq]
    · exact (hinv.install_follows hfree).addPage hinv.wf hinv.below hlt hfree
        (installMemHeader_spec _ _ _).1 (allBlocks_areBlocks le_rfl)
  have howner : (shape.addPage slot descIdx
      (allBlocks slot descIdx (blockCount descIdx))).owner slot = .small descIdx := by
    rw [Shape.addPage_owner, Function.update_self]
  obtain ⟨block, rest, hblocks⟩ : ∃ block rest,
      allBlocks slot descIdx (blockCount descIdx) = block :: rest := by
    apply List.exists_cons_of_length_pos
    simpa [allBlocks] using blockCount_pos hlt
  have hqueue : (shape.addPage slot descIdx
      (allBlocks slot descIdx (blockCount descIdx))).queue slot = block :: rest := by
    rw [Shape.addPage_queue, Function.update_self, hblocks]
  obtain ⟨hret, hwf, hfollows⟩ := hmid.popBlock_follows howner hqueue
  have hmemory : mid.mm.memory = (heap.mm.desc descIdx).push
      (installMemHeader (heap.mm.mallocPage 1).1.memory (heap.mm.mallocPage 1).2
        (2 <<< (descIdx + 3))) (heap.mm.mallocPage 1).2 := by
    simp only [mid, heq, haddr, classSize]
  have hpage : (heap.mm.mallocPage 1).2 = pageAddr slot := by rw [heq, ← haddr]
  rw [hmemory] at hret hfollows
  refine ⟨hbefore, ?_⟩
  simp only [newBlock, hpage] at hret hfollows ⊢
  rw [hret]
  refine ⟨hmid.queue_head_none howner hqueue, _, hmid.takeBlock hpos hsmall hdesc howner
    hqueue hwf hfollows rfl rfl ⟨rfl, rfl⟩ rfl rfl rfl, ⟨slot, ?_, fun _ => hpage, ?_, ?_⟩,
    .fresh hsmall hlt hfree hblocks⟩
  · rw [heq, ← haddr]
  · intro other hlow hhigh
    obtain rfl : other = slot := by omega
    exact hfree
  · intro other
    rw [Shape.setQueue_owner, Shape.addPage_owner]
    by_cases hother : other = slot
    · rw [hother, Function.update_self]
      exact iff_of_false Owner.small_ne_free fun h => h.2 (by omega)
    · rw [Function.update_of_ne hother]
      exact ⟨fun h => ⟨h, by omega⟩, fun h => h.1⟩

/-- There are no more pages in a list than slots. -/
theorem pages_length (hinv : HeapInv heap shape) (hlt : descIdx < 7) :
    (shape.pages descIdx).length < heap.mm.listBound := by
  have hsub : shape.pages descIdx ⊆ (List.range heap.mm.vaddrBmap.slots).map pageAddr := by
    intro page hpage
    obtain ⟨slot, rfl, howner⟩ := (hinv.wf.mem_pages hlt).mp hpage
    have hslot := hinv.wf.owner_lt (by rw [howner]; exact Owner.small_ne_free)
    exact List.mem_map_of_mem (List.mem_range.mpr hslot)
  have hle := ((hinv.follows.desc hlt).nodup.subperm hsub).length_le
  rw [List.length_map, List.length_range] at hle
  rw [listBound]
  omega

/-- The page that every round of the search looks at: the first of the list. -/
theorem getElem_first (hinv : HeapInv heap shape) (hlt : descIdx < 7) {first : Nat}
    {others : List Nat} (hpages : shape.pages descIdx = first :: others) {i : Nat}
    (hi : i < (shape.pages descIdx).length) :
    (heap.mm.desc descIdx).getElem heap.mm.memory heap.mm.listBound i = some first := by
  have hholds := hinv.follows.desc hlt
  have hempty := CycleList.isEmpty_iff hholds
  rw [desc, CycleList.getElem_eq_firstElem hholds (hinv.pages_length hlt) hi, CycleList.firstElem,
    if_neg (by rw [hempty, hpages]; exact List.cons_ne_nil _ _), hholds.next_head, hpages,
    List.headD_cons]

/-- No round finds another page than the first one. -/
theorem scanPages_first (hinv : HeapInv heap shape) (hlt : descIdx < 7) {first : Nat}
    {others : List Nat} (hpages : shape.pages descIdx = first :: others) {left i : Nat}
    (hleft : i + left = (shape.pages descIdx).length) :
    heap.mm.scanPages (heap.mm.desc descIdx) left i =
      some (if left = 0 ∨ freeCnts heap.mm.memory first = 0 then none else some first) := by
  induction left generalizing i with
  | zero => rw [scanPages, if_pos (.inl rfl)]
  | succ left ih =>
      rw [scanPages, hinv.getElem_first hlt hpages (by omega), Option.bind_some]
      split
      next hfull => rw [ih (i := i + 1) (by omega), if_pos (.inr hfull), if_pos (.inr hfull)]
      next hcnts => rw [if_neg fun h => hcnts (h.resolve_left (Nat.succ_ne_zero left))]

/-- The search for a page with a free block ends, and looks at the first page only. -/
theorem findPage_eq (hinv : HeapInv heap shape) (hlt : descIdx < 7) :
    heap.mm.findPage descIdx =
      some ((shape.pages descIdx).head?.filter (freeCnts heap.mm.memory · ≠ 0)) := by
  have hlength := CycleList.getLength_eq (hinv.follows.desc hlt) (hinv.pages_length hlt)
  rw [← desc] at hlength
  rw [findPage, hlength, Option.bind_some]
  cases hpages : shape.pages descIdx with
  | nil => rfl
  | cons first others =>
      rw [← hpages, hinv.scanPages_first hlt hpages (Nat.zero_add _), hpages, List.head?_cons]
      by_cases hfull : freeCnts heap.mm.memory first = 0 <;> simp [hfull, Option.filter_some]

/-- A page that the search has found. -/
theorem findPage_some (hinv : HeapInv heap shape) (hlt : descIdx < 7) {page : Nat}
    (hfound : heap.mm.findPage descIdx = some (some page)) :
    (∃ others, shape.pages descIdx = page :: others) ∧ freeCnts heap.mm.memory page ≠ 0 := by
  rw [hinv.findPage_eq hlt, Option.some.injEq, Option.filter_eq_some_iff] at hfound
  exact ⟨List.head?_eq_some_iff.mp hfound.1, of_decide_eq_true hfound.2⟩

/-- `malloc` always returns. If it found pages, it returns memory that was not
live, and the heap keeps its invariant. -/
theorem malloc_spec (hinv : HeapInv heap shape) (hpos : 1 ≤ cntBytes) (hlt : cntBytes < 2 ^ 31) :
    ∃ mm addr, heap.mm.malloc cntBytes = some (mm, addr) ∧
      (mm.virExhausted = false → heap.mm.virExhausted = false ∧ heap.live addr = none ∧
        ∃ next, HeapInv ⟨mm, Function.update heap.live addr (some cntBytes)⟩ next ∧
          Grows heap shape mm next (newPages heap.mm cntBytes) ∧
          shape.Takes cntBytes addr next) := by
  rw [malloc, if_neg (by omega), newPages]
  split
  next hlarge => exact ⟨_, _, rfl, fun hroom => hinv.mallocLarge_spec hlarge hlt hroom⟩
  next hsmall =>
    obtain ⟨descIdx, hdescLt, hdesc, -⟩ := descIdxOf_small (Nat.le_of_not_lt hsmall)
    obtain ⟨found, hfound⟩ : ∃ found, heap.mm.findPage descIdx = some found :=
      ⟨_, hinv.findPage_eq hdescLt⟩
    rw [mallocSmall, hdesc, Option.bind_some, Option.bind_some, hfound, Option.map_some]
    cases found with
    | some page =>
        obtain ⟨⟨others, hpages⟩, hcnts⟩ := hinv.findPage_some hdescLt hfound
        rw [if_neg (by simp)]
        exact ⟨_, _, rfl, fun hroom => ⟨hroom, hinv.reuseBlock_spec hpos
          (Nat.le_of_not_lt hsmall) hdesc hdescLt hpages hcnts⟩⟩
    | none =>
        rw [if_pos rfl]
        exact ⟨_, _, rfl, fun hroom => hinv.newBlock_spec hpos (Nat.le_of_not_lt hsmall) hdesc
          hdescLt hroom⟩

/-- The pages of a live allocation end inside the map. -/
theorem live_end (hinv : HeapInv heap shape) (hlive : heap.live (pageAddr start) = some cntBytes) :
    start + pageCnt cntBytes ≤ heap.mm.vaddrBmap.slots := by
  obtain ⟨hpos, -, -⟩ := pageCnt_spec (hinv.size hlive).1 (hinv.size hlive).2
  have hused : shape.owner (start + (pageCnt cntBytes - 1)) ≠ .free := by
    rw [(hinv.placed_page hlive).2 _ (by omega)]
    exact Owner.large_ne_free
  have hlast := hinv.wf.owner_lt hused
  omega

/-- The slot of a page, as `free_vir_page` computes it. -/
theorem slot_of_pageAddr {mm : MemoryManager} (hstart : mm.vaddrStart = stationaryMem)
    (hroom : pageAddr mm.vaddrBmap.slots ≤ 2 ^ 32) (hlt : start < mm.vaddrBmap.slots) :
    subU32 (pageAddr start) mm.vaddrStart / pageSize = start := by
  rw [hstart]
  simp only [subU32, pageAddr, pageSize, stationaryMem] at hroom ⊢
  omega

/-- `free` of a marked run of pages. -/
theorem freePage_eq {mm : MemoryManager} (hstart : mm.vaddrStart = stationaryMem)
    (hroom : pageAddr mm.vaddrBmap.slots ≤ 2 ^ 32) (hcnt : 1 ≤ cnt)
    (hend : start + cnt ≤ mm.vaddrBmap.slots) (hmarked : mm.vaddrBmap.Marked start cnt) :
    mm.freePage (pageAddr start) =
      some { mm with
        vaddrBmap := DoublebitMap.clear cnt mm.vaddrBmap start
        paging := mm.paging.unmapPages cnt (pageAddr start) } := by
  rw [freePage, slot_of_pageAddr hstart hroom (by omega), DoublebitMap.freeSlots_eq hcnt (by omega) hmarked, Option.map_some]

theorem freePage_spec (hinv : HeapInv heap shape)
    (hlive : heap.live (pageAddr start) = some cntBytes) :
    ∃ mm, heap.mm.freePage (pageAddr start) = some mm ∧
      mm.virExhausted = heap.mm.virExhausted ∧ mm.vaddrBmap.slots = heap.mm.vaddrBmap.slots ∧
      HeapInv ⟨mm, Function.update heap.live (pageAddr start) none⟩
        (shape.setOwners start (pageCnt cntBytes) .free) ∧
      mm.paging = heap.mm.paging.unmapPages (pageCnt cntBytes) (pageAddr start) := by
  obtain ⟨hpos, -, -⟩ := pageCnt_spec (hinv.size hlive).1 (hinv.size hlive).2
  refine ⟨_, freePage_eq hinv.start_eq hinv.room hpos (hinv.live_end hlive) (hinv.marked hlive), rfl,
    ?_, hinv.dropLarge hlive ⟨rfl, rfl⟩ (DoublebitMap.clear_bytesLen ..)
      (fun slot => DoublebitMap.clear_status _ _ slot _) rfl rfl, rfl⟩
  simp only [DoublebitMap.slots, DoublebitMap.clear_bytesLen]

/-- No page has so many free blocks that one of the two tests of `free` succeeds. -/
theorem freeTests_fail {memory : Memory} {page : Nat} (hsize : eachBlockSize memory page =
    classSize descIdx) (hcnts : freeCnts memory page ≤ 254) :
    5 * freeCnts memory page < pageSize - headerSize / eachBlockSize memory page := by
  have hdiv : headerSize / classSize descIdx ≤ 2 :=
    Nat.div_le_of_le_mul (by have := classSize_pos descIdx; simp only [headerSize]; omega)
  have hnearly : 4094 ≤ pageSize - headerSize / classSize descIdx := by
    simp only [pageSize]
    omega
  rw [hsize]
  omega

/-- `free` of a block. -/
theorem freeSmall_eq {mm : MemoryManager} {i : Nat} (hi : i < blockCount descIdx)
    (hdesc : descIdx < 7)
    (hsize : eachBlockSize (giveBlock mm.memory (pageAddr slot) (blockAddr slot descIdx i))
      (pageAddr slot) = classSize descIdx)
    (hcnts : freeCnts (giveBlock mm.memory (pageAddr slot) (blockAddr slot descIdx i))
      (pageAddr slot) ≤ 254) :
    mm.freeSmall (blockAddr slot descIdx i) =
      some { mm with memory := giveBlock mm.memory (pageAddr slot) (blockAddr slot descIdx i) } := by
  have hfail := freeTests_fail hsize hcnts
  have hmod := Nat.mod_le
    (5 * freeCnts (giveBlock mm.memory (pageAddr slot) (blockAddr slot descIdx i)) (pageAddr slot))
    (2 ^ 32)
  rw [hsize] at hfail
  rw [freeSmall, page_of_block hi, hsize, descIdxOf_classSize hdesc, Option.bind_some,
    if_neg (by omega), if_neg (by omega)]

/-- The header of a page that gets a live block back. -/
theorem giveBlock_header (hinv : HeapInv heap shape) {i : Nat} (hi : i < blockCount descIdx)
    (howner : shape.owner slot = .small descIdx)
    (hlive : heap.live (blockAddr slot descIdx i) = some cntBytes) :
    AreBlocks slot descIdx (shape.queue slot ++ [blockAddr slot descIdx i]) ∧
      HeaderOk (giveBlock heap.mm.memory (pageAddr slot) (blockAddr slot descIdx i))
        (pageAddr slot) descIdx (shape.queue slot ++ [blockAddr slot descIdx i]) ∧
      ∀ cell, ¬ Inner slot cell → SameAt heap.mm.memory
        (giveBlock heap.mm.memory (pageAddr slot) (blockAddr slot descIdx i)) cell := by
  have hblocks := hinv.wf.blocks howner
  have hfresh : blockAddr slot descIdx i ∉ shape.queue slot := by
    rw [hinv.split howner hi, hlive]
    exact Option.some_ne_none _
  refine ⟨?_, giveBlock_spec (hinv.follows.header howner) hblocks hi rfl hfresh⟩
  intro block hblock
  rcases List.mem_append.mp hblock with hold | hnew
  · exact hblocks block hold
  · exact ⟨i, hi, List.mem_singleton.mp hnew⟩

theorem freeSmall_spec (hinv : HeapInv heap shape) {i : Nat} (hi : i < blockCount descIdx)
    (howner : shape.owner slot = .small descIdx)
    (hlive : heap.live (blockAddr slot descIdx i) = some cntBytes) :
    ∃ mm, heap.mm.freeSmall (blockAddr slot descIdx i) = some mm ∧
      mm.virExhausted = heap.mm.virExhausted ∧ mm.vaddrBmap.slots = heap.mm.vaddrBmap.slots ∧
      HeapInv ⟨mm, Function.update heap.live (blockAddr slot descIdx i) none⟩
        (shape.setQueue slot (shape.queue slot ++ [blockAddr slot descIdx i])) ∧
      mm.paging = heap.mm.paging := by
  obtain ⟨hblocks, hheader, hframe⟩ := hinv.giveBlock_header hi howner hlive
  have hkind : ∀ {kind}, shape.owner slot = .small kind → kind = descIdx := by
    intro kind hkind
    rw [howner, Owner.small.injEq] at hkind
    exact hkind.symm
  have hlength := hblocks.length_le hheader.holds.nodup
  rw [← hheader.cnts] at hlength
  have hwf : (shape.setQueue slot (shape.queue slot ++ [blockAddr slot descIdx i])).WF
      heap.mm.vaddrBmap.slots :=
    hinv.wf.setQueue fun hother => by rw [hkind hother]; exact hblocks
  have hfollows := hinv.follows.setQueue hinv.wf hinv.below hframe
    (fun hother => by rw [hkind hother]; exact hheader)
  refine ⟨_, freeSmall_eq hi (hinv.wf.desc_lt howner) hheader.size hlength, rfl, rfl, ?_, rfl⟩
  refine hinv.setBlock howner hi (fun hheld => by cases hheld) ⟨rfl, rfl⟩ rfl rfl rfl ?_ ?_ ?_ hwf
    hfollows
  · intro other hother
    rw [Shape.setQueue_queue, Function.update_of_ne hother]
  · rw [Shape.setQueue_queue, Function.update_self]
    exact iff_of_true (by simp) rfl
  · intro block hblock
    rw [Shape.setQueue_queue, Function.update_self, List.mem_append, List.mem_singleton,
      or_iff_left hblock]

/-! ## What becomes reusable -/

/-- The range of a large allocation is made of its pages. -/
theorem mem_range_large (hlarge : 1024 < cntBytes) :
    cell ∈ Heap.range (pageAddr start) cntBytes ↔
      ∃ slot, (start ≤ slot ∧ slot < start + pageCnt cntBytes) ∧ pageAddr slot ≤ cell ∧
        cell < pageAddr slot + pageSize := by
  rw [Heap.range, rangeBytes_large hlarge, Set.mem_Ico]
  constructor
  · rintro ⟨hlow, hhigh⟩
    refine ⟨start + (cell - pageAddr start) / pageSize, ?_, ?_, ?_⟩
    · simp only [pageSize] at hhigh ⊢
      omega
    · simp only [pageAddr_add, pageSize]
      omega
    · simp only [pageAddr_add, pageSize]
      omega
  · rintro ⟨slot, ⟨hlow, hhigh⟩, hcell, hend⟩
    obtain ⟨i, rfl⟩ := Nat.exists_eq_add_of_le hlow
    simp only [pageAddr_add, pageSize] at hcell hend ⊢
    omega

theorem available_dropLarge (hinv : HeapInv heap shape) {next : Heap}
    (hlarge : 1024 < cntBytes)
    (howner : ∀ i < pageCnt cntBytes, shape.owner (start + i) = .large start)
    (hnext : HeapInv next (shape.setOwners start (pageCnt cntBytes) .free))
    (hslots : next.mm.vaddrBmap.slots = heap.mm.vaddrBmap.slots) :
    next.mm.Available = heap.mm.Available ∪ Heap.range (pageAddr start) cntBytes := by
  have hrun : ∀ slot, start ≤ slot → slot < start + pageCnt cntBytes →
      shape.owner slot = .large start := by
    intro slot hlow hhigh
    have := howner (slot - start) (by omega)
    rwa [Nat.add_sub_cancel' hlow] at this
  have hsmall : ∀ {slot descIdx},
      (shape.setOwners start (pageCnt cntBytes) .free).owner slot = .small descIdx ↔
        shape.owner slot = .small descIdx :=
    Shape.small_setOwners (fun slot hlow hhigh _ => by rw [hrun slot hlow hhigh]; exact Owner.large_ne_small)
      Owner.free_ne_small
  have hfree : ∀ {slot}, (shape.setOwners start (pageCnt cntBytes) .free).owner slot = .free ↔
      shape.owner slot = .free ∨ start ≤ slot ∧ slot < start + pageCnt cntBytes := by
    intro slot
    rw [Shape.setOwners_owner]
    split
    next hin => exact iff_of_true rfl (.inr hin)
    next hout => exact ⟨.inl, fun h => h.resolve_right hout⟩
  ext cell
  rw [Set.mem_union, hnext.mem_available, hinv.mem_available, mem_range_large hlarge]
  simp only [hsmall, hfree, hslots, Shape.setOwners_queue]
  constructor
  · rintro (⟨slot, hslot, hown | hin, hcell⟩ | hblock)
    · exact .inl (.inl ⟨slot, hslot, hown, hcell⟩)
    · exact .inr ⟨slot, hin, hcell⟩
    · exact .inl (.inr hblock)
  · rintro ((⟨slot, hslot, hown, hcell⟩ | hblock) | ⟨slot, hin, hcell⟩)
    · exact .inl ⟨slot, hslot, .inl hown, hcell⟩
    · exact .inr hblock
    · have hslot := hinv.wf.owner_lt (by rw [hrun slot hin.1 hin.2]; exact Owner.large_ne_free)
      exact .inl ⟨slot, hslot, .inr hin, hcell⟩

theorem available_giveBlock (hinv : HeapInv heap shape) {next : Heap} {block : Nat}
    (hsmall : cntBytes ≤ 1024) (hdesc : descIdxOf cntBytes = some descIdx)
    (howner : shape.owner slot = .small descIdx)
    (hnext : HeapInv next (shape.setQueue slot (shape.queue slot ++ [block])))
    (hslots : next.mm.vaddrBmap.slots = heap.mm.vaddrBmap.slots) :
    next.mm.Available = heap.mm.Available ∪ Heap.range block cntBytes := by
  ext cell
  rw [Set.mem_union, hnext.mem_available, hinv.mem_available, Heap.range,
    rangeBytes_small hsmall hdesc, Set.mem_Ico, hslots, Shape.setQueue_owner,
    Shape.setQueue_queue]
  constructor
  · rintro (hpage | ⟨other, kind, hother, found, hfound, hcell⟩)
    · exact .inl (.inl hpage)
    · by_cases heq : other = slot
      · subst heq
        rw [Function.update_self, List.mem_append, List.mem_singleton] at hfound
        rcases hfound with hold | rfl
        · exact .inl (.inr ⟨other, kind, hother, found, hold, hcell⟩)
        · rw [howner, Owner.small.injEq] at hother
          exact .inr (hother ▸ hcell)
      · rw [Function.update_of_ne heq] at hfound
        exact .inl (.inr ⟨other, kind, hother, found, hfound, hcell⟩)
  · rintro ((hpage | ⟨other, kind, hother, found, hfound, hcell⟩) | hcell)
    · exact .inl hpage
    · refine .inr ⟨other, kind, hother, found, ?_, hcell⟩
      by_cases heq : other = slot
      · subst heq
        rw [Function.update_self]
        exact List.mem_append_left _ hfound
      · rwa [Function.update_of_ne heq]
    · refine .inr ⟨slot, descIdx, howner, block, ?_, hcell⟩
      rw [Function.update_self]
      simp

/-- `free` of a live allocation always returns, and makes exactly its range available. -/
theorem free_spec (hinv : HeapInv heap shape) (hlive : heap.live addr = some cntBytes) :
    ∃ mm, heap.mm.free addr = some mm ∧ mm.virExhausted = heap.mm.virExhausted ∧
      mm.Available = heap.mm.Available ∪ Heap.range addr cntBytes ∧
      ∃ next, HeapInv ⟨mm, Function.update heap.live addr none⟩ next ∧
        Shrinks heap shape mm next ∧ shape.Gives addr next := by
  have haligned := hinv.placed_aligned hlive
  rw [MemoryManager.free]
  cases hinv.placed hlive with
  | large hlarge haddr howner =>
      subst haddr
      rw [if_pos (haligned.mpr hlarge)]
      obtain ⟨mm, hfreed, hroom, hslots, hnext, hpaging⟩ := hinv.freePage_spec hlive
      have havailable := hinv.available_dropLarge hlarge howner hnext hslots
      refine ⟨mm, hfreed, hroom, havailable, _, hnext, ⟨_, _, hpaging,
        fun slot hlow hhigh => ?_, fun slot => ?_⟩, .large howner⟩
      · rw [← Nat.add_sub_cancel' hlow, howner _ (by omega)]
        exact Owner.large_ne_free
      · rw [Shape.setOwners_owner]
        split
        next hrun => exact iff_of_true rfl (.inr hrun)
        next hrun => exact ⟨.inl, fun h => h.resolve_right hrun⟩
  | small hsmall hdesc hi haddr howner =>
      subst haddr
      rw [if_neg (block_mod_ne hi)]
      obtain ⟨mm, hfreed, hroom, hslots, hnext, hpaging⟩ := hinv.freeSmall_spec hi howner hlive
      have havailable := hinv.available_giveBlock hsmall hdesc howner hnext hslots
      exact ⟨mm, hfreed, hroom, havailable, _, hnext, ⟨0, 0, hpaging, by omega,
        fun slot => ⟨.inl, fun h => h.resolve_right (by omega)⟩⟩, .small howner hi⟩

theorem slots_le (hinv : HeapInv heap shape) : heap.mm.vaddrBmap.slots ≤ 2 ^ 31 := by
  have hroom := hinv.room
  simp only [pageAddr, pageSize, stationaryMem] at hroom
  omega

/-- The map of the manager is so small that its search on words is the one on numbers. -/
theorem getFreeSlots_words (hinv : HeapInv heap shape) (hcnt : 1 ≤ cnt) :
    (DoublebitMap.Words.getFreeSlots heap.mm.vaddrBmap cnt).1 =
      ((heap.mm.vaddrBmap.getFreeSlots cnt).1,
        (heap.mm.vaddrBmap.getFreeSlots cnt).2.elim (-1) fun start => (start : Int)) :=
  DoublebitMap.Words.getFreeSlots_refines _ hinv.slots_le hcnt

/-- So is giving back the pages of a live allocation. -/
theorem freeSlots_words (hinv : HeapInv heap shape)
    (hlive : heap.live (pageAddr start) = some cntBytes) :
    (DoublebitMap.Words.freeSlots heap.mm.vaddrBmap start).1 = heap.mm.vaddrBmap.freeSlots start := by
  obtain ⟨hpos, -, -⟩ := pageCnt_spec (hinv.size hlive).1 (hinv.size hlive).2
  exact DoublebitMap.Words.freeSlots_refines hinv.slots_le hpos (hinv.live_end hlive)
    (hinv.marked hlive)

/-- No cell of a live allocation is available. -/
theorem live_not_available (hinv : HeapInv heap shape) (hlive : heap.live addr = some cntBytes) :
    Disjoint heap.mm.Available (Heap.range addr cntBytes) := by
  rw [Set.disjoint_right]
  intro cell hcell havailable
  rcases hinv.mem_available.mp havailable with
    ⟨slot, -, hfree, hlow, hhigh⟩ | ⟨slot, descIdx, howner, block, hblock, hlow, hhigh⟩
  · rcases hinv.live_cell hlive hcell with
      ⟨slot', start, hlow', hhigh', howner', -⟩ | ⟨slot', descIdx, i, howner', hi, rfl, hin, hend⟩
    · obtain rfl := page_unique hlow hhigh hlow' hhigh'
      rw [hfree] at howner'
      cases howner'
    · obtain ⟨hlow', hhigh'⟩ := block_page hi hin hend
      obtain rfl := page_unique hlow hhigh hlow' hhigh'
      rw [hfree] at howner'
      cases howner'
  · obtain ⟨j, hj, rfl⟩ := hinv.wf.blocks howner block hblock
    obtain ⟨hpage, hpageEnd⟩ := block_page hj hlow hhigh
    rcases hinv.live_cell hlive hcell with
      ⟨slot', start, hlow', hhigh', howner', -⟩ | ⟨slot', kind, i, howner', hi, rfl, hin, hend⟩
    · obtain rfl := page_unique hpage hpageEnd hlow' hhigh'
      rw [howner] at howner'
      cases howner'
    · obtain ⟨hlow', hhigh'⟩ := block_page hi hin hend
      obtain rfl := page_unique hpage hpageEnd hlow' hhigh'
      rw [howner, Owner.small.injEq] at howner'
      subst howner'
      have hne : i ≠ j := by
        rintro rfl
        rw [(hinv.split howner hi).mp hblock] at hlive
        cases hlive
      rcases block_disjoint slot descIdx hne with h | h <;> omega

/-- No header of a page of blocks reaches into a live allocation. -/
theorem live_header_disjoint (hinv : HeapInv heap shape)
    (hlive : heap.live addr = some cntBytes) {page : Nat} (hpage : heap.mm.SmallPage page) :
    Disjoint (Heap.range addr cntBytes) (Set.Ico page (page + headerSize)) := by
  obtain ⟨slot, descIdx, rfl, howner⟩ := hinv.smallPage_iff.mp hpage
  rw [Set.disjoint_left]
  rintro cell ⟨hlow, hhigh⟩ hheader
  exact hinv.live_not_administers hlive hlow hhigh
    (.inr ⟨slot, descIdx, howner, .inl hheader⟩)

end HeapInv

/-! ## Runs -/

namespace Heap

/-- The lists of `mem_desc` start out empty. -/
theorem initDescs_holds (memDesc : Nat) (memory : Memory) {descIdx cnt : Nat}
    (hlt : descIdx < cnt) :
    (descAt memDesc descIdx).Holds (Boot.initDescs memDesc cnt memory) [] := by
  induction cnt with
  | zero => omega
  | succ cnt ih =>
      rw [Boot.initDescs]
      by_cases heq : descIdx = cnt
      · subst heq
        exact CycleList.initializeList_holds (by simp [descAt])
      · refine (ih (by omega)).frame fun node hnode => ?_
        rw [CycleList.mem_nodes, descAt] at hnode
        have hne : node ≠ (descAt memDesc cnt).head ∧ node ≠ (descAt memDesc cnt).tail := by
          simp only [List.not_mem_nil, false_or, descAt] at hnode ⊢
          omega
        exact CycleList.initializeList_frame hne.1 hne.2

/-- The shape of the heap at boot. -/
def emptyShape : Shape := ⟨fun _ => .free, fun _ => [], fun _ => []⟩

theorem emptyShape_small {slot descIdx : Nat} : emptyShape.owner slot ≠ .small descIdx :=
  Owner.free_ne_small

theorem initial_live {boot : Boot} {addr cntBytes : Nat} : (initial boot).live addr ≠ some cntBytes :=
  (Option.some_ne_none _).symm

theorem initial_inv (boot : Boot) : HeapInv (initial boot) emptyShape := by
  have hlength : boot.bmapLength = (boot.memCapacity - stationaryMem) / pageSize / 8 := by
    have hge := boot.capacity_ge
    have hlt := boot.capacity_lt
    have hsub : subU32 boot.memCapacity stationaryMem = boot.memCapacity - stationaryMem := by
      simp only [subU32, stationaryMem] at hge ⊢
      omega
    rw [Boot.bmapLength, hsub]
  constructor
  case wf =>
    exact ⟨fun h => absurd rfl h, fun howner => absurd howner emptyShape_small,
      fun _ => by simp [emptyShape], fun howner => absurd howner emptyShape_small⟩
  case follows =>
    exact ⟨fun hlt => initDescs_holds _ _ hlt, fun howner => absurd howner emptyShape_small⟩
  case start_eq => rfl
  case below => exact boot.memDesc_le
  case room =>
    have hge := boot.capacity_ge
    have hlt := boot.capacity_lt
    simp only [initial, Boot.memoryManager, DoublebitMap.slots, hlength, pageAddr, pageSize,
      stationaryMem] at hge ⊢
    omega
  case free_status =>
    intro slot hslot _
    exact boot.vaddr_free slot (by rw [← hlength]; exact hslot)
  case small_status => exact fun howner => absurd howner emptyShape_small
  case marked => exact fun hlive => absurd hlive initial_live
  case size => exact fun hlive => absurd hlive initial_live
  case placed => exact fun hlive => absurd hlive initial_live
  case owned => exact fun howner => absurd howner.symm Owner.large_ne_free
  case split => exact fun howner => absurd howner emptyShape_small

/-- A request only writes memory, or it also takes whole pages. -/
theorem malloc_cases {mm after : MemoryManager} {cntBytes addr : Nat}
    (hmalloc : mm.malloc cntBytes = some (after, addr)) :
    ∃ memory, after = { mm with memory := memory } ∨
      ∃ cnt, after = { (mm.mallocPage cnt).1 with memory := memory } := by
  rw [malloc] at hmalloc
  split at hmalloc
  next =>
    cases hmalloc
    exact ⟨_, .inl rfl⟩
  next =>
    split at hmalloc
    next =>
      cases hmalloc
      exact ⟨_, .inr ⟨_, rfl⟩⟩
    next =>
      simp only [mallocSmall, Option.bind_eq_some_iff, Option.map_eq_some_iff] at hmalloc
      obtain ⟨descIdx, -, found, -, hdone⟩ := hmalloc
      split at hdone
      next =>
        cases hdone
        exact ⟨_, .inl rfl⟩
      next =>
        cases hdone
        exact ⟨_, .inr ⟨_, rfl⟩⟩

/-- A `free` only writes memory, or it also gives back whole pages. -/
theorem free_cases {mm after : MemoryManager} {addr : Nat}
    (hfree : mm.free addr = some after) :
    ∃ memory, after = { mm with memory := memory } ∨
      ∃ page, { mm with memory := memory }.freePage page = some after := by
  rw [MemoryManager.free] at hfree
  split at hfree
  next => exact ⟨_, .inr ⟨_, hfree⟩⟩
  next =>
    obtain ⟨descIdx, -, hdone⟩ := Option.bind_eq_some_iff.mp hfree
    dsimp only at hdone
    split at hdone
    next => exact ⟨_, .inr ⟨_, hdone⟩⟩
    next =>
      split at hdone
      all_goals
        rw [Option.some.injEq] at hdone
        exact ⟨_, .inl hdone.symm⟩

/-- A search for virtual pages that has failed is remembered. -/
theorem malloc_exhausted {mm after : MemoryManager} {cntBytes addr : Nat}
    (hmalloc : mm.malloc cntBytes = some (after, addr)) (hafter : after.virExhausted = false) :
    mm.virExhausted = false := by
  obtain ⟨memory, rfl | ⟨cnt, rfl⟩⟩ := malloc_cases hmalloc
  · exact hafter
  · simp only [mallocPage, getVirPage] at hafter
    split at hafter
    next => cases hafter
    next => exact hafter

theorem free_exhausted {mm after : MemoryManager} {addr : Nat}
    (hfree : mm.free addr = some after) : mm.virExhausted = after.virExhausted := by
  obtain ⟨memory, rfl | ⟨page, hpage⟩⟩ := free_cases hfree
  · rfl
  · obtain ⟨freed, -, rfl⟩ := Option.map_eq_some_iff.mp hpage
    rfl

variable {boot : Boot} {events : List HeapEvent} {heap : Heap}

theorem step_exhausted {next : Heap} {event : HeapEvent} (hstep : heap.step event = some next)
    (hroom : next.mm.virExhausted = false) : heap.mm.virExhausted = false := by
  cases event with
  | malloc cntBytes =>
      obtain ⟨⟨mm, addr⟩, hmalloc, rfl⟩ := Option.map_eq_some_iff.mp hstep
      exact malloc_exhausted hmalloc hroom
  | free addr =>
      obtain ⟨mm, hfree, rfl⟩ := Option.map_eq_some_iff.mp hstep
      exact (free_exhausted hfree).trans hroom
  | write block cell first second =>
      rw [step, Option.some.injEq] at hstep
      subst hstep
      exact hroom

/-- What one event does to the shape, as long as there are virtual pages. -/
theorem step_spec {next : Heap} {event : HeapEvent} {shape : Shape} (hinv : HeapInv heap shape)
    (hadmits : heap.Admits event) (hstep : heap.step event = some next)
    (hroom : next.mm.virExhausted = false) :
    ∃ nextShape, HeapInv next nextShape ∧ shape.Steps event nextShape := by
  cases event with
  | malloc cntBytes =>
      obtain ⟨⟨mm, addr⟩, hmalloc, rfl⟩ := Option.map_eq_some_iff.mp hstep
      obtain ⟨mm', addr', hmalloc', hnext⟩ := hinv.malloc_spec hadmits.1 hadmits.2
      obtain ⟨rfl, rfl⟩ : mm' = mm ∧ addr' = addr := by
        rw [hmalloc, Option.some.injEq, Prod.mk.injEq] at hmalloc'
        exact ⟨hmalloc'.1.symm, hmalloc'.2.symm⟩
      obtain ⟨-, -, nextShape, hinv', -, htakes⟩ := hnext hroom
      exact ⟨nextShape, hinv', .malloc htakes⟩
  | free addr =>
      obtain ⟨mm, hfree, rfl⟩ := Option.map_eq_some_iff.mp hstep
      obtain ⟨cntBytes, hlive⟩ := Option.ne_none_iff_exists'.mp hadmits
      obtain ⟨mm', hfree', -, -, nextShape, hinv', -, hgives⟩ := hinv.free_spec hlive
      rw [hfree, Option.some.injEq] at hfree'
      exact ⟨nextShape, hfree' ▸ hinv', .free hgives⟩
  | write block cell first second =>
      rw [step, Option.some.injEq] at hstep
      subst hstep
      obtain ⟨-, hlow, cntBytes, hlive, hhigh⟩ := hadmits
      exact ⟨shape, hinv.write hlive hlow hhigh ⟨rfl, rfl⟩ rfl rfl rfl, .write⟩

/-- A property of the shape that no event takes away holds in every state of every run. -/
theorem run_shape {admits : Heap → HeapEvent → Prop} (good : List HeapEvent → Shape → Prop)
    (hstart : good [] emptyShape) (hadmits : ∀ heap event, admits heap event → heap.Admits event)
    (hgood : ∀ events heap event shape nextShape, HeapInv heap shape → admits heap event →
      shape.Steps event nextShape → good events shape → good (events ++ [event]) nextShape)
    (hrun : Run step admits (initial boot) events heap) (hroom : heap.mm.virExhausted = false) :
    ∃ shape, HeapInv heap shape ∧ good events shape := by
  induction hrun with
  | nil => exact ⟨_, initial_inv boot, hstart⟩
  | @snoc events heap next event hrun hevent hstep ih =>
      obtain ⟨shape, hinv, hshape⟩ := ih (step_exhausted hstep hroom)
      obtain ⟨nextShape, hinv', hsteps⟩ := step_spec hinv (hadmits _ _ hevent) hstep hroom
      exact ⟨nextShape, hinv', hgood _ _ _ _ _ hinv hevent hsteps hshape⟩

/-- The heap has a shape in every state of every run. -/
theorem run_inv (hrun : Run step Admits (initial boot) events heap)
    (hroom : heap.mm.virExhausted = false) : ∃ shape, HeapInv heap shape := by
  obtain ⟨shape, hinv, -⟩ := run_shape (fun _ _ => True) trivial (fun _ _ hadmits => hadmits)
    (fun _ _ _ _ _ _ _ _ _ => trivial) hrun hroom
  exact ⟨shape, hinv⟩

theorem rangeBytes_ge {cntBytes : Nat} (hpos : 1 ≤ cntBytes) (hlt : cntBytes < 2 ^ 31) :
    cntBytes ≤ rangeBytes cntBytes := by
  by_cases hlarge : 1024 < cntBytes
  · rw [rangeBytes_large hlarge]
    exact (pageCnt_spec hpos hlt).2.1
  · obtain ⟨descIdx, -, hdesc, hsize⟩ := descIdxOf_small (Nat.le_of_not_lt hlarge)
    rwa [rangeBytes_small (Nat.le_of_not_lt hlarge) hdesc]

/-- In every state of every run in which the virtual map is not exhausted: live
allocations are disjoint from each other and from all headers; a request for
`cntBytes` bytes returns a range of at least that size which is disjoint from
all live allocations and from all headers; freeing an allocation makes exactly
its range available, and the alignment of its address tells its kind; and
`free_cnts` of a page of blocks is the length of its list of free blocks. -/
theorem live_allocations_disjoint (hrun : Run step Admits (initial boot) events heap)
    (hroom : heap.mm.virExhausted = false) :
    (∀ addr cntBytes other bytes, heap.live addr = some cntBytes → heap.live other = some bytes →
      addr ≠ other → Disjoint (range addr cntBytes) (range other bytes)) ∧
    (∀ addr cntBytes page, heap.live addr = some cntBytes → heap.mm.SmallPage page →
      Disjoint (range addr cntBytes) (Set.Ico page (page + headerSize))) ∧
    (∀ cntBytes, 1 ≤ cntBytes → cntBytes < 2 ^ 31 →
      ∃ mm addr, heap.mm.malloc cntBytes = some (mm, addr) ∧
        (mm.virExhausted = false → cntBytes ≤ rangeBytes cntBytes ∧
          (∀ other bytes, heap.live other = some bytes →
            Disjoint (range addr cntBytes) (range other bytes)) ∧
          ∀ page, mm.SmallPage page →
            Disjoint (range addr cntBytes) (Set.Ico page (page + headerSize)))) ∧
    (∀ addr cntBytes, heap.live addr = some cntBytes →
      (addr % pageSize = 0 ↔ 1024 < cntBytes) ∧
      Disjoint heap.mm.Available (range addr cntBytes) ∧
      ∃ mm, heap.mm.free addr = some mm ∧
        mm.Available = heap.mm.Available ∪ range addr cntBytes) ∧
    ∀ page, heap.mm.SmallPage page → ∃ queue,
      (pageInFreeQueue page).Holds heap.mm.memory queue ∧
        freeCnts heap.mm.memory page = queue.length := by
  obtain ⟨shape, hinv⟩ := run_inv hrun hroom
  refine ⟨?_, ?_, ?_, ?_, ?_⟩
  · intro addr cntBytes other bytes hlive hother hne
    exact hinv.live_disjoint hlive hother hne
  · intro addr cntBytes page hlive hpage
    exact hinv.live_header_disjoint hlive hpage
  · intro cntBytes hpos hlt
    obtain ⟨mm, addr, hmalloc, hnext⟩ := hinv.malloc_spec hpos hlt
    refine ⟨mm, addr, hmalloc, fun hafter => ⟨rangeBytes_ge hpos hlt, ?_, ?_⟩⟩
    · intro other bytes hother
      obtain ⟨-, hnone, next, hinv', -⟩ := hnext hafter
      have hne : addr ≠ other := by
        rintro rfl
        rw [hnone] at hother
        cases hother
      exact hinv'.live_disjoint (Function.update_self ..)
        ((Function.update_of_ne hne.symm _ _).trans hother) hne
    · intro page hpage
      obtain ⟨-, -, next, hinv', -⟩ := hnext hafter
      exact hinv'.live_header_disjoint (Function.update_self ..) hpage
  · intro addr cntBytes hlive
    obtain ⟨mm, hfree, -, havailable, -⟩ := hinv.free_spec hlive
    exact ⟨hinv.placed_aligned hlive, hinv.live_not_available hlive, mm, hfree, havailable⟩
  · intro page hpage
    obtain ⟨slot, descIdx, rfl, howner⟩ := hinv.smallPage_iff.mp hpage
    have hheader := hinv.follows.header howner
    exact ⟨_, hheader.holds, hheader.cnts⟩

/-- A machine with four megabytes of memory, all of it zero. -/
def fourMegabytes : Boot where
  memCapacity := 0x400000
  phyaddrBytes _ := 0
  vaddrBytes _ := 0
  memory := ⟨fun _ => 0, fun _ => 0⟩
  frames _ _ := 0
  memDesc := 0x30000
  capacity_ge := by decide
  capacity_lt := by decide
  memDesc_le := by decide
  vaddr_free slot _ := by simp [DoublebitMap.slotIn, DoublebitMap.slotFree]

/-- Two pages and two blocks are requested, the first block is written to and freed, and so
are the pages. -/
def pagesAndBlocks : List HeapEvent :=
  [.malloc 5000, .malloc 100, .malloc 100, .write 0x202020 0x202028 1 2, .free 0x202020,
    .free 0x200000]

/-- The second block is live then, and a `free` of it makes it available. -/
theorem live_allocations_disjoint_two_pages :
    ∃ heap, Run step Admits (initial fourMegabytes) pagesAndBlocks heap ∧
      heap.live 0x2020a0 = some 100 ∧
      ∃ mm, heap.mm.free 0x2020a0 = some mm ∧
        mm.Available = heap.mm.Available ∪ range 0x2020a0 100 := by
  have hseen : (exec step Admits (initial fourMegabytes) pagesAndBlocks).map (fun heap =>
      (heap.live 0x2020a0, heap.mm.virExhausted)) = some (some 100, false) := by decide +kernel
  obtain ⟨heap, hexec, hvalues⟩ := Option.map_eq_some_iff.mp hseen
  rw [Prod.mk.injEq] at hvalues
  obtain ⟨hlive, hroom⟩ := hvalues
  have hrun := Run.of_exec _ _ _ _ hexec
  exact ⟨heap, hrun, hlive, ((live_allocations_disjoint hrun hroom).2.2.2.1 0x2020a0 100 hlive).2.2⟩

end Heap

end Shmily.Mm
