import Shmily.Mm.PageMapping

/-! # Memory that is not given back

The test of `free` for a page whose blocks are all free divides the size of the
header only, and no count reaches the number that it compares with. So a page of
blocks stays one for ever. Everything else comes back: when no allocation is
live, the slots are free and the marked pages hold page tables, exactly if no
small request was ever made.
-/

namespace Shmily.Mm

open Foundation Lib MemoryManager

/-! ## Pages of the pool -/

namespace Paging

/-- A slot that is mapped to the page, or a directory entry that names it. -/
def UsedFor (paging : Paging) (mapped : Nat → Prop) (i : Nat) : Prop :=
  (∃ slot, mapped slot ∧ entryAddr (paging.entry (paging.vaddr2pte (pageAddr slot))) = pageAddr i) ∨
    ∃ dirIdx < 1023, isPresent (paging.tables dirFrame dirIdx) = true ∧
      entryAddr (paging.tables dirFrame dirIdx) = pageAddr i

/-- Every page that is marked is used for something. -/
def Accounted (paging : Paging) (mapped : Nat → Prop) : Prop :=
  ∀ i < paging.phyaddrBmap.bytesLen * 8, paging.phyaddrBmap.verifyBit i = true →
    paging.UsedFor mapped i

end Paging

namespace PagingInv

variable {paging next : Paging} {mapped : Nat → Prop} {use : Nat → FrameUse}
  {slot dirIdx i j : Nat}

/-- A slot that was not mapped gets an entry. -/
theorem usedFor_insert (hinv : PagingInv paging mapped use) (hlow : pageAddr slot < 0xffc00000)
    (hpresent : isPresent (paging.entry (Paging.vaddr2pde (pageAddr slot))) = true)
    (hnew : ¬ mapped slot)
    (htables : ∀ frame idx, (frame, idx) ≠ paging.vaddr2pte (pageAddr slot) →
      next.tables frame idx = paging.tables frame idx) (hused : paging.UsedFor mapped j) :
    next.UsedFor (fun other => mapped other ∨ other = slot) j := by
  obtain ⟨hdir, -, hothers⟩ := hinv.edit hlow hpresent htables
  rcases hused with ⟨other, hmapped, haddr⟩ | ⟨dirIdx, hlt, htable⟩
  · have hne : other ≠ slot := by
      rintro rfl
      exact hnew hmapped
    exact .inl ⟨other, .inl hmapped, by rw [(hothers hne hmapped).2, haddr]⟩
  · exact .inr ⟨dirIdx, hlt, by rwa [hdir]⟩

theorem usedFor_table (hinv : PagingInv paging mapped use)
    (habsent : isPresent (paging.tables dirFrame dirIdx) = false)
    (hadds : paging.AddsTable next dirIdx i) (hunused : use i = .unused)
    (hused : paging.UsedFor mapped j) : next.UsedFor mapped j := by
  rcases hused with ⟨slot, hmapped, haddr⟩ | ⟨other, hlt, htable⟩
  · exact .inl ⟨slot, hmapped, by rw [(hinv.edit_table habsent hadds hunused hmapped).2, haddr]⟩
  · have hne : other ≠ dirIdx := by
      rintro rfl
      rw [habsent] at htable
      exact nomatch htable.1
    exact .inr ⟨other, hlt, by rwa [hadds.dir other hne]⟩

/-- The page that a slot loses is the only one that it was mapped to. -/
theorem usedFor_remove (hinv : PagingInv paging mapped use) (hmapped : mapped slot)
    (haddr : entryAddr (paging.entry (paging.vaddr2pte (pageAddr slot))) = pageAddr i)
    (htables : ∀ frame idx, (frame, idx) ≠ paging.vaddr2pte (pageAddr slot) →
      next.tables frame idx = paging.tables frame idx) (hne : j ≠ i)
    (hused : paging.UsedFor mapped j) : next.UsedFor (fun other => mapped other ∧ other ≠ slot) j := by
  obtain ⟨hlow, hpresent, -⟩ := hinv.page hmapped
  obtain ⟨hdir, -, hothers⟩ := hinv.edit hlow hpresent htables
  rcases hused with ⟨other, hother, haddr'⟩ | ⟨dirIdx, hlt, htable⟩
  · have hslot : other ≠ slot := by
      rintro rfl
      exact hne (pageAddr_inj (haddr'.symm.trans haddr))
    exact .inl ⟨other, ⟨hother, hslot⟩, by rw [(hothers hslot hother).2, haddr']⟩
  · exact .inr ⟨dirIdx, hlt, by rwa [hdir]⟩

/-- Once the page just marked is mapped, all marked pages are accounted for. -/
theorem accounted_insert (hinv : PagingInv paging mapped use) (hlow : pageAddr slot < 0xffc00000)
    (hpresent : isPresent (paging.entry (Paging.vaddr2pde (pageAddr slot))) = true)
    (hnew : ¬ mapped slot) (hbmap : next.phyaddrBmap = paging.phyaddrBmap)
    (htables : ∀ frame idx, (frame, idx) ≠ paging.vaddr2pte (pageAddr slot) →
      next.tables frame idx = paging.tables frame idx)
    (hentry : entryAddr (next.entry (paging.vaddr2pte (pageAddr slot))) = pageAddr i)
    (hothers : ∀ j < paging.phyaddrBmap.bytesLen * 8, paging.phyaddrBmap.verifyBit j = true →
      j ≠ i → paging.UsedFor mapped j) :
    next.Accounted fun other => mapped other ∨ other = slot := by
  intro j hj hbit
  rw [hbmap] at hj hbit
  by_cases heq : j = i
  · refine .inl ⟨slot, .inr rfl, ?_⟩
    rw [(hinv.edit hlow hpresent htables).2.1, heq, hentry]
  · exact hinv.usedFor_insert hlow hpresent hnew htables (hothers j hj hbit heq)

/-- Mapping the page that is the only marked one without a use. -/
theorem accounted_mapVirPhy (hinv : PagingInv paging mapped use) (hlow : pageAddr slot < 0xffc00000)
    (hnew : ¬ mapped slot) (hi : i < paging.phyaddrBmap.bytesLen * 8)
    (hclean : isPresent (paging.entry (Paging.vaddr2pde (pageAddr slot))) = true →
      isPresent (paging.entry (paging.vaddr2pte (pageAddr slot))) = true →
      entryAddr (paging.entry (paging.vaddr2pte (pageAddr slot))) = pageAddr i)
    (hothers : ∀ j < paging.phyaddrBmap.bytesLen * 8, paging.phyaddrBmap.verifyBit j = true →
      j ≠ i → paging.UsedFor mapped j)
    (hroom : (paging.mapVirPhy (pageAddr slot) (pageAddr i)).exhausted = false) :
    (paging.mapVirPhy (pageAddr slot) (pageAddr i)).Accounted
      fun other => mapped other ∨ other = slot := by
  have haddr := entryAddr_or_attr (hinv.pageAddr_lt hi)
  cases hpde : isPresent (paging.entry (Paging.vaddr2pde (pageAddr slot))) with
  | true =>
      rw [Paging.mapVirPhy, if_pos hpde]
      split
      next hpte =>
        exact hinv.accounted_insert hlow hpde hnew rfl (fun _ _ _ => rfl) (hclean hpde hpte) hothers
      next =>
        refine hinv.accounted_insert hlow hpde hnew rfl (fun frame idx hne => ?_) ?_ hothers
        · rw [Paging.setEntry_tables, if_neg hne]
        · rw [Paging.entry, Paging.setEntry_tables, if_pos rfl, haddr]
  | false =>
      rw [Paging.mapVirPhy_absent hpde] at hroom ⊢
      obtain ⟨j, hunused, hadds⟩ := hinv.newTable_spec hroom
      have hdir := dirIdx_lt hlow
      have htable := hinv.insertTable (hinv.dirIdx_pos hpde) hdir hpde hadds hunused
      refine htable.accounted_insert (i := i) hlow hadds.entry.1 hnew rfl (fun _ _ hne => ?_) ?_ ?_
      · rw [Paging.setEntry_tables, if_neg hne]
      · rw [Paging.entry, Paging.setEntry_tables, if_pos rfl, haddr]
      · -- The page of the new table has a use, and the others keep theirs.
        intro k hk hbit hne
        rw [hadds.bmap] at hk hbit
        rw [Bitmap.verifyBit_setBit] at hbit
        by_cases heq : k = j
        · exact .inr ⟨_, hdir, hadds.entry.1, by rw [heq, hadds.entry.2, pageAddr_eq]⟩
        · rw [if_neg (Ne.symm heq)] at hbit
          exact hinv.usedFor_table hpde hadds hunused (hothers k hk hbit hne)

/-- One round of `malloc_page`. -/
theorem accounted_mapRound (hinv : PagingInv paging mapped use) (haccounted : paging.Accounted mapped)
    (hnew : ¬ mapped slot) (hclean : paging.CleanAt slot)
    (hroom : (paging.mapRound slot).exhausted = false) :
    (paging.mapRound slot).Accounted fun other => mapped other ∨ other = slot := by
  obtain ⟨i, -, hi, -, htaken, hinv'⟩ := hinv.getPhyPage_spec (getPhyPage_room hroom)
  obtain ⟨hlow, hentry⟩ := hclean
  rw [Paging.mapRound] at hroom ⊢
  simp only [htaken] at hroom hentry ⊢
  refine hinv'.accounted_mapVirPhy hlow hnew hi hentry (fun j hj hbit hne => ?_) hroom
  rw [Bitmap.verifyBit_setBit, if_neg (Ne.symm hne)] at hbit
  exact haccounted j hj hbit

/-- One round of `free_page`. -/
theorem accounted_unmapRound (hinv : PagingInv paging mapped use)
    (haccounted : paging.Accounted mapped) (hmapped : mapped slot) :
    (paging.unmapRound slot).Accounted fun other => mapped other ∧ other ≠ slot := by
  obtain ⟨i, -, haddr, hbmap⟩ := hinv.unmapRound_bmap hmapped
  intro j hj hbit
  rw [hbmap] at hj hbit
  rw [Bitmap.verifyBit_setBit] at hbit
  have hne : j ≠ i := by
    rintro rfl
    rw [if_pos rfl] at hbit
    cases hbit
  rw [if_neg (Ne.symm hne)] at hbit
  exact hinv.usedFor_remove hmapped haddr (unmapRound_tables paging slot) hne (haccounted j hj hbit)

theorem accounted_kept : Paging.Kept fun paging mapped =>
    (∃ use, PagingInv paging mapped use) ∧ paging.Accounted mapped where
  map := by
    rintro paging mapped slot ⟨⟨use, hinv⟩, haccounted⟩ hnew hclean hroom
    exact ⟨hinv.mapRound_spec hclean hroom, hinv.accounted_mapRound haccounted hnew hclean hroom⟩
  unmap := by
    rintro paging mapped slot ⟨⟨use, hinv⟩, haccounted⟩ hmapped
    exact ⟨hinv.unmapRound_spec hmapped, hinv.accounted_unmapRound haccounted hmapped⟩

end PagingInv

/-! ## Pages of blocks -/

namespace Shape

variable {shape next : Shape} {cntBytes addr : Nat} {event : HeapEvent}

/-- Some page is a page of blocks. -/
def HasBlocks (shape : Shape) : Prop := ∃ slot descIdx, shape.owner slot = .small descIdx

theorem hasBlocks_setOwners {start cnt : Nat} {owner : Owner}
    (hold : ∀ slot, start ≤ slot → slot < start + cnt → ∀ {descIdx},
      shape.owner slot ≠ .small descIdx)
    (hnew : ∀ {descIdx}, owner ≠ .small descIdx) :
    (shape.setOwners start cnt owner).HasBlocks ↔ shape.HasBlocks :=
  exists_congr fun _ => exists_congr fun _ => small_setOwners hold hnew

/-- A request for a block leaves a page of blocks behind. -/
theorem Takes.hasBlocks (htakes : shape.Takes cntBytes addr next) :
    next.HasBlocks ↔ shape.HasBlocks ∨ cntBytes ≤ 1024 := by
  cases htakes with
  | large hlarge hfree =>
      rw [or_iff_left (Nat.not_le.mpr hlarge)]
      refine hasBlocks_setOwners (fun slot hlow hhigh => ?_) nofun
      rw [hfree slot hlow hhigh]
      exact nofun
  | reuse hsmall howner => exact iff_of_true ⟨_, _, howner⟩ (.inr hsmall)
  | fill hsmall howner => exact iff_of_true ⟨_, _, howner⟩ (.inr hsmall)
  | @fresh slot descIdx _ _ hsmall =>
      refine iff_of_true ⟨slot, descIdx, ?_⟩ (.inr hsmall)
      rw [setQueue_owner, addPage_owner, Function.update_self]

/-- No `free` gives back a page of blocks. -/
theorem Gives.hasBlocks (hgives : shape.Gives addr next) : next.HasBlocks ↔ shape.HasBlocks := by
  cases hgives with
  | large howner =>
      refine hasBlocks_setOwners (fun slot hlow hhigh => ?_) nofun
      rw [← Nat.add_sub_cancel' hlow, howner _ (by omega)]
      exact nofun
  | small => rfl

theorem Steps.hasBlocks (hsteps : shape.Steps event next) :
    next.HasBlocks ↔ shape.HasBlocks ∨ ∃ cntBytes ≤ 1024, event = .malloc cntBytes := by
  cases hsteps with
  | malloc htakes => simp [htakes.hasBlocks]
  | free hgives => simp [hgives.hasBlocks]
  | write => simp

end Shape

/-! ## Runs -/

namespace Heap

variable {boot : Boot} {events : List HeapEvent} {heap : Heap} {shape : Shape}

/-- Nothing is left of allocations: the slots are free, the lists are empty, and pages are
marked only if they hold page tables. -/
structure NoLeak (heap : Heap) : Prop where
  slots : ∀ slot < heap.mm.vaddrBmap.slots,
    heap.mm.vaddrBmap.getSlotStatus slot = DoublebitMap.slotFree
  lists : ∀ descIdx < 7, (heap.mm.desc descIdx).Holds heap.mm.memory []
  frames : ∀ phyaddr, heap.mm.paging.MarkedUsed phyaddr → heap.mm.paging.IsTable phyaddr

/-- There are pages of blocks once a small request was made. -/
theorem hasBlocks_iff (hrun : Run step Admits (initial boot) events heap)
    (hroom : heap.mm.virExhausted = false) :
    ∃ shape, HeapInv heap shape ∧
      (shape.HasBlocks ↔ ∃ cntBytes ≤ 1024, .malloc cntBytes ∈ events) := by
  refine run_shape (fun events shape => shape.HasBlocks ↔ ∃ cntBytes ≤ 1024, .malloc cntBytes ∈ events)
    (by simp [Shape.HasBlocks, emptyShape]) (fun _ _ hadmits => hadmits) ?_ hrun hroom
  intro events heap event shape next _ _ hsteps hshape
  rw [hsteps.hasBlocks, hshape]
  simp only [List.mem_append, List.mem_singleton, and_or_left, exists_or, eq_comm]

/-- Without live allocations only pages of blocks are in use. -/
theorem freed_iff (hinv : HeapInv heap shape) (hlive : ∀ addr, heap.live addr = none) {slot : Nat}
    (hslot : slot < heap.mm.vaddrBmap.slots) :
    heap.mm.vaddrBmap.getSlotStatus slot = DoublebitMap.slotFree ↔
      ∀ descIdx, shape.owner slot ≠ .small descIdx := by
  constructor
  · intro hstatus descIdx howner
    rw [hinv.owner_free hstatus] at howner
    cases howner
  · intro hsmall
    cases howner : shape.owner slot with
    | free => exact hinv.free_status hslot howner
    | small descIdx => exact absurd howner (hsmall descIdx)
    | large start =>
        obtain ⟨cntBytes, hheld, -⟩ := hinv.owned howner
        rw [hlive] at hheld
        cases hheld

/-- At boot no page is marked. -/
theorem initial_accounted (boot : Boot) :
    boot.memoryManager.paging.Accounted fun _ => False := by
  intro i hi hbit
  have hclear : boot.memoryManager.paging.phyaddrBmap.verifyBit i = false :=
    Bitmap.initBitmap_verifyBit _ hi
  rw [hclear] at hbit
  cases hbit

/-- In every run that maps cleanly and after which no allocation is live, everything has been
given back exactly if no request was for 1024 bytes or less. -/
theorem nothing_leaked_iff
    (hrun : Run step (fun heap event => heap.Admits event ∧ heap.MapsCleanly event)
      (initial boot) events heap)
    (hroom : heap.NotExhausted) (hlive : ∀ addr, heap.live addr = none) :
    heap.NoLeak ↔ ∀ cntBytes, .malloc cntBytes ∈ events → 1024 < cntBytes := by
  obtain ⟨shape, hinv, hblocks⟩ := hasBlocks_iff (hrun.mono fun _ _ h => h.1) hroom.1
  have hnone : (∀ cntBytes, .malloc cntBytes ∈ events → 1024 < cntBytes) ↔ ¬ shape.HasBlocks := by
    rw [hblocks]
    simp only [not_exists, not_and, ← Nat.not_le]
    exact forall_congr' fun _ => imp_not_comm
  rw [hnone]
  constructor
  · rintro hleak ⟨slot, descIdx, howner⟩
    have hslot := hinv.wf.owner_lt (by rw [howner]; exact nofun)
    exact (freed_iff hinv hlive hslot).mp (hleak.slots slot hslot) descIdx howner
  · intro hno
    have hslots : ∀ slot < heap.mm.vaddrBmap.slots,
        heap.mm.vaddrBmap.getSlotStatus slot = DoublebitMap.slotFree := fun slot hslot =>
      (freed_iff hinv hlive hslot).mpr fun descIdx howner => hno ⟨slot, descIdx, howner⟩
    refine ⟨hslots, fun descIdx hdesc => ?_, ?_⟩
    · have hempty : shape.pages descIdx = [] := by
        rw [List.eq_nil_iff_forall_not_mem]
        intro page hpage
        obtain ⟨slot, -, howner⟩ := (hinv.wf.mem_pages hdesc).mp hpage
        exact hno ⟨slot, descIdx, howner⟩
      exact hempty ▸ hinv.follows.desc hdesc
    · -- No slot is mapped any more, so every marked page is a page table.
      obtain ⟨other, hinv', ⟨use, hpages⟩, haccounted⟩ := run_kept PagingInv.accounted_kept
        ⟨⟨_, initial_paging boot⟩, initial_accounted boot⟩ hrun hroom
      rintro phyaddr ⟨i, hi, rfl, hbit⟩
      rcases haccounted i hi hbit with ⟨slot, hmapped, -⟩ | ⟨dirIdx, hlt, hpresent, haddr⟩
      · have hslot := hinv'.wf.owner_lt hmapped
        exact absurd (hinv'.owner_free (hslots slot hslot)) hmapped
      · exact ⟨dirIdx, by omega, hpresent, by rw [haddr, hpages.start_eq, pageAddr]⟩

/-- An allocation that is given back at once. -/
theorem live_of_pair {cntBytes addr : Nat} {mid : Heap}
    (hmalloc : (initial boot).step (.malloc cntBytes) = some mid) (hheld : mid.live addr ≠ none)
    (hfree : mid.step (.free addr) = some heap) (other : Nat) : heap.live other = none := by
  obtain ⟨⟨mm, given⟩, -, rfl⟩ := Option.map_eq_some_iff.mp hmalloc
  obtain ⟨after, -, rfl⟩ := Option.map_eq_some_iff.mp hfree
  have hgiven : addr = given := by
    by_contra hne
    exact hheld (Function.update_of_ne hne _ _)
  subst hgiven
  change Function.update (Function.update (initial boot).live addr (some cntBytes)) addr none other = none
  by_cases heq : other = addr
  · rw [heq, Function.update_self]
  · rw [Function.update_of_ne heq, Function.update_of_ne heq, initial]

/-- Two pages that are given back. -/
theorem nothing_leaked_pages :
    ∃ heap, Run step (fun heap event => heap.Admits event ∧ heap.MapsCleanly event)
      (initial fourMegabytes) [.malloc 5000, .free 0x200000] heap ∧ heap.NoLeak := by
  have hseen : ((initial fourMegabytes).step (.malloc 5000)).map (fun heap =>
      (heap.live 0x200000, (heap.step (.free 0x200000)).map fun next =>
        (next.mm.virExhausted, next.mm.paging.exhausted))) =
      some (some 5000, some (false, false)) := by
    decide
  obtain ⟨mid, hmalloc, hseen⟩ := Option.map_eq_some_iff.mp hseen
  obtain ⟨hheld, hfree⟩ := Prod.mk.inj hseen
  obtain ⟨heap, hstep, hroom⟩ := Option.map_eq_some_iff.mp hfree
  have hclean : (initial fourMegabytes).MapsCleanly (.malloc 5000) := by decide
  have hheld' : mid.live 0x200000 ≠ none := by rw [hheld]; exact nofun
  have hrun : Run step (fun heap event => heap.Admits event ∧ heap.MapsCleanly event)
      (initial fourMegabytes) [.malloc 5000, .free 0x200000] heap :=
    (Run.nil.snoc ⟨by decide, hclean⟩ hmalloc).snoc ⟨hheld', trivial⟩ hstep
  have hlive := live_of_pair hmalloc hheld' hstep
  exact ⟨heap, hrun, (nothing_leaked_iff hrun (Prod.mk.inj hroom) hlive).mpr (by simp)⟩

/-- The page of a single small block stays a page of blocks. -/
theorem page_of_blocks_leaks :
    ¬ ∀ (boot : Boot) (events : List HeapEvent) (heap : Heap),
      Run step Admits (initial boot) events heap → heap.NotExhausted →
      (∀ addr, heap.live addr = none) → heap.NoLeak := by
  intro hall
  have hseen : ((initial fourMegabytes).step (.malloc 1024)).map (fun heap =>
      (heap.live 0x200020, (heap.step (.free 0x200020)).map fun next =>
        ((next.mm.virExhausted, next.mm.paging.exhausted), next.mm.vaddrBmap.slots,
          next.mm.vaddrBmap.getSlotStatus 0))) =
      some (some 1024, some ((false, false), 512, DoublebitMap.slotUsedSingle)) := by
    decide
  obtain ⟨mid, hmalloc, hseen⟩ := Option.map_eq_some_iff.mp hseen
  obtain ⟨hheld, hfree⟩ := Prod.mk.inj hseen
  obtain ⟨heap, hstep, hafter⟩ := Option.map_eq_some_iff.mp hfree
  simp only [Prod.mk.injEq] at hafter
  obtain ⟨hroom, hslots, hstatus⟩ := hafter
  have hheld' : mid.live 0x200020 ≠ none := by rw [hheld]; exact nofun
  have hrun : Run step Admits (initial fourMegabytes) [.malloc 1024, .free 0x200020] heap :=
    (Run.nil.snoc (by decide) hmalloc).snoc hheld' hstep
  have hleak := hall _ _ _ hrun hroom (live_of_pair hmalloc hheld' hstep)
  have hfirst := hleak.slots 0 (by rw [hslots]; decide)
  rw [hstatus] at hfirst
  exact absurd hfirst (by decide)

end Heap

end Shmily.Mm
