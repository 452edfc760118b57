import Mathlib.Data.Nat.Bitwise
import Shmily.Mm.HeapSafety

/-! # Physical pages behind the heap

Virtual slots and physical pages are found by two independent searches, and the
page table joins them. The ghost `use` says what each page of the pool is for:
a slot of the heap or a page table. As long as no request meets an entry that
maps another page already, every slot in use is translated to a page of its own.
-/

namespace Shmily.Mm

open Foundation Lib MemoryManager

/-! ## Entries -/

theorem entryAddr_eq {entry : Nat} (hlt : entry < 2 ^ 32) :
    entryAddr entry = entry / pageSize * pageSize := by
  have hmask : (0xfffff000 : Nat) = (2 ^ 20 - 1) * 2 ^ 12 := by decide
  have hdiv : entry / 2 ^ 12 < 2 ^ 20 := by omega
  rw [entryAddr, hmask, pageSize]
  apply Nat.eq_of_testBit_eq
  intro bit
  have hpow : (4096 : Nat) = 2 ^ 12 := by decide
  rw [Nat.testBit_and, hpow, Nat.testBit_mul_two_pow, Nat.testBit_mul_two_pow,
    Nat.testBit_two_pow_sub_one, Nat.testBit_div_two_pow]
  by_cases hbit : 12 ≤ bit
  · rw [Nat.sub_add_cancel hbit]
    by_cases hhigh : bit - 12 < 20
    · simp [hbit, hhigh]
    · have hzero : entry.testBit bit = false :=
        Nat.testBit_lt_two_pow (lt_of_lt_of_le hlt (Nat.pow_le_pow_right (by decide) (by omega)))
      simp [hzero]
  · simp [hbit]

theorem pageAddr_eq (i : Nat) : pageAddr i = (512 + i) * pageSize := by
  simp only [pageAddr, pageSize, stationaryMem]
  omega

theorem pageAddr_lt_of_lt {i slots : Nat} (hroom : pageAddr slots ≤ 2 ^ 32) (hi : i < slots) :
    pageAddr i < 2 ^ 32 := by
  simp only [pageAddr, pageSize, stationaryMem] at hroom ⊢
  omega

theorem frame_or_attr (frame : Nat) :
    frame * pageSize ||| pageAttr = frame * pageSize + pageAttr := by
  have hpage : frame * pageSize = 2 ^ 12 * frame := by
    simp only [pageSize]
    omega
  have hattr : pageAttr < 2 ^ 12 := by decide
  rw [hpage, Nat.two_pow_add_eq_or_of_lt hattr]

theorem entryAddr_frame_attr {frame : Nat} (hlt : frame * pageSize < 2 ^ 32) :
    entryAddr (frame * pageSize ||| pageAttr) = frame * pageSize := by
  have hframe : frame < 2 ^ 20 := by
    simp only [pageSize] at hlt
    omega
  have hle : frame * pageSize + pageAttr < 2 ^ 32 := by
    simp only [pageSize, pageAttr]
    omega
  rw [frame_or_attr, entryAddr_eq hle]
  simp only [pageSize, pageAttr]
  omega

theorem isPresent_frame_attr (frame : Nat) : isPresent (frame * pageSize ||| pageAttr) = true := by
  rw [isPresent, frame_or_attr, Nat.and_one_is_mod]
  apply decide_eq_true
  simp only [pageSize, pageAttr]
  omega

theorem entryAddr_or_attr {i : Nat} (hlt : pageAddr i < 2 ^ 32) :
    entryAddr (pageAddr i ||| pageAttr) = pageAddr i := by
  rw [pageAddr_eq] at hlt ⊢
  exact entryAddr_frame_attr hlt

theorem isPresent_or_attr (i : Nat) : isPresent (pageAddr i ||| pageAttr) = true := by
  rw [pageAddr_eq]
  exact isPresent_frame_attr _

theorem pageAddr_frame (i : Nat) : pageAddr i / pageSize = 512 + i := by
  simp only [pageAddr, pageSize, stationaryMem]
  omega

namespace Paging

@[simp] theorem setEntry_tables (paging : Paging) (place : Nat × Nat) (value frame idx : Nat) :
    (paging.setEntry place value).tables frame idx =
      if (frame, idx) = place then value else paging.tables frame idx := by
  obtain ⟨placeFrame, placeIdx⟩ := place
  simp only [setEntry, Function.update_apply, Prod.mk.injEq]
  by_cases hframe : frame = placeFrame
  · subst hframe
    simp [Function.update_apply]
  · simp [hframe]

@[simp] theorem setEntry_phyaddrBmap (paging : Paging) (place : Nat × Nat) (value : Nat) :
    (paging.setEntry place value).phyaddrBmap = paging.phyaddrBmap := rfl

/-- The page table that `map_vir_phy` makes for an address without one. -/
def newTable (paging : Paging) (viraddr : Nat) : Paging :=
  let taken := paging.getPhyPage
  let paging := taken.1.setEntry (vaddr2pde viraddr) (taken.2 ||| pageAttr)
  { paging with tables := Function.update paging.tables (paging.tableFrame viraddr) fun _ => 0 }

theorem mapVirPhy_absent {paging : Paging} {viraddr phyaddr : Nat}
    (habsent : isPresent (paging.entry (vaddr2pde viraddr)) = false) :
    paging.mapVirPhy viraddr phyaddr = (paging.newTable viraddr).setEntry
      ((paging.newTable viraddr).vaddr2pte viraddr) (phyaddr ||| pageAttr) := by
  rw [mapVirPhy, if_neg (by rw [habsent]; exact Bool.false_ne_true)]
  rfl

end Paging

/-! ## The invariant -/

/-- What a page of the pool is used for. -/
inductive FrameUse where
  | unused
  | page (slot : Nat)
  | table (dirIdx : Nat)

namespace FrameUse

theorem page_ne_unused {slot : Nat} : page slot ≠ unused := nofun

theorem table_ne_unused {dirIdx : Nat} : table dirIdx ≠ unused := nofun

theorem table_ne_page {dirIdx slot : Nat} : table dirIdx ≠ page slot := nofun

end FrameUse

/-- The slots that are mapped have pages of their own, and so have the page tables.
The first table and the directory lie below the pool. -/
structure PagingInv (paging : Paging) (mapped : Nat → Prop) (use : Nat → FrameUse) : Prop where
  start_eq : paging.phyaddrStart = stationaryMem
  room : pageAddr (paging.phyaddrBmap.bytesLen * 8) ≤ 2 ^ 32
  used : ∀ {i}, use i ≠ .unused →
    i < paging.phyaddrBmap.bytesLen * 8 ∧ paging.phyaddrBmap.verifyBit i = true
  first : isPresent (paging.tables dirFrame 0) = true ∧
    entryAddr (paging.tables dirFrame 0) = (dirFrame + 1) * pageSize
  last : entryAddr (paging.tables dirFrame 1023) = dirFrame * pageSize
  table : ∀ {dirIdx}, 0 < dirIdx → dirIdx < 1023 →
    isPresent (paging.tables dirFrame dirIdx) = true →
    ∃ i, use i = .table dirIdx ∧ entryAddr (paging.tables dirFrame dirIdx) = pageAddr i
  page : ∀ {slot}, mapped slot → pageAddr slot < 0xffc00000 ∧
    isPresent (paging.entry (Paging.vaddr2pde (pageAddr slot))) = true ∧
    isPresent (paging.entry (paging.vaddr2pte (pageAddr slot))) = true ∧
    ∃ i, use i = .page slot ∧
      entryAddr (paging.entry (paging.vaddr2pte (pageAddr slot))) = pageAddr i

/-- A frame has become the page table of a directory entry, and is empty. -/
structure Paging.LinksTable (paging next : Paging) (dirIdx frame : Nat) : Prop where
  start_eq : next.phyaddrStart = paging.phyaddrStart
  entry : isPresent (next.tables dirFrame dirIdx) = true ∧
    entryAddr (next.tables dirFrame dirIdx) = frame * pageSize
  empty : ∀ idx, next.tables frame idx = 0
  dir : ∀ idx, idx ≠ dirIdx → next.tables dirFrame idx = paging.tables dirFrame idx
  tables : ∀ other, other ≠ dirFrame → other ≠ frame → next.tables other = paging.tables other

/-- The frame is a page of the pool that was free. -/
structure Paging.AddsTable (paging next : Paging) (dirIdx i : Nat) : Prop
    extends paging.LinksTable next dirIdx (512 + i) where
  lt : i < paging.phyaddrBmap.bytesLen * 8
  clear : paging.phyaddrBmap.verifyBit i = false
  bmap : next.phyaddrBmap = paging.phyaddrBmap.setBit i true

namespace Paging

variable {paging : Paging} {viraddr i frame : Nat}

@[simp] theorem getPhyPage_tables (paging : Paging) :
    paging.getPhyPage.1.tables = paging.tables := by
  rw [getPhyPage]
  split
  next => rfl
  next => rfl

@[simp] theorem getPhyPage_start (paging : Paging) :
    paging.getPhyPage.1.phyaddrStart = paging.phyaddrStart := by
  rw [getPhyPage]
  split
  next => rfl
  next => rfl

theorem getPhyPage_some (hstart : paging.phyaddrStart = stationaryMem)
    (hscan : paging.phyaddrBmap.bitmapScan 1 = some i) :
    paging.getPhyPage =
      ({ paging with phyaddrBmap := paging.phyaddrBmap.setBit i true }, pageAddr i) := by
  rw [getPhyPage, hscan]
  simp only [hstart, pageAddr]

/-- The new page table is the frame that was taken. -/
theorem newTable_links (htaken : paging.getPhyPage.2 = frame * pageSize)
    (hlt : frame * pageSize < 2 ^ 32) (hdir : frame ≠ dirFrame) :
    paging.LinksTable (paging.newTable viraddr) (viraddr / 2 ^ 22) frame := by
  let linked := paging.getPhyPage.1.setEntry (vaddr2pde viraddr) (frame * pageSize ||| pageAttr)
  have hlinked : linked.tables dirFrame (viraddr / 2 ^ 22) = frame * pageSize ||| pageAttr := by
    simp [linked, vaddr2pde]
  have hframe : linked.tableFrame viraddr = frame := by
    rw [tableFrame, entry, vaddr2pde, hlinked, entryAddr_frame_attr hlt,
      Nat.mul_div_cancel _ (by decide)]
  have hnew : paging.newTable viraddr =
      { linked with tables := Function.update linked.tables frame fun _ => 0 } := by
    rw [← hframe]
    simp only [newTable, htaken, linked]
  rw [hnew]
  constructor
  case start_eq => exact getPhyPage_start paging
  case entry =>
    simp only [Function.update_of_ne hdir.symm, hlinked]
    exact ⟨isPresent_frame_attr frame, entryAddr_frame_attr hlt⟩
  case empty =>
    intro idx
    simp only [Function.update_self]
  case dir =>
    intro idx hidx
    have hne : (dirFrame, idx) ≠ vaddr2pde viraddr := fun heq => hidx (Prod.mk.inj heq).2
    simp only [Function.update_of_ne hdir.symm, linked]
    rw [setEntry_tables, if_neg hne, getPhyPage_tables]
  case tables =>
    intro other hne hne'
    funext idx
    simp only [Function.update_of_ne hne', linked]
    rw [setEntry_tables, if_neg (by simp [vaddr2pde, hne]), getPhyPage_tables]

theorem newTable_adds (hstart : paging.phyaddrStart = stationaryMem)
    (hroom : pageAddr (paging.phyaddrBmap.bytesLen * 8) ≤ 2 ^ 32)
    (hscan : paging.phyaddrBmap.bitmapScan 1 = some i) :
    paging.AddsTable (paging.newTable viraddr) (viraddr / 2 ^ 22) i := by
  obtain ⟨hi, hclear⟩ := Bitmap.bitmapScan_one_spec hscan
  have htaken := getPhyPage_some hstart hscan
  refine ⟨newTable_links ?_ ?_ ?_, hi, hclear, ?_⟩
  · rw [htaken, pageAddr_eq]
  · rw [← pageAddr_eq]
    exact pageAddr_lt_of_lt hroom hi
  · simp only [dirFrame, pageSize]
    omega
  · simp only [newTable, htaken, setEntry_phyaddrBmap]

end Paging

namespace PagingInv

variable {paging next : Paging} {mapped : Nat → Prop} {use : Nat → FrameUse}
  {slot other dirIdx i : Nat}

theorem dirIdx_lt (hlow : pageAddr slot < 0xffc00000) : pageAddr slot / 2 ^ 22 < 1023 := by
  omega

/-- The frame of a page table that is present. -/
theorem table_frame (hinv : PagingInv paging mapped use) (hdir : dirIdx < 1023)
    (hpresent : isPresent (paging.tables dirFrame dirIdx) = true) :
    (dirIdx = 0 ∧ entryAddr (paging.tables dirFrame dirIdx) / pageSize = dirFrame + 1) ∨
      ∃ i, use i = .table dirIdx ∧
        entryAddr (paging.tables dirFrame dirIdx) / pageSize = 512 + i := by
  by_cases hzero : dirIdx = 0
  · subst hzero
    exact .inl ⟨rfl, by rw [hinv.first.2, Nat.mul_div_cancel _ (by decide)]⟩
  · obtain ⟨i, huse, haddr⟩ := hinv.table (by omega) hdir hpresent
    exact .inr ⟨i, huse, by rw [haddr, pageAddr_frame]⟩

/-- No page table lies in the frame of the directory. -/
theorem table_ne_dir (hinv : PagingInv paging mapped use) (hdir : dirIdx < 1023)
    (hpresent : isPresent (paging.tables dirFrame dirIdx) = true) :
    entryAddr (paging.tables dirFrame dirIdx) / pageSize ≠ dirFrame := by
  rcases hinv.table_frame hdir hpresent with ⟨-, hframe⟩ | ⟨i, -, hframe⟩
  · rw [hframe]
    decide
  · rw [hframe]
    simp only [dirFrame, pageSize]
    omega

/-- Different directory entries have different page tables. -/
theorem table_inj (hinv : PagingInv paging mapped use) {left right : Nat} (hleft : left < 1023)
    (hright : right < 1023) (hpresent : isPresent (paging.tables dirFrame left) = true)
    (hpresent' : isPresent (paging.tables dirFrame right) = true)
    (hframe : entryAddr (paging.tables dirFrame left) / pageSize =
      entryAddr (paging.tables dirFrame right) / pageSize) : left = right := by
  have hbelow : dirFrame + 1 < 512 := by decide
  rcases hinv.table_frame hleft hpresent with ⟨hzero, heq⟩ | ⟨i, huse, heq⟩
  · rcases hinv.table_frame hright hpresent' with ⟨hzero', -⟩ | ⟨j, -, heq'⟩
    · rw [hzero, hzero']
    · omega
  · rcases hinv.table_frame hright hpresent' with ⟨-, heq'⟩ | ⟨j, huse', heq'⟩
    · omega
    · obtain rfl : i = j := by omega
      rw [huse, FrameUse.table.injEq] at huse'
      exact huse'

/-- Different pages have their entries in different places. -/
theorem place_ne (hinv : PagingInv paging mapped use) (hne : slot ≠ other)
    (hlow : pageAddr slot < 0xffc00000) (hlow' : pageAddr other < 0xffc00000)
    (hpresent : isPresent (paging.entry (Paging.vaddr2pde (pageAddr slot))) = true)
    (hpresent' : isPresent (paging.entry (Paging.vaddr2pde (pageAddr other))) = true) :
    paging.vaddr2pte (pageAddr slot) ≠ paging.vaddr2pte (pageAddr other) := by
  intro heq
  rw [Paging.vaddr2pte, Paging.vaddr2pte, Prod.mk.injEq] at heq
  have hdir := hinv.table_inj (dirIdx_lt hlow) (dirIdx_lt hlow') hpresent hpresent' heq.1
  have hidx := heq.2
  simp only [pageAddr, pageSize, stationaryMem] at hdir hidx
  omega

/-- The pages of the slots and the page tables are not touched by an edit of one
entry of a page table that is present. -/
theorem edit (hinv : PagingInv paging mapped use) (hlow : pageAddr slot < 0xffc00000)
    (hpresent : isPresent (paging.entry (Paging.vaddr2pde (pageAddr slot))) = true)
    (htables : ∀ frame idx, (frame, idx) ≠ paging.vaddr2pte (pageAddr slot) →
      next.tables frame idx = paging.tables frame idx) :
    (∀ idx, next.tables dirFrame idx = paging.tables dirFrame idx) ∧
      next.vaddr2pte (pageAddr slot) = paging.vaddr2pte (pageAddr slot) ∧
      ∀ {other}, other ≠ slot → mapped other →
        next.vaddr2pte (pageAddr other) = paging.vaddr2pte (pageAddr other) ∧
        next.entry (next.vaddr2pte (pageAddr other)) =
          paging.entry (paging.vaddr2pte (pageAddr other)) := by
  have hdir : ∀ idx, next.tables dirFrame idx = paging.tables dirFrame idx := by
    intro idx
    refine htables dirFrame idx fun heq => ?_
    rw [Paging.vaddr2pte, Prod.mk.injEq] at heq
    exact hinv.table_ne_dir (dirIdx_lt hlow) hpresent heq.1.symm
  have hpte : ∀ vaddr, next.vaddr2pte vaddr = paging.vaddr2pte vaddr := by
    intro vaddr
    simp only [Paging.vaddr2pte, Paging.tableFrame, Paging.entry, Paging.vaddr2pde, hdir]
  refine ⟨hdir, hpte _, fun hne hmapped => ⟨hpte _, ?_⟩⟩
  obtain ⟨hlow', hpresent', -⟩ := hinv.page hmapped
  rw [hpte]
  exact htables _ _ (hinv.place_ne hne hlow' hlow hpresent' hpresent)

/-- A page whose use changes is not one that serves for something else. -/
theorem use_kept {was new : FrameUse} (hwas : use i = was) {j : Nat} (hj : use j ≠ was) :
    Function.update use i new j = use j := by
  refine Function.update_of_ne ?_ _ _
  rintro rfl
  exact hj hwas

/-- The pages in use are marked when the page of a marked bit is given a use. -/
theorem used_insert (hinv : PagingInv paging mapped use) {new : FrameUse}
    (hi : i < paging.phyaddrBmap.bytesLen * 8) (hbit : paging.phyaddrBmap.verifyBit i = true)
    {j : Nat} (hj : Function.update use i new j ≠ .unused) :
    j < paging.phyaddrBmap.bytesLen * 8 ∧ paging.phyaddrBmap.verifyBit j = true := by
  by_cases heq : j = i
  · subst heq
    exact ⟨hi, hbit⟩
  · rw [Function.update_of_ne heq] at hj
    exact hinv.used hj

/-- A slot gets an unused page, through an entry of a table that is present. -/
theorem insertPage (hinv : PagingInv paging mapped use) (hlow : pageAddr slot < 0xffc00000)
    (hpresent : isPresent (paging.entry (Paging.vaddr2pde (pageAddr slot))) = true)
    (hi : i < paging.phyaddrBmap.bytesLen * 8) (hbit : paging.phyaddrBmap.verifyBit i = true)
    (hunused : use i = .unused) (hstart : next.phyaddrStart = paging.phyaddrStart)
    (hbmap : next.phyaddrBmap = paging.phyaddrBmap)
    (htables : ∀ frame idx, (frame, idx) ≠ paging.vaddr2pte (pageAddr slot) →
      next.tables frame idx = paging.tables frame idx)
    (hentry : isPresent (next.entry (paging.vaddr2pte (pageAddr slot))) = true ∧
      entryAddr (next.entry (paging.vaddr2pte (pageAddr slot))) = pageAddr i) :
    PagingInv next (fun other => mapped other ∨ other = slot)
      (Function.update use i (.page slot)) := by
  obtain ⟨hdir, hpte, hothers⟩ := hinv.edit hlow hpresent htables
  have hkeep : ∀ {j}, use j ≠ .unused → Function.update use i (.page slot) j = use j :=
    fun hj => use_kept hunused hj
  have hpde : isPresent (next.entry (Paging.vaddr2pde (pageAddr slot))) = true := by
    rw [Paging.entry, Paging.vaddr2pde, hdir]
    exact hpresent
  constructor
  case start_eq => exact hstart.trans hinv.start_eq
  case room => rw [hbmap]; exact hinv.room
  case used =>
    intro j hj
    rw [hbmap]
    exact hinv.used_insert hi hbit hj
  case first => rw [hdir]; exact hinv.first
  case last => rw [hdir]; exact hinv.last
  case table =>
    intro dirIdx hpos hlt htable
    rw [hdir] at htable ⊢
    obtain ⟨j, huse, haddr⟩ := hinv.table hpos hlt htable
    exact ⟨j, by rw [hkeep (by rw [huse]; exact FrameUse.table_ne_unused), huse], haddr⟩
  case page =>
    intro other hother
    by_cases heq : other = slot
    · subst heq
      exact ⟨hlow, hpde, hpte ▸ hentry.1, i, Function.update_self .., hpte ▸ hentry.2⟩
    · have hmapped := hother.resolve_right heq
      obtain ⟨hlow', hpresent', hentry', j, huse, haddr⟩ := hinv.page hmapped
      rw [(hothers heq hmapped).2, Paging.entry, Paging.vaddr2pde, hdir]
      exact ⟨hlow', hpresent', hentry', j, by rw [hkeep (by rw [huse]; exact FrameUse.page_ne_unused), huse], haddr⟩

/-- The pages of the slots are not touched when a page table is made in an unused page. -/
theorem edit_table (hinv : PagingInv paging mapped use)
    (habsent : isPresent (paging.tables dirFrame dirIdx) = false)
    (hadds : paging.AddsTable next dirIdx i) (hunused : use i = .unused) (hmapped : mapped slot) :
    next.entry (Paging.vaddr2pde (pageAddr slot)) = paging.entry (Paging.vaddr2pde (pageAddr slot)) ∧
      next.entry (next.vaddr2pte (pageAddr slot)) =
        paging.entry (paging.vaddr2pte (pageAddr slot)) := by
  obtain ⟨hlow, hpresent, -⟩ := hinv.page hmapped
  -- Its table was there before, so it is not the one just made.
  have hne : pageAddr slot / 2 ^ 22 ≠ dirIdx := by
    intro heq
    rw [Paging.entry, Paging.vaddr2pde, heq, habsent] at hpresent
    cases hpresent
  have hpde : next.entry (Paging.vaddr2pde (pageAddr slot)) =
      paging.entry (Paging.vaddr2pde (pageAddr slot)) := hadds.dir _ hne
  have hframe : paging.tableFrame (pageAddr slot) ≠ 512 + i := by
    rcases hinv.table_frame (dirIdx_lt hlow) hpresent with ⟨-, hframe⟩ | ⟨k, hk, hframe⟩
    · intro heq
      have hbelow : dirFrame + 1 < 512 := by decide
      exact absurd (hframe.symm.trans heq) (by omega)
    · intro heq
      have hki : k = i := by
        have := hframe.symm.trans heq
        omega
      rw [hki, hunused] at hk
      cases hk
  have htable := hadds.tables _ (hinv.table_ne_dir (dirIdx_lt hlow) hpresent) hframe
  refine ⟨hpde, ?_⟩
  simp only [Paging.entry, Paging.vaddr2pte, Paging.tableFrame] at hpde ⊢
  rw [hpde]
  exact congrFun htable _

/-- An unused page becomes a page table. -/
theorem insertTable (hinv : PagingInv paging mapped use) (hpos : 0 < dirIdx)
    (hdirLt : dirIdx < 1023) (habsent : isPresent (paging.tables dirFrame dirIdx) = false)
    (hadds : paging.AddsTable next dirIdx i) (hunused : use i = .unused) :
    PagingInv next mapped (Function.update use i (.table dirIdx)) := by
  have hkeep : ∀ {j}, use j ≠ .unused → Function.update use i (.table dirIdx) j = use j :=
    fun hj => use_kept hunused hj
  constructor
  case start_eq => exact hadds.start_eq.trans hinv.start_eq
  case room => rw [hadds.bmap, Bitmap.setBit_bytesLen]; exact hinv.room
  case used =>
    intro j hj
    rw [hadds.bmap, Bitmap.setBit_bytesLen, Bitmap.verifyBit_setBit]
    by_cases heq : j = i
    · exact ⟨heq ▸ hadds.lt, if_pos heq.symm⟩
    · rw [Function.update_of_ne heq] at hj
      rw [if_neg (Ne.symm heq)]
      exact hinv.used hj
  case first => rw [hadds.dir 0 (by omega)]; exact hinv.first
  case last => rw [hadds.dir 1023 (by omega)]; exact hinv.last
  case table =>
    intro other hotherPos hlt htable
    by_cases heq : other = dirIdx
    · subst heq
      exact ⟨i, Function.update_self .., hadds.entry.2.trans (pageAddr_eq i).symm⟩
    · rw [hadds.dir other heq] at htable ⊢
      obtain ⟨j, huse, haddr⟩ := hinv.table hotherPos hlt htable
      exact ⟨j, by rw [hkeep (by rw [huse]; exact FrameUse.table_ne_unused), huse], haddr⟩
  case page =>
    intro slot hmapped
    obtain ⟨hlow, hpresent, hentry, j, huse, haddr⟩ := hinv.page hmapped
    obtain ⟨hpde, hpte⟩ := hinv.edit_table habsent hadds hunused hmapped
    rw [hpde, hpte]
    exact ⟨hlow, hpresent, hentry, j, by rw [hkeep (by rw [huse]; exact FrameUse.page_ne_unused), huse], haddr⟩

/-- A slot loses its page. -/
theorem removePage (hinv : PagingInv paging mapped use) (hmapped : mapped slot)
    (hstart : next.phyaddrStart = paging.phyaddrStart)
    (huse : use i = .page slot)
    (hbmap : next.phyaddrBmap = paging.phyaddrBmap.setBit i false)
    (htables : ∀ frame idx, (frame, idx) ≠ paging.vaddr2pte (pageAddr slot) →
      next.tables frame idx = paging.tables frame idx) :
    PagingInv next (fun other => mapped other ∧ other ≠ slot)
      (Function.update use i .unused) := by
  obtain ⟨hlow, hpresent, -⟩ := hinv.page hmapped
  obtain ⟨hdir, -, hothers⟩ := hinv.edit hlow hpresent htables
  have hkeep : ∀ {j}, use j ≠ .page slot → Function.update use i .unused j = use j :=
    fun hj => use_kept huse hj
  constructor
  case start_eq => exact hstart.trans hinv.start_eq
  case room => rw [hbmap]; exact hinv.room
  case used =>
    intro j hj
    by_cases heq : j = i
    · rw [heq, Function.update_self] at hj
      exact absurd rfl hj
    · rw [Function.update_of_ne heq] at hj
      rw [hbmap, Bitmap.verifyBit_setBit, if_neg (Ne.symm heq)]
      exact hinv.used hj
  case first => rw [hdir]; exact hinv.first
  case last => rw [hdir]; exact hinv.last
  case table =>
    intro dirIdx hpos hlt htable
    rw [hdir] at htable ⊢
    obtain ⟨j, hj, haddr⟩ := hinv.table hpos hlt htable
    exact ⟨j, by rw [hkeep (by rw [hj]; exact FrameUse.table_ne_page), hj], haddr⟩
  case page =>
    rintro other ⟨hother, hne⟩
    obtain ⟨hlow', hpresent', hentry', j, hj, haddr⟩ := hinv.page hother
    rw [(hothers hne hother).2, Paging.entry, Paging.vaddr2pde, hdir]
    refine ⟨hlow', hpresent', hentry', j, ?_, haddr⟩
    rw [hkeep (by rw [hj, Ne, FrameUse.page.injEq]; exact hne), hj]

/-! ## Mapping and unmapping -/

/-- `get_phy_page` takes a page that is used for nothing. -/
theorem getPhyPage_spec (hinv : PagingInv paging mapped use)
    (hroom : paging.getPhyPage.1.exhausted = false) :
    ∃ i, use i = .unused ∧ i < paging.phyaddrBmap.bytesLen * 8 ∧
      paging.phyaddrBmap.verifyBit i = false ∧
      paging.getPhyPage =
        ({ paging with phyaddrBmap := paging.phyaddrBmap.setBit i true }, pageAddr i) ∧
      PagingInv { paging with phyaddrBmap := paging.phyaddrBmap.setBit i true } mapped use := by
  cases hscan : paging.phyaddrBmap.bitmapScan 1 with
  | none => simp [Paging.getPhyPage, hscan] at hroom
  | some i =>
      obtain ⟨hi, hbit⟩ := Bitmap.bitmapScan_one_spec hscan
      have hunused : use i = .unused := by
        by_contra hused
        rw [(hinv.used hused).2] at hbit
        cases hbit
      refine ⟨i, hunused, hi, hbit, ?_, ?_⟩
      · exact Paging.getPhyPage_some hinv.start_eq hscan
      · refine ⟨hinv.start_eq, hinv.room, fun hused => ⟨(hinv.used hused).1, ?_⟩, hinv.first,
          hinv.last, hinv.table, hinv.page⟩
        rw [Bitmap.verifyBit_setBit, (hinv.used hused).2, ite_self]

theorem getPhyPage_exhausted (hroom : paging.exhausted = true) :
    paging.getPhyPage.1.exhausted = true := by
  rw [Paging.getPhyPage]
  split
  · rfl
  · exact hroom

theorem mapVirPhy_exhausted {viraddr phyaddr : Nat} (hroom : paging.exhausted = true) :
    (paging.mapVirPhy viraddr phyaddr).exhausted = true := by
  rw [Paging.mapVirPhy]
  split
  · split
    · exact hroom
    · exact hroom
  · exact getPhyPage_exhausted hroom

theorem mapPages_exhausted (cnt vaddr : Nat) (hroom : paging.exhausted = true) :
    (paging.mapPages cnt vaddr).exhausted = true := by
  induction cnt generalizing paging vaddr with
  | zero => exact hroom
  | succ cnt ih => exact ih _ (mapVirPhy_exhausted (getPhyPage_exhausted hroom))

theorem pageAddr_lt (hinv : PagingInv paging mapped use)
    (hi : i < paging.phyaddrBmap.bytesLen * 8) : pageAddr i < 2 ^ 32 :=
  pageAddr_lt_of_lt hinv.room hi

/-- The new page table is empty and lies in a page that was used for nothing. -/
theorem newTable_spec (hinv : PagingInv paging mapped use)
    (hroom : (paging.newTable (pageAddr slot)).exhausted = false) :
    ∃ i, use i = .unused ∧
      paging.AddsTable (paging.newTable (pageAddr slot)) (pageAddr slot / 2 ^ 22) i := by
  cases hscan : paging.phyaddrBmap.bitmapScan 1 with
  | none => simp [Paging.newTable, Paging.setEntry, Paging.getPhyPage, hscan] at hroom
  | some i =>
      have hadds := @Paging.newTable_adds paging (pageAddr slot) i hinv.start_eq hinv.room hscan
      refine ⟨i, ?_, hadds⟩
      by_contra hused
      have hbit := (hinv.used hused).2
      rw [hadds.clear] at hbit
      cases hbit

/-- The directory entry of a mapped page is not the first one if it is absent. -/
theorem dirIdx_pos (hinv : PagingInv paging mapped use)
    (habsent : isPresent (paging.entry (Paging.vaddr2pde (pageAddr slot))) = false) :
    0 < pageAddr slot / 2 ^ 22 := by
  apply Nat.pos_of_ne_zero
  intro hzero
  rw [Paging.entry, Paging.vaddr2pde, hzero, hinv.first.1] at habsent
  cases habsent

/-- An entry for a page that is marked. -/
theorem setEntry_spec (hinv : PagingInv paging mapped use) (hlow : pageAddr slot < 0xffc00000)
    (hpde : isPresent (paging.entry (Paging.vaddr2pde (pageAddr slot))) = true)
    (hi : i < paging.phyaddrBmap.bytesLen * 8) (hbit : paging.phyaddrBmap.verifyBit i = true)
    (hunused : use i = .unused) :
    PagingInv (paging.setEntry (paging.vaddr2pte (pageAddr slot)) (pageAddr i ||| pageAttr))
      (fun other => mapped other ∨ other = slot) (Function.update use i (.page slot)) := by
  refine hinv.insertPage hlow hpde hi hbit hunused rfl rfl (fun frame idx hne => ?_) ?_
  · rw [Paging.setEntry_tables, if_neg hne]
  · rw [Paging.entry, Paging.setEntry_tables, if_pos rfl]
    exact ⟨isPresent_or_attr i, entryAddr_or_attr (hinv.pageAddr_lt hi)⟩

/-- Mapping a slot to an unused page, unless an entry is in the way. -/
theorem mapVirPhy_spec (hinv : PagingInv paging mapped use) (hlow : pageAddr slot < 0xffc00000)
    (hi : i < paging.phyaddrBmap.bytesLen * 8) (hbit : paging.phyaddrBmap.verifyBit i = true)
    (hunused : use i = .unused)
    (hclean : isPresent (paging.entry (Paging.vaddr2pde (pageAddr slot))) = true →
      isPresent (paging.entry (paging.vaddr2pte (pageAddr slot))) = true →
      entryAddr (paging.entry (paging.vaddr2pte (pageAddr slot))) = pageAddr i)
    (hroom : (paging.mapVirPhy (pageAddr slot) (pageAddr i)).exhausted = false) :
    ∃ use', PagingInv (paging.mapVirPhy (pageAddr slot) (pageAddr i))
      (fun other => mapped other ∨ other = slot) use' := by
  cases hpde : isPresent (paging.entry (Paging.vaddr2pde (pageAddr slot))) with
  | true =>
      rw [Paging.mapVirPhy, if_pos hpde]
      split
      next hpte =>
        exact ⟨_, hinv.insertPage hlow hpde hi hbit hunused rfl rfl (fun _ _ _ => rfl)
          ⟨hpte, hclean hpde hpte⟩⟩
      next => exact ⟨_, hinv.setEntry_spec hlow hpde hi hbit hunused⟩
  | false =>
      rw [Paging.mapVirPhy_absent hpde] at hroom ⊢
      -- The second page that is taken becomes the page table.
      obtain ⟨j, hunused', hadds⟩ := hinv.newTable_spec hroom
      have hij : i ≠ j := by
        rintro rfl
        rw [hadds.clear] at hbit
        cases hbit
      refine ⟨_, (hinv.insertTable (hinv.dirIdx_pos hpde) (dirIdx_lt hlow) hpde hadds
        hunused').setEntry_spec hlow hadds.entry.1 ?_ ?_ ?_⟩
      · rwa [hadds.bmap, Bitmap.setBit_bytesLen]
      · rw [hadds.bmap, Bitmap.verifyBit_setBit, if_neg (Ne.symm hij), hbit]
      · rw [Function.update_of_ne hij, hunused]

end PagingInv

/-- No page of a run that is about to be mapped lies where the page tables are
seen, and an entry that is present already maps the page just taken. -/
def Paging.MapsCleanly : Nat → Nat → Paging → Prop
  | 0, _, _ => True
  | cnt + 1, vaddr, paging =>
      vaddr < 0xffc00000 ∧
      (isPresent (paging.entry (vaddr2pde vaddr)) = true →
        isPresent (paging.entry (paging.vaddr2pte vaddr)) = true →
        entryAddr (paging.entry (paging.vaddr2pte vaddr)) = paging.getPhyPage.2) ∧
      MapsCleanly cnt (vaddr + pageSize) (paging.getPhyPage.1.mapVirPhy vaddr paging.getPhyPage.2)

instance Paging.decidableMapsCleanly :
    ∀ cnt vaddr paging, Decidable (Paging.MapsCleanly cnt vaddr paging)
  | 0, _, _ => inferInstanceAs (Decidable True)
  | cnt + 1, vaddr, paging =>
      have := decidableMapsCleanly cnt (vaddr + pageSize)
        (paging.getPhyPage.1.mapVirPhy vaddr paging.getPhyPage.2)
      inferInstanceAs (Decidable (_ ∧ (_ → _ → _) ∧ _))

/-! ## Rounds -/

namespace Paging

/-- One round of `malloc_page`. -/
def mapRound (paging : Paging) (slot : Nat) : Paging :=
  paging.getPhyPage.1.mapVirPhy (pageAddr slot) paging.getPhyPage.2

/-- One round of `free_page`. -/
def unmapRound (paging : Paging) (slot : Nat) : Paging :=
  (paging.freePhyPage (paging.vaddr2phy (pageAddr slot))).removeMapAddr (pageAddr slot)

/-- What the first round of a run that is mapped cleanly relies on. -/
def CleanAt (paging : Paging) (slot : Nat) : Prop :=
  pageAddr slot < 0xffc00000 ∧
    (isPresent (paging.entry (vaddr2pde (pageAddr slot))) = true →
      isPresent (paging.entry (paging.vaddr2pte (pageAddr slot))) = true →
      entryAddr (paging.entry (paging.vaddr2pte (pageAddr slot))) = paging.getPhyPage.2)

variable {paging : Paging} {start cnt : Nat}

theorem mapPages_succ :
    paging.mapPages (cnt + 1) (pageAddr start) =
      (paging.mapRound start).mapPages cnt (pageAddr (start + 1)) := by
  rw [mapPages, pageAddr_add, Nat.one_mul, mapRound]

theorem unmapPages_succ :
    paging.unmapPages (cnt + 1) (pageAddr start) =
      (paging.unmapRound start).unmapPages cnt (pageAddr (start + 1)) := by
  rw [unmapPages, pageAddr_add, Nat.one_mul, unmapRound]

theorem mapsCleanly_succ :
    paging.MapsCleanly (cnt + 1) (pageAddr start) ↔
      paging.CleanAt start ∧ (paging.mapRound start).MapsCleanly cnt (pageAddr (start + 1)) := by
  rw [MapsCleanly, pageAddr_add, Nat.one_mul, CleanAt, mapRound, and_assoc]

/-- A property of the page table and the slots that are mapped which every round keeps. -/
structure Kept (good : Paging → (Nat → Prop) → Prop) : Prop where
  map : ∀ {paging mapped slot}, good paging mapped → ¬ mapped slot → paging.CleanAt slot →
    (paging.mapRound slot).exhausted = false →
    good (paging.mapRound slot) fun other => mapped other ∨ other = slot
  unmap : ∀ {paging mapped slot}, good paging mapped → mapped slot →
    good (paging.unmapRound slot) fun other => mapped other ∧ other ≠ slot

variable {good : Paging → (Nat → Prop) → Prop} {mapped : Nat → Prop}

theorem good_congr {other : Nat → Prop} (hgood : good paging mapped)
    (hsame : ∀ slot, other slot ↔ mapped slot) : good paging other := by
  have heq : other = mapped := funext fun slot => propext (hsame slot)
  rwa [heq]

/-- The loop of `malloc_page`. -/
theorem Kept.mapPages (hkept : Kept good) (hgood : good paging mapped)
    (hnew : ∀ slot, start ≤ slot → slot < start + cnt → ¬ mapped slot)
    (hclean : paging.MapsCleanly cnt (pageAddr start))
    (hroom : (paging.mapPages cnt (pageAddr start)).exhausted = false) :
    good (paging.mapPages cnt (pageAddr start))
      fun slot => mapped slot ∨ start ≤ slot ∧ slot < start + cnt := by
  induction cnt generalizing paging mapped start with
  | zero =>
      exact good_congr hgood fun slot => or_iff_left fun h => absurd h.2 (Nat.not_lt.mpr h.1)
  | succ cnt ih =>
      rw [mapsCleanly_succ] at hclean
      rw [mapPages_succ] at hroom ⊢
      have hround : (paging.mapRound start).exhausted = false := by
        by_contra hexhausted
        rw [Bool.not_eq_false] at hexhausted
        rw [PagingInv.mapPages_exhausted cnt _ hexhausted] at hroom
        cases hroom
      have hnext := hkept.map hgood (hnew start le_rfl (by omega)) hclean.1 hround
      have hrest := ih hnext (fun slot hlow hhigh => ?_) hclean.2 hroom
      · refine good_congr hrest fun slot => ?_
        rw [or_assoc]
        exact or_congr_right (by omega)
      · exact not_or.mpr ⟨hnew slot (by omega) (by omega), by omega⟩

/-- The loop of `free_page`. -/
theorem Kept.unmapPages (hkept : Kept good) (hgood : good paging mapped)
    (hmapped : ∀ slot, start ≤ slot → slot < start + cnt → mapped slot) :
    good (paging.unmapPages cnt (pageAddr start))
      fun slot => mapped slot ∧ ¬ (start ≤ slot ∧ slot < start + cnt) := by
  induction cnt generalizing paging mapped start with
  | zero =>
      exact good_congr hgood fun slot => and_iff_left fun h => absurd h.2 (Nat.not_lt.mpr h.1)
  | succ cnt ih =>
      rw [unmapPages_succ]
      have hnext := hkept.unmap hgood (hmapped start le_rfl (by omega))
      have hothers : ∀ slot, start + 1 ≤ slot → slot < start + 1 + cnt →
          mapped slot ∧ slot ≠ start := fun slot hlow hhigh =>
        ⟨hmapped slot (by omega) (by omega), by omega⟩
      refine good_congr (ih hnext hothers) fun slot => ?_
      rw [and_assoc]
      exact and_congr_right fun _ => by omega

end Paging

namespace PagingInv

variable {paging : Paging} {mapped : Nat → Prop} {use : Nat → FrameUse} {slot : Nat}

theorem getPhyPage_room (hroom : (paging.mapRound slot).exhausted = false) :
    paging.getPhyPage.1.exhausted = false := by
  by_contra hexhausted
  rw [Bool.not_eq_false] at hexhausted
  rw [Paging.mapRound, mapVirPhy_exhausted hexhausted] at hroom
  cases hroom

theorem mapRound_spec (hinv : PagingInv paging mapped use) (hclean : paging.CleanAt slot)
    (hroom : (paging.mapRound slot).exhausted = false) :
    ∃ use', PagingInv (paging.mapRound slot) (fun other => mapped other ∨ other = slot) use' := by
  obtain ⟨i, hunused, hi, -, htaken, hinv'⟩ := hinv.getPhyPage_spec (getPhyPage_room hroom)
  have hentry := hclean.2
  rw [Paging.mapRound] at hroom ⊢
  simp only [htaken] at hroom hentry ⊢
  refine hinv'.mapVirPhy_spec hclean.1 hi ?_ hunused hentry hroom
  rw [Bitmap.verifyBit_setBit, if_pos rfl]

/-- The page of a mapped slot is the one that `free_page` gives back. -/
theorem unmapRound_bmap (hinv : PagingInv paging mapped use) (hmapped : mapped slot) :
    ∃ i, use i = .page slot ∧
      entryAddr (paging.entry (paging.vaddr2pte (pageAddr slot))) = pageAddr i ∧
      (paging.unmapRound slot).phyaddrBmap = paging.phyaddrBmap.setBit i false := by
  obtain ⟨-, -, -, i, huse, haddr⟩ := hinv.page hmapped
  obtain ⟨hi, -⟩ := hinv.used (show use i ≠ .unused by rw [huse]; exact FrameUse.page_ne_unused)
  have hidx : subU32 (pageAddr i) paging.phyaddrStart / pageSize = i := by
    have hend := hinv.room
    rw [hinv.start_eq]
    simp only [subU32, pageAddr, pageSize, stationaryMem] at hend ⊢
    omega
  refine ⟨i, huse, haddr, ?_⟩
  change paging.phyaddrBmap.setBit (subU32 (paging.vaddr2phy (pageAddr slot))
    paging.phyaddrStart / pageSize) false = _
  rw [Paging.vaddr2phy, haddr, pageAddr_mod, Nat.add_zero, hidx]

/-- Only the entry of the slot changes. -/
theorem unmapRound_tables (paging : Paging) (slot frame idx : Nat)
    (hne : (frame, idx) ≠ paging.vaddr2pte (pageAddr slot)) :
    (paging.unmapRound slot).tables frame idx = paging.tables frame idx := by
  rw [Paging.unmapRound, Paging.removeMapAddr, Paging.setEntry_tables]
  exact if_neg hne

theorem unmapRound_spec (hinv : PagingInv paging mapped use) (hmapped : mapped slot) :
    ∃ use', PagingInv (paging.unmapRound slot) (fun other => mapped other ∧ other ≠ slot) use' := by
  obtain ⟨i, huse, -, hbmap⟩ := hinv.unmapRound_bmap hmapped
  exact ⟨_, hinv.removePage hmapped rfl huse hbmap (unmapRound_tables paging slot)⟩

/-- The invariant holds of every run that is mapped cleanly. -/
theorem kept : Paging.Kept fun paging mapped => ∃ use, PagingInv paging mapped use where
  map := by
    rintro paging mapped slot ⟨use, hinv⟩ - hclean hroom
    exact hinv.mapRound_spec hclean hroom
  unmap := by
    rintro paging mapped slot ⟨use, hinv⟩ hmapped
    exact hinv.unmapRound_spec hmapped

end PagingInv

/-! ## Runs -/

namespace Paging

/-- Where the page table sends an address, if it is mapped. -/
def translate (paging : Paging) (vaddr : Nat) : Option Nat :=
  if isPresent (paging.entry (vaddr2pde vaddr)) && isPresent (paging.entry (paging.vaddr2pte vaddr))
  then some (paging.vaddr2phy vaddr) else none

/-- A page of the pool that is marked as used. -/
def MarkedUsed (paging : Paging) (phyaddr : Nat) : Prop :=
  ∃ i < paging.phyaddrBmap.bytesLen * 8, phyaddr = paging.phyaddrStart + i * pageSize ∧
    paging.phyaddrBmap.verifyBit i = true

/-- A page that the directory names as a page table; its last entry names the
directory itself. -/
def IsTable (paging : Paging) (phyaddr : Nat) : Prop :=
  ∃ dirIdx < 1024, isPresent (paging.tables dirFrame dirIdx) = true ∧
    entryAddr (paging.tables dirFrame dirIdx) = phyaddr

end Paging

namespace Heap

/-- A virtual page of a live allocation, or a page of small blocks. -/
def LivePage (heap : Heap) (page : Nat) : Prop :=
  (page % pageSize = 0 ∧ ∃ addr cntBytes, heap.live addr = some cntBytes ∧
    ∃ cell ∈ range addr cntBytes, page ≤ cell ∧ cell < page + pageSize) ∨ heap.mm.SmallPage page

/-- The pages of live allocations have physical pages of their own, which are marked
as used and are no page tables. -/
def NoAliasing (heap : Heap) : Prop :=
  ∀ page, heap.LivePage page → ∃ phyaddr, heap.mm.paging.translate page = some phyaddr ∧
    heap.mm.paging.MarkedUsed phyaddr ∧ ¬ heap.mm.paging.IsTable phyaddr ∧
    ∀ other, heap.LivePage other → other ≠ page →
      heap.mm.paging.translate other ≠ some phyaddr

/-- Neither the virtual map nor the pool of physical pages was exhausted. -/
def NotExhausted (heap : Heap) : Prop :=
  heap.mm.virExhausted = false ∧ heap.mm.paging.exhausted = false

/-- A request does not meet an entry of the page table that maps another page. -/
def MapsCleanly (heap : Heap) : HeapEvent → Prop
  | .malloc cntBytes =>
      heap.mm.paging.MapsCleanly (HeapInv.newPages heap.mm cntBytes)
        (heap.mm.getVirPage (HeapInv.newPages heap.mm cntBytes)).2
  | _ => True

instance (heap : Heap) (event : HeapEvent) : Decidable (heap.MapsCleanly event) :=
  match event with
  | .malloc _ => Paging.decidableMapsCleanly _ _ _
  | .free _ => inferInstanceAs (Decidable True)
  | .write _ _ _ _ => inferInstanceAs (Decidable True)

/-- The heap has a shape, and the slots that are in use are mapped. -/
def Mapped (heap : Heap) : Prop :=
  ∃ shape use, HeapInv heap shape ∧
    PagingInv heap.mm.paging (fun slot => shape.owner slot ≠ .free) use

variable {boot : Boot} {events : List HeapEvent} {heap next : Heap} {event : HeapEvent}

/-- The directory at boot. -/
theorem installPage_dir (frames : Nat → Nat → Nat) (idx : Nat) :
    Boot.installPage frames dirFrame idx =
      if idx = 0 then (dirFrame + 1) * pageSize ||| pageAttr
      else if idx = 1023 then dirFrame * pageSize + pageAttr else 0 := by
  rw [Boot.installPage, Function.update_of_ne (by decide), Function.update_self]

theorem initial_paging (boot : Boot) :
    PagingInv boot.memoryManager.paging (fun _ => False) fun _ => .unused := by
  refine ⟨rfl, (initial_inv boot).room, fun h => absurd rfl h, ?_, ?_, ?_, fun h => h.elim⟩
  · change isPresent (Boot.installPage boot.frames dirFrame 0) = true ∧
      entryAddr (Boot.installPage boot.frames dirFrame 0) = _
    rw [installPage_dir]
    decide
  · change entryAddr (Boot.installPage boot.frames dirFrame 1023) = _
    rw [installPage_dir]
    decide
  · intro dirIdx hpos hlt hpresent
    change isPresent (Boot.installPage boot.frames dirFrame dirIdx) = true at hpresent
    rw [installPage_dir, if_neg (by omega), if_neg (by omega)] at hpresent
    cases hpresent

/-- A request changes the page table by mapping a run of pages. -/
theorem malloc_paging {mm after : MemoryManager} {cntBytes addr : Nat}
    (hmalloc : mm.malloc cntBytes = some (after, addr)) :
    ∃ cnt vaddr, after.paging = mm.paging.mapPages cnt vaddr := by
  obtain ⟨memory, rfl | ⟨cnt, rfl⟩⟩ := malloc_cases hmalloc
  · exact ⟨0, 0, rfl⟩
  · have hpaging : (mm.getVirPage cnt).1.paging = mm.paging := by
      rw [getVirPage]
      split <;> rfl
    exact ⟨cnt, (mm.getVirPage cnt).2, by rw [mallocPage, hpaging]⟩

theorem unmapPages_exhausted (cnt vaddr : Nat) (paging : Paging) :
    (paging.unmapPages cnt vaddr).exhausted = paging.exhausted := by
  induction cnt generalizing vaddr paging with
  | zero => rfl
  | succ cnt ih => exact (ih _ _).trans rfl

theorem free_paging_exhausted {mm after : MemoryManager} {addr : Nat}
    (hfree : mm.free addr = some after) : mm.paging.exhausted = after.paging.exhausted := by
  obtain ⟨memory, rfl | ⟨page, hpage⟩⟩ := free_cases hfree
  · rfl
  · obtain ⟨freed, -, rfl⟩ := Option.map_eq_some_iff.mp hpage
    exact (unmapPages_exhausted _ _ _).symm

theorem step_notExhausted (hstep : heap.step event = some next) (hroom : next.NotExhausted) :
    heap.NotExhausted := by
  refine ⟨step_exhausted hstep hroom.1, ?_⟩
  have hafter := hroom.2
  cases event with
  | malloc cntBytes =>
      obtain ⟨⟨mm, addr⟩, hmalloc, rfl⟩ := Option.map_eq_some_iff.mp hstep
      obtain ⟨cnt, vaddr, hpaging⟩ := malloc_paging hmalloc
      by_contra hexhausted
      rw [Bool.not_eq_false] at hexhausted
      dsimp only at hafter
      rw [hpaging, PagingInv.mapPages_exhausted cnt vaddr hexhausted] at hafter
      cases hafter
  | free addr =>
      obtain ⟨mm, hfree, rfl⟩ := Option.map_eq_some_iff.mp hstep
      exact (free_paging_exhausted hfree).trans hafter
  | write block cell first second =>
      rw [step, Option.some.injEq] at hstep
      subst hstep
      exact hafter

/-- One event that maps cleanly keeps what its rounds keep. -/
theorem step_kept {good : Paging → (Nat → Prop) → Prop} (hkept : Paging.Kept good) {shape : Shape}
    (hinv : HeapInv heap shape) (hgood : good heap.mm.paging fun slot => shape.owner slot ≠ .free)
    (hadmits : heap.Admits event) (hclean : heap.MapsCleanly event)
    (hstep : heap.step event = some next) (hroom : next.NotExhausted) :
    ∃ nextShape, HeapInv next nextShape ∧
      good next.mm.paging fun slot => nextShape.owner slot ≠ .free := by
  cases event with
  | malloc cntBytes =>
      obtain ⟨⟨mm, addr⟩, hmalloc, rfl⟩ := Option.map_eq_some_iff.mp hstep
      obtain ⟨mm', addr', hmalloc', hnext⟩ := hinv.malloc_spec hadmits.1 hadmits.2
      obtain ⟨rfl, rfl⟩ : mm' = mm ∧ addr' = addr := by
        rw [hmalloc, Option.some.injEq, Prod.mk.injEq] at hmalloc'
        exact ⟨hmalloc'.1.symm, hmalloc'.2.symm⟩
      obtain ⟨-, -, nextShape, hinv', ⟨start, hpaging, hstart, hfree, howner⟩, -⟩ := hnext hroom.1
      have hclean' : heap.mm.paging.MapsCleanly (HeapInv.newPages heap.mm cntBytes)
          (pageAddr start) := by
        by_cases hpos : 0 < HeapInv.newPages heap.mm cntBytes
        · rw [← hstart hpos]
          exact hclean
        · rw [Nat.eq_zero_of_not_pos hpos]
          trivial
      have hmappedRoom : (heap.mm.paging.mapPages (HeapInv.newPages heap.mm cntBytes)
          (pageAddr start)).exhausted = false := by
        rw [← hpaging]
        exact hroom.2
      have hpages := hkept.mapPages hgood (fun slot hlow hhigh hused => hused (hfree slot hlow hhigh))
        hclean' hmappedRoom
      refine ⟨nextShape, hinv', ?_⟩
      change good mm'.paging _
      rw [hpaging]
      refine Paging.good_congr hpages fun slot => ?_
      rw [Ne, howner, not_and_or, not_not]
  | free addr =>
      obtain ⟨mm, hfree, rfl⟩ := Option.map_eq_some_iff.mp hstep
      obtain ⟨cntBytes, hlive⟩ := Option.ne_none_iff_exists'.mp hadmits
      obtain ⟨mm', hfree', -, -, nextShape, hinv', ⟨start, cnt, hpaging, hused, howner⟩, -⟩ :=
        hinv.free_spec hlive
      obtain rfl : mm = mm' := by
        rw [hfree, Option.some.injEq] at hfree'
        exact hfree'
      have hpages := hkept.unmapPages hgood hused
      refine ⟨nextShape, hinv', ?_⟩
      change good mm.paging _
      rw [hpaging]
      refine Paging.good_congr hpages fun slot => ?_
      rw [Ne, howner, not_or]
  | write block cell first second =>
      rw [step, Option.some.injEq] at hstep
      subst hstep
      obtain ⟨-, hlow, cntBytes, hlive, hhigh⟩ := hadmits
      exact ⟨shape, hinv.write hlive hlow hhigh ⟨rfl, rfl⟩ rfl rfl rfl, hgood⟩

/-- What the rounds keep holds in every state of every run that maps cleanly. -/
theorem run_kept {good : Paging → (Nat → Prop) → Prop} (hkept : Paging.Kept good)
    (hstart : good boot.memoryManager.paging fun _ => False)
    (hrun : Run step (fun heap event => heap.Admits event ∧ heap.MapsCleanly event)
      (initial boot) events heap)
    (hroom : heap.NotExhausted) :
    ∃ shape, HeapInv heap shape ∧ good heap.mm.paging fun slot => shape.owner slot ≠ .free := by
  refine hrun.invariant (fun heap => heap.NotExhausted → ∃ shape, HeapInv heap shape ∧
    good heap.mm.paging fun slot => shape.owner slot ≠ .free) (fun _ => ?_) ?_ hroom
  · refine ⟨emptyShape, initial_inv boot, Paging.good_congr hstart fun slot => ?_⟩
    exact iff_of_false (fun hused => hused rfl) id
  · intro before event after hbefore hadmits hstep hafter
    obtain ⟨shape, hinv, hgood⟩ := hbefore (step_notExhausted hstep hafter)
    exact step_kept hkept hinv hgood hadmits.1 hadmits.2 hstep hafter

/-- A page of a live allocation belongs to a slot that is in use. -/
theorem livePage_slot {shape : Shape} (hinv : HeapInv heap shape) {page : Nat}
    (hpage : heap.LivePage page) : ∃ slot, page = pageAddr slot ∧ shape.owner slot ≠ .free := by
  rcases hpage with ⟨haligned, addr, cntBytes, hlive, cell, hcell, hlow, hhigh⟩ | hsmall
  · -- Two pages that share a cell are the same page.
    have hsame : ∀ {slot}, pageAddr slot ≤ cell → cell < pageAddr slot + pageSize →
        page = pageAddr slot := by
      intro slot hslot hend
      have hmod := pageAddr_mod slot
      simp only [pageSize] at haligned hmod hend hhigh
      omega
    rcases hinv.live_cell hlive hcell with
      ⟨slot, start, hslot, hend, howner, -⟩ | ⟨slot, descIdx, i, howner, hi, rfl, hin, hend⟩
    · exact ⟨slot, hsame hslot hend, by rw [howner]; exact Owner.large_ne_free⟩
    · obtain ⟨hslot, hend'⟩ := HeapInv.block_page hi hin hend
      exact ⟨slot, hsame hslot hend', by rw [howner]; exact Owner.small_ne_free⟩
  · obtain ⟨slot, descIdx, hslot, howner⟩ := hinv.smallPage_iff.mp hsmall
    exact ⟨slot, hslot, by rw [howner]; exact Owner.small_ne_free⟩

/-- The translation of a mapped slot. -/
theorem translate_mapped {paging : Paging} {mapped : Nat → Prop} {use : Nat → FrameUse}
    (hpages : PagingInv paging mapped use) {slot : Nat} (hmapped : mapped slot) :
    ∃ i, use i = .page slot ∧ paging.translate (pageAddr slot) = some (pageAddr i) := by
  obtain ⟨-, hpde, hpte, i, huse, haddr⟩ := hpages.page hmapped
  refine ⟨i, huse, ?_⟩
  rw [Paging.translate, hpde, hpte, Bool.and_self, if_pos rfl, Paging.vaddr2phy, haddr,
    pageAddr_mod, Nat.add_zero]

theorem noAliasing_of_mapped (hmapped : heap.Mapped) : heap.NoAliasing := by
  obtain ⟨shape, use, hinv, hpages⟩ := hmapped
  intro page hpage
  obtain ⟨slot, rfl, howner⟩ := livePage_slot hinv hpage
  obtain ⟨i, huse, htranslate⟩ := translate_mapped hpages howner
  obtain ⟨hi, hbit⟩ := hpages.used (show use i ≠ .unused by rw [huse]; exact FrameUse.page_ne_unused)
  refine ⟨pageAddr i, htranslate, ⟨i, hi, by rw [hpages.start_eq, pageAddr], hbit⟩, ?_, ?_⟩
  · rintro ⟨dirIdx, hlt, hpresent, haddr⟩
    have habove : stationaryMem ≤ pageAddr i := by simp [pageAddr]
    by_cases hlast : dirIdx = 1023
    · subst hlast
      rw [← haddr, hpages.last] at habove
      exact absurd habove (by decide)
    · by_cases hzero : dirIdx = 0
      · subst hzero
        rw [← haddr, hpages.first.2] at habove
        exact absurd habove (by decide)
      · obtain ⟨j, huse', haddr'⟩ := hpages.table (by omega) (by omega) hpresent
        obtain rfl := pageAddr_inj (haddr'.symm.trans haddr)
        rw [huse] at huse'
        cases huse'
  · intro other hother hne heq
    obtain ⟨slot', rfl, howner'⟩ := livePage_slot hinv hother
    obtain ⟨j, huse', htranslate'⟩ := translate_mapped hpages howner'
    rw [htranslate', Option.some.injEq] at heq
    obtain rfl := pageAddr_inj heq
    rw [huse, FrameUse.page.injEq] at huse'
    exact hne (by rw [huse'])

/-- In every run whose requests meet no entry of the page table that maps another
page, no two pages of live allocations share a physical page. -/
theorem no_physical_aliasing
    (hrun : Run step (fun heap event => heap.Admits event ∧ heap.MapsCleanly event)
      (initial boot) events heap)
    (hroom : heap.NotExhausted) : heap.NoAliasing := by
  obtain ⟨shape, hinv, use, hpages⟩ := run_kept PagingInv.kept ⟨_, initial_paging boot⟩ hrun hroom
  exact noAliasing_of_mapped ⟨shape, use, hinv, hpages⟩

/-- Pages that are taken in order, and one that is given back and taken again, are
mapped cleanly. -/
theorem no_physical_aliasing_in_order :
    ∃ heap, Run step (fun heap event => heap.Admits event ∧ heap.MapsCleanly event)
        (initial fourMegabytes)
        [.malloc 4096, .malloc 4096, .free 0x201000, .malloc 5000] heap ∧
      heap.live 0x201000 = some 5000 ∧ heap.NoAliasing := by
  have hseen : (exec step (fun heap event => heap.Admits event ∧ heap.MapsCleanly event)
      (initial fourMegabytes) [.malloc 4096, .malloc 4096, .free 0x201000, .malloc 5000]).map
      (fun heap => (heap.live 0x201000, heap.mm.virExhausted, heap.mm.paging.exhausted)) =
      some (some 5000, false, false) := by
    decide +kernel
  obtain ⟨heap, hexec, hseen⟩ := Option.map_eq_some_iff.mp hseen
  simp only [Prod.mk.injEq] at hseen
  have hrun := Run.of_exec _ _ _ _ hexec
  exact ⟨heap, hrun, hseen.1, no_physical_aliasing hrun hseen.2⟩

/-- When a page has been given back, the next run of pages gets it and leaves the
premapped entries behind: two pages of live allocations are one physical page. -/
theorem physical_aliasing :
    ¬ ∀ (boot : Boot) (events : List HeapEvent) (heap : Heap),
      Run step Admits (initial boot) events heap → heap.NotExhausted → heap.NoAliasing := by
  intro hall
  have hseen : (exec step Admits (initial fourMegabytes)
      [.malloc 4096, .malloc 4096, .free 0x200000, .malloc 8192, .malloc 4096]).map
      (fun heap => ((heap.mm.virExhausted, heap.mm.paging.exhausted),
        (heap.live 0x200000, heap.mm.paging.translate 0x200000),
        (heap.live 0x202000, heap.mm.paging.translate 0x203000))) =
      some ((false, false), (some 4096, some 0x203000), (some 8192, some 0x203000)) := by
    decide +kernel
  obtain ⟨heap, hexec, hseen⟩ := Option.map_eq_some_iff.mp hseen
  simp only [Prod.mk.injEq] at hseen
  obtain ⟨hroom, ⟨hfirst, htranslate⟩, hsecond, htranslate'⟩ := hseen
  have hnone := hall _ _ _ (Run.of_exec _ _ _ _ hexec) hroom
  have hpage : heap.LivePage 0x200000 :=
    .inl ⟨rfl, 0x200000, 4096, hfirst, 0x200000, ⟨le_rfl, by decide⟩, le_rfl, by decide⟩
  have hother : heap.LivePage 0x203000 :=
    .inl ⟨rfl, 0x202000, 8192, hsecond, 0x203000, ⟨by decide, by decide⟩, le_rfl, by decide⟩
  obtain ⟨phyaddr, hphy, -, -, hdistinct⟩ := hnone 0x200000 hpage
  rw [htranslate, Option.some.injEq] at hphy
  subst hphy
  exact hdistinct 0x203000 hother (by decide) htranslate'

end Heap

end Shmily.Mm
