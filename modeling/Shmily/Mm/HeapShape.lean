import Mathlib.Tactic.Simps.Basic
import Shmily.Mm.Memory

/-! # The lists of the small-block allocator

The shape of the heap says who owns each virtual page, which pages each of the
seven lists holds, and which blocks of a page are free. Memory follows a shape
when the lists in it are exactly these. The cells of a page from its second on
belong to the page alone; its first cell belongs to the list the page is in. So
an operation on the free blocks of one page and an operation on one list of
pages are framed from everything else.
-/

namespace Shmily.Mm

open Foundation Lib

/-! ## Addresses -/

/-- The address of the page of a slot. -/
def pageAddr (slot : Nat) : Nat := stationaryMem + slot * pageSize

/-- The block size of a descriptor: 16, 32, up to 1024 bytes. -/
def classSize (descIdx : Nat) : Nat := 2 <<< (descIdx + 3)

/-- The number of blocks in a page. -/
def blockCount (descIdx : Nat) : Nat := (pageSize - headerSize) / classSize descIdx

/-- The address of a block in a page. -/
def blockAddr (slot descIdx i : Nat) : Nat := pageAddr slot + headerSize + i * classSize descIdx

variable {slot other descIdx i j : Nat}

theorem pageAddr_inj (heq : pageAddr slot = pageAddr other) : slot = other := by
  simp only [pageAddr, pageSize] at heq
  omega

theorem pageAddr_add (slot i : Nat) : pageAddr (slot + i) = pageAddr slot + i * pageSize := by
  simp only [pageAddr, pageSize]
  omega

theorem pageAddr_mod (slot : Nat) : pageAddr slot % pageSize = 0 := by
  simp only [pageAddr, pageSize, stationaryMem]
  omega

theorem classSize_eq (descIdx : Nat) : classSize descIdx = 16 * 2 ^ descIdx := by
  rw [classSize, Nat.shiftLeft_eq, Nat.pow_add]
  omega

theorem classSize_pos (descIdx : Nat) : 16 ≤ classSize descIdx := by
  have hpow : 1 ≤ 2 ^ descIdx := Nat.one_le_two_pow
  rw [classSize_eq]
  omega

theorem classSize_le (hdesc : descIdx < 7) : classSize descIdx ≤ 1024 := by
  have hpow : 2 ^ descIdx ≤ 2 ^ 6 := Nat.pow_le_pow_right (by decide) (by omega)
  rw [classSize_eq]
  omega

theorem blockCount_pos (hdesc : descIdx < 7) : 0 < blockCount descIdx := by
  have hle := classSize_le hdesc
  exact Nat.div_pos (by simp only [pageSize, headerSize]; omega)
    (by have := classSize_pos descIdx; omega)

theorem blockCount_le (descIdx : Nat) : blockCount descIdx ≤ 254 :=
  calc (pageSize - headerSize) / classSize descIdx
      ≤ (pageSize - headerSize) / 16 := Nat.div_le_div_left (classSize_pos descIdx) (by decide)
    _ = 254 := by decide

/-- A block ends inside its page. -/
theorem block_fits (hi : i < blockCount descIdx) :
    headerSize + i * classSize descIdx + classSize descIdx ≤ pageSize := by
  have hmul : (i + 1) * classSize descIdx ≤ blockCount descIdx * classSize descIdx :=
    Nat.mul_le_mul_right _ hi
  have htotal : blockCount descIdx * classSize descIdx ≤ pageSize - headerSize :=
    Nat.div_mul_le_self _ _
  rw [Nat.add_mul, Nat.one_mul] at hmul
  simp only [pageSize, headerSize] at htotal ⊢
  omega

theorem block_in_page (slot : Nat) (hi : i < blockCount descIdx) :
    pageAddr slot + headerSize ≤ blockAddr slot descIdx i ∧
      blockAddr slot descIdx i + classSize descIdx ≤ pageAddr slot + pageSize := by
  have hfits := block_fits hi
  simp only [blockAddr]
  omega

/-- Two blocks of a page do not overlap. -/
theorem block_disjoint (slot descIdx : Nat) (hne : i ≠ j) :
    blockAddr slot descIdx i + classSize descIdx ≤ blockAddr slot descIdx j ∨
      blockAddr slot descIdx j + classSize descIdx ≤ blockAddr slot descIdx i := by
  simp only [blockAddr]
  rcases Nat.lt_or_gt_of_ne hne with hlt | hlt
  · have hmul : (i + 1) * classSize descIdx ≤ j * classSize descIdx := Nat.mul_le_mul_right _ hlt
    rw [Nat.add_mul, Nat.one_mul] at hmul
    omega
  · have hmul : (j + 1) * classSize descIdx ≤ i * classSize descIdx := Nat.mul_le_mul_right _ hlt
    rw [Nat.add_mul, Nat.one_mul] at hmul
    omega

theorem block_index_inj (heq : blockAddr slot descIdx i = blockAddr slot descIdx j) : i = j := by
  by_contra hne
  have hpos := classSize_pos descIdx
  rcases block_disjoint slot descIdx hne with h | h <;> omega

theorem block_slot_inj {left right : Nat} (hi : i < blockCount left) (hj : j < blockCount right)
    (heq : blockAddr slot left i = blockAddr other right j) : slot = other := by
  obtain ⟨hlow, hhigh⟩ := block_in_page slot hi
  obtain ⟨hlow', hhigh'⟩ := block_in_page other hj
  have hpos := classSize_pos left
  have hpos' := classSize_pos right
  simp only [pageAddr, pageSize, headerSize] at *
  omega

/-- The page of a block, as `free` computes it. -/
theorem page_of_block (hi : i < blockCount descIdx) :
    blockAddr slot descIdx i / pageSize * pageSize = pageAddr slot := by
  have hfits := block_fits hi
  have hpos := classSize_pos descIdx
  simp only [blockAddr, pageAddr, stationaryMem, pageSize, headerSize] at *
  omega

/-- A block is never aligned to a page. -/
theorem block_mod_ne (hi : i < blockCount descIdx) : blockAddr slot descIdx i % pageSize ≠ 0 := by
  have hfits := block_fits hi
  have hpos := classSize_pos descIdx
  simp only [blockAddr, pageAddr, stationaryMem, pageSize, headerSize] at *
  omega

/-- The list consists of blocks of a page. -/
def AreBlocks (slot descIdx : Nat) (queue : List Nat) : Prop :=
  ∀ block ∈ queue, ∃ i < blockCount descIdx, block = blockAddr slot descIdx i

/-! ## Shapes -/

/-- Who owns a virtual page. -/
inductive Owner where
  | free
  | large (start : Nat)
  | small (descIdx : Nat)
  deriving DecidableEq

namespace Owner

theorem large_ne_free {start : Nat} : large start ≠ free := nofun

theorem small_ne_free {descIdx : Nat} : small descIdx ≠ free := nofun

theorem free_ne_small {descIdx : Nat} : free ≠ small descIdx := nofun

theorem large_ne_small {start descIdx : Nat} : large start ≠ small descIdx := nofun

end Owner

/-- The owner of each slot, the pages of each list and the free blocks of each page. -/
structure Shape where
  owner : Nat → Owner
  pages : Nat → List Nat
  queue : Nat → List Nat

namespace Shape

/-- The parts of a shape agree with each other. -/
structure WF (shape : Shape) (slots : Nat) : Prop where
  owner_lt : ∀ {slot}, shape.owner slot ≠ .free → slot < slots
  desc_lt : ∀ {slot descIdx}, shape.owner slot = .small descIdx → descIdx < 7
  mem_pages : ∀ {descIdx page}, descIdx < 7 → (page ∈ shape.pages descIdx ↔
    ∃ slot, page = pageAddr slot ∧ shape.owner slot = .small descIdx)
  blocks : ∀ {slot descIdx}, shape.owner slot = .small descIdx →
    AreBlocks slot descIdx (shape.queue slot)

@[simps -fullyApplied]
def setQueue (shape : Shape) (slot : Nat) (queue : List Nat) : Shape :=
  { shape with queue := Function.update shape.queue slot queue }

@[simps -fullyApplied]
def setPages (shape : Shape) (descIdx : Nat) (pages : List Nat) : Shape :=
  { shape with pages := Function.update shape.pages descIdx pages }

/-- A free slot becomes a page of blocks, all of them free. -/
@[simps -fullyApplied]
def addPage (shape : Shape) (slot descIdx : Nat) (queue : List Nat) : Shape where
  owner := Function.update shape.owner slot (.small descIdx)
  pages := Function.update shape.pages descIdx (pageAddr slot :: shape.pages descIdx)
  queue := Function.update shape.queue slot queue

/-- A run of slots changes hands. -/
@[simps]
def setOwners (shape : Shape) (start cnt : Nat) (owner : Owner) : Shape :=
  { shape with
    owner := fun slot => if start ≤ slot ∧ slot < start + cnt then owner else shape.owner slot }

variable {shape : Shape} {slots : Nat}

/-- A run that is not and does not become a page of blocks. -/
theorem small_setOwners {start cnt : Nat} {owner : Owner}
    (hold : ∀ slot, start ≤ slot → slot < start + cnt → ∀ {descIdx},
      shape.owner slot ≠ .small descIdx)
    (hnew : ∀ {descIdx}, owner ≠ .small descIdx) :
    (shape.setOwners start cnt owner).owner slot = .small descIdx ↔
      shape.owner slot = .small descIdx := by
  rw [setOwners_owner]
  split
  next hrun => exact iff_of_false hnew (hold slot hrun.1 hrun.2)
  next => rfl

theorem WF.setOwners (hwf : shape.WF slots) {start cnt : Nat} {owner : Owner}
    (hold : ∀ slot, start ≤ slot → slot < start + cnt → ∀ {descIdx},
      shape.owner slot ≠ .small descIdx)
    (hnew : ∀ {descIdx}, owner ≠ .small descIdx) (hlt : owner ≠ .free → start + cnt ≤ slots) :
    (shape.setOwners start cnt owner).WF slots where
  owner_lt := by
    intro slot howner
    rw [Shape.setOwners_owner] at howner
    split at howner
    next hrun =>
      have := hlt howner
      omega
    next => exact hwf.owner_lt howner
  desc_lt howner := hwf.desc_lt ((small_setOwners hold hnew).mp howner)
  mem_pages hdesc := by
    simp only [small_setOwners hold hnew]
    exact hwf.mem_pages hdesc
  blocks howner := hwf.blocks ((small_setOwners hold hnew).mp howner)

theorem WF.setQueue (hwf : shape.WF slots) {queue : List Nat}
    (hqueue : ∀ {descIdx}, shape.owner slot = .small descIdx → AreBlocks slot descIdx queue) :
    (shape.setQueue slot queue).WF slots where
  owner_lt := hwf.owner_lt
  desc_lt := hwf.desc_lt
  mem_pages := hwf.mem_pages
  blocks := by
    intro other descIdx howner
    by_cases heq : other = slot
    · subst heq
      rw [Shape.setQueue_queue, Function.update_self]
      exact hqueue howner
    · rw [Shape.setQueue_queue, Function.update_of_ne heq]
      exact hwf.blocks howner

theorem WF.setPages (hwf : shape.WF slots) {pages : List Nat}
    (hpages : ∀ page, page ∈ pages ↔ page ∈ shape.pages descIdx) :
    (shape.setPages descIdx pages).WF slots where
  owner_lt := hwf.owner_lt
  desc_lt := hwf.desc_lt
  mem_pages := by
    intro other page hother
    by_cases heq : other = descIdx
    · subst heq
      rw [Shape.setPages_pages, Function.update_self, hpages]
      exact hwf.mem_pages hother
    · rw [Shape.setPages_pages, Function.update_of_ne heq]
      exact hwf.mem_pages hother
  blocks := hwf.blocks

theorem WF.addPage (hwf : shape.WF slots) (hslot : slot < slots) (hdesc : descIdx < 7)
    (hfree : shape.owner slot = .free) {queue : List Nat}
    (hqueue : AreBlocks slot descIdx queue) :
    (shape.addPage slot descIdx queue).WF slots where
  owner_lt := by
    intro other howner
    by_cases heq : other = slot
    · rwa [heq]
    · rw [Shape.addPage_owner, Function.update_of_ne heq] at howner
      exact hwf.owner_lt howner
  desc_lt := by
    intro other kind howner
    by_cases heq : other = slot
    · rw [Shape.addPage_owner, heq, Function.update_self, Owner.small.injEq] at howner
      omega
    · rw [Shape.addPage_owner, Function.update_of_ne heq] at howner
      exact hwf.desc_lt howner
  mem_pages := by
    intro kind page hkind
    -- A page is a member because of an old slot, or it is the new one.
    have hnew : (∃ old, page = pageAddr old ∧
        Function.update shape.owner slot (.small descIdx) old = .small kind) ↔
        (page = pageAddr slot ∧ kind = descIdx) ∨
          ∃ old, page = pageAddr old ∧ shape.owner old = .small kind := by
      constructor
      · rintro ⟨old, hpage, howner⟩
        by_cases heq : old = slot
        · rw [heq, Function.update_self, Owner.small.injEq] at howner
          exact .inl ⟨by rw [hpage, heq], howner.symm⟩
        · rw [Function.update_of_ne heq] at howner
          exact .inr ⟨old, hpage, howner⟩
      · rintro (⟨hpage, hkind⟩ | ⟨old, hpage, howner⟩)
        · exact ⟨slot, hpage, by rw [Function.update_self, hkind]⟩
        · have hne : old ≠ slot := by
            rintro rfl
            rw [hfree] at howner
            cases howner
          exact ⟨old, hpage, by rw [Function.update_of_ne hne, howner]⟩
    simp only [Shape.addPage_owner, Shape.addPage_pages]
    rw [hnew, ← hwf.mem_pages hkind]
    by_cases heq : kind = descIdx
    · subst heq
      simp
    · rw [Function.update_of_ne heq]
      simp [heq]
  blocks := by
    intro other kind howner
    by_cases heq : other = slot
    · subst heq
      rw [Shape.addPage_owner, Function.update_self, Owner.small.injEq] at howner
      subst howner
      rwa [Shape.addPage_queue, Function.update_self]
    · rw [Shape.addPage_owner, Function.update_of_ne heq] at howner
      rw [Shape.addPage_queue, Function.update_of_ne heq]
      exact hwf.blocks howner

end Shape

/-! ## Memory that follows a shape -/

/-- The cells of a page from its second on. -/
def Inner (slot cell : Nat) : Prop := pageAddr slot + 8 ≤ cell ∧ cell < pageAddr slot + pageSize

/-- A cell holds the same words in two memories. -/
def SameAt (memory other : Memory) (cell : Nat) : Prop :=
  other.next cell = memory.next cell ∧ other.prev cell = memory.prev cell

/-- The header of a page of blocks, and the list of its free blocks. -/
structure HeaderOk (memory : Memory) (page descIdx : Nat) (queue : List Nat) : Prop where
  size : eachBlockSize memory page = classSize descIdx
  cnts : freeCnts memory page = queue.length
  holds : (pageInFreeQueue page).Holds memory queue

/-- The lists in memory are those of the shape. -/
structure Follows (memory : Memory) (memDesc : Nat) (shape : Shape) : Prop where
  desc : ∀ {descIdx}, descIdx < 7 →
    (descAt memDesc descIdx).Holds memory (shape.pages descIdx)
  header : ∀ {slot descIdx}, shape.owner slot = .small descIdx →
    HeaderOk memory (pageAddr slot) descIdx (shape.queue slot)

variable {memory after : Memory} {memDesc slots page cell : Nat} {shape : Shape}
  {queue : List Nat}

theorem HeaderOk.frame (hheader : HeaderOk memory page descIdx queue)
    (hcounts : SameAt memory after (page + 8))
    (hnodes : ∀ node ∈ (pageInFreeQueue page).nodes queue, SameAt memory after node) :
    HeaderOk after page descIdx queue where
  size := hcounts.2.trans hheader.size
  cnts := hcounts.1.trans hheader.cnts
  holds := hheader.holds.frame hnodes

/-- The sentinels of the lists of pages lie below the heap, and the members are
first cells of pages. -/
theorem Shape.WF.desc_node (hwf : shape.WF slots) (hbelow : memDesc + 112 ≤ stationaryMem)
    (hdesc : descIdx < 7) (hnode : cell ∈ (descAt memDesc descIdx).nodes (shape.pages descIdx)) :
    (cell < stationaryMem ∧ (cell = memDesc + 16 * descIdx ∨ cell = memDesc + 16 * descIdx + 8)) ∨
      ∃ slot, cell = pageAddr slot ∧ shape.owner slot = .small descIdx := by
  rcases CycleList.mem_nodes.mp hnode with hhead | hpage | htail
  · simp only [descAt] at hhead
    exact .inl ⟨by omega, .inl hhead⟩
  · exact .inr ((hwf.mem_pages hdesc).mp hpage)
  · simp only [descAt] at htail
    exact .inl ⟨by omega, .inr htail⟩

/-- No node is in two lists of pages. -/
theorem Shape.WF.desc_node_ne (hwf : shape.WF slots) (hbelow : memDesc + 112 ≤ stationaryMem)
    {left right : Nat} (hleft : left < 7) (hright : right < 7) (hne : left ≠ right)
    (hnode : cell ∈ (descAt memDesc left).nodes (shape.pages left)) :
    cell ∉ (descAt memDesc right).nodes (shape.pages right) := by
  intro hother
  have habove : ∀ slot, stationaryMem ≤ pageAddr slot := by simp [pageAddr]
  rcases hwf.desc_node hbelow hleft hnode with ⟨hlow, hcell⟩ | ⟨slot, rfl, howner⟩
  · rcases hwf.desc_node hbelow hright hother with ⟨-, hcell'⟩ | ⟨slot, rfl, -⟩
    · omega
    · exact absurd hlow (habove slot).not_gt
  · rcases hwf.desc_node hbelow hright hother with ⟨hlow, -⟩ | ⟨slot', hpage, howner'⟩
    · exact absurd hlow (habove slot).not_gt
    · rw [← pageAddr_inj hpage, howner, Owner.small.injEq] at howner'
      exact hne howner'

/-- The nodes of the list of free blocks lie inside the page, behind the counters. -/
theorem AreBlocks.node (hqueue : AreBlocks slot descIdx queue)
    (hnode : cell ∈ (pageInFreeQueue (pageAddr slot)).nodes queue) :
    pageAddr slot + 16 ≤ cell ∧ cell < pageAddr slot + pageSize := by
  rcases CycleList.mem_nodes.mp hnode with hhead | hblock | htail
  · rw [hhead, pageInFreeQueue, pageSize]
    simp only
    omega
  · obtain ⟨i, hi, rfl⟩ := hqueue _ hblock
    have hpage := block_in_page slot hi
    have hpos := classSize_pos descIdx
    simp only [headerSize] at hpage
    omega
  · rw [htail, pageInFreeQueue, pageSize]
    simp only
    omega

/-- Every list of pages is kept by edits that stay in the cells of pages behind
the first. -/
theorem Follows.desc_frame (hfollows : Follows memory memDesc shape) (hwf : shape.WF slots)
    (hbelow : memDesc + 112 ≤ stationaryMem) (hdesc : descIdx < 7)
    (hsame : ∀ cell, cell < stationaryMem ∨ (∃ slot, cell = pageAddr slot) →
      SameAt memory after cell) :
    (descAt memDesc descIdx).Holds after (shape.pages descIdx) := by
  refine (hfollows.desc hdesc).frame fun node hnode => hsame node ?_
  rcases hwf.desc_node hbelow hdesc hnode with ⟨hlow, -⟩ | ⟨slot, hpage, -⟩
  · exact .inl hlow
  · exact .inr ⟨slot, hpage⟩

/-- The header and free blocks of a page are kept by edits outside the page's own cells. -/
theorem Follows.header_frame (hfollows : Follows memory memDesc shape) (hwf : shape.WF slots)
    (howner : shape.owner slot = .small descIdx)
    (hsame : ∀ cell, pageAddr slot + 8 ≤ cell → cell < pageAddr slot + pageSize →
      SameAt memory after cell) :
    HeaderOk after (pageAddr slot) descIdx (shape.queue slot) := by
  refine (hfollows.header howner).frame (hsame _ le_rfl (by simp [pageSize])) fun node hnode => ?_
  obtain ⟨hlow, hhigh⟩ := (hwf.blocks howner).node hnode
  exact hsame node (by omega) hhigh

/-- An edit of the cells of one page that turns its free blocks into others. -/
theorem Follows.setQueue (hfollows : Follows memory memDesc shape) (hwf : shape.WF slots)
    (hbelow : memDesc + 112 ≤ stationaryMem)
    (hsame : ∀ cell, ¬ Inner slot cell → SameAt memory after cell)
    (hheader : ∀ {descIdx}, shape.owner slot = .small descIdx →
      HeaderOk after (pageAddr slot) descIdx queue) :
    Follows after memDesc (shape.setQueue slot queue) where
  desc hdesc := by
    refine hfollows.desc_frame hwf hbelow hdesc fun cell hcell => hsame cell ?_
    rcases hcell with hlow | ⟨other, rfl⟩
    · simp only [Inner, pageAddr]
      omega
    · simp only [Inner, pageAddr, pageSize]
      omega
  header := by
    intro other kind howner
    by_cases heq : other = slot
    · subst heq
      rw [Shape.setQueue_queue, Function.update_self]
      exact hheader howner
    · rw [Shape.setQueue_queue, Function.update_of_ne heq]
      refine hfollows.header_frame hwf howner fun cell hlow hhigh => hsame cell ?_
      simp only [Inner, pageAddr, pageSize] at *
      omega

/-- An edit of one list of pages. Only sentinels and first cells of pages change. -/
theorem Follows.setPages (hfollows : Follows memory memDesc shape) (hwf : shape.WF slots)
    (hbelow : memDesc + 112 ≤ stationaryMem) (hdesc : descIdx < 7) {pages : List Nat}
    (hsame : ∀ cell, cell ∉ (descAt memDesc descIdx).nodes (shape.pages descIdx) →
      SameAt memory after cell)
    (hholds : (descAt memDesc descIdx).Holds after pages) :
    Follows after memDesc (shape.setPages descIdx pages) where
  desc := by
    intro other hother
    by_cases heq : other = descIdx
    · subst heq
      rwa [Shape.setPages_pages, Function.update_self]
    · rw [Shape.setPages_pages, Function.update_of_ne heq]
      refine (hfollows.desc hother).frame fun node hnode => hsame node fun hmem => ?_
      exact hwf.desc_node_ne hbelow hother hdesc heq hnode hmem
  header := by
    intro slot kind howner
    refine hfollows.header_frame hwf howner fun cell hlow hhigh => hsame cell fun hmem => ?_
    rcases hwf.desc_node hbelow hdesc hmem with ⟨hbase, -⟩ | ⟨other, rfl, -⟩
    · simp only [pageAddr] at hlow
      omega
    · simp only [pageAddr, pageSize] at hlow hhigh
      omega

theorem Follows.setOwners (hfollows : Follows memory memDesc shape) {start cnt : Nat}
    {owner : Owner}
    (hold : ∀ slot, start ≤ slot → slot < start + cnt → ∀ {descIdx},
      shape.owner slot ≠ .small descIdx)
    (hnew : ∀ {descIdx}, owner ≠ .small descIdx) :
    Follows memory memDesc (shape.setOwners start cnt owner) where
  desc hdesc := hfollows.desc hdesc
  header howner := hfollows.header ((Shape.small_setOwners hold hnew).mp howner)

/-- Moving the first page of a list to its end. -/
theorem Follows.moveToTail (hfollows : Follows memory memDesc shape) (hwf : shape.WF slots)
    (hbelow : memDesc + 112 ≤ stationaryMem) (hdesc : descIdx < 7) {others : List Nat}
    (hpages : shape.pages descIdx = page :: others) :
    (shape.setPages descIdx (others ++ [page])).WF slots ∧
      Follows ((descAt memDesc descIdx).append (CycleList.remove memory page) page) memDesc
        (shape.setPages descIdx (others ++ [page])) := by
  have hholds : (descAt memDesc descIdx).Holds memory ([] ++ page :: others) := by
    rw [List.nil_append, ← hpages]
    exact hfollows.desc hdesc
  have hremoved : (descAt memDesc descIdx).Holds (CycleList.remove memory page) others :=
    CycleList.remove_holds hholds
  have hfresh : page ∉ (descAt memDesc descIdx).nodes others := by
    have hnodup := hholds.nodup
    rw [CycleList.mem_nodes]
    rintro (rfl | hmem | rfl)
    · exact hholds.head_notMem (by simp)
    · exact (List.nodup_cons.mp hnodup).1 hmem
    · exact hholds.tail_notMem (by simp)
  refine ⟨hwf.setPages fun other => ?_, hfollows.setPages hwf hbelow hdesc (fun cell hcell => ?_)
    (CycleList.append_holds hremoved hfresh)⟩
  · rw [hpages, List.mem_append, List.mem_singleton, List.mem_cons, or_comm]
  · rw [hpages] at hcell
    have hne : cell ≠ page := by
      rintro rfl
      exact hcell (by simp [CycleList.nodes])
    have hcell' : cell ∉ (descAt memDesc descIdx).nodes others := by
      intro hmem
      apply hcell
      rw [CycleList.mem_nodes] at hmem ⊢
      rw [List.mem_cons]
      tauto
    obtain ⟨hnext, hprev⟩ := CycleList.remove_frame hholds (.inr hcell)
    obtain ⟨hnext', hprev'⟩ := CycleList.append_frame hremoved hfresh hcell' hne
    exact ⟨hnext'.trans hnext, hprev'.trans hprev⟩

/-- A new page whose header is installed is put in front of a list of pages. -/
theorem Follows.addPage (hfollows : Follows memory memDesc shape) (hwf : shape.WF slots)
    (hbelow : memDesc + 112 ≤ stationaryMem) (hdesc : descIdx < 7)
    (hfree : shape.owner slot = .free) (hheader : HeaderOk memory (pageAddr slot) descIdx queue)
    (hqueue : AreBlocks slot descIdx queue) :
    Follows ((descAt memDesc descIdx).push memory (pageAddr slot)) memDesc
      (shape.addPage slot descIdx queue) := by
  have hnot : ∀ {kind}, kind < 7 →
      pageAddr slot ∉ (descAt memDesc kind).nodes (shape.pages kind) := by
    intro kind hkind hmem
    rcases hwf.desc_node hbelow hkind hmem with ⟨hlow, -⟩ | ⟨other, hpage, howner⟩
    · simp only [pageAddr] at hlow
      omega
    · rw [← pageAddr_inj hpage, hfree] at howner
      cases howner
  have hsame : ∀ cell, cell ∉ (descAt memDesc descIdx).nodes (shape.pages descIdx) →
      cell ≠ pageAddr slot →
      SameAt memory ((descAt memDesc descIdx).push memory (pageAddr slot)) cell := by
    intro cell hcell hne
    exact CycleList.push_frame (hfollows.desc hdesc) (hnot hdesc) hcell hne
  -- A cell behind the first of some page is neither a sentinel nor a member.
  have hinner : ∀ {other} cell, pageAddr other + 8 ≤ cell → cell < pageAddr other + pageSize →
      SameAt memory ((descAt memDesc descIdx).push memory (pageAddr slot)) cell := by
    intro other cell hlow hhigh
    apply hsame cell
    · intro hmem
      rcases hwf.desc_node hbelow hdesc hmem with ⟨hbase, -⟩ | ⟨first, rfl, -⟩
      · simp only [pageAddr] at hlow
        omega
      · simp only [pageAddr, pageSize] at hlow hhigh
        omega
    · simp only [pageAddr, pageSize] at hlow hhigh ⊢
      omega
  constructor
  · intro kind hkind
    by_cases heq : kind = descIdx
    · subst heq
      rw [Shape.addPage_pages, Function.update_self]
      exact CycleList.push_holds (hfollows.desc hkind) (hnot hkind)
    · rw [Shape.addPage_pages, Function.update_of_ne heq]
      refine (hfollows.desc hkind).frame fun node hnode => hsame node ?_ ?_
      · exact hwf.desc_node_ne hbelow hkind hdesc heq hnode
      · rintro rfl
        exact hnot hkind hnode
  · intro other kind howner
    by_cases heq : other = slot
    · subst heq
      rw [Shape.addPage_owner, Function.update_self, Owner.small.injEq] at howner
      subst howner
      rw [Shape.addPage_queue, Function.update_self]
      refine hheader.frame (hinner _ le_rfl (by simp [pageSize])) fun node hnode => ?_
      obtain ⟨hlow, hhigh⟩ := hqueue.node hnode
      exact hinner node (by omega) hhigh
    · rw [Shape.addPage_owner, Function.update_of_ne heq] at howner
      rw [Shape.addPage_queue, Function.update_of_ne heq]
      exact hfollows.header_frame hwf howner hinner

/-! ## Free blocks of one page -/

/-- A page has no more than 254 blocks. -/
theorem AreBlocks.length_le (hqueue : AreBlocks slot descIdx queue) (hnodup : queue.Nodup) :
    queue.length ≤ 254 := by
  have hsub : queue ⊆ (List.range (blockCount descIdx)).map (blockAddr slot descIdx) := by
    intro block hblock
    obtain ⟨i, hi, rfl⟩ := hqueue block hblock
    exact List.mem_map_of_mem (List.mem_range.mpr hi)
  have hle := (hnodup.subperm hsub).length_le
  rw [List.length_map, List.length_range] at hle
  exact hle.trans (blockCount_le descIdx)

/-- Taking the first free block of a page. -/
theorem popBlock_spec {block : Nat} {rest : List Nat}
    (hheader : HeaderOk memory (pageAddr slot) descIdx (block :: rest))
    (hqueue : AreBlocks slot descIdx (block :: rest)) :
    (popBlock memory (pageAddr slot)).2 = block ∧
      HeaderOk (popBlock memory (pageAddr slot)).1 (pageAddr slot) descIdx rest ∧
      ∀ cell, ¬ Inner slot cell → SameAt memory (popBlock memory (pageAddr slot)).1 cell := by
  obtain ⟨hfirst, hholds⟩ := CycleList.pop_holds hheader.holds
  have hlength := hqueue.length_le hheader.holds.nodup
  rw [List.length_cons] at hlength
  -- The counters are not a node of the list, so the removal leaves them alone.
  have hpop : ∀ cell, cell ∉ (pageInFreeQueue (pageAddr slot)).nodes (block :: rest) →
      SameAt memory ((pageInFreeQueue (pageAddr slot)).pop memory).1 cell := by
    intro cell hcell
    have hsplit : (pageInFreeQueue (pageAddr slot)).Holds memory ([] ++ block :: rest) :=
      hheader.holds
    have hframe := CycleList.remove_frame hsplit (.inr hcell)
    have hhead : memory.next (pageInFreeQueue (pageAddr slot)).head = block :=
      hheader.holds.next_head
    simpa only [SameAt, CycleList.pop, hhead] using hframe
  have hcounts : pageAddr slot + 8 ∉ (pageInFreeQueue (pageAddr slot)).nodes (block :: rest) := by
    intro hmem
    have := hqueue.node hmem
    omega
  have hsize := (hpop _ hcounts).2
  have hcnts : freeCnts ((pageInFreeQueue (pageAddr slot)).pop memory).1 (pageAddr slot) =
      rest.length + 1 := (hpop _ hcounts).1.trans hheader.cnts
  refine ⟨hfirst, ⟨hsize.trans hheader.size, ?_, ?_⟩, ?_⟩
  · have hset : freeCnts (popBlock memory (pageAddr slot)).1 (pageAddr slot) =
        subU32 (rest.length + 1) 1 := by
      rw [← hcnts]
      simp [popBlock, setFreeCnts, freeCnts]
    rw [hset, subU32]
    omega
  · refine hholds.frame fun node hnode => ?_
    have hne : node ≠ pageAddr slot + 8 := by
      rintro rfl
      apply hcounts
      rw [CycleList.mem_nodes] at hnode ⊢
      rcases hnode with h | h | h
      · exact .inl h
      · exact .inr (.inl (List.mem_cons_of_mem _ h))
      · exact .inr (.inr h)
    simp [popBlock, setFreeCnts, hne]
  · intro cell hcell
    have hnode : cell ∉ (pageInFreeQueue (pageAddr slot)).nodes (block :: rest) := by
      intro hmem
      have := hqueue.node hmem
      exact hcell ⟨by omega, by omega⟩
    have hne : cell ≠ pageAddr slot + 8 := by
      rintro rfl
      exact hcell ⟨le_rfl, by simp [pageSize]⟩
    obtain ⟨hnext, hprev⟩ := hpop cell hnode
    simp [SameAt, popBlock, setFreeCnts, hne, hnext, hprev]

/-- Appending to the list of free blocks does not touch the counters, and edits
only cells of the page. -/
theorem append_block_frame {block : Nat}
    (hholds : (pageInFreeQueue (pageAddr slot)).Holds memory queue)
    (hqueue : AreBlocks slot descIdx queue) (hi : i < blockCount descIdx)
    (hblock : block = blockAddr slot descIdx i) (hfresh : block ∉ queue) :
    block ∉ (pageInFreeQueue (pageAddr slot)).nodes queue ∧
      SameAt memory ((pageInFreeQueue (pageAddr slot)).append memory block) (pageAddr slot + 8) ∧
      ∀ cell, ¬ Inner slot cell →
        SameAt memory ((pageInFreeQueue (pageAddr slot)).append memory block) cell := by
  have hpage := block_in_page slot hi
  have hpos := classSize_pos descIdx
  simp only [headerSize] at hpage
  have hnot : block ∉ (pageInFreeQueue (pageAddr slot)).nodes queue := by
    rw [CycleList.mem_nodes, pageInFreeQueue]
    rintro (h | h | h)
    · simp only at h
      omega
    · exact hfresh h
    · simp only at h
      omega
  have hframe : ∀ cell, cell ∉ (pageInFreeQueue (pageAddr slot)).nodes queue → cell ≠ block →
      SameAt memory ((pageInFreeQueue (pageAddr slot)).append memory block) cell :=
    fun cell hcell hne => CycleList.append_frame hholds hnot hcell hne
  refine ⟨hnot, hframe _ ?_ (by omega), fun cell hcell => hframe cell ?_ ?_⟩
  · intro hmem
    have := hqueue.node hmem
    omega
  · intro hmem
    have := hqueue.node hmem
    exact hcell ⟨by omega, by omega⟩
  · rintro rfl
    exact hcell ⟨by omega, by omega⟩

theorem giveBlock_spec {block : Nat} (hheader : HeaderOk memory (pageAddr slot) descIdx queue)
    (hqueue : AreBlocks slot descIdx queue) (hi : i < blockCount descIdx)
    (hblock : block = blockAddr slot descIdx i) (hfresh : block ∉ queue) :
    HeaderOk (giveBlock memory (pageAddr slot) block) (pageAddr slot) descIdx (queue ++ [block]) ∧
      ∀ cell, ¬ Inner slot cell →
        SameAt memory (giveBlock memory (pageAddr slot) block) cell := by
  obtain ⟨hnot, hcounts, hframe⟩ := append_block_frame hheader.holds hqueue hi hblock hfresh
  have hlength := hqueue.length_le hheader.holds.nodup
  have hblocks : AreBlocks slot descIdx (queue ++ [block]) := by
    intro other hother
    rcases List.mem_append.mp hother with hold | hnew
    · exact hqueue other hold
    · exact ⟨i, hi, (List.mem_singleton.mp hnew).trans hblock⟩
  refine ⟨⟨hcounts.2.trans hheader.size, ?_, ?_⟩, ?_⟩
  · have hset : freeCnts (giveBlock memory (pageAddr slot) block) (pageAddr slot) =
        (queue.length + 1) % 2 ^ 32 := by
      have hcnts := hcounts.1.trans hheader.cnts
      rw [← hcnts]
      simp [giveBlock, setFreeCnts, freeCnts]
    rw [hset, List.length_append, List.length_singleton]
    omega
  · refine (CycleList.append_holds hheader.holds hnot).frame fun node hnode => ?_
    have hne : node ≠ pageAddr slot + 8 := by
      rintro rfl
      have := hblocks.node hnode
      omega
    simp [giveBlock, setFreeCnts, hne]
  · intro cell hcell
    have hne : cell ≠ pageAddr slot + 8 := by
      rintro rfl
      exact hcell ⟨le_rfl, by simp [pageSize]⟩
    obtain ⟨hnext, hprev⟩ := hframe cell hcell
    simp [SameAt, giveBlock, setFreeCnts, hne, hnext, hprev]

/-- All blocks of a page, in the order of their addresses. -/
def allBlocks (slot descIdx cnt : Nat) : List Nat :=
  (List.range cnt).map (blockAddr slot descIdx)

theorem allBlocks_areBlocks {cnt : Nat} (hcnt : cnt ≤ blockCount descIdx) :
    AreBlocks slot descIdx (allBlocks slot descIdx cnt) := by
  intro block hblock
  obtain ⟨i, hi, rfl⟩ := List.mem_map.mp hblock
  rw [List.mem_range] at hi
  exact ⟨i, by omega, rfl⟩

/-- The loop of `install_mem_header`, once the first blocks are linked. -/
theorem appendBlocks_spec {fuel : Nat} (hi : i ≤ blockCount descIdx)
    (hfuel : blockCount descIdx - i ≤ fuel)
    (hsize : eachBlockSize memory (pageAddr slot) = classSize descIdx)
    (hcnts : freeCnts memory (pageAddr slot) = blockCount descIdx)
    (hholds : (pageInFreeQueue (pageAddr slot)).Holds memory (allBlocks slot descIdx i)) :
    HeaderOk (appendBlocks (pageAddr slot) fuel i (blockAddr slot descIdx i) memory)
        (pageAddr slot) descIdx (allBlocks slot descIdx (blockCount descIdx)) ∧
      ∀ cell, ¬ Inner slot cell → SameAt memory
        (appendBlocks (pageAddr slot) fuel i (blockAddr slot descIdx i) memory) cell := by
  have hdone : ∀ {memory : Memory}, eachBlockSize memory (pageAddr slot) = classSize descIdx →
      freeCnts memory (pageAddr slot) = blockCount descIdx →
      (pageInFreeQueue (pageAddr slot)).Holds memory
        (allBlocks slot descIdx (blockCount descIdx)) →
      HeaderOk memory (pageAddr slot) descIdx (allBlocks slot descIdx (blockCount descIdx)) :=
    fun hsize hcnts hholds => ⟨hsize, by rw [hcnts, allBlocks]; simp, hholds⟩
  induction fuel generalizing i memory with
  | zero =>
      obtain rfl : i = blockCount descIdx := by omega
      exact ⟨hdone hsize hcnts hholds, fun _ _ => ⟨rfl, rfl⟩⟩
  | succ fuel ih =>
      rw [appendBlocks, hcnts]
      split
      next hlt =>
        have hfresh : blockAddr slot descIdx i ∉ allBlocks slot descIdx i := by
          intro hmem
          obtain ⟨j, hj, heq⟩ := List.mem_map.mp hmem
          have := block_index_inj heq
          rw [List.mem_range] at hj
          omega
        obtain ⟨hnot, hcounts, hframe⟩ :=
          append_block_frame hholds (allBlocks_areBlocks hi) hlt rfl hfresh
        have hnext : (pageInFreeQueue (pageAddr slot)).Holds
            ((pageInFreeQueue (pageAddr slot)).append memory (blockAddr slot descIdx i))
            (allBlocks slot descIdx (i + 1)) := by
          have happend := CycleList.append_holds hholds hnot
          rwa [allBlocks, ← List.map_singleton, ← List.map_append, ← List.range_succ] at happend
        have hsize' := hcounts.2.trans hsize
        have haddr : blockAddr slot descIdx i + classSize descIdx =
            blockAddr slot descIdx (i + 1) := by
          rw [blockAddr, blockAddr, Nat.add_mul, Nat.one_mul]
          omega
        obtain ⟨hheader, hrest⟩ := ih hlt (by omega) hsize' (hcounts.1.trans hcnts) hnext
        simp only [eachBlockSize] at hsize' ⊢
        rw [hsize', haddr]
        refine ⟨hheader, fun cell hcell => ?_⟩
        obtain ⟨hnext', hprev'⟩ := hrest cell hcell
        obtain ⟨hnext'', hprev''⟩ := hframe cell hcell
        exact ⟨hnext'.trans hnext'', hprev'.trans hprev''⟩
      next hge =>
        obtain rfl : i = blockCount descIdx := by omega
        exact ⟨hdone hsize hcnts hholds, fun _ _ => ⟨rfl, rfl⟩⟩

/-- A freshly installed page has all its blocks free. -/
theorem installMemHeader_spec (memory : Memory) (slot descIdx : Nat) :
    HeaderOk (installMemHeader memory (pageAddr slot) (classSize descIdx)) (pageAddr slot)
        descIdx (allBlocks slot descIdx (blockCount descIdx)) ∧
      ∀ cell, ¬ Inner slot cell →
        SameAt memory (installMemHeader memory (pageAddr slot) (classSize descIdx)) cell := by
  rw [installMemHeader, if_neg (by rw [pageAddr_mod]; exact fun h => h rfl)]
  let start := (pageInFreeQueue (pageAddr slot)).initializeList
    (setFreeCnts (memory.setPrev (pageAddr slot + 8) (classSize descIdx)) (pageAddr slot)
      ((pageSize - headerSize) / classSize descIdx))
  have hne : (pageInFreeQueue (pageAddr slot)).head ≠ (pageInFreeQueue (pageAddr slot)).tail := by
    simp [pageInFreeQueue]
  have hsize : eachBlockSize start (pageAddr slot) = classSize descIdx := by
    simp [start, eachBlockSize, CycleList.initializeList, pageInFreeQueue, setFreeCnts]
  have hcnts : freeCnts start (pageAddr slot) = blockCount descIdx := by
    simp [start, freeCnts, CycleList.initializeList, pageInFreeQueue, setFreeCnts, blockCount]
  have hholds : (pageInFreeQueue (pageAddr slot)).Holds start (allBlocks slot descIdx 0) :=
    CycleList.initializeList_holds hne
  have hzero : blockAddr slot descIdx 0 = pageAddr slot + headerSize := by simp [blockAddr]
  have hfuel : blockCount descIdx - 0 ≤ pageSize :=
    (Nat.sub_le _ _).trans ((blockCount_le descIdx).trans (by decide))
  obtain ⟨hheader, hframe⟩ := appendBlocks_spec (Nat.zero_le _) hfuel hsize hcnts hholds
  rw [hzero] at hheader hframe
  refine ⟨hheader, fun cell hcell => ?_⟩
  obtain ⟨hnext, hprev⟩ := hframe cell hcell
  have hout : cell ≠ pageAddr slot + 8 ∧ cell ≠ pageAddr slot + 16 ∧ cell ≠ pageAddr slot + 24 := by
    simp only [Inner, pageSize] at hcell
    omega
  refine ⟨hnext.trans ?_, hprev.trans ?_⟩
  · simp [start, CycleList.initializeList, pageInFreeQueue, setFreeCnts, hout]
  · simp [start, CycleList.initializeList, pageInFreeQueue, setFreeCnts, hout]

end Shmily.Mm
