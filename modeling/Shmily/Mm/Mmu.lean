import Shmily.Foundation.SelfMap
import Shmily.Mm.PageTables

/-! # The page table behind its own addresses

The memory server is a process: it reaches the page directory and the page tables at
the virtual addresses where the last directory entry shows them, and it may not tell the
processor to forget a translation. Here its functions load from and store to these
addresses, whatever translations the processor remembers. They find the entries that they
look for, so they do what the functions on the tables do.
-/

namespace Shmily.Mm

open Foundation Lib

/-- How the processor reads its page tables; `set_cr3` was called once. -/
def pageFormat : PageFormat where
  decode entry := if isPresent entry then some (entryAddr entry / pageSize) else none
  width := 1024
  dir := dirFrame
  width_pos := by decide

/-- `struct mem_pool` and the memory as the processor shows it. -/
structure MappedPaging where
  phyaddrBmap : Bitmap
  phyaddrStart : Nat
  exhausted : Bool
  mmu : Mmu

namespace MappedPaging

/-- Load the word at a virtual address. -/
def load (cache : TranslationCache) (mapped : MappedPaging) (vaddr : Nat) :
    Option (Nat × MappedPaging) :=
  (mapped.mmu.load pageFormat cache (vaddr / pageSize) (vaddr % pageSize / 4)).map fun loaded =>
    (loaded.1, { mapped with mmu := loaded.2 })

/-- Store a word at a virtual address. -/
def store (cache : TranslationCache) (mapped : MappedPaging) (vaddr value : Nat) :
    Option MappedPaging :=
  (mapped.mmu.store pageFormat cache (vaddr / pageSize) (vaddr % pageSize / 4) value).map
    fun mmu => { mapped with mmu := mmu }

/-- `memset` of a page with zeros. The present bit is in the byte of a word that is
cleared first. -/
def clearPage (cache : TranslationCache) (mapped : MappedPaging) (vaddr : Nat) :
    Option MappedPaging :=
  (mapped.mmu.clear pageFormat cache (vaddr / pageSize) (pageSize / 4)).map
    fun mmu => { mapped with mmu := mmu }

/-- `MemoryManager::get_phy_page`. -/
def getPhyPage (mapped : MappedPaging) : MappedPaging × Nat :=
  match mapped.phyaddrBmap.bitmapScan 1 with
  | none => ({ mapped with exhausted := true }, 0)
  | some idxFree =>
      ({ mapped with phyaddrBmap := mapped.phyaddrBmap.setBit idxFree true },
        mapped.phyaddrStart + idxFree * pageSize)

/-- `vaddr2pde`. -/
def vaddr2pde (vaddr : Nat) : Nat := 0xfffff000 + 4 * ((vaddr &&& 0xffc00000) >>> 22)

/-- `vaddr2pte`, which is taken to return the pointer though it has no `return` statement. -/
def vaddr2pte (vaddr : Nat) : Nat :=
  0xffc00000 + ((vaddr &&& 0xffc00000) >>> 10) + 4 * ((vaddr &&& 0x003ff000) >>> 12)

/-- `vaddr2phy`. -/
def vaddr2phy (cache : TranslationCache) (mapped : MappedPaging) (vaddr : Nat) :
    Option (Nat × MappedPaging) := do
  let (pte, mapped) ← mapped.load cache (vaddr2pte vaddr)
  return ((pte &&& 0xfffff000) + (vaddr &&& 0x00000fff), mapped)

/-- `MemoryManager::map_vir_phy`. -/
def mapVirPhy (cache : TranslationCache) (mapped : MappedPaging) (viraddr phyaddr : Nat) :
    Option MappedPaging := do
  let (pde, mapped) ← mapped.load cache (vaddr2pde viraddr)
  if isPresent pde then
    let (pte, mapped) ← mapped.load cache (vaddr2pte viraddr)
    if isPresent pte then return mapped
    else mapped.store cache (vaddr2pte viraddr) (phyaddr ||| pageAttr)
  else
    let taken := mapped.getPhyPage
    let mapped ← taken.1.store cache (vaddr2pde viraddr) (taken.2 ||| pageAttr)
    let mapped ← mapped.clearPage cache (vaddr2pte viraddr &&& 0xfffff000)
    mapped.store cache (vaddr2pte viraddr) (phyaddr ||| pageAttr)

/-- The loop of `malloc_page`. -/
def mapPages (cache : TranslationCache) : Nat → Nat → MappedPaging → Option MappedPaging
  | 0, _, mapped => some mapped
  | cnt + 1, vaddr, mapped => do
      let taken := mapped.getPhyPage
      let mapped ← taken.1.mapVirPhy cache vaddr taken.2
      mapPages cache cnt (vaddr + pageSize) mapped

/-- `MemoryManager::free_phy_page`. -/
def freePhyPage (mapped : MappedPaging) (phyaddr : Nat) : MappedPaging :=
  { mapped with
    phyaddrBmap :=
      mapped.phyaddrBmap.setBit (subU32 phyaddr mapped.phyaddrStart / pageSize) false }

/-- `MemoryManager::remove_map_addr`, without the `invlpg` that it may not execute. -/
def removeMapAddr (cache : TranslationCache) (mapped : MappedPaging) (viraddr : Nat) :
    Option MappedPaging := do
  let (pte, mapped) ← mapped.load cache (vaddr2pte viraddr)
  mapped.store cache (vaddr2pte viraddr) (pte &&& 0xfffffffe)

/-- The loop of `free_page`. -/
def unmapPages (cache : TranslationCache) : Nat → Nat → MappedPaging → Option MappedPaging
  | 0, _, mapped => some mapped
  | cnt + 1, vaddr, mapped => do
      let (paddr, mapped) ← mapped.vaddr2phy cache vaddr
      let mapped ← (mapped.freePhyPage paddr).removeMapAddr cache vaddr
      unmapPages cache cnt (vaddr + pageSize) mapped

/-- No remembered translation is wrong. -/
def Fresh (mapped : MappedPaging) : Prop := mapped.mmu.Fresh pageFormat

/-- The tables hold these entries, and the pool these pages. -/
structure Represents (mapped : MappedPaging) (paging : Paging) : Prop where
  phyaddrBmap : mapped.phyaddrBmap = paging.phyaddrBmap
  phyaddrStart : mapped.phyaddrStart = paging.phyaddrStart
  exhausted : mapped.exhausted = paging.exhausted
  words : ∀ frame, ∀ idx < 1024, mapped.mmu.frames frame idx = paging.tables frame idx
  stable : mapped.mmu.Stable pageFormat

end MappedPaging

/-! ## Where the entries are seen -/

/-- A mask of `k` bits from a position on. -/
theorem and_mask (x k pos : Nat) : x &&& (2 ^ k - 1) * 2 ^ pos = x / 2 ^ pos % 2 ^ k * 2 ^ pos := by
  apply Nat.eq_of_testBit_eq
  intro bit
  rw [Nat.testBit_and, Nat.testBit_mul_two_pow, Nat.testBit_mul_two_pow,
    Nat.testBit_two_pow_sub_one, Nat.testBit_mod_two_pow, Nat.testBit_div_two_pow]
  by_cases hbit : pos ≤ bit
  · rw [Nat.sub_add_cancel hbit, Bool.and_comm (x.testBit bit), Bool.and_assoc]
  · simp [hbit]

variable {vaddr : Nat}

theorem directory_bits (hlt : vaddr < 2 ^ 32) :
    vaddr &&& 0xffc00000 = vaddr / 2 ^ 22 * 2 ^ 22 := by
  have hmask : (0xffc00000 : Nat) = (2 ^ 10 - 1) * 2 ^ 22 := by decide
  rw [hmask, and_mask, Nat.mod_eq_of_lt (by omega)]

theorem table_bits (vaddr : Nat) :
    vaddr &&& 0x003ff000 = vaddr / 2 ^ 12 % 2 ^ 10 * 2 ^ 12 := by
  have hmask : (0x003ff000 : Nat) = (2 ^ 10 - 1) * 2 ^ 12 := by decide
  rw [hmask, and_mask]

theorem page_bits (hlt : vaddr < 2 ^ 32) : vaddr &&& 0xfffff000 = vaddr / pageSize * pageSize := by
  exact entryAddr_eq hlt

theorem dirIdx_lt_width (hlt : vaddr < 2 ^ 32) : vaddr / 2 ^ 22 < pageFormat.width := by
  change vaddr / 2 ^ 22 < 1024
  omega

/-- The directory entry is a word of the directory's own window. -/
theorem vaddr2pde_place (hlt : vaddr < 2 ^ 32) :
    MappedPaging.vaddr2pde vaddr / pageSize = pageFormat.window 1023 ∧
      MappedPaging.vaddr2pde vaddr % pageSize / 4 = vaddr / 2 ^ 22 := by
  have hword : (vaddr &&& 0xffc00000) >>> 22 = vaddr / 2 ^ 22 := by
    rw [directory_bits hlt, Nat.shiftRight_eq_div_pow, Nat.mul_div_cancel _ (by decide)]
  have hidx : vaddr / 2 ^ 22 < 1024 := by omega
  rw [MappedPaging.vaddr2pde, hword, pageSize, PageFormat.window, pageFormat]
  dsimp only
  omega

/-- The table entry is a word of the table's window. -/
theorem vaddr2pte_place (hlt : vaddr < 2 ^ 32) :
    MappedPaging.vaddr2pte vaddr / pageSize = pageFormat.window (vaddr / 2 ^ 22) ∧
      MappedPaging.vaddr2pte vaddr % pageSize / 4 = vaddr / pageSize % 1024 := by
  have htable : (vaddr &&& 0xffc00000) >>> 10 = vaddr / 2 ^ 22 * 2 ^ 12 := by
    rw [directory_bits hlt, Nat.shiftRight_eq_div_pow]
    omega
  have hword : (vaddr &&& 0x003ff000) >>> 12 = vaddr / 2 ^ 12 % 2 ^ 10 := by
    rw [table_bits, Nat.shiftRight_eq_div_pow, Nat.mul_div_cancel _ (by decide)]
  have hidx : vaddr / 2 ^ 22 < 1024 := by omega
  rw [MappedPaging.vaddr2pte, htable, hword, pageSize, PageFormat.window, pageFormat]
  dsimp only
  omega

/-- The page of the table entry, as `map_vir_phy` computes it. -/
theorem vaddr2pte_page (hlt : vaddr < 2 ^ 32) :
    (MappedPaging.vaddr2pte vaddr &&& 0xfffff000) / pageSize =
      pageFormat.window (vaddr / 2 ^ 22) := by
  obtain ⟨hpage, -⟩ := vaddr2pte_place hlt
  have hbound : MappedPaging.vaddr2pte vaddr < 2 ^ 32 := by
    rw [PageFormat.window, pageFormat] at hpage
    simp only [pageSize] at hpage
    omega
  rw [page_bits hbound, Nat.mul_div_cancel _ (by decide), hpage]

/-! ## Each function through the windows -/

namespace MappedPaging.Represents

variable (cache : TranslationCache) {mapped : MappedPaging} {paging : Paging} (value : Nat)

theorem access (hrep : mapped.Represents paging) :
    { mapped with mmu := { mapped.mmu with accesses := mapped.mmu.accesses + 1 } }.Represents
      paging :=
  ⟨hrep.phyaddrBmap, hrep.phyaddrStart, hrep.exhausted, hrep.words, hrep.stable.access⟩

/-- The directory entry for an address, as the processor reads it. -/
theorem decode_pde (hrep : mapped.Represents paging) (hlt : vaddr < 2 ^ 32)
    (hpde : isPresent (paging.entry (Paging.vaddr2pde vaddr)) = true) :
    pageFormat.decode (mapped.mmu.frames dirFrame (vaddr / 2 ^ 22)) =
      some (paging.tableFrame vaddr) := by
  rw [hrep.words _ _ (by omega)]
  exact if_pos hpde

theorem load_pde (hrep : mapped.Represents paging) (hlt : vaddr < 2 ^ 32) :
    ∃ next, mapped.load cache (vaddr2pde vaddr) =
        some (paging.entry (Paging.vaddr2pde vaddr), next) ∧ next.Represents paging ∧
      (mapped.Fresh → next.Fresh) := by
  obtain ⟨hpage, hword⟩ := vaddr2pde_place hlt
  refine ⟨_, ?_, hrep.access, id⟩
  have hself : pageFormat.decode (mapped.mmu.frames pageFormat.dir 1023) = some dirFrame :=
    hrep.stable.self
  rw [load, hpage, hword, hrep.stable.load_window (by decide), hself]
  simp only [Option.map_some, Option.some.injEq, Prod.mk.injEq, and_true]
  exact hrep.words _ _ (by omega)

theorem load_pte (hrep : mapped.Represents paging) (hlt : vaddr < 2 ^ 32)
    (hpde : isPresent (paging.entry (Paging.vaddr2pde vaddr)) = true) :
    ∃ next, mapped.load cache (vaddr2pte vaddr) =
        some (paging.entry (paging.vaddr2pte vaddr), next) ∧ next.Represents paging ∧
      (mapped.Fresh → next.Fresh) := by
  obtain ⟨hpage, hword⟩ := vaddr2pte_place hlt
  refine ⟨_, ?_, hrep.access, id⟩
  rw [load, hpage, hword, hrep.stable.load_window (dirIdx_lt_width hlt)]
  change Option.map _ (Option.map _ (pageFormat.decode (mapped.mmu.frames dirFrame _))) = _
  rw [hrep.decode_pde hlt hpde]
  simp only [Option.map_some, Option.some.injEq, Prod.mk.injEq, and_true]
  exact hrep.words _ _ (Nat.mod_lt _ (by decide))

/-- A word of a table is stored, and no directory entry that is present. -/
theorem write (hrep : mapped.Represents paging) {frame idx : Nat} (hidx : idx < 1024)
    (hplace : frame = dirFrame → isPresent (paging.tables dirFrame idx) = false) :
    { mapped with mmu := mapped.mmu.write frame idx value }.Represents
      (paging.setEntry (frame, idx) value) := by
  refine ⟨hrep.phyaddrBmap, hrep.phyaddrStart, hrep.exhausted, fun other otherIdx hother => ?_,
    hrep.stable.write fun hdir => ?_⟩
  · rw [Paging.setEntry_tables, Mmu.write]
    dsimp only
    by_cases hframe : other = frame
    · subst hframe
      rw [Function.update_self, Function.update_apply, hrep.words _ _ hother]
      exact if_congr (by simp) rfl rfl
    · rw [Function.update_of_ne hframe, hrep.words _ _ hother,
        if_neg fun heq => hframe (Prod.mk.inj heq).1]
  · change pageFormat.decode (mapped.mmu.frames dirFrame idx) = none
    rw [hrep.words _ _ hidx]
    exact if_neg (by rw [hplace hdir]; exact Bool.false_ne_true)

/-- A store to an entry that was absent misleads nobody. -/
theorem write_fresh (hrep : mapped.Represents paging) {frame idx : Nat} (hidx : idx < 1024)
    (habsent : isPresent (paging.tables frame idx) = false) (hfresh : mapped.Fresh) :
    { mapped with mmu := mapped.mmu.write frame idx value }.Fresh := by
  refine Mmu.Fresh.write hfresh ?_
  rw [hrep.words _ _ hidx]
  exact if_neg (by rw [habsent]; exact Bool.false_ne_true)

theorem store_pde (hrep : mapped.Represents paging) (hlt : vaddr < 2 ^ 32)
    (habsent : isPresent (paging.entry (Paging.vaddr2pde vaddr)) = false) :
    ∃ next, mapped.store cache (vaddr2pde vaddr) value = some next ∧
      next.Represents (paging.setEntry (Paging.vaddr2pde vaddr) value) ∧
      (mapped.Fresh → next.Fresh) := by
  obtain ⟨hpage, hword⟩ := vaddr2pde_place hlt
  have hself : pageFormat.decode (mapped.mmu.frames pageFormat.dir 1023) = some dirFrame :=
    hrep.stable.self
  have hidx : vaddr / 2 ^ 22 < 1024 := dirIdx_lt_width hlt
  refine ⟨_, ?_, hrep.write value hidx fun _ => habsent, hrep.write_fresh value hidx habsent⟩
  rw [store, hpage, hword, hrep.stable.store_window (by decide), hself]
  rfl

theorem store_pte (hrep : mapped.Represents paging) (hlt : vaddr < 2 ^ 32)
    (hpde : isPresent (paging.entry (Paging.vaddr2pde vaddr)) = true)
    (hplace : paging.tableFrame vaddr = dirFrame →
      isPresent (paging.tables dirFrame (vaddr / pageSize % 1024)) = false) :
    ∃ next, mapped.store cache (vaddr2pte vaddr) value = some next ∧
      next.Represents (paging.setEntry (paging.vaddr2pte vaddr) value) ∧
      (isPresent (paging.entry (paging.vaddr2pte vaddr)) = false → mapped.Fresh → next.Fresh) := by
  obtain ⟨hpage, hword⟩ := vaddr2pte_place hlt
  have hidx : vaddr / pageSize % 1024 < 1024 := Nat.mod_lt _ (by decide)
  refine ⟨_, ?_, hrep.write value hidx hplace, hrep.write_fresh value hidx⟩
  rw [store, hpage, hword, hrep.stable.store_window (dirIdx_lt_width hlt)]
  change Option.map _ (Option.map _ (pageFormat.decode (mapped.mmu.frames dirFrame _))) = _
  rw [hrep.decode_pde hlt hpde]
  rfl

theorem clearPage (hrep : mapped.Represents paging) (hlt : vaddr < 2 ^ 32)
    (hpde : isPresent (paging.entry (Paging.vaddr2pde vaddr)) = true)
    (hne : paging.tableFrame vaddr ≠ dirFrame) :
    ∃ next, mapped.clearPage cache (vaddr2pte vaddr &&& 0xfffff000) = some next ∧
      next.Represents { paging with
        tables := Function.update paging.tables (paging.tableFrame vaddr) fun _ => 0 } ∧
      ((∀ idx < 1024, isPresent (paging.tables (paging.tableFrame vaddr) idx) = false) →
        mapped.Fresh → next.Fresh) := by
  obtain ⟨next, hclear, hstable, hframes, hfresh⟩ := hrep.stable.clear_window cache
    (dirIdx_lt_width hlt) (hrep.decode_pde hlt hpde) hne (pageSize / 4)
  refine ⟨{ mapped with mmu := next }, ?_, ⟨hrep.phyaddrBmap, hrep.phyaddrStart, hrep.exhausted,
    fun frame idx hword => ?_, hstable⟩, fun habsent => hfresh fun idx hidx => ?_⟩
  · rw [MappedPaging.clearPage, vaddr2pte_page hlt, hclear]
    rfl
  · dsimp only
    rw [hframes, Function.update_apply, Function.update_apply]
    split
    · exact if_pos (by rw [pageSize]; omega)
    · exact hrep.words _ _ hword
  · have hword : idx < 1024 := by
      rw [pageSize] at hidx
      omega
    rw [hrep.words _ _ hword]
    exact if_neg (by rw [habsent idx hword]; exact Bool.false_ne_true)

theorem getPhyPage (hrep : mapped.Represents paging) :
    mapped.getPhyPage.1.Represents paging.getPhyPage.1 ∧
      mapped.getPhyPage.2 = paging.getPhyPage.2 ∧
      (mapped.Fresh → mapped.getPhyPage.1.Fresh) := by
  cases hscan : paging.phyaddrBmap.bitmapScan 1 with
  | none =>
      rw [MappedPaging.getPhyPage, Paging.getPhyPage, hrep.phyaddrBmap, hscan]
      exact ⟨⟨rfl, hrep.phyaddrStart, rfl, hrep.words, hrep.stable⟩, rfl, id⟩
  | some idxFree =>
      rw [MappedPaging.getPhyPage, Paging.getPhyPage, hrep.phyaddrBmap, hscan]
      exact ⟨⟨rfl, hrep.phyaddrStart, hrep.exhausted, hrep.words, hrep.stable⟩,
        congrArg (· + idxFree * pageSize) hrep.phyaddrStart, id⟩

/-- The directory entry that `map_vir_phy` has just made for an address. -/
theorem linked_pde (hpool : paging.PoolOk) (viraddr : Nat) :
    let linked := paging.getPhyPage.1.setEntry (Paging.vaddr2pde viraddr)
      (paging.getPhyPage.2 ||| pageAttr)
    isPresent (linked.entry (Paging.vaddr2pde viraddr)) = true ∧
      linked.tableFrame viraddr ≠ dirFrame ∧
      linked.tableFrame viraddr = (paging.newTable viraddr).tableFrame viraddr := by
  intro linked
  obtain ⟨frame, hlinks, -, -⟩ := Paging.exists_links hpool viraddr
  have hpresent : isPresent ((paging.newTable viraddr).tables dirFrame (viraddr / 2 ^ 22)) = true :=
    hlinks.entry.1
  have hcleared : (paging.newTable viraddr).tables =
      Function.update linked.tables (linked.tableFrame viraddr) fun _ => 0 := rfl
  rw [hcleared] at hpresent
  have hne : linked.tableFrame viraddr ≠ dirFrame := by
    intro hdir
    rw [hdir, Function.update_self] at hpresent
    cases hpresent
  rw [Function.update_of_ne hne.symm] at hpresent
  refine ⟨hpresent, hne, ?_⟩
  rw [Paging.tableFrame, Paging.tableFrame, Paging.entry, Paging.entry, Paging.vaddr2pde, hcleared,
    Function.update_of_ne hne.symm]

theorem mapVirPhy (hrep : mapped.Represents paging) (hpool : paging.PoolOk) (hlt : vaddr < 2 ^ 32)
    (phyaddr : Nat) :
    ∃ next, mapped.mapVirPhy cache vaddr phyaddr = some next ∧
      next.Represents (paging.mapVirPhy vaddr phyaddr) ∧
      ((isPresent (paging.entry (Paging.vaddr2pde vaddr)) = false → ∀ idx < 1024,
        isPresent (paging.tables ((paging.newTable vaddr).tableFrame vaddr) idx) = false) →
        mapped.Fresh → next.Fresh) := by
  obtain ⟨loaded, hload, hloaded, hfresh₁⟩ := hrep.load_pde cache hlt
  rw [MappedPaging.mapVirPhy, hload]
  simp only [Option.bind_eq_bind, Option.bind_some]
  cases hpde : isPresent (paging.entry (Paging.vaddr2pde vaddr)) with
  | true =>
      obtain ⟨both, hboth, hrep', hfresh₂⟩ := hloaded.load_pte cache hlt hpde
      rw [Paging.mapVirPhy, if_pos hpde, if_pos rfl, hboth, Option.bind_some]
      dsimp only
      cases hpte : isPresent (paging.entry (paging.vaddr2pte vaddr)) with
      | true => exact ⟨both, rfl, hrep', fun _ => hfresh₂ ∘ hfresh₁⟩
      | false =>
          obtain ⟨next, hstore, hnext, hfresh₃⟩ := hrep'.store_pte cache (phyaddr ||| pageAttr) hlt
            hpde fun hdir => by rw [← hdir]; exact hpte
          exact ⟨next, hstore, hnext, fun _ => hfresh₃ hpte ∘ hfresh₂ ∘ hfresh₁⟩
  | false =>
      obtain ⟨htaken, haddr, hfresh₂⟩ := hloaded.getPhyPage
      have habsent : isPresent (paging.getPhyPage.1.entry (Paging.vaddr2pde vaddr)) = false := by
        rw [Paging.entry, Paging.getPhyPage_tables]
        exact hpde
      obtain ⟨hpresent, hne, hnewTable⟩ := linked_pde hpool vaddr
      obtain ⟨linked, hstore, hlinked, hfresh₃⟩ := htaken.store_pde cache
        (paging.getPhyPage.2 ||| pageAttr) hlt habsent
      obtain ⟨cleared, hclear, hcleared, hfresh₄⟩ := hlinked.clearPage cache hlt hpresent hne
      obtain ⟨frame, hlinks, hframe, -⟩ := Paging.exists_links hpool vaddr
      have htable : (paging.newTable vaddr).tableFrame vaddr = frame := by
        rw [Paging.tableFrame, Paging.entry, Paging.vaddr2pde, hlinks.entry.2,
          Nat.mul_div_cancel _ (by decide)]
      have hnew : cleared.Represents (paging.newTable vaddr) := hcleared
      obtain ⟨final, hfinal, hrep', hfresh₅⟩ := hnew.store_pte cache (phyaddr ||| pageAttr) hlt
        hlinks.entry.1 fun hdir => absurd (htable.symm.trans hdir) hframe
      refine ⟨final, ?_, ?_, fun hempty hmapped => ?_⟩
      · rw [if_neg Bool.false_ne_true, haddr, hstore, Option.bind_some, hclear, Option.bind_some]
        exact hfinal
      · rw [Paging.mapVirPhy_absent hpde]
        exact hrep'
      · refine hfresh₅ hlinks.pte_absent (hfresh₄ ?_ (hfresh₃ (hfresh₂ (hfresh₁ hmapped))))
        intro idx hidx
        rw [hnewTable, Paging.setEntry_tables, if_neg, Paging.getPhyPage_tables]
        · exact hempty rfl idx hidx
        · exact fun heq => hframe (htable.symm.trans (Prod.mk.inj heq).1)

/-- A page gets a physical page. -/
theorem mapRound (hrep : mapped.Represents paging) (hpool : paging.PoolOk) {slot : Nat}
    (hlow : pageAddr slot < 0xffc00000) :
    ∃ next, mapped.mapPages cache 1 (pageAddr slot) = some next ∧
      next.Represents (paging.mapRound slot) ∧
      ((isPresent (paging.entry (Paging.vaddr2pde (pageAddr slot))) = false → ∀ idx < 1024,
        isPresent (paging.tables ((paging.getPhyPage.1.newTable (pageAddr slot)).tableFrame
          (pageAddr slot)) idx) = false) → mapped.Fresh → next.Fresh) := by
  have hlt : pageAddr slot < 2 ^ 32 := by omega
  obtain ⟨htaken, haddr, hfresh⟩ := hrep.getPhyPage
  obtain ⟨next, hmap, hrep', hfresh'⟩ := htaken.mapVirPhy cache
    (hpool.kept (Paging.keeps_getPhyPage paging)) hlt paging.getPhyPage.2
  simp only [Paging.entry, Paging.getPhyPage_tables] at hfresh'
  refine ⟨next, ?_, hrep', fun hempty hmapped => hfresh' hempty (hfresh hmapped)⟩
  rw [MappedPaging.mapPages, haddr, hmap]
  rfl

theorem vaddr2phy (hrep : mapped.Represents paging) (hlt : vaddr < 2 ^ 32)
    (hpde : isPresent (paging.entry (Paging.vaddr2pde vaddr)) = true) :
    ∃ next, mapped.vaddr2phy cache vaddr = some (paging.vaddr2phy vaddr, next) ∧
      next.Represents paging := by
  obtain ⟨next, hload, hrep', -⟩ := hrep.load_pte cache hlt hpde
  refine ⟨next, ?_, hrep'⟩
  have hoffset : vaddr &&& 0x00000fff = vaddr % pageSize := Nat.and_two_pow_sub_one_eq_mod vaddr 12
  rw [MappedPaging.vaddr2phy, hload, hoffset]
  rfl

/-- A page gives its physical page back. -/
theorem unmapRound (hrep : mapped.Represents paging) {slot : Nat}
    (hlow : pageAddr slot < 0xffc00000)
    (hpde : isPresent (paging.entry (Paging.vaddr2pde (pageAddr slot))) = true)
    (hne : paging.tableFrame (pageAddr slot) ≠ dirFrame) :
    ∃ next, mapped.unmapPages cache 1 (pageAddr slot) = some next ∧
      next.Represents (paging.unmapRound slot) := by
  have hlt : pageAddr slot < 2 ^ 32 := by omega
  obtain ⟨seen, hphy, hseen⟩ := hrep.vaddr2phy cache hlt hpde
  have hfreed : (seen.freePhyPage (paging.vaddr2phy (pageAddr slot))).Represents
      (paging.freePhyPage (paging.vaddr2phy (pageAddr slot))) := by
    refine ⟨?_, hseen.phyaddrStart, hseen.exhausted, hseen.words, hseen.stable⟩
    rw [MappedPaging.freePhyPage, Paging.freePhyPage, hseen.phyaddrBmap, hseen.phyaddrStart]
  obtain ⟨loaded, hload, hloaded, -⟩ := hfreed.load_pte cache hlt hpde
  obtain ⟨next, hstore, hrep', -⟩ := hloaded.store_pte cache
    ((paging.freePhyPage (paging.vaddr2phy (pageAddr slot))).entry
      (paging.vaddr2pte (pageAddr slot)) &&& 0xfffffffe) hlt hpde fun hdir => absurd hdir hne
  refine ⟨next, ?_, hrep'⟩
  rw [MappedPaging.unmapPages, hphy]
  simp only [Option.bind_eq_bind, Option.bind_some, removeMapAddr, hload]
  exact congrArg (Option.bind · _) hstore

/-- The loop of `malloc_page`. -/
theorem mapPages (hrep : mapped.Represents paging) (hpool : paging.PoolOk) {cnt : Nat}
    (hclean : paging.MapsCleanly cnt vaddr) :
    ∃ next, mapped.mapPages cache cnt vaddr = some next ∧
      next.Represents (paging.mapPages cnt vaddr) := by
  induction cnt generalizing mapped paging vaddr with
  | zero => exact ⟨mapped, rfl, hrep⟩
  | succ cnt ih =>
      obtain ⟨hlow, -, hrest⟩ := hclean
      obtain ⟨htaken, haddr, -⟩ := hrep.getPhyPage
      have hpool' := hpool.kept (Paging.keeps_getPhyPage paging)
      have hlt : vaddr < 2 ^ 32 := by omega
      obtain ⟨one, hmap, hone, -⟩ := htaken.mapVirPhy cache hpool' hlt paging.getPhyPage.2
      obtain ⟨next, hloop, hnext⟩ :=
        ih hone (hpool'.kept (Paging.keeps_mapVirPhy hpool')) hrest
      refine ⟨next, ?_, hnext⟩
      rw [MappedPaging.mapPages, haddr, hmap]
      exact hloop

/-- The loop of `free_page`, turn by turn. -/
theorem unmapPages_succ (mapped : MappedPaging) (cnt start : Nat) :
    mapped.unmapPages cache (cnt + 1) (pageAddr start) =
      (mapped.unmapPages cache 1 (pageAddr start)).bind
        fun next => next.unmapPages cache cnt (pageAddr (start + 1)) := by
  have haddr : pageAddr start + pageSize = pageAddr (start + 1) := by
    rw [pageAddr_add, Nat.one_mul]
  simp only [MappedPaging.unmapPages, Option.bind_eq_bind, haddr]
  cases mapped.vaddr2phy cache (pageAddr start) with
  | none => rfl
  | some seen =>
      simp only [Option.bind_some]
      cases (seen.2.freePhyPage seen.1).removeMapAddr cache (pageAddr start) <;> rfl

/-- The loop of `free_page`, over pages that are mapped. -/
theorem unmapPages (hrep : mapped.Represents paging) {inUse : Nat → Prop} {use : Nat → FrameUse}
    (hinv : PagingInv paging inUse use) {start cnt : Nat}
    (hinUse : ∀ slot, start ≤ slot → slot < start + cnt → inUse slot) :
    ∃ next, mapped.unmapPages cache cnt (pageAddr start) = some next ∧
      next.Represents (paging.unmapPages cnt (pageAddr start)) := by
  induction cnt generalizing mapped paging inUse use start with
  | zero => exact ⟨mapped, rfl, hrep⟩
  | succ cnt ih =>
      have hslot := hinUse start le_rfl (by omega)
      obtain ⟨hlow, hpde, -⟩ := hinv.page hslot
      obtain ⟨one, hround, hone⟩ := hrep.unmapRound cache hlow hpde
        (hinv.table_ne_dir (PagingInv.dirIdx_lt hlow) hpde)
      obtain ⟨use', hinv'⟩ := hinv.unmapRound_spec hslot
      have hrest : ∀ slot, start + 1 ≤ slot → slot < start + 1 + cnt → inUse slot ∧ slot ≠ start :=
        fun slot hlow hhigh => ⟨hinUse slot (by omega) (by omega), by omega⟩
      obtain ⟨next, hloop, hnext⟩ := ih hone hinv' hrest
      refine ⟨next, ?_, ?_⟩
      · rw [unmapPages_succ, hround, Option.bind_some]
        exact hloop
      · rw [Paging.unmapPages_succ]
        exact hnext

end MappedPaging.Represents

/-! ## Requests -/

/-- The memory when the server starts. No translation is older than `set_cr3`. -/
def Boot.mappedPaging (boot : Boot) : MappedPaging where
  phyaddrBmap := boot.memoryManager.paging.phyaddrBmap
  phyaddrStart := stationaryMem
  exhausted := false
  mmu := ⟨installPage boot.frames, [], 0⟩

theorem Boot.mappedPaging_represents (boot : Boot) :
    boot.mappedPaging.Represents boot.memoryManager.paging := by
  refine ⟨rfl, rfl, rfl, fun _ _ _ => rfl, Mmu.stable_start ?_⟩
  change pageFormat.decode (Boot.installPage boot.frames dirFrame 1023) = some dirFrame
  rw [Heap.installPage_dir]
  decide

theorem entryAddr_div (entry : Nat) : entryAddr entry / pageSize * pageSize = entryAddr entry := by
  have hmask : (0xfffff000 : Nat) = (2 ^ 20 - 1) * 2 ^ 12 := by decide
  have hpage : pageSize = 2 ^ 12 := rfl
  rw [entryAddr, hmask, and_mask, hpage, Nat.mul_div_cancel _ (by decide)]

/-- The processor translates as the tables of the server say. -/
theorem MappedPaging.Represents.walk_eq {mapped : MappedPaging} {paging : Paging}
    (hrep : mapped.Represents paging) (hlt : vaddr < 2 ^ 32) :
    (pageFormat.walk mapped.mmu.frames (vaddr / pageSize)).map
      (fun frame => frame * pageSize + vaddr % pageSize) = paging.translate vaddr := by
  have hdir : vaddr / pageSize / pageFormat.width = vaddr / 2 ^ 22 := Nat.div_div_eq_div_mul _ _ _
  rw [PageFormat.walk, hdir, Paging.translate]
  change Option.map _ (Option.bind (pageFormat.decode (mapped.mmu.frames dirFrame _)) _) = _
  cases hpde : isPresent (paging.entry (Paging.vaddr2pde vaddr)) with
  | false =>
      have hnone : pageFormat.decode (mapped.mmu.frames dirFrame (vaddr / 2 ^ 22)) = none := by
        rw [hrep.words _ _ (by omega)]
        exact if_neg (by rw [show paging.tables dirFrame (vaddr / 2 ^ 22) =
          paging.entry (Paging.vaddr2pde vaddr) from rfl, hpde]; exact Bool.false_ne_true)
      rw [hnone, Bool.false_and, if_neg Bool.false_ne_true]
      rfl
  | true =>
      have hpte : mapped.mmu.frames (paging.tableFrame vaddr)
          (vaddr / pageSize % pageFormat.width) = paging.entry (paging.vaddr2pte vaddr) :=
        hrep.words _ _ (Nat.mod_lt _ (by decide))
      rw [hrep.decode_pde hlt hpde, Option.bind_some, Bool.true_and, hpte]
      rw [pageFormat]
      dsimp only
      split
      next => exact congrArg (fun addr => some (addr + vaddr % pageSize)) (entryAddr_div _)
      next => rfl

/-- The loop that a request runs, with its number of pages and its first address. -/
inductive PageCall where
  | map (cnt vaddr : Nat)
  | unmap (cnt vaddr : Nat)

/-- The loop on the tables. -/
def Paging.call (paging : Paging) : PageCall → Paging
  | .map cnt vaddr => paging.mapPages cnt vaddr
  | .unmap cnt vaddr => paging.unmapPages cnt vaddr

/-- The loop through the windows; `none` is a page fault. -/
def MappedPaging.call (cache : TranslationCache) (mapped : MappedPaging) :
    PageCall → Option MappedPaging
  | .map cnt vaddr => mapped.mapPages cache cnt vaddr
  | .unmap cnt vaddr => mapped.unmapPages cache cnt vaddr

/-- The page that `free` hands to `free_page`, if it does. -/
def MemoryManager.pageToFree (mm : MemoryManager) (buf : Nat) : Option Nat :=
  if buf % pageSize = 0 then some buf
  else
    let page := buf / pageSize * pageSize
    let memory := giveBlock mm.memory page buf
    if freeCnts memory page = pageSize - headerSize / eachBlockSize memory page then some page
    else none

/-- The number of pages that `free_page` gives back. -/
def MemoryManager.pagesToFree (mm : MemoryManager) (viraddr : Nat) : Nat :=
  ((mm.vaddrBmap.freeSlots (subU32 viraddr mm.vaddrStart / pageSize)).map Prod.snd).getD 0

/-- The loop of `malloc_page` or `free_page` that a request runs. -/
def Heap.pageCall (heap : Heap) : HeapEvent → PageCall
  | .malloc cntBytes =>
      let cnt := if cntBytes = 0 then 0 else HeapInv.newPages heap.mm cntBytes
      .map cnt (heap.mm.getVirPage cnt).2
  | .free addr =>
      match heap.mm.pageToFree addr with
      | some page => .unmap (heap.mm.pagesToFree page) page
      | none => .unmap 0 addr
  | .write _ _ _ _ => .map 0 0

/-- The heap, and the memory in which the server reaches its tables. -/
structure WindowedHeap where
  heap : Heap
  mapped : MappedPaging

/-- One request, whose loop goes through the windows. -/
def WindowedHeap.step (cache : TranslationCache) (state : WindowedHeap) (event : HeapEvent) :
    Option WindowedHeap := do
  let heap ← state.heap.step event
  let mapped ← state.mapped.call cache (state.heap.pageCall event)
  return ⟨heap, mapped⟩

def WindowedHeap.initial (boot : Boot) : WindowedHeap := ⟨.initial boot, boot.mappedPaging⟩

namespace Heap

variable {heap next : Heap} {event : HeapEvent} {shape : Shape}

/-- The loop of a `free` runs over pages that are in use. -/
theorem free_inUse (hinv : HeapInv heap shape) {addr cntBytes : Nat}
    (hlive : heap.live addr = some cntBytes) :
    (∃ start cnt, heap.pageCall (.free addr) = .unmap cnt (pageAddr start) ∧
      ∀ slot, start ≤ slot → slot < start + cnt → shape.owner slot ≠ .free) ∨
    heap.pageCall (.free addr) = .unmap 0 addr := by
  have haligned := hinv.placed_aligned hlive
  rw [pageCall, MemoryManager.pageToFree]
  cases hinv.placed hlive with
  | @large start hlarge haddr howner =>
      subst haddr
      obtain ⟨hpos, -, -⟩ := pageCnt_spec (hinv.size hlive).1 (hinv.size hlive).2
      have hend := hinv.live_end hlive
      have hidx := HeapInv.slot_of_pageAddr hinv.start_eq hinv.room (by omega : start < _)
      rw [if_pos (haligned.mpr hlarge)]
      refine .inl ⟨start, MemoryManager.pageCnt cntBytes, ?_, fun slot hlow hhigh => ?_⟩
      · dsimp only
        rw [MemoryManager.pagesToFree, hidx,
          DoublebitMap.freeSlots_eq hpos (by omega) (hinv.marked hlive)]
        rfl
      · rw [← Nat.add_sub_cancel' hlow, howner _ (by omega)]
        exact Owner.large_ne_free
  | small hsmall hdesc hi haddr howner =>
      subst haddr
      obtain ⟨hblocks, hheader, -⟩ := hinv.giveBlock_header hi howner hlive
      have hlength := hblocks.length_le hheader.holds.nodup
      rw [← hheader.cnts] at hlength
      have hfail := HeapInv.freeTests_fail hheader.size hlength
      rw [if_neg (block_mod_ne hi)]
      dsimp only
      rw [page_of_block hi, if_neg (by omega)]
      exact .inr rfl

end Heap

/-- Every loop of the server can be done through the windows. -/
theorem MappedPaging.Represents.call {cache : TranslationCache} {heap : Heap} {event : HeapEvent}
    {mapped : MappedPaging} {shape : Shape} {use : Nat → FrameUse} (hinv : HeapInv heap shape)
    (hpaging : PagingInv heap.mm.paging (fun slot => shape.owner slot ≠ .free) use)
    (hrep : mapped.Represents heap.mm.paging) (hadmits : heap.Admits event)
    (hclean : heap.MapsCleanly event) :
    ∃ next, mapped.call cache (heap.pageCall event) = some next ∧
      next.Represents (heap.mm.paging.call (heap.pageCall event)) := by
  cases event with
  | malloc cntBytes =>
      have hcnt : cntBytes ≠ 0 := Nat.one_le_iff_ne_zero.mp hadmits.1
      rw [Heap.pageCall, if_neg hcnt]
      exact hrep.mapPages cache ⟨hpaging.start_eq, hpaging.room⟩ hclean
  | free addr =>
      obtain ⟨cntBytes, hlive⟩ := Option.ne_none_iff_exists'.mp hadmits
      rcases Heap.free_inUse hinv hlive with ⟨start, cnt, hcall, hinUse⟩ | hcall
      · rw [hcall]
        exact hrep.unmapPages cache hpaging hinUse
      · rw [hcall]
        exact ⟨mapped, rfl, hrep⟩
  | write block cell first second => exact ⟨mapped, rfl, hrep⟩

/-- The pages of the pool that are free hold nothing that looks like an entry. -/
structure Paging.EmptyPool (paging : Paging) : Prop extends paging.TablesOk where
  empty : ∀ i < paging.phyaddrBmap.bytesLen * 8, paging.phyaddrBmap.verifyBit i = false →
    ∀ idx < 1024, isPresent (paging.tables (512 + i) idx) = false

namespace Paging.EmptyPool

variable {paging next : Paging} {slot i : Nat}

theorem exists_scan (hroom : paging.getPhyPage.1.exhausted = false) :
    ∃ i, paging.phyaddrBmap.bitmapScan 1 = some i := by
  cases hscan : paging.phyaddrBmap.bitmapScan 1 with
  | none =>
      rw [Paging.getPhyPage, hscan] at hroom
      cases hroom
  | some i => exact ⟨i, rfl⟩

/-- A page that is taken leaves the other ones empty. -/
theorem taken (hpool : paging.EmptyPool) : paging.getPhyPage.1.EmptyPool := by
  have hkeeps := keeps_getPhyPage paging
  have hsame := getPhyPage_tables paging
  refine ⟨hpool.toTablesOk.kept hkeeps fun dirIdx => .inl (by rw [hsame]),
    fun k hk hclear idx hidx => ?_⟩
  rw [hsame]
  exact hpool.empty k (hkeeps.bytesLen ▸ hk) (hkeeps.clear hclear) idx hidx

/-- An entry of a page table is written. -/
theorem setEntry (hpool : paging.EmptyPool) {viraddr value : Nat} (hlow : viraddr < 0xffc00000)
    (hpde : isPresent (paging.entry (vaddr2pde viraddr)) = true) :
    (paging.setEntry (paging.vaddr2pte viraddr) value).EmptyPool := by
  have hdirIdx : viraddr / 2 ^ 22 < 1023 := by omega
  have hdir : ∀ dirIdx, (paging.setEntry (paging.vaddr2pte viraddr) value).tables dirFrame dirIdx =
      paging.tables dirFrame dirIdx := by
    intro dirIdx
    rw [setEntry_tables]
    exact if_neg fun heq => hpool.own hdirIdx hpde (Prod.mk.inj heq).1.symm
  refine ⟨⟨⟨hpool.start_eq, hpool.room⟩, fun {dirIdx} hlt hpresent => ?_,
    fun {dirIdx} hlt hpresent => ?_⟩, fun i hi hclear idx hidx => ?_⟩
  · rw [hdir] at hpresent
    rw [tableOf, hdir]
    exact hpool.settled hlt hpresent
  · rw [hdir] at hpresent
    rw [tableOf, hdir]
    exact hpool.own hlt hpresent
  · rw [setEntry_tables, if_neg]
    · exact hpool.empty i hi hclear idx hidx
    · exact fun heq => (hpool.settled (Nat.lt_succ_of_lt hdirIdx) hpde).2 i hi hclear
        (Prod.mk.inj heq).1.symm

/-- A page of the pool becomes a page table. -/
theorem newTable (hpool : paging.EmptyPool) {viraddr : Nat}
    (habsent : isPresent (paging.entry (vaddr2pde viraddr)) = false)
    (hadds : paging.AddsTable (paging.newTable viraddr) (viraddr / 2 ^ 22) i) :
    (paging.newTable viraddr).EmptyPool := by
  have hkeeps := keeps_newTable hpool.toPoolOk habsent
  refine ⟨((Extends.refl hpool.toTablesOk _).newTable habsent hadds).tables,
    fun k hk hclear idx hidx => ?_⟩
  have hne : 512 + k ≠ 512 + i := by
    intro heq
    rw [hadds.bmap, Nat.add_left_cancel heq, Bitmap.verifyBit_setBit, if_pos rfl] at hclear
    cases hclear
  rw [hadds.tables _ (add_ne_dirFrame k) hne]
  exact hpool.empty k (hkeeps.bytesLen ▸ hk) (hkeeps.clear hclear) idx hidx

/-- One turn of `malloc_page` takes its page table from the pool. -/
theorem mapRound (hpool : paging.EmptyPool) (hlow : pageAddr slot < 0xffc00000)
    (hroom : (paging.mapRound slot).exhausted = false) :
    (paging.mapRound slot).EmptyPool ∧
      (isPresent (paging.entry (vaddr2pde (pageAddr slot))) = false → ∀ idx < 1024,
        isPresent (paging.tables ((paging.getPhyPage.1.newTable (pageAddr slot)).tableFrame
          (pageAddr slot)) idx) = false) := by
  have htaken := hpool.taken
  have hsame : paging.getPhyPage.1.entry (vaddr2pde (pageAddr slot)) =
      paging.entry (vaddr2pde (pageAddr slot)) := by
    rw [Paging.entry, getPhyPage_tables, ← Paging.entry]
  rw [Paging.mapRound] at hroom ⊢
  cases hpde : isPresent (paging.entry (vaddr2pde (pageAddr slot))) with
  | true =>
      rw [← hsame] at hpde
      refine ⟨?_, fun habsent => Bool.noConfusion habsent⟩
      rw [mapVirPhy, if_pos hpde]
      split
      next => exact htaken
      next => exact htaken.setEntry hlow hpde
  | false =>
      rw [← hsame] at hpde
      rw [mapVirPhy_absent hpde] at hroom ⊢
      have hmore : paging.getPhyPage.1.getPhyPage.1.exhausted = false := hroom
      obtain ⟨j, hscan'⟩ := exists_scan hmore
      have hadds := @newTable_adds paging.getPhyPage.1 (pageAddr slot) j htaken.start_eq htaken.room
        hscan'
      refine ⟨(htaken.newTable hpde hadds).setEntry hlow hadds.entry.1, fun _ idx hidx => ?_⟩
      have htable : (paging.getPhyPage.1.newTable (pageAddr slot)).tableFrame (pageAddr slot) =
          512 + j := by
        rw [tableFrame, Paging.entry, vaddr2pde, hadds.entry.2, Nat.mul_div_cancel _ (by decide)]
      rw [htable, ← getPhyPage_tables paging]
      exact htaken.empty j hadds.lt hadds.clear idx hidx

end Paging.EmptyPool

/-- Free page frames that hold nothing that looks like an entry, at boot. -/
def Boot.EmptyFrames (boot : Boot) : Prop :=
  ∀ frame ≥ 512, ∀ idx < 1024, isPresent (boot.frames frame idx) = false

theorem Boot.EmptyFrames.emptyPool {boot : Boot} (hempty : boot.EmptyFrames) :
    boot.memoryManager.paging.EmptyPool := by
  refine ⟨(Heap.initial_paging boot).tablesOk, fun i _ _ idx hidx => ?_⟩
  change isPresent (Boot.installPage boot.frames (512 + i) idx) = false
  rw [Boot.installPage, Function.update_of_ne (by simp only [dirFrame, pageSize]; omega),
    Function.update_of_ne (Paging.add_ne_dirFrame i)]
  exact hempty _ (Nat.le_add_right _ _) idx hidx

/-! ## Runs of single turns -/

/-- One turn of the loop of `malloc_page` or `free_page`. -/
inductive PageRound where
  | map (slot : Nat)
  | unmap (slot : Nat)

/-- The turn through the windows; `none` is a page fault. -/
def MappedPaging.step (cache : TranslationCache) (mapped : MappedPaging) :
    PageRound → Option MappedPaging
  | .map slot => mapped.mapPages cache 1 (pageAddr slot)
  | .unmap slot => mapped.unmapPages cache 1 (pageAddr slot)

/-- The loop of `malloc_page` runs, below the windows. -/
def MapsBelow (_ : MappedPaging) : PageRound → Prop
  | .map slot => pageAddr slot < 0xffc00000
  | .unmap _ => False

instance (mapped : MappedPaging) (round : PageRound) : Decidable (MapsBelow mapped round) :=
  match round with
  | .map _ => inferInstanceAs (Decidable (_ < _))
  | .unmap _ => inferInstanceAs (Decidable False)

theorem fresh_of_run {cache : TranslationCache} {boot : Boot} (hempty : boot.EmptyFrames)
    {rounds : List PageRound} {mapped : MappedPaging}
    (hrun : Run (MappedPaging.step cache) MapsBelow boot.mappedPaging rounds mapped) :
    ∃ paging, mapped.Represents paging ∧ paging.PoolOk ∧
      (paging.exhausted = false → paging.EmptyPool ∧ mapped.Fresh) := by
  refine hrun.invariant (fun mapped => ∃ paging, mapped.Represents paging ∧ paging.PoolOk ∧
    (paging.exhausted = false → paging.EmptyPool ∧ mapped.Fresh)) ?_ ?_
  · have hpool := hempty.emptyPool
    exact ⟨_, boot.mappedPaging_represents, hpool.toPoolOk,
      fun _ => ⟨hpool, fun _ hmem => absurd hmem List.not_mem_nil⟩⟩
  · intro before round after hbefore hbelow hstep
    obtain ⟨paging, hrep, hpool, hfresh⟩ := hbefore
    obtain ⟨slot, rfl, hlow⟩ : ∃ slot, round = .map slot ∧ pageAddr slot < 0xffc00000 := by
      cases round with
      | map slot => exact ⟨slot, rfl, hbelow⟩
      | unmap slot => exact hbelow.elim
    obtain ⟨next, hnext, hrep', hfresh'⟩ := hrep.mapRound cache hpool hlow
    obtain rfl : next = after := Option.some.inj (hnext.symm.trans hstep)
    refine ⟨paging.mapRound slot, hrep', hpool.kept (Paging.keeps_mapAt hpool), fun hroom => ?_⟩
    have hbefore : paging.exhausted = false := by
      by_contra hexhausted
      rw [Bool.not_eq_false] at hexhausted
      have hnextRoom : (paging.mapRound slot).exhausted = true :=
        PagingInv.mapPages_exhausted 1 (pageAddr slot) hexhausted
      rw [hroom] at hnextRoom
      cases hnextRoom
    obtain ⟨hemptyPool, hfreshBefore⟩ := hfresh hbefore
    obtain ⟨hnextPool, htable⟩ := hemptyPool.mapRound hlow hroom
    exact ⟨hnextPool, hfresh' htable hfreshBefore⟩

/-- As long as pages are only taken, and the free page frames held nothing that looks like an entry
at boot, no translation that the processor remembers is wrong: a page that is mapped is seen in its
frame. -/
theorem mapped_pages_seen (cache : TranslationCache) (boot : Boot) (hempty : boot.EmptyFrames)
    (rounds : List PageRound) (mapped : MappedPaging)
    (hrun : Run (MappedPaging.step cache) MapsBelow boot.mappedPaging rounds mapped)
    (hroom : mapped.exhausted = false) :
    mapped.Fresh ∧ ∀ other page frame, pageFormat.walk mapped.mmu.frames page = some frame →
      mapped.mmu.frameOf pageFormat other page = some frame := by
  obtain ⟨paging, hrep, -, hfresh⟩ := fresh_of_run hempty hrun
  have hfresh := (hfresh (hrep.exhausted.symm.trans hroom)).2
  exact ⟨hfresh, fun _ _ _ hpage => Mmu.Fresh.frameOf_eq hfresh hpage⟩

/-- Two pages behind the premapped ones. -/
theorem mapped_pages_seen_two :
    ∃ mapped, Run (MappedPaging.step fun _ _ => none) MapsBelow Heap.fourMegabytes.mappedPaging
        [.map 16, .map 17] mapped ∧
      mapped.Fresh ∧ mapped.mmu.frameOf pageFormat (fun _ _ => some 512) (512 + 17) = some 513 := by
  have hseen : (exec (MappedPaging.step fun _ _ => none) MapsBelow Heap.fourMegabytes.mappedPaging
      [.map 16, .map 17]).map (fun mapped =>
        (mapped.exhausted, pageFormat.walk mapped.mmu.frames (512 + 17))) =
      some (false, some 513) := by
    decide +kernel
  obtain ⟨mapped, hexec, hseen⟩ := Option.map_eq_some_iff.mp hseen
  simp only [Prod.mk.injEq] at hseen
  have hrun := Run.of_exec _ _ _ _ hexec
  have hempty : Heap.fourMegabytes.EmptyFrames := fun _ _ _ _ =>
    show isPresent 0 = false by decide
  obtain ⟨hfresh, hframe⟩ := mapped_pages_seen _ _ hempty _ _ hrun hseen.1
  exact ⟨mapped, hrun, hfresh, hframe _ _ _ hseen.2⟩

/-- Once pages were given back, a page that is mapped again may be seen where it was before. -/
theorem remapped_page_missed :
    ∃ mapped, Run (MappedPaging.step fun _ _ => none) (fun _ _ => True)
        Heap.fourMegabytes.mappedPaging [.map 16, .map 17, .unmap 16, .unmap 17, .map 17] mapped ∧
      pageFormat.walk mapped.mmu.frames (512 + 17) = some 512 ∧
      mapped.mmu.frameOf pageFormat (fun _ _ => some 513) (512 + 17) = some 513 := by
  have hseen : (exec (MappedPaging.step fun _ _ => none) (fun _ _ => True)
      Heap.fourMegabytes.mappedPaging [.map 16, .map 17, .unmap 16, .unmap 17, .map 17]).map
      (fun mapped => (pageFormat.walk mapped.mmu.frames (512 + 17),
        mapped.mmu.frameOf pageFormat (fun _ _ => some 513) (512 + 17))) =
      some (some 512, some 513) := by
    decide +kernel
  obtain ⟨mapped, hexec, hseen⟩ := Option.map_eq_some_iff.mp hseen
  simp only [Prod.mk.injEq] at hseen
  exact ⟨mapped, Run.of_exec _ _ _ _ hexec, hseen⟩

end Shmily.Mm
