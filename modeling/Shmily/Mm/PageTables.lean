import Shmily.Mm.PageMapping

/-! # Entries that are present stay

`map_vir_phy` writes entries that are absent and no other ones, and it clears a new page table in
a page that was free. So what is mapped stays mapped while more is mapped, and a run of pages ends
in pages of the pool that were free before, except where an entry was there already.
-/

namespace Shmily.Mm

open Foundation Lib

namespace Paging

variable {paging next before now last : Paging} {place : Nat × Nat}
  {viraddr phyaddr frame dirIdx cnt i : Nat}

/-! ## What is in use -/

/-- A frame that is neither the null page nor a page of the pool that is free. -/
def Settled (paging : Paging) (frame : Nat) : Prop :=
  frame ≠ 0 ∧ ∀ i < paging.phyaddrBmap.bytesLen * 8,
    paging.phyaddrBmap.verifyBit i = false → frame ≠ 512 + i

/-- A page of the pool that is free. -/
def FreeFrame (paging : Paging) (phyaddr : Nat) : Prop :=
  ∃ i < paging.phyaddrBmap.bytesLen * 8, phyaddr = paging.phyaddrStart + i * pageSize ∧
    paging.phyaddrBmap.verifyBit i = false

/-- The frame of the page table of a directory entry. -/
def tableOf (paging : Paging) (dirIdx : Nat) : Nat :=
  entryAddr (paging.tables dirFrame dirIdx) / pageSize

/-- Pages stay marked, and entries of frames that are in use stay present with their values. -/
structure Keeps (paging next : Paging) : Prop where
  start_eq : next.phyaddrStart = paging.phyaddrStart
  bytesLen : next.phyaddrBmap.bytesLen = paging.phyaddrBmap.bytesLen
  marked : ∀ {i}, paging.phyaddrBmap.verifyBit i = true → next.phyaddrBmap.verifyBit i = true
  entry : ∀ {frame idx}, paging.Settled frame → isPresent (paging.tables frame idx) = true →
    next.tables frame idx = paging.tables frame idx

/-- The pool of a machine. -/
structure PoolOk (paging : Paging) : Prop where
  start_eq : paging.phyaddrStart = stationaryMem
  room : pageAddr (paging.phyaddrBmap.bytesLen * 8) ≤ 2 ^ 32

/-- Page tables lie in frames that are in use, and only the last directory entry may name the
directory itself. -/
structure TablesOk (paging : Paging) : Prop extends paging.PoolOk where
  settled : ∀ {dirIdx}, dirIdx < 1024 → isPresent (paging.tables dirFrame dirIdx) = true →
    paging.Settled (paging.tableOf dirIdx)
  own : ∀ {dirIdx}, dirIdx < 1023 → isPresent (paging.tables dirFrame dirIdx) = true →
    paging.tableOf dirIdx ≠ dirFrame

theorem add_ne_dirFrame (i : Nat) : 512 + i ≠ dirFrame := by
  simp only [dirFrame, pageSize]
  omega

theorem settled_dirFrame (paging : Paging) : paging.Settled dirFrame :=
  ⟨by decide, fun i _ _ => (add_ne_dirFrame i).symm⟩

theorem settled_marked (hmarked : paging.phyaddrBmap.verifyBit i = true) :
    paging.Settled (512 + i) := by
  refine ⟨by omega, fun other _ hclear heq => ?_⟩
  obtain rfl : i = other := Nat.add_left_cancel heq
  rw [hmarked] at hclear
  cases hclear

/-- What is free now was free before. -/
theorem Keeps.clear (hkeeps : paging.Keeps next) (hclear : next.phyaddrBmap.verifyBit i = false) :
    paging.phyaddrBmap.verifyBit i = false := by
  by_contra hmarked
  rw [hkeeps.marked (Bool.not_eq_false _ ▸ hmarked)] at hclear
  cases hclear

theorem Keeps.settled (hkeeps : paging.Keeps next) (hsettled : paging.Settled frame) :
    next.Settled frame :=
  ⟨hsettled.1, fun i hi hclear => hsettled.2 i (hkeeps.bytesLen ▸ hi) (hkeeps.clear hclear)⟩

theorem Keeps.refl (paging : Paging) : paging.Keeps paging := ⟨rfl, rfl, id, fun _ _ => rfl⟩

theorem Keeps.trans (hfirst : paging.Keeps next) (hsecond : next.Keeps last) :
    paging.Keeps last where
  start_eq := hsecond.start_eq.trans hfirst.start_eq
  bytesLen := hsecond.bytesLen.trans hfirst.bytesLen
  marked hmarked := hsecond.marked (hfirst.marked hmarked)
  entry hsettled hpresent := by
    have hsame := hfirst.entry hsettled hpresent
    rw [hsecond.entry (hfirst.settled hsettled) (hsame ▸ hpresent), hsame]

theorem PoolOk.kept (hpool : paging.PoolOk) (hkeeps : paging.Keeps next) : next.PoolOk where
  start_eq := hkeeps.start_eq.trans hpool.start_eq
  room := hkeeps.bytesLen ▸ hpool.room

/-- Directory entries that are present stay. -/
theorem Keeps.dir (hkeeps : paging.Keeps next)
    (hpresent : isPresent (paging.tables dirFrame dirIdx) = true) :
    next.tables dirFrame dirIdx = paging.tables dirFrame dirIdx :=
  hkeeps.entry (settled_dirFrame paging) hpresent

theorem Keeps.dir_absent (hkeeps : paging.Keeps next)
    (habsent : isPresent (next.tables dirFrame dirIdx) = false) :
    isPresent (paging.tables dirFrame dirIdx) = false := by
  by_contra hpresent
  rw [Bool.not_eq_false] at hpresent
  rw [hkeeps.dir hpresent, hpresent] at habsent
  cases habsent

theorem translate_eq_some : paging.translate viraddr = some phyaddr ↔
    (isPresent (paging.tables dirFrame (viraddr / 2 ^ 22)) = true ∧
      isPresent (paging.tables (paging.tableOf (viraddr / 2 ^ 22)) (viraddr / pageSize % 1024)) =
        true) ∧
      entryAddr (paging.tables (paging.tableOf (viraddr / 2 ^ 22)) (viraddr / pageSize % 1024)) +
        viraddr % pageSize = phyaddr := by
  rw [translate, Option.ite_none_right_eq_some, Bool.and_eq_true, Option.some.injEq]
  rfl

/-- What is mapped stays mapped. -/
theorem Keeps.translate (hkeeps : paging.Keeps next) (htables : paging.TablesOk)
    (hlt : viraddr < 2 ^ 32) (htranslate : paging.translate viraddr = some phyaddr) :
    next.translate viraddr = some phyaddr := by
  rw [translate_eq_some] at htranslate ⊢
  obtain ⟨⟨hpde, hpte⟩, haddr⟩ := htranslate
  have hsame := hkeeps.entry (htables.settled (by omega) hpde) hpte
  rw [tableOf, hkeeps.dir hpde, ← tableOf, hsame]
  exact ⟨⟨hpde, hpte⟩, haddr⟩

/-! ## One page -/

theorem keeps_getPhyPage (paging : Paging) : paging.Keeps paging.getPhyPage.1 := by
  rw [getPhyPage]
  split
  next => exact ⟨rfl, rfl, id, fun _ _ => rfl⟩
  next =>
    refine ⟨rfl, rfl, fun hmarked => ?_, fun _ _ => rfl⟩
    rw [Bitmap.verifyBit_setBit, hmarked, ite_self]

theorem keeps_setEntry (value : Nat) (habsent : isPresent (paging.entry place) = false) :
    paging.Keeps (paging.setEntry place value) := by
  refine ⟨rfl, rfl, id, fun {frame idx} _ hpresent => ?_⟩
  rw [setEntry_tables, if_neg]
  rintro rfl
  rw [show paging.tables frame idx = paging.entry (frame, idx) from rfl, habsent] at hpresent
  cases hpresent

/-- A new page table lies in a page that was free, or in the null page when there is none. -/
theorem exists_links (hpool : paging.PoolOk) (viraddr : Nat) :
    ∃ frame, paging.LinksTable (paging.newTable viraddr) (viraddr / 2 ^ 22) frame ∧
      frame ≠ dirFrame ∧ ¬ paging.Settled frame := by
  cases hscan : paging.phyaddrBmap.bitmapScan 1 with
  | none =>
      have htaken : paging.getPhyPage.2 = 0 * pageSize := by rw [getPhyPage, hscan]; rfl
      exact ⟨0, newTable_links htaken (by decide) (by decide), by decide, fun h => h.1 rfl⟩
  | some i =>
      have hadds := @newTable_adds paging viraddr i hpool.start_eq hpool.room hscan
      exact ⟨_, hadds.toLinksTable, add_ne_dirFrame i, fun h => h.2 i hadds.lt hadds.clear rfl⟩

theorem keeps_newTable (hpool : paging.PoolOk)
    (habsent : isPresent (paging.tables dirFrame (viraddr / 2 ^ 22)) = false) :
    paging.Keeps (paging.newTable viraddr) := by
  obtain ⟨frame, hlinks, -, hunsettled⟩ := exists_links hpool viraddr
  have htaken := keeps_getPhyPage paging
  refine ⟨hlinks.start_eq, htaken.bytesLen, htaken.marked, fun {other idx} hsettled hpresent => ?_⟩
  by_cases hdir : other = dirFrame
  · subst hdir
    refine hlinks.dir idx ?_
    rintro rfl
    rw [habsent] at hpresent
    cases hpresent
  · have hne : other ≠ frame := fun heq => hunsettled (heq ▸ hsettled)
    rw [hlinks.tables other hdir hne]

/-- The entry of the address in its new page table. -/
theorem LinksTable.pte_absent (hlinks : paging.LinksTable next (viraddr / 2 ^ 22) frame) :
    isPresent (next.entry (next.vaddr2pte viraddr)) = false := by
  rw [Paging.entry, vaddr2pte, tableFrame, Paging.entry, vaddr2pde, hlinks.entry.2,
    Nat.mul_div_cancel _ (by decide), hlinks.empty]
  rfl

theorem keeps_mapVirPhy (hpool : paging.PoolOk) :
    paging.Keeps (paging.mapVirPhy viraddr phyaddr) := by
  cases hpde : isPresent (paging.entry (vaddr2pde viraddr)) with
  | true =>
      rw [mapVirPhy, if_pos hpde]
      split
      next => exact .refl paging
      next hpte => exact keeps_setEntry _ (Bool.not_eq_true _ ▸ hpte)
  | false =>
      obtain ⟨frame, hlinks, -, -⟩ := exists_links hpool viraddr
      rw [mapVirPhy_absent hpde]
      exact (keeps_newTable hpool hpde).trans (keeps_setEntry _ hlinks.pte_absent)

/-- One round of `malloc_page` for an address. -/
def mapAt (paging : Paging) (viraddr : Nat) : Paging :=
  paging.getPhyPage.1.mapVirPhy viraddr paging.getPhyPage.2

theorem keeps_mapAt (hpool : paging.PoolOk) : paging.Keeps (paging.mapAt viraddr) :=
  have htaken := keeps_getPhyPage paging
  htaken.trans (keeps_mapVirPhy (hpool.kept htaken))

theorem keeps_mapPages (hpool : paging.PoolOk) : paging.Keeps (paging.mapPages cnt viraddr) := by
  induction cnt generalizing paging viraddr with
  | zero => exact .refl paging
  | succ cnt ih =>
      have hround : paging.Keeps (paging.mapAt viraddr) := keeps_mapAt hpool
      exact hround.trans (ih (hpool.kept hround))

/-! ## A run of pages -/

/-- Pages up to a directory entry have been mapped since `before`. In the tables from there on,
an entry was present before or names a page that was free. -/
structure Extends (before now : Paging) (dirIdx : Nat) : Prop where
  keeps : before.Keeps now
  tables : now.TablesOk
  fresh : ∀ {other idx}, dirIdx ≤ other → other < 1024 →
    isPresent (now.tables dirFrame other) = true →
    isPresent (now.tables (now.tableOf other) idx) = true →
    isPresent (before.tables dirFrame other) = true ∧
        isPresent (before.tables (now.tableOf other) idx) = true ∨
      before.FreeFrame (entryAddr (now.tables (now.tableOf other) idx))

theorem PoolOk.freeFrame (hpool : paging.PoolOk) (hi : i < paging.phyaddrBmap.bytesLen * 8)
    (hclear : paging.phyaddrBmap.verifyBit i = false) : paging.FreeFrame (pageAddr i) :=
  ⟨i, hi, by rw [hpool.start_eq, pageAddr], hclear⟩

theorem PoolOk.lt (hpool : paging.PoolOk) (hi : i < paging.phyaddrBmap.bytesLen * 8) :
    pageAddr i < 2 ^ 32 := pageAddr_lt_of_lt hpool.room hi

/-- Directory entries that are new name pages of the pool that are marked. -/
theorem TablesOk.kept (htables : paging.TablesOk) (hkeeps : paging.Keeps next)
    (hdir : ∀ dirIdx, next.tables dirFrame dirIdx = paging.tables dirFrame dirIdx ∨
      ∃ i, next.tableOf dirIdx = 512 + i ∧ next.phyaddrBmap.verifyBit i = true) :
    next.TablesOk := by
  have htable : ∀ {dirIdx}, next.tables dirFrame dirIdx = paging.tables dirFrame dirIdx →
      next.tableOf dirIdx = paging.tableOf dirIdx := by
    intro dirIdx hsame
    rw [tableOf, hsame, tableOf]
  refine ⟨htables.toPoolOk.kept hkeeps, fun {dirIdx} hlt hpresent => ?_,
    fun {dirIdx} hlt hpresent => ?_⟩
  · rcases hdir dirIdx with hsame | ⟨i, hnew, hmarked⟩
    · rw [htable hsame]
      exact hkeeps.settled (htables.settled hlt (hsame ▸ hpresent))
    · rw [hnew]
      exact settled_marked hmarked
  · rcases hdir dirIdx with hsame | ⟨i, hnew, -⟩
    · rw [htable hsame]
      exact htables.own hlt (hsame ▸ hpresent)
    · rw [hnew]
      exact add_ne_dirFrame i

namespace Extends

theorem refl (htables : paging.TablesOk) (dirIdx : Nat) : Extends paging paging dirIdx :=
  ⟨.refl paging, htables, fun _ _ hpde hpte => .inl ⟨hpde, hpte⟩⟩

theorem mono (hextends : Extends before now dirIdx) {later : Nat} (hle : dirIdx ≤ later) :
    Extends before now later :=
  ⟨hextends.keeps, hextends.tables, fun hother => hextends.fresh (hle.trans hother)⟩

theorem pool (hextends : Extends before now dirIdx) : before.PoolOk where
  start_eq := hextends.keeps.start_eq ▸ hextends.tables.start_eq
  room := hextends.keeps.bytesLen ▸ hextends.tables.room

/-- A page that is free now. -/
theorem freeFrame (hextends : Extends before now dirIdx) (hi : i < now.phyaddrBmap.bytesLen * 8)
    (hclear : now.phyaddrBmap.verifyBit i = false) : before.FreeFrame (pageAddr i) :=
  hextends.pool.freeFrame (hextends.keeps.bytesLen ▸ hi) (hextends.keeps.clear hclear)

/-- A page is taken. -/
theorem taken (hextends : Extends before now dirIdx) (hkeeps : now.Keeps next)
    (hsame : next.tables = now.tables) : Extends before next dirIdx where
  keeps := hextends.keeps.trans hkeeps
  tables := hextends.tables.kept hkeeps fun _ => .inl (by rw [hsame])
  fresh := by
    rw [hsame]
    simp only [tableOf, hsame]
    exact hextends.fresh

/-- An entry that is absent gets a page that was free. -/
theorem setEntry (hextends : Extends before now (viraddr / 2 ^ 22))
    (hpde : isPresent (now.tables dirFrame (viraddr / 2 ^ 22)) = true)
    (hpte : isPresent (now.entry (now.vaddr2pte viraddr)) = false)
    (hi : i < now.phyaddrBmap.bytesLen * 8) (hmarked : now.phyaddrBmap.verifyBit i = true)
    (hfree : before.FreeFrame (pageAddr i)) :
    Extends before (now.setEntry (now.vaddr2pte viraddr) (pageAddr i ||| pageAttr))
      (viraddr / 2 ^ 22) := by
  have htables := hextends.tables
  have hkeeps := keeps_setEntry (pageAddr i ||| pageAttr) hpte
  have haddr := entryAddr_or_attr (htables.toPoolOk.lt hi)
  have hplace : now.vaddr2pte viraddr =
      (now.tableOf (viraddr / 2 ^ 22), viraddr / pageSize % 1024) := rfl
  -- Only an entry of the last table can be one of the directory, and the last one is present.
  have hdir : ∀ other, viraddr / 2 ^ 22 ≤ other → other < 1024 →
      (dirFrame, other) ≠ now.vaddr2pte viraddr := by
    intro other hle hother heq
    rw [hplace, Prod.mk.injEq] at heq
    have hlast : viraddr / 2 ^ 22 = other := by
      by_contra hne
      exact htables.own (by omega) hpde heq.1.symm
    rw [hplace, ← heq.1, ← heq.2, Paging.entry, ← hlast, hpde] at hpte
    cases hpte
  refine ⟨hextends.keeps.trans hkeeps, htables.kept hkeeps fun other => ?_, ?_⟩
  · by_cases heq : (dirFrame, other) = now.vaddr2pte viraddr
    · refine .inr ⟨i, ?_, hmarked⟩
      rw [tableOf, setEntry_tables, if_pos heq, haddr, pageAddr_frame]
    · exact .inl (by rw [setEntry_tables, if_neg heq])
  · intro other idx hle hother hpresent hentry
    have htable : (now.setEntry (now.vaddr2pte viraddr) (pageAddr i ||| pageAttr)).tableOf other =
        now.tableOf other := by
      rw [tableOf, setEntry_tables, if_neg (hdir other hle hother), tableOf]
    rw [setEntry_tables, if_neg (hdir other hle hother)] at hpresent
    rw [htable, setEntry_tables] at hentry ⊢
    split at hentry
    next heq =>
      rw [if_pos heq, haddr]
      exact .inr hfree
    next heq =>
      rw [if_neg heq]
      exact hextends.fresh hle hother hpresent hentry

/-- A directory entry that is absent gets an empty page table in a page that was free. -/
theorem newTable (hextends : Extends before now (viraddr / 2 ^ 22))
    (habsent : isPresent (now.tables dirFrame (viraddr / 2 ^ 22)) = false)
    (hadds : now.AddsTable (now.newTable viraddr) (viraddr / 2 ^ 22) i) :
    Extends before (now.newTable viraddr) (viraddr / 2 ^ 22) := by
  have htables := hextends.tables
  have hkeeps := keeps_newTable htables.toPoolOk habsent
  have hmarked : (now.newTable viraddr).phyaddrBmap.verifyBit i = true := by
    rw [hadds.bmap, Bitmap.verifyBit_setBit, if_pos rfl]
  have hself : (now.newTable viraddr).tableOf (viraddr / 2 ^ 22) = 512 + i := by
    rw [tableOf, hadds.entry.2, Nat.mul_div_cancel _ (by decide)]
  have hothers : ∀ other, other ≠ viraddr / 2 ^ 22 →
      (now.newTable viraddr).tableOf other = now.tableOf other := by
    intro other hne
    rw [tableOf, hadds.dir other hne, ← tableOf]
  refine ⟨hextends.keeps.trans hkeeps, htables.kept hkeeps fun other => ?_, ?_⟩
  · by_cases heq : other = viraddr / 2 ^ 22
    · exact .inr ⟨i, heq ▸ hself, hmarked⟩
    · exact .inl (hadds.dir other heq)
  · intro other idx hle hother hpresent hentry
    by_cases heq : other = viraddr / 2 ^ 22
    · rw [heq, hself, hadds.empty] at hentry
      cases hentry
    · rw [hadds.dir other heq] at hpresent
      rw [hothers other heq] at hentry ⊢
      have hframe : now.tableOf other ≠ 512 + i :=
        (htables.settled hother hpresent).2 i hadds.lt hadds.clear
      by_cases hdir : now.tableOf other = dirFrame
      · by_cases hidx : idx = viraddr / 2 ^ 22
        · rw [hdir, hidx, hadds.entry.2, ← pageAddr_eq]
          exact .inr (hextends.freeFrame hadds.lt hadds.clear)
        · have hfresh := @Extends.fresh _ _ _ hextends other idx hle hother hpresent
          rw [hdir, hadds.dir idx hidx] at hentry ⊢
          rw [hdir] at hfresh
          exact hfresh hentry
      · rw [hadds.tables _ hdir hframe] at hentry ⊢
        exact hextends.fresh hle hother hpresent hentry

/-- What is mapped was mapped before, or is a page that was free. -/
theorem translate (hextends : Extends before now (viraddr / 2 ^ 22)) (hbefore : before.TablesOk)
    (hlt : viraddr < 2 ^ 32) (halign : viraddr % pageSize = 0)
    (htranslate : now.translate viraddr = some phyaddr) :
    before.translate viraddr = some phyaddr ∨ before.FreeFrame phyaddr := by
  obtain ⟨⟨hpde, hpte⟩, haddr⟩ := translate_eq_some.mp htranslate
  rcases hextends.fresh le_rfl (by omega) hpde hpte with ⟨hpde', hpte'⟩ | hfree
  · refine .inl ?_
    rw [tableOf, hextends.keeps.dir hpde', ← tableOf] at hpte'
    have hbefore' := translate_eq_some.mpr ⟨⟨hpde', hpte'⟩, rfl⟩
    rw [← htranslate, hextends.keeps.translate hbefore hlt hbefore', hbefore']
  · rw [halign, Nat.add_zero] at haddr
    exact .inr (haddr ▸ hfree)

end Extends

/-- An entry that has just been written. -/
theorem translate_setEntry (hpde : isPresent (paging.tables dirFrame (viraddr / 2 ^ 22)) = true)
    (hpte : isPresent (paging.entry (paging.vaddr2pte viraddr)) = false)
    (hlt : pageAddr i < 2 ^ 32) (halign : viraddr % pageSize = 0) :
    (paging.setEntry (paging.vaddr2pte viraddr) (pageAddr i ||| pageAttr)).translate viraddr =
      some (pageAddr i) := by
  have hdir := (keeps_setEntry (pageAddr i ||| pageAttr) hpte).dir hpde
  have hplace : (paging.tableOf (viraddr / 2 ^ 22), viraddr / pageSize % 1024) =
      paging.vaddr2pte viraddr := rfl
  rw [translate_eq_some, tableOf, hdir, ← tableOf, setEntry_tables, if_pos hplace,
    entryAddr_or_attr hlt, halign]
  exact ⟨⟨hpde, isPresent_or_attr i⟩, Nat.add_zero _⟩

namespace Extends

/-- A marked page for an address whose page table is there. -/
theorem mapVirPhy_present (hextends : Extends before now (viraddr / 2 ^ 22))
    (hbefore : before.TablesOk) (hlt : viraddr < 2 ^ 32) (halign : viraddr % pageSize = 0)
    (hi : i < now.phyaddrBmap.bytesLen * 8) (hmarked : now.phyaddrBmap.verifyBit i = true)
    (hfree : before.FreeFrame (pageAddr i))
    (hpde : isPresent (now.tables dirFrame (viraddr / 2 ^ 22)) = true) :
    Extends before (now.mapVirPhy viraddr (pageAddr i)) (viraddr / 2 ^ 22) ∧
      (now.mapVirPhy viraddr (pageAddr i)).phyaddrBmap = now.phyaddrBmap ∧
      ∃ phyaddr, (now.mapVirPhy viraddr (pageAddr i)).translate viraddr = some phyaddr ∧
        (before.translate viraddr = some phyaddr ∨ before.FreeFrame phyaddr) := by
  rw [mapVirPhy, if_pos (by exact hpde)]
  split
  next hpte =>
    have hself := translate_eq_some.mpr ⟨⟨hpde, hpte⟩, rfl⟩
    exact ⟨hextends, rfl, _, hself, hextends.translate hbefore hlt halign hself⟩
  next hpte =>
    rw [Bool.not_eq_true] at hpte
    exact ⟨hextends.setEntry hpde hpte hi hmarked hfree, rfl, _,
      translate_setEntry hpde hpte (hextends.tables.toPoolOk.lt hi) halign, .inr hfree⟩

/-- A marked page for an address whose page table is missing: a second page becomes the table. -/
theorem mapVirPhy_absent (hextends : Extends before now (viraddr / 2 ^ 22))
    (halign : viraddr % pageSize = 0) (hi : i < now.phyaddrBmap.bytesLen * 8)
    (hmarked : now.phyaddrBmap.verifyBit i = true) (hfree : before.FreeFrame (pageAddr i))
    (habsent : isPresent (now.tables dirFrame (viraddr / 2 ^ 22)) = false) {j : Nat}
    (hscan : now.phyaddrBmap.bitmapScan 1 = some j) :
    Extends before (now.mapVirPhy viraddr (pageAddr i)) (viraddr / 2 ^ 22) ∧
      (now.mapVirPhy viraddr (pageAddr i)).phyaddrBmap = now.phyaddrBmap.setBit j true ∧
      isPresent ((now.mapVirPhy viraddr (pageAddr i)).tables dirFrame (viraddr / 2 ^ 22)) = true ∧
      ∃ phyaddr, (now.mapVirPhy viraddr (pageAddr i)).translate viraddr = some phyaddr ∧
        (before.translate viraddr = some phyaddr ∨ before.FreeFrame phyaddr) := by
  have hpool := hextends.tables.toPoolOk
  have hadds := @newTable_adds now viraddr j hpool.start_eq hpool.room hscan
  have hpte := hadds.toLinksTable.pte_absent
  have hi' : i < (now.newTable viraddr).phyaddrBmap.bytesLen * 8 := by
    rw [hadds.bmap]
    exact hi
  have hmarked' : (now.newTable viraddr).phyaddrBmap.verifyBit i = true := by
    rw [hadds.bmap, Bitmap.verifyBit_setBit, hmarked, ite_self]
  rw [Paging.mapVirPhy_absent habsent]
  refine ⟨(hextends.newTable habsent hadds).setEntry hadds.entry.1 hpte hi' hmarked' hfree,
    hadds.bmap, ?_, _, translate_setEntry hadds.entry.1 hpte (hpool.lt hi) halign, .inr hfree⟩
  rw [(keeps_setEntry _ hpte).dir hadds.entry.1]
  exact hadds.entry.1

end Extends

/-- The page tables that a run of pages is short of. -/
def tablesMissing (paging : Paging) (viraddr cnt : Nat) : Finset Nat :=
  (Finset.range 1024).filter fun dirIdx =>
    isPresent (paging.tables dirFrame dirIdx) = false ∧
      ∃ i < cnt, (viraddr + i * pageSize) / 2 ^ 22 = dirIdx

theorem mem_tablesMissing {other : Nat} : other ∈ paging.tablesMissing viraddr cnt ↔
    other < 1024 ∧ isPresent (paging.tables dirFrame other) = false ∧
      ∃ i < cnt, (viraddr + i * pageSize) / 2 ^ 22 = other := by
  rw [tablesMissing, Finset.mem_filter, Finset.mem_range]

theorem first_mem_tablesMissing (cnt : Nat) (hlt : viraddr < 2 ^ 32)
    (habsent : isPresent (paging.tables dirFrame (viraddr / 2 ^ 22)) = false) :
    viraddr / 2 ^ 22 ∈ paging.tablesMissing viraddr (cnt + 1) :=
  mem_tablesMissing.mpr
    ⟨by omega, habsent, 0, Nat.succ_pos cnt, by rw [Nat.zero_mul, Nat.add_zero]⟩

/-- What the rest of a run is short of, the run is short of. -/
theorem tablesMissing_next (viraddr cnt : Nat) (hkeeps : paging.Keeps next) :
    next.tablesMissing (viraddr + pageSize) cnt ⊆ paging.tablesMissing viraddr (cnt + 1) := by
  intro other hother
  obtain ⟨hlt, habsent, i, hi, heq⟩ := mem_tablesMissing.mp hother
  refine mem_tablesMissing.mpr ⟨hlt, hkeeps.dir_absent habsent, i + 1, Nat.succ_lt_succ hi, ?_⟩
  rw [← heq, Nat.add_mul, Nat.one_mul, Nat.add_comm (i * pageSize), ← Nat.add_assoc]

/-- A page table that was made is missing no more. -/
theorem card_tablesMissing_next (cnt : Nat) (hkeeps : paging.Keeps next) (hlt : viraddr < 2 ^ 32)
    (habsent : isPresent (paging.tables dirFrame (viraddr / 2 ^ 22)) = false)
    (hpde : isPresent (next.tables dirFrame (viraddr / 2 ^ 22)) = true) :
    (next.tablesMissing (viraddr + pageSize) cnt).card <
      (paging.tablesMissing viraddr (cnt + 1)).card := by
  refine Finset.card_lt_card ((Finset.ssubset_iff_of_subset (tablesMissing_next viraddr cnt hkeeps)).mpr ?_)
  refine ⟨_, first_mem_tablesMissing cnt hlt habsent, fun hmem => ?_⟩
  rw [mem_tablesMissing, hpde] at hmem
  exact nomatch hmem.2.1

/-- One round: what it takes, and where the page lies then. -/
theorem Extends.mapAt (hextends : Extends before now (viraddr / 2 ^ 22)) (hbefore : before.TablesOk)
    (hlt : viraddr < 2 ^ 32) (halign : viraddr % pageSize = 0)
    (hneed : cnt + 1 + (now.tablesMissing viraddr (cnt + 1)).card ≤ now.phyaddrBmap.clearCount) :
    Extends before (now.mapAt viraddr) (viraddr / 2 ^ 22) ∧
      cnt + ((now.mapAt viraddr).tablesMissing (viraddr + pageSize) cnt).card ≤
        (now.mapAt viraddr).phyaddrBmap.clearCount ∧
      ∃ phyaddr, (now.mapAt viraddr).translate viraddr = some phyaddr ∧
        (before.translate viraddr = some phyaddr ∨ before.FreeFrame phyaddr) := by
  have hpool := hextends.tables.toPoolOk
  have hround : now.Keeps (now.mapAt viraddr) := keeps_mapAt hpool
  obtain ⟨i, hscan⟩ := Bitmap.exists_bitmapScan_of_clearCount
    (show 0 < now.phyaddrBmap.clearCount by omega)
  obtain ⟨hi, hclear⟩ := Bitmap.bitmapScan_one_spec hscan
  have hcount := Bitmap.clearCount_setBit hi hclear
  have hkeeps := keeps_getPhyPage now
  have hmarked : (now.phyaddrBmap.setBit i true).verifyBit i = true := by
    rw [Bitmap.verifyBit_setBit, if_pos rfl]
  rw [Paging.mapAt] at hround ⊢
  rw [getPhyPage_some hpool.start_eq hscan] at hround hkeeps ⊢
  dsimp only at hround hkeeps ⊢
  have hnext := hextends.taken hkeeps rfl
  have hfree := hextends.freeFrame hi hclear
  cases hpde : isPresent (now.tables dirFrame (viraddr / 2 ^ 22)) with
  | true =>
      obtain ⟨hextends', hbmap, hlands⟩ :=
        hnext.mapVirPhy_present hbefore hlt halign hi hmarked hfree hpde
      have hless := Finset.card_le_card (tablesMissing_next viraddr cnt hround)
      refine ⟨hextends', ?_, hlands⟩
      rw [hbmap]
      dsimp only
      omega
  | false =>
      have hfirst := Finset.card_pos.mpr ⟨_, first_mem_tablesMissing cnt hlt hpde⟩
      obtain ⟨j, hscan'⟩ := Bitmap.exists_bitmapScan_of_clearCount
        (show 0 < (now.phyaddrBmap.setBit i true).clearCount by omega)
      obtain ⟨hj, hclear'⟩ := Bitmap.bitmapScan_one_spec hscan'
      have hcount' := Bitmap.clearCount_setBit hj hclear'
      obtain ⟨hextends', hbmap, hpde', hlands⟩ :=
        hnext.mapVirPhy_absent halign hi hmarked hfree hpde hscan'
      have hless := card_tablesMissing_next cnt hround hlt hpde hpde'
      refine ⟨hextends', ?_, hlands⟩
      rw [hbmap]
      dsimp only
      omega

/-- Where the pages of a run lie once all of them are mapped. -/
theorem Extends.mapPages (hextends : Extends before now (viraddr / 2 ^ 22))
    (hbefore : before.TablesOk) (halign : viraddr % pageSize = 0)
    (hend : viraddr + cnt * pageSize ≤ 2 ^ 32)
    (hneed : cnt + (now.tablesMissing viraddr cnt).card ≤ now.phyaddrBmap.clearCount)
    (hi : i < cnt) :
    ∃ phyaddr, (now.mapPages cnt viraddr).translate (viraddr + i * pageSize) = some phyaddr ∧
      (before.translate (viraddr + i * pageSize) = some phyaddr ∨ before.FreeFrame phyaddr) := by
  induction cnt generalizing now viraddr i with
  | zero => exact absurd hi (Nat.not_lt_zero i)
  | succ cnt ih =>
      rw [Nat.add_mul, Nat.one_mul, Nat.add_comm (cnt * pageSize), ← Nat.add_assoc] at hend
      have hlt : viraddr < 2 ^ 32 := by
        simp only [pageSize] at hend
        omega
      obtain ⟨hround, hneed', phyaddr, hmapped, hlands⟩ := hextends.mapAt hbefore hlt halign hneed
      have hpool := hround.tables.toPoolOk
      cases i with
      | zero =>
          rw [Nat.zero_mul, Nat.add_zero]
          exact ⟨phyaddr, (keeps_mapPages hpool).translate hround.tables hlt hmapped, hlands⟩
      | succ i =>
          rw [Nat.add_mul, Nat.one_mul, Nat.add_comm (i * pageSize), ← Nat.add_assoc]
          have hle : viraddr / 2 ^ 22 ≤ (viraddr + pageSize) / 2 ^ 22 :=
            Nat.div_le_div_right (Nat.le_add_right _ _)
          exact ih (hround.mono hle) (by rw [Nat.add_mod_right, halign]) hend hneed'
            (Nat.lt_of_succ_lt_succ hi)

/-! ## No page is left -/

theorem bitmapScan_none (hfull : paging.phyaddrBmap.clearCount = 0) :
    paging.phyaddrBmap.bitmapScan 1 = none := by
  cases hscan : paging.phyaddrBmap.bitmapScan 1 with
  | none => rfl
  | some i =>
      obtain ⟨hi, hclear⟩ := Bitmap.bitmapScan_one_spec hscan
      have hcount := Bitmap.clearCount_setBit hi hclear
      omega

theorem getPhyPage_none (hfull : paging.phyaddrBmap.clearCount = 0) :
    paging.getPhyPage = ({ paging with exhausted := true }, 0) := by
  rw [getPhyPage, bitmapScan_none hfull]

/-- A page is taken as long as one is left. -/
theorem mapPages_bmap_ne (hpool : paging.PoolOk) (hleft : 0 < paging.phyaddrBmap.clearCount)
    (hcnt : 0 < cnt) : (paging.mapPages cnt viraddr).phyaddrBmap ≠ paging.phyaddrBmap := by
  obtain ⟨i, hscan⟩ := Bitmap.exists_bitmapScan_of_clearCount hleft
  obtain ⟨-, hclear⟩ := Bitmap.bitmapScan_one_spec hscan
  obtain ⟨cnt, rfl⟩ : ∃ left, cnt = left + 1 := ⟨cnt - 1, by omega⟩
  have htaken := keeps_getPhyPage paging
  have hmap : paging.getPhyPage.1.Keeps (paging.mapAt viraddr) :=
    keeps_mapVirPhy (hpool.kept htaken)
  have hrest : (paging.mapAt viraddr).Keeps (paging.mapPages (cnt + 1) viraddr) :=
    keeps_mapPages (hpool.kept (htaken.trans hmap))
  have hmarked : paging.getPhyPage.1.phyaddrBmap.verifyBit i = true := by
    rw [getPhyPage_some hpool.start_eq hscan, Bitmap.verifyBit_setBit, if_pos rfl]
  intro heq
  have hfinal := hrest.marked (hmap.marked hmarked)
  rw [heq, hclear] at hfinal
  cases hfinal

theorem translate_congr (hsame : next.tables = paging.tables) (viraddr : Nat) :
    next.translate viraddr = paging.translate viraddr := by
  cases next
  cases paging
  subst hsame
  rfl

/-- A page that is mapped already is left alone. -/
theorem mapVirPhy_mapped (htranslate : paging.translate viraddr = some phyaddr) (addr : Nat) :
    paging.mapVirPhy viraddr addr = paging := by
  obtain ⟨⟨hpde, hpte⟩, -⟩ := translate_eq_some.mp htranslate
  rw [mapVirPhy, if_pos (by exact hpde), if_pos (by exact hpte)]

/-- A page that is not mapped gets an entry even if there is no page for it. -/
theorem mapVirPhy_unmapped (htables : paging.TablesOk) (hlt : viraddr < 2 ^ 32)
    (hnone : paging.translate viraddr = none) :
    ∃ frame idx, paging.Settled frame ∧ isPresent (paging.tables frame idx) = false ∧
      isPresent ((paging.mapVirPhy viraddr 0).tables frame idx) = true := by
  cases hpde : isPresent (paging.tables dirFrame (viraddr / 2 ^ 22)) with
  | true =>
      have hpte : isPresent (paging.entry (paging.vaddr2pte viraddr)) = false := by
        by_contra hpresent
        rw [Bool.not_eq_false] at hpresent
        rw [translate_eq_some.mpr ⟨⟨hpde, hpresent⟩, rfl⟩] at hnone
        cases hnone
      refine ⟨_, viraddr / pageSize % 1024, htables.settled (by omega) hpde, hpte, ?_⟩
      rw [mapVirPhy, if_pos (by exact hpde), if_neg (by rw [Bool.not_eq_true]; exact hpte),
        setEntry_tables]
      exact (congrArg isPresent (if_pos rfl)).trans (by decide)
  | false =>
      refine ⟨dirFrame, viraddr / 2 ^ 22, settled_dirFrame paging, hpde, ?_⟩
      obtain ⟨frame, hlinks, -, -⟩ := exists_links htables.toPoolOk viraddr
      rw [mapVirPhy_absent hpde, (keeps_setEntry _ hlinks.pte_absent).dir hlinks.entry.1]
      exact hlinks.entry.1

/-- Without a page that is left, a run of pages changes nothing exactly when all of them are
mapped already. -/
theorem mapPages_full (htables : paging.TablesOk) (hfull : paging.phyaddrBmap.clearCount = 0)
    (hend : viraddr + cnt * pageSize ≤ 2 ^ 32) :
    ((paging.mapPages cnt viraddr).phyaddrBmap = paging.phyaddrBmap ∧
      (paging.mapPages cnt viraddr).tables = paging.tables) ↔
        ∀ i < cnt, paging.translate (viraddr + i * pageSize) ≠ none := by
  induction cnt generalizing paging viraddr with
  | zero => exact iff_of_true ⟨rfl, rfl⟩ fun i hi => absurd hi (Nat.not_lt_zero i)
  | succ cnt ih =>
      rw [Nat.add_mul, Nat.one_mul, Nat.add_comm (cnt * pageSize), ← Nat.add_assoc] at hend
      have hlt : viraddr < 2 ^ 32 := by
        simp only [pageSize] at hend
        omega
      have hnext := ((Extends.refl htables 0).taken (keeps_getPhyPage paging)
        (getPhyPage_tables paging)).tables
      have hbmap : paging.getPhyPage.1.phyaddrBmap = paging.phyaddrBmap := by
        rw [getPhyPage_none hfull]
      have hsame := getPhyPage_tables paging
      have hrest : paging.mapPages (cnt + 1) viraddr =
          (paging.getPhyPage.1.mapVirPhy viraddr 0).mapPages cnt (viraddr + pageSize) := by
        rw [mapPages, getPhyPage_none hfull]
      rw [hrest, Nat.forall_lt_succ_left, Nat.zero_mul, Nat.add_zero]
      generalize paging.getPhyPage.1 = taken at hnext hbmap hsame
      rw [← hbmap] at hfull
      rw [← hbmap, ← hsame]
      simp only [← translate_congr hsame]
      cases htranslate : taken.translate viraddr with
      | none =>
          refine iff_of_false (fun hall => ?_) fun h => h.1 rfl
          obtain ⟨frame, idx, hsettled, habsent, hpresent⟩ :=
            mapVirPhy_unmapped hnext hlt htranslate
          have hround : taken.Keeps (taken.mapVirPhy viraddr 0) := keeps_mapVirPhy hnext.toPoolOk
          have hkeeps : (taken.mapVirPhy viraddr 0).Keeps
              ((taken.mapVirPhy viraddr 0).mapPages cnt (viraddr + pageSize)) :=
            keeps_mapPages (hnext.toPoolOk.kept hround)
          have hfinal := hkeeps.entry (hround.settled hsettled) hpresent
          rw [hall.2] at hfinal
          rw [hfinal, hpresent] at habsent
          cases habsent
      | some phyaddr =>
          have hshift : ∀ i, viraddr + pageSize + i * pageSize = viraddr + (i + 1) * pageSize := by
            intro i
            rw [Nat.add_mul, Nat.one_mul, Nat.add_comm (i * pageSize), Nat.add_assoc]
          rw [mapVirPhy_mapped htranslate, and_iff_right (Option.some_ne_none _), ih hnext hfull hend]
          simp only [hshift]

end Paging

/-- The page tables of a heap whose pages were mapped cleanly. -/
theorem PagingInv.tablesOk {paging : Paging} {mapped : Nat → Prop} {use : Nat → FrameUse}
    (hinv : PagingInv paging mapped use) : paging.TablesOk := by
  refine ⟨⟨hinv.start_eq, hinv.room⟩, fun {dirIdx} hlt hpresent => ?_,
    fun hlt hpresent => hinv.table_ne_dir hlt hpresent⟩
  rcases Nat.lt_succ_iff_lt_or_eq.mp hlt with hbelow | rfl
  · rcases hinv.table_frame hbelow hpresent with ⟨-, hframe⟩ | ⟨i, huse, hframe⟩
    · rw [Paging.tableOf, hframe]
      refine ⟨by decide, fun i _ _ heq => ?_⟩
      simp only [dirFrame, pageSize] at heq
      omega
    · rw [Paging.tableOf, hframe]
      exact Paging.settled_marked (hinv.used (by rw [huse]; exact FrameUse.table_ne_unused)).2
  · rw [Paging.tableOf, hinv.last, Nat.mul_div_cancel _ (by decide)]
    exact Paging.settled_dirFrame paging

end Shmily.Mm
