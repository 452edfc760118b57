import Shmily.Fs.Layout

/-! # The parts of a write

`write_file` first gives the inode the sectors it lacks, then writes the text, and
at its end gives surplus sectors back and stores the inode. Each part has its own
specification here; the first and the last one change no data sector.
-/

namespace Shmily.Fs

open Foundation Lib

namespace Server

variable {fs fs' : Server} {lba blockNo : Nat} {inode inode' : Inode}

/-! ### Allocation -/

/-- The inode got sectors from free blocks where it had none. -/
structure Allocated (fs : Server) (inode : Inode) (fs' : Server) (inode' : Inode) : Prop where
  server : fs' = { fs with blockBmap := fs'.blockBmap }
  bytesLen : fs'.blockBmap.bytesLen = fs.blockBmap.bytesLen
  bits : ∀ bit, fs.blockBmap.verifyBit bit = true → fs'.blockBmap.verifyBit bit = true
  fields : inode' = { inode with sectors := inode'.sectors }
  sectors : ∀ i, inode'.sectors i = inode.sectors i ∨
    inode.sectors i = 0 ∧ ∃ bit < fs.blockBmap.bytesLen * 8,
      fs.blockBmap.verifyBit bit = false ∧ inode'.sectors i = fs.blockLba bit

theorem Allocated.refl (fs : Server) (inode : Inode) : Allocated fs inode fs inode :=
  ⟨rfl, rfl, fun _ => id, rfl, fun _ => .inl rfl⟩

section Projections

variable (hallocated : Allocated fs inode fs' inode')

include hallocated

theorem Allocated.sb : fs'.sb = fs.sb := by
  rw [hallocated.server]

theorem Allocated.disk : fs'.disk = fs.disk := by
  rw [hallocated.server]

theorem Allocated.inodeBmap : fs'.inodeBmap = fs.inodeBmap := by
  rw [hallocated.server]

theorem Allocated.fileDescTbl : fs'.fileDescTbl = fs.fileDescTbl := by
  rw [hallocated.server]

theorem Allocated.uid : fs'.uid = fs.uid := by
  rw [hallocated.server]

theorem Allocated.inodeNo : inode'.inodeNo = inode.inodeNo := by
  rw [hallocated.fields]

theorem Allocated.layout (hlayout : fs.Layout) : fs'.Layout :=
  hlayout.congr hallocated.sb hallocated.bytesLen

/-- All sectors are data sectors when those were that the inode had. -/
theorem Allocated.isDataSector (hlayout : fs.Layout) {i : Fin 9}
    (hdata : inode.sectors i ≠ 0 → fs.IsDataSector (inode.sectors i))
    (hne : inode'.sectors i ≠ 0) : fs.IsDataSector (inode'.sectors i) := by
  rcases hallocated.sectors i with hsame | ⟨-, bit, hbit, -, hnew⟩
  · rw [hsame] at hne ⊢
    exact hdata hne
  · rw [hnew]
    exact isDataSector_blockLba hlayout hbit

end Projections

theorem Allocated.cons {fs₁ : Server} {i : Fin 9} (hzero : inode.sectors i = 0)
    (halloc : fs.allocateBlock = some (fs₁, blockNo))
    (hrest : Allocated fs₁ (inode.setSector i (fs₁.blockLba blockNo)) fs' inode') :
    Allocated fs inode fs' inode' := by
  obtain ⟨hlt, hclear, rfl⟩ := allocateBlock_spec halloc
  have hgrow : ∀ bit, fs.blockBmap.verifyBit bit = true →
      (fs.blockBmap.setBit blockNo true).verifyBit bit = true := by
    intro bit hbit
    rw [Bitmap.verifyBit_setBit, hbit, ite_self]
  refine ⟨hrest.server, hrest.bytesLen, fun bit hbit => hrest.bits bit (hgrow bit hbit), ?_, ?_⟩
  · exact hrest.fields
  · intro j
    by_cases hij : j = i
    · subst j
      refine .inr ⟨hzero, ?_⟩
      rcases hrest.sectors i with hsame | ⟨-, bit, hbit, hfree, hsector⟩
      · refine ⟨blockNo, hlt, hclear, ?_⟩
        exact hsame.trans (Function.update_self ..)
      · exact ⟨bit, hbit, Bool.eq_false_iff.mpr fun h =>
          Bool.eq_false_iff.mp hfree (hgrow bit h), hsector⟩
    · have hother : (inode.setSector i (blockLba
          { fs with blockBmap := fs.blockBmap.setBit blockNo true } blockNo)).sectors j =
          inode.sectors j := Function.update_of_ne hij ..
      rcases hrest.sectors j with hsame | ⟨hzero', bit, hbit, hfree, hsector⟩
      · exact .inl (hsame.trans hother)
      · exact .inr ⟨hother.symm.trans hzero', bit, hbit, Bool.eq_false_iff.mpr fun h =>
          Bool.eq_false_iff.mp hfree (hgrow bit h), hsector⟩

theorem allocateSectors_spec {indices : List Nat}
    (halloc : fs.allocateSectors inode indices = some (fs', inode')) :
    Allocated fs inode fs' inode' := by
  induction indices generalizing fs inode with
  | nil =>
      rw [allocateSectors, Option.some.injEq, Prod.mk.injEq] at halloc
      obtain ⟨rfl, rfl⟩ := halloc
      exact Allocated.refl _ _
  | cons i rest ih =>
      simp only [allocateSectors, Option.bind_eq_bind, Option.bind_eq_some_iff] at halloc
      obtain ⟨lba, hlba, halloc⟩ := halloc
      split at halloc
      next hzero =>
        simp only [Option.bind_eq_some_iff, Prod.exists] at halloc
        obtain ⟨fs₁, blockNo, hblock, inode₁, hset, hrest⟩ := halloc
        simp only [Inode.sectorAt, Option.dite_none_right_eq_some, Option.some.injEq] at hlba
        obtain ⟨hi, hlba⟩ := hlba
        rw [Inode.setSectorAt, dif_pos hi, Option.some.injEq] at hset
        subst hset
        exact Allocated.cons (hlba.trans hzero) hblock (ih hrest)
      next => exact ih halloc

/-- A sector that an inode has is not changed. -/
theorem Allocated.sectors_of_ne_zero {i : Fin 9}
    (hallocated : Allocated fs inode fs' inode') (hne : inode.sectors i ≠ 0) :
    inode'.sectors i = inode.sectors i :=
  (hallocated.sectors i).resolve_right fun h => hne h.1

/-- The loop leaves none of its sectors out. -/
theorem allocateSectors_ne_zero {indices : List Nat} {i : Nat}
    (hlayout : fs.Layout) (halloc : fs.allocateSectors inode indices = some (fs', inode'))
    (hmem : i ∈ indices) (hi : i < 9) : inode'.sectors ⟨i, hi⟩ ≠ 0 := by
  induction indices generalizing fs inode with
  | nil => cases hmem
  | cons j rest ih =>
      simp only [allocateSectors, Option.bind_eq_bind, Option.bind_eq_some_iff] at halloc
      obtain ⟨lba, hlba, halloc⟩ := halloc
      simp only [Inode.sectorAt, Option.dite_none_right_eq_some, Option.some.injEq] at hlba
      obtain ⟨hj, rfl⟩ := hlba
      split at halloc
      next hzero =>
        simp only [Option.bind_eq_some_iff, Prod.exists] at halloc
        obtain ⟨fs₁, blockNo, hblock, inode₁, hset, hrest⟩ := halloc
        rw [Inode.setSectorAt, dif_pos hj, Option.some.injEq] at hset
        subst hset
        obtain ⟨hlt, -, rfl⟩ := allocateBlock_spec hblock
        rcases List.mem_cons.mp hmem with rfl | hmem
        · have hnew : (inode.setSector ⟨i, hj⟩ (fs.blockLba blockNo)).sectors ⟨i, hj⟩ =
              fs.blockLba blockNo := Function.update_self ..
          have hne := (isDataSector_blockLba hlayout hlt).ne_zero hlayout
          rw [(allocateSectors_spec hrest).sectors_of_ne_zero (hnew.trans_ne hne)]
          exact hnew.trans_ne hne
        · have hlayout' :
              ({ fs with blockBmap := fs.blockBmap.setBit blockNo true } : Server).Layout :=
            hlayout.congr rfl rfl
          exact ih hlayout' hrest hmem
      next hne =>
        rcases List.mem_cons.mp hmem with rfl | hmem
        · rwa [(allocateSectors_spec halloc).sectors_of_ne_zero hne]
        · exact ih hlayout halloc hmem

/-- The loop only gives out blocks that were free. -/
theorem allocateSectors_owned {indices : List Nat} (hlayout : fs.Layout)
    (halloc : fs.allocateSectors inode indices = some (fs', inode')) (howned : fs.Owned inode) :
    fs'.Owned inode' := by
  induction indices generalizing fs inode with
  | nil =>
      rw [allocateSectors, Option.some.injEq, Prod.mk.injEq] at halloc
      obtain ⟨rfl, rfl⟩ := halloc
      exact howned
  | cons i rest ih =>
      simp only [allocateSectors, Option.bind_eq_bind, Option.bind_eq_some_iff] at halloc
      obtain ⟨lba, hlba, halloc⟩ := halloc
      simp only [Inode.sectorAt, Option.dite_none_right_eq_some, Option.some.injEq] at hlba
      obtain ⟨hi, rfl⟩ := hlba
      split at halloc
      next hzero =>
        simp only [Option.bind_eq_some_iff, Prod.exists] at halloc
        obtain ⟨fs₁, blockNo, hblock, inode₁, hset, hrest⟩ := halloc
        rw [Inode.setSectorAt, dif_pos hi, Option.some.injEq] at hset
        subst hset
        have hlayout₁ : fs₁.Layout := by
          obtain ⟨-, -, rfl⟩ := allocateBlock_spec hblock
          exact hlayout.congr rfl rfl
        exact ih hlayout₁ hrest (howned.allocate hlayout hblock ⟨i, hi⟩)
      next => exact ih hlayout halloc howned

/-- How many of the sectors are missing. -/
def missing (inode : Inode) (indices : List Nat) : Nat :=
  indices.countP fun i => inode.sectorAt i = some 0

/-- Enough free blocks are enough for the allocating loop. -/
theorem exists_allocateSectors {indices : List Nat} (hnodup : indices.Nodup)
    (hlt : ∀ i ∈ indices, i < 9) (hfree : missing inode indices ≤ fs.blockBmap.clearCount) :
    ∃ fs' inode', fs.allocateSectors inode indices = some (fs', inode') := by
  induction indices generalizing fs inode with
  | nil => exact ⟨fs, inode, rfl⟩
  | cons i rest ih =>
      obtain ⟨hnotMem, hnodup⟩ := List.nodup_cons.mp hnodup
      have hi : i < 9 := hlt i List.mem_cons_self
      have hrest : ∀ j ∈ rest, j < 9 := fun j hj => hlt j (List.mem_cons_of_mem i hj)
      have hat : inode.sectorAt i = some (inode.sectors ⟨i, hi⟩) := dif_pos hi
      simp only [allocateSectors, hat, Option.bind_eq_bind, Option.bind_some]
      rw [missing, List.countP_cons] at hfree
      split
      next hzero =>
        simp only [hat, hzero, decide_true, if_true] at hfree
        obtain ⟨slot, hscan⟩ := Bitmap.exists_bitmapScan_of_clearCount
          (show 0 < fs.blockBmap.clearCount by omega)
        obtain ⟨hslot, hclear⟩ := Bitmap.bitmapScan_one_spec hscan
        have hcount := Bitmap.clearCount_setBit hslot hclear
        simp only [allocateBlock, hscan, Option.map_some, Option.bind_some, Inode.setSectorAt,
          dif_pos hi]
        apply ih hnodup hrest
        -- the new sector is not one of those still to come
        have hsame : ∀ j ∈ rest, (decide ((inode.setSector ⟨i, hi⟩ (blockLba
            { fs with blockBmap := fs.blockBmap.setBit slot true } slot)).sectorAt j = some 0) =
            true ↔ decide (inode.sectorAt j = some 0) = true) := by
          intro j hj
          have hne : (⟨j, hrest j hj⟩ : Fin 9) ≠ ⟨i, hi⟩ := by
            rintro heq
            exact hnotMem (Fin.mk.inj heq ▸ hj)
          simp only [Inode.sectorAt, dif_pos (hrest j hj), Inode.setSector,
            Function.update_of_ne hne]
        rw [missing, List.countP_congr hsame]
        change List.countP _ rest ≤ (fs.blockBmap.setBit slot true).clearCount
        omega
      next hne =>
        have hno : inode.sectorAt i ≠ some 0 := by
          rw [hat]
          exact fun h => hne (Option.some.inj h)
        simp only [hno, decide_false, Bool.false_eq_true, if_false, Nat.add_zero] at hfree
        exact ih hnodup hrest hfree

/-! ### The end of a write -/

/-- The blocks that are given back: bits are cleared and sector numbers are dropped. -/
structure Released (fs : Server) (inode : Inode) (indices : List (Fin 9)) (fs' : Server)
    (inode' : Inode) : Prop where
  server : fs' = { fs with blockBmap := fs'.blockBmap }
  bytesLen : fs'.blockBmap.bytesLen = fs.blockBmap.bytesLen
  fields : inode' = { inode with sectors := inode'.sectors }
  sectors : ∀ i, inode'.sectors i = if i ∈ indices then 0 else inode.sectors i

theorem freeSurplus_spec (fs : Server) (inode : Inode) (indices : List (Fin 9)) (hasSurplus : Bool) :
    Released fs inode indices (fs.freeSurplus inode indices hasSurplus).1
      (fs.freeSurplus inode indices hasSurplus).2.1 := by
  induction indices generalizing fs inode hasSurplus with
  | nil => exact ⟨rfl, rfl, rfl, fun _ => rfl⟩
  | cons i rest ih =>
      unfold freeSurplus
      split
      next hzero =>
        obtain ⟨hserver, hlen, hfields, hsectors⟩ := ih fs inode hasSurplus
        refine ⟨hserver, hlen, hfields, fun j => ?_⟩
        rw [hsectors j]
        by_cases hij : j = i
        · simp [hij, hzero]
        · simp [hij]
      next =>
        obtain ⟨hserver, hlen, hfields, hsectors⟩ :=
          ih (fs.freeBlock (fs.blockOf (inode.sectors i))) (inode.setSector i 0) true
        refine ⟨hserver, hlen, hfields, fun j => ?_⟩
        rw [hsectors j]
        by_cases hij : j = i
        · simp [hij, Inode.setSector]
        · simp [hij, Inode.setSector]

theorem freeSurplus_owned (hlayout : fs.Layout) (howned : fs.Owned inode)
    (indices : List (Fin 9)) (hasSurplus : Bool) :
    (fs.freeSurplus inode indices hasSurplus).1.Owned
      (fs.freeSurplus inode indices hasSurplus).2.1 := by
  induction indices generalizing fs inode hasSurplus with
  | nil => exact howned
  | cons i rest ih =>
      unfold freeSurplus
      split
      next => exact ih hlayout howned hasSurplus
      next hne =>
        refine ih ?_ (howned.release hlayout i hne) true
        exact hlayout.congr rfl rfl

/-- The inode that `write_file` leaves in the descriptor. -/
def finalInode (inode : Inode) (plan : WritePlan) (mode : Byte) : Inode :=
  { inode with
    sectors := fun i => if i.val < (plan.sectorCnts + 1).toNat then inode.sectors i else 0
    size := if mode = fileAppend then (inode.size + plan.count) % 2 ^ 32 else plan.count }

theorem finalInode_sectors (inode : Inode) (plan : WritePlan) (mode : Byte) (i : Fin 9) :
    (finalInode inode plan mode).sectors i =
      if i.val < (plan.sectorCnts + 1).toNat then inode.sectors i else 0 := rfl

theorem mem_drop_finRange {n : Nat} {i : Fin 9} : i ∈ (List.finRange 9).drop n ↔ ¬ i.val < n := by
  rw [List.mem_drop_iff_getElem]
  constructor
  · rintro ⟨j, hj, rfl⟩
    simp
  · intro hle
    refine ⟨i - n, ?_, ?_⟩
    · simp only [List.length_finRange]
      omega
    · ext
      simp only [List.getElem_finRange, Fin.val_cast]
      omega

/-- What the end of `write_file` does: the inode is stored, and the block bitmap when
a bit has changed. -/
theorem finishWrite_cases (fs : Server) (fd : Nat) (file : OpenFile) (inode : Inode)
    (plan : WritePlan) (mode : Byte) :
    ∃ bmap : Bitmap, bmap.bytesLen = fs.blockBmap.bytesLen ∧
      (fs.Layout → fs.Owned inode →
        Owned { fs with blockBmap := bmap } (finalInode inode plan mode)) ∧
      (fs.finishWrite fd file inode plan mode =
          (({ fs with blockBmap := bmap } : Server).syncInode (finalInode inode plan mode)).setFile
            fd (some { file with inode := finalInode inode plan mode }) ∨
        fs.finishWrite fd file inode plan mode =
          (({ fs with blockBmap := bmap } : Server).syncInode
            (finalInode inode plan mode)).syncBlockBitmap.setFile
            fd (some { file with inode := finalInode inode plan mode })) := by
  obtain ⟨hserver, hlen, hfields, hsectors⟩ := freeSurplus_spec fs inode
    ((List.finRange 9).drop (plan.sectorCnts + 1).toNat) false
  rcases hsurplus : fs.freeSurplus inode ((List.finRange 9).drop (plan.sectorCnts + 1).toNat) false
    with ⟨fs₁, inode₁, hasSurplus⟩
  rw [hsurplus] at hserver hlen hfields hsectors
  have hfinal : ({ inode₁ with
      size := if mode = fileAppend then (inode₁.size + plan.count) % 2 ^ 32 else plan.count } :
      Inode) = finalInode inode plan mode := by
    simp only at hfields hsectors
    rw [finalInode, hfields]
    congr 1
    funext i
    simp only [hsectors i, mem_drop_finRange, ite_not]
  simp only at hserver
  refine ⟨fs₁.blockBmap, hlen, fun hlayout howned => ?_, ?_⟩
  · have hreleased := freeSurplus_owned hlayout howned
      ((List.finRange 9).drop (plan.sectorCnts + 1).toNat) false
    rw [hsurplus] at hreleased
    refine hreleased.congr ?_ rfl ?_
    · rw [hserver]
    · rw [← hfinal]
  simp only [finishWrite, hsurplus, hfinal]
  rw [← hserver]
  cases hasSurplus with
  | false => exact .inl rfl
  | true => exact .inr rfl

variable {fd count : Nat} {file : OpenFile} {plan : WritePlan} {mode : Byte}

@[simp] theorem finishWrite_sb : (fs.finishWrite fd file inode plan mode).sb = fs.sb := by
  obtain ⟨bmap, -, -, h | h⟩ := finishWrite_cases fs fd file inode plan mode <;> rw [h] <;> rfl

@[simp] theorem finishWrite_uid : (fs.finishWrite fd file inode plan mode).uid = fs.uid := by
  obtain ⟨bmap, -, -, h | h⟩ := finishWrite_cases fs fd file inode plan mode <;> rw [h] <;> rfl

@[simp] theorem finishWrite_inodeBmap :
    (fs.finishWrite fd file inode plan mode).inodeBmap = fs.inodeBmap := by
  obtain ⟨bmap, -, -, h | h⟩ := finishWrite_cases fs fd file inode plan mode <;> rw [h] <;> rfl

@[simp] theorem finishWrite_bytesLen :
    (fs.finishWrite fd file inode plan mode).blockBmap.bytesLen = fs.blockBmap.bytesLen := by
  obtain ⟨bmap, hlen, -, h | h⟩ := finishWrite_cases fs fd file inode plan mode <;> rw [h] <;> exact hlen

theorem finishWrite_owned (hlayout : fs.Layout) (howned : fs.Owned inode) :
    (fs.finishWrite fd file inode plan mode).Owned (finalInode inode plan mode) := by
  obtain ⟨bmap, -, hkept, h | h⟩ := finishWrite_cases fs fd file inode plan mode <;> rw [h] <;>
    exact (hkept hlayout howned).congr rfl rfl rfl

theorem finishWrite_fileDescTbl :
    (fs.finishWrite fd file inode plan mode).fileDescTbl =
      Function.update fs.fileDescTbl fd (some { file with inode := finalInode inode plan mode }) := by
  obtain ⟨bmap, -, -, h | h⟩ := finishWrite_cases fs fd file inode plan mode <;> rw [h] <;> rfl

/-- A sector of the block bitmap. -/
def InBlockBitmap (fs : Server) (lba : Nat) : Prop :=
  fs.sb.blockBitmapLba ≤ lba ∧ lba < fs.sb.blockBitmapLba + fs.sb.blockBitmapSectors

/-- The end of a write changes the sector of the inode and the bitmap. -/
theorem finishWrite_disk (hinode : lba ≠ fs.inodeSector inode.inodeNo)
    (hbitmap : ¬ fs.InBlockBitmap lba) :
    (fs.finishWrite fd file inode plan mode).disk lba = fs.disk lba := by
  obtain ⟨bmap, -, -, h | h⟩ := finishWrite_cases fs fd file inode plan mode
  · rw [h]
    exact syncInode_disk_of_ne hinode
  · have hsync : (({ fs with blockBmap := bmap } : Server).syncInode
        (finalInode inode plan mode)).disk lba = fs.disk lba := syncInode_disk_of_ne hinode
    rw [h, ← hsync]
    exact syncBlockBitmap_disk_of_not hbitmap

theorem IsDataSector.not_inBlockBitmap (hdata : fs.IsDataSector lba) (hlayout : fs.Layout) :
    ¬ fs.InBlockBitmap lba := by
  intro hmem
  have hle := hdata.table_le hlayout
  have hblock := hlayout.blockBitmap
  have hinode := hlayout.inodeBitmap
  simp only [InBlockBitmap] at hmem
  omega

theorem finishWrite_disk_data (hlayout : fs.Layout) (hin : fs.InTable inode.inodeNo)
    (hdata : fs.IsDataSector lba) :
    (fs.finishWrite fd file inode plan mode).disk lba = fs.disk lba :=
  finishWrite_disk (hdata.ne_inodeSector hlayout hin) (hdata.not_inBlockBitmap hlayout)

theorem finishWrite_ino2inode (hlayout : fs.Layout) (hin : fs.InTable inode.inodeNo) :
    (fs.finishWrite fd file inode plan mode).ino2inode inode.inodeNo =
      (finalInode inode plan mode).truncate := by
  obtain ⟨bmap, hlen, -, h | h⟩ := finishWrite_cases fs fd file inode plan mode
  · rw [h]
    exact ino2inode_syncInode_self _ (finalInode inode plan mode)
  · have hlayout' : (({ fs with blockBmap := bmap } : Server).syncInode
        (finalInode inode plan mode)).Layout := hlayout.congr rfl hlen
    have hin' : (({ fs with blockBmap := bmap } : Server).syncInode
        (finalInode inode plan mode)).InTable inode.inodeNo := hin
    rw [h, ← ino2inode_syncInode_self { fs with blockBmap := bmap } (finalInode inode plan mode)]
    exact ino2inode_syncBlockBitmap hlayout' hin'

/-! ### The whole write -/

theorem writeFile_closed {str : StringBuffer} (hfd : fd < 64) (hclosed : fs.fileDescTbl fd = none) :
    fs.writeFile fd str count mode = some fs := by
  simp only [writeFile, fileAt, if_pos hfd, hclosed, Option.bind_eq_bind, Option.bind_some]

theorem writeFile_denied {str : StringBuffer} (hfd : fd < 64)
    (hopen : fs.fileDescTbl fd = some file)
    (hdenied : fs.checkInodePermission file.inode accessWrite = false) :
    fs.writeFile fd str count mode = some fs := by
  simp only [writeFile, fileAt, if_pos hfd, hopen, hdenied, Option.bind_eq_bind, Option.bind_some,
    Bool.not_false, if_true]

/-- A write that is permitted is the sequence of its three parts. -/
theorem writeFile_eq_some_iff {str : StringBuffer} (hfd : fd < 64)
    (hopen : fs.fileDescTbl fd = some file)
    (hwrite : fs.checkInodePermission file.inode accessWrite = true) :
    fs.writeFile fd str count mode = some fs' ↔
      let plan := writePlan file.inode.size str.strlen count mode
      ∃ fs₁ inode₁ fs₂,
        fs.allocateSectors file.inode (indices plan.startSector (plan.sectorCnts + 1)) =
          some (fs₁, inode₁) ∧
        (fs₁.syncInode inode₁).syncBlockBitmap.writeData inode₁ str.bytes plan = some fs₂ ∧
        0 ≤ plan.sectorCnts + 1 ∧ fs' = fs₂.finishWrite fd file inode₁ plan mode := by
  simp only [writeFile, fileAt, if_pos hfd, hopen, hwrite, Option.bind_eq_bind, Option.bind_some,
    Bool.not_true, Bool.false_eq_true, if_false, Option.bind_eq_some_iff, Prod.exists,
    Option.ite_none_left_eq_some, Option.some.injEq, not_lt]
  constructor
  · rintro ⟨fs₁, inode₁, halloc, fs₂, hdata, hcnts, hresult⟩
    exact ⟨fs₁, inode₁, fs₂, halloc, hdata, hcnts, hresult.symm⟩
  · rintro ⟨fs₁, inode₁, fs₂, halloc, hdata, hcnts, hresult⟩
    exact ⟨fs₁, inode₁, halloc, fs₂, hdata, hcnts, hresult.symm⟩

/-- Where the text stays in the sector it starts in, only this sector is written. -/
theorem writeData_first {str : ByteArea} (hat : inode.sectorAt plan.startSector = some lba)
    (hcount : plan.count ≤ sectorSize - plan.startPos) (hcnts : plan.sectorCnts ≤ 1) :
    fs.writeData inode str plan =
      some (fs.writeDisk lba ((fs.disk lba).copyIn plan.startPos str 0 plan.count)) := by
  have hnone : (plan.sectorCnts - 1).toNat - (plan.startSector + 1) = 0 := by omega
  simp only [writeData, if_neg (Nat.not_lt.mpr hcount), hat, indices, hnone, List.range'_zero,
    writeWhole, Option.bind_eq_bind, Option.bind_some, gt_iff_lt]

/-- The effect of a write that stays in one sector, with the inode it has worked on. -/
structure WroteFirst (fs : Server) (fd : Nat) (file : OpenFile) (str : ByteArea) (plan : WritePlan)
    (mode : Byte) (inode : Inode) (lba : Nat) (fs' : Server) : Prop where
  sb : fs'.sb = fs.sb
  uid : fs'.uid = fs.uid
  inodeBmap : fs'.inodeBmap = fs.inodeBmap
  bytesLen : fs'.blockBmap.bytesLen = fs.blockBmap.bytesLen
  fileDescTbl : fs'.fileDescTbl =
    Function.update fs.fileDescTbl fd (some { file with inode := finalInode inode plan mode })
  owned : fs'.Owned (finalInode inode plan mode)
  content : fs.IsDataSector lba →
    fs'.disk lba = (fs.disk lba).copyIn plan.startPos str 0 plan.count
  frame : ∀ other, fs.IsDataSector other → other ≠ lba → fs'.disk other = fs.disk other
  inode : fs'.ino2inode file.inode.inodeNo = (finalInode inode plan mode).truncate
  inodes : ∀ ino, fs.InTable ino → ino ≠ file.inode.inodeNo → fs'.ino2inode ino = fs.ino2inode ino

/-- Storing the inode after the allocation changes no data sector. -/
theorem Allocated.synced_disk {fs₁ : Server} {inode₁ : Inode} {other : Nat}
    (hallocated : Allocated fs inode fs₁ inode₁) (hlayout : fs.Layout)
    (hin : fs.InTable inode.inodeNo) (hother : fs.IsDataSector other) :
    (fs₁.syncInode inode₁).syncBlockBitmap.disk other = fs.disk other := by
  have hlayout₁ := hallocated.layout hlayout
  have hin₁ : fs₁.InTable inode₁.inodeNo := by
    rw [hallocated.inodeNo]
    exact hin.congr hallocated.sb
  have hother₁ : fs₁.IsDataSector other := hother.congr hallocated.sb
  have hlayout₂ : (fs₁.syncInode inode₁).Layout := hlayout₁.congr rfl rfl
  rw [syncBlockBitmap_disk hlayout₂ (hother₁.table_le hlayout₁),
    syncInode_disk_of_ne (hother₁.ne_inodeSector hlayout₁ hin₁), hallocated.disk]

theorem Allocated.synced_ino2inode {fs₁ : Server} {inode₁ : Inode} {ino : Nat}
    (hallocated : Allocated fs inode fs₁ inode₁) (hlayout : fs.Layout)
    (hin : fs.InTable inode.inodeNo) (hino : fs.InTable ino) (hne : ino ≠ inode.inodeNo) :
    (fs₁.syncInode inode₁).syncBlockBitmap.ino2inode ino = fs.ino2inode ino := by
  have hlayout₁ := hallocated.layout hlayout
  have hin₁ : fs₁.InTable inode₁.inodeNo := by
    rw [hallocated.inodeNo]
    exact hin.congr hallocated.sb
  have hino₁ : fs₁.InTable ino := hino.congr hallocated.sb
  have hlayout₂ : (fs₁.syncInode inode₁).Layout := hlayout₁.congr rfl rfl
  have hino₂ : (fs₁.syncInode inode₁).InTable ino := hino₁
  rw [ino2inode_syncBlockBitmap hlayout₂ hino₂,
    ino2inode_syncInode_of_ne hlayout₁ hin₁ hino₁ (by rwa [hallocated.inodeNo])]
  exact ino2inode_congr hallocated.sb (by rw [hallocated.disk])

/-- The end of a write leaves the other inodes alone. -/
theorem finishWrite_ino2inode_of_ne {ino : Nat} (hlayout : fs.Layout)
    (hin : fs.InTable inode.inodeNo) (hino : fs.InTable ino) (hne : ino ≠ inode.inodeNo) :
    (fs.finishWrite fd file inode plan mode).ino2inode ino = fs.ino2inode ino := by
  obtain ⟨bmap, hlen, -, h | h⟩ := finishWrite_cases fs fd file inode plan mode
  all_goals
    have hlayout₁ : ({ fs with blockBmap := bmap } : Server).Layout := hlayout.congr rfl hlen
    have hsync : (({ fs with blockBmap := bmap } : Server).syncInode
        (finalInode inode plan mode)).ino2inode ino = fs.ino2inode ino :=
      ino2inode_syncInode_of_ne hlayout₁ hin hino hne
  · rw [h]
    exact hsync
  · have hlayout₂ : (({ fs with blockBmap := bmap } : Server).syncInode
        (finalInode inode plan mode)).Layout := hlayout₁.congr rfl rfl
    rw [h, ← hsync]
    exact ino2inode_syncBlockBitmap hlayout₂ hino

/-- After the allocation, writing to a data sector and the end of the write. -/
theorem Allocated.wroteFirst {fs₁ : Server} {inode₁ : Inode} {str : ByteArea}
    (hallocated : Allocated fs file.inode fs₁ inode₁) (hlayout : fs.Layout)
    (hin : fs.InTable file.inode.inodeNo) (howned : fs₁.Owned inode₁)
    (hlba : lba = 0 ∨ fs.IsDataSector lba) :
    WroteFirst fs fd file str plan mode inode₁ lba
      (((fs₁.syncInode inode₁).syncBlockBitmap.writeDisk lba
        (((fs₁.syncInode inode₁).syncBlockBitmap.disk lba).copyIn plan.startPos str 0
          plan.count)).finishWrite fd file inode₁ plan mode) := by
  have hsb := hallocated.sb
  have hino := hallocated.inodeNo
  have hsynced : ∀ other, fs.IsDataSector other →
      (fs₁.syncInode inode₁).syncBlockBitmap.disk other = fs.disk other :=
    fun other hother => hallocated.synced_disk hlayout hin hother
  have hinodes : ∀ ino, fs.InTable ino → ino ≠ file.inode.inodeNo →
      (fs₁.syncInode inode₁).syncBlockBitmap.ino2inode ino = fs.ino2inode ino :=
    fun ino hinoTable hne => hallocated.synced_ino2inode hlayout hin hinoTable hne
  generalize hmid : (fs₁.syncInode inode₁).syncBlockBitmap = mid at hsynced hinodes
  have hmidSb : mid.sb = fs.sb := by
    rw [← hsb, ← hmid]
    rfl
  have hmidLen : mid.blockBmap.bytesLen = fs.blockBmap.bytesLen := by
    rw [← hallocated.bytesLen, ← hmid]
    rfl
  generalize hdone : mid.writeDisk lba ((mid.disk lba).copyIn plan.startPos str 0 plan.count) = done
  have hdoneSb : done.sb = fs.sb := by
    rw [← hmidSb, ← hdone]
    rfl
  have hdoneLayout : done.Layout := by
    apply hlayout.congr hdoneSb
    rw [← hmidLen, ← hdone]
    rfl
  have hdoneIn : done.InTable inode₁.inodeNo := by
    rw [hino]
    exact hin.congr hdoneSb
  constructor
  case sb => rw [finishWrite_sb, hdoneSb]
  case uid =>
    rw [finishWrite_uid, ← hallocated.uid, ← hdone, ← hmid]
    rfl
  case inodeBmap =>
    rw [finishWrite_inodeBmap, ← hallocated.inodeBmap, ← hdone, ← hmid]
    rfl
  case bytesLen =>
    rw [finishWrite_bytesLen, ← hmidLen, ← hdone]
    rfl
  case fileDescTbl =>
    rw [finishWrite_fileDescTbl, ← hallocated.fileDescTbl, ← hdone, ← hmid]
    rfl
  case owned =>
    refine finishWrite_owned hdoneLayout (howned.congr (hdoneSb.trans hsb.symm) ?_ rfl)
    rw [← hdone, ← hmid]
    rfl
  case content =>
    intro hdata
    rw [finishWrite_disk_data hdoneLayout hdoneIn (hdata.congr hdoneSb), ← hdone,
      writeDisk_disk_self, hsynced lba hdata]
  case frame =>
    intro other hother hne
    rw [finishWrite_disk_data hdoneLayout hdoneIn (hother.congr hdoneSb), ← hdone,
      writeDisk_disk_of_ne hne, hsynced other hother]
  case inode =>
    rw [← hino]
    exact finishWrite_ino2inode hdoneLayout hdoneIn
  case inodes =>
    intro ino hinoTable hne
    have hdoneIno : done.InTable ino := hinoTable.congr hdoneSb
    rw [finishWrite_ino2inode_of_ne hdoneLayout hdoneIn hdoneIno (by rwa [hino]),
      ← hinodes ino hinoTable hne]
    have hsector : lba ≠ done.inodeSector ino := by
      rcases hlba with rfl | hdata
      · exact (inodeSector_ne_zero hdoneLayout hdoneIno).symm
      · exact (hdata.congr hdoneSb).ne_inodeSector hdoneLayout hdoneIno
    have hsame : mid.inodeSector ino = done.inodeSector ino := by
      rw [inodeSector, inodeSector, hmidSb, hdoneSb]
    apply ino2inode_congr (hdoneSb.trans hmidSb.symm)
    rw [hsame, ← hdone]
    exact writeDisk_disk_of_ne (by rw [hdone]; exact hsector.symm)

/-- A permitted write that stays in one sector succeeds when there are blocks for the
sectors it asks for. -/
theorem exists_writeFile_first {str : StringBuffer} (hlayout : fs.Layout) (hfd : fd < 64)
    (hopen : fs.fileDescTbl fd = some file)
    (hwrite : fs.checkInodePermission file.inode accessWrite = true)
    (hin : fs.InTable file.inode.inodeNo) (howned : fs.Owned file.inode)
    (hplan : writePlan file.inode.size str.strlen count mode = plan)
    (hcount : plan.count ≤ sectorSize - plan.startPos) (hlow : 0 ≤ plan.sectorCnts)
    (hhigh : plan.sectorCnts ≤ 1) (hstart : plan.startSector < 9)
    (hfree : missing file.inode (indices plan.startSector (plan.sectorCnts + 1)) ≤
      fs.blockBmap.clearCount) :
    ∃ fs₁ inode₁ fs',
      fs.allocateSectors file.inode (indices plan.startSector (plan.sectorCnts + 1)) =
        some (fs₁, inode₁) ∧
      fs.writeFile fd str count mode = some fs' ∧
      WroteFirst fs fd file str.bytes plan mode inode₁ (inode₁.sectors ⟨plan.startSector, hstart⟩)
        fs' := by
  have hindices : ∀ i ∈ indices plan.startSector (plan.sectorCnts + 1), i < 9 := by
    intro i hi
    simp only [indices, List.mem_range'_1] at hi
    omega
  obtain ⟨fs₁, inode₁, halloc⟩ := exists_allocateSectors List.nodup_range' hindices hfree
  have hallocated := allocateSectors_spec halloc
  have hlba : inode₁.sectors ⟨plan.startSector, hstart⟩ = 0 ∨
      fs.IsDataSector (inode₁.sectors ⟨plan.startSector, hstart⟩) :=
    or_iff_not_imp_left.mpr (hallocated.isDataSector hlayout fun hne =>
      (howned.occupied _ hne).isDataSector)
  refine ⟨fs₁, inode₁, _, halloc, ?_, hallocated.wroteFirst hlayout hin
    (allocateSectors_owned hlayout halloc howned) hlba⟩
  rw [writeFile_eq_some_iff hfd hopen hwrite, hplan]
  exact ⟨fs₁, inode₁, _, halloc, writeData_first (dif_pos hstart) hcount hhigh, by omega, rfl⟩

variable {fs₁ : Server} {inode₁ : Inode} {bytes : ByteArea} {hstart : plan.startSector < 9}

/-- An older byte lies in another sector, or before the place where the text starts. -/
theorem WroteFirst.old_byte {i : Fin 9} {pos : Nat}
    (hwrote : WroteFirst fs fd file bytes plan mode inode₁
      (inode₁.sectors ⟨plan.startSector, hstart⟩) fs')
    (howned : fs.Owned file.inode) (howned₁ : fs₁.Owned inode₁)
    (hkept : inode₁.sectors i = file.inode.sectors i) (hne : file.inode.sectors i ≠ 0)
    (hbefore : i = ⟨plan.startSector, hstart⟩ → pos < plan.startPos) :
    fs'.disk (inode₁.sectors i) pos = fs.disk (file.inode.sectors i) pos := by
  have hdata := (howned.occupied i hne).isDataSector
  rw [← hkept] at hdata hne ⊢
  by_cases heq : i = ⟨plan.startSector, hstart⟩
  · have hpos := hbefore heq
    rw [heq] at hdata ⊢
    rw [hwrote.content hdata]
    exact ByteArea.copyIn_of_not (by omega)
  · rw [hwrote.frame _ hdata]
    intro hlba
    exact heq (howned₁.injective _ _ hne hlba)

/-- The text lies in the sector where the write starts. -/
theorem WroteFirst.new_byte {j : Nat}
    (hwrote : WroteFirst fs fd file bytes plan mode inode₁ lba fs') (hdata : fs.IsDataSector lba)
    (hj : j < plan.count) : fs'.disk lba (plan.startPos + j) = bytes j := by
  rw [hwrote.content hdata, ByteArea.copyIn_at (Nat.le_add_right _ _) (by omega)]
  congr 1
  omega

end Server

end Shmily.Fs
