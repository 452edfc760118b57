import Shmily.Fs.File

/-! # The regions of the partition

The bitmaps, the inode table and the data blocks follow each other on the disk.
Inside the table a stored inode changes no other one, and neither the table nor
the bitmaps reach into the data blocks. Allocation takes a block or an inode
number whose bit is clear, and leaves everything else alone.
-/

namespace Shmily.Fs

open Foundation Lib

namespace Server

/-- The regions in the order in which `partition_install_fs` lays them out; every
block of the bitmap has a sector number. -/
structure Layout (fs : Server) : Prop where
  bitmapLba : 0 < fs.sb.blockBitmapLba
  blockBitmap : fs.sb.blockBitmapLba + fs.sb.blockBitmapSectors ≤ fs.sb.inodeBitmapLba
  inodeBitmap : fs.sb.inodeBitmapLba + fs.sb.inodeBitmapSectors ≤ fs.sb.inodeTableLba
  inodeTable : fs.sb.inodeTableLba + fs.sb.inodeTableSectors ≤ fs.sb.dataStart
  data : fs.sb.dataStart + fs.blockBmap.bytesLen * 8 ≤ 2 ^ 32
  root : fs.sb.rootInodeNo = 0

/-- The inode table has a place for the inode. -/
def InTable (fs : Server) (ino : Nat) : Prop := ino < fs.sb.inodeTableSectors * 8

instance (fs : Server) (ino : Nat) : Decidable (fs.InTable ino) :=
  inferInstanceAs (Decidable (_ < _))

/-- A sector behind the inode table. -/
def IsDataSector (fs : Server) (lba : Nat) : Prop := fs.sb.dataStart ≤ lba

instance (fs : Server) (lba : Nat) : Decidable (fs.IsDataSector lba) :=
  inferInstanceAs (Decidable (_ ≤ _))

/-- The sector of a block of the bitmap whose bit is set. -/
def Occupied (fs : Server) (lba : Nat) : Prop :=
  fs.sb.dataStart ≤ lba ∧ lba < fs.sb.dataStart + fs.blockBmap.bytesLen * 8 ∧
    fs.blockBmap.verifyBit (lba - fs.sb.dataStart) = true

instance (fs : Server) (lba : Nat) : Decidable (fs.Occupied lba) :=
  inferInstanceAs (Decidable (_ ∧ _ ∧ _))

/-- The sectors of an inode are different blocks in use. -/
structure Owned (fs : Server) (inode : Inode) : Prop where
  occupied : ∀ i, inode.sectors i ≠ 0 → fs.Occupied (inode.sectors i)
  injective : ∀ i j, inode.sectors i ≠ 0 → inode.sectors i = inode.sectors j → i = j

variable {fs fs' : Server} {ino other lba blockNo : Nat} {inode : Inode}

theorem Layout.congr (hlayout : fs.Layout) (hsb : fs'.sb = fs.sb)
    (hlen : fs'.blockBmap.bytesLen = fs.blockBmap.bytesLen) : fs'.Layout := by
  obtain ⟨hbitmapLba, hblock, hinode, htable, hdata, hroot⟩ := hlayout
  constructor <;> rw [hsb] <;> try assumption
  rwa [hlen]

theorem InTable.congr (hin : fs.InTable ino) (hsb : fs'.sb = fs.sb) : fs'.InTable ino := by
  rwa [InTable, hsb]

theorem IsDataSector.congr (hdata : fs.IsDataSector lba) (hsb : fs'.sb = fs.sb) :
    fs'.IsDataSector lba := by
  rwa [IsDataSector, hsb]

theorem inodeSector_eq (hlayout : fs.Layout) (hin : fs.InTable ino) :
    fs.inodeSector ino = fs.sb.inodeTableLba + ino / 8 := by
  have htable := hlayout.inodeTable
  have hdata := hlayout.data
  simp only [InTable] at hin
  simp only [inodeSector, sectorSize, Inode.bytes]
  rw [Nat.mod_eq_of_lt (by omega)]

theorem inodeSector_mem (hlayout : fs.Layout) (hin : fs.InTable ino) :
    fs.sb.inodeTableLba ≤ fs.inodeSector ino ∧ fs.inodeSector ino < fs.sb.dataStart := by
  have htable := hlayout.inodeTable
  rw [inodeSector_eq hlayout hin]
  simp only [InTable] at hin
  omega

theorem inodeSector_ne_zero (hlayout : fs.Layout) (hin : fs.InTable ino) : fs.inodeSector ino ≠ 0 := by
  have hbitmapLba := hlayout.bitmapLba
  have hblock := hlayout.blockBitmap
  have hinode := hlayout.inodeBitmap
  have hmem := inodeSector_mem hlayout hin
  omega

/-- Data sectors are not in the inode table. -/
theorem IsDataSector.ne_inodeSector (hdata : fs.IsDataSector lba) (hlayout : fs.Layout)
    (hin : fs.InTable ino) : lba ≠ fs.inodeSector ino := by
  have hmem := inodeSector_mem hlayout hin
  simp only [IsDataSector] at hdata
  omega

theorem IsDataSector.ne_zero (hdata : fs.IsDataSector lba) (hlayout : fs.Layout) : lba ≠ 0 := by
  have hbitmapLba := hlayout.bitmapLba
  have hblock := hlayout.blockBitmap
  have hinode := hlayout.inodeBitmap
  have htable := hlayout.inodeTable
  simp only [IsDataSector] at hdata
  omega

/-! ### Writing to the disk -/

@[simp] theorem syncInode_sb (fs : Server) (inode : Inode) : (fs.syncInode inode).sb = fs.sb := rfl
@[simp] theorem syncInode_blockBmap (fs : Server) (inode : Inode) :
    (fs.syncInode inode).blockBmap = fs.blockBmap := rfl
@[simp] theorem syncInode_inodeBmap (fs : Server) (inode : Inode) :
    (fs.syncInode inode).inodeBmap = fs.inodeBmap := rfl
@[simp] theorem syncInode_fileDescTbl (fs : Server) (inode : Inode) :
    (fs.syncInode inode).fileDescTbl = fs.fileDescTbl := rfl
@[simp] theorem syncInode_uid (fs : Server) (inode : Inode) : (fs.syncInode inode).uid = fs.uid := rfl

@[simp] theorem syncBlockBitmap_sb (fs : Server) : fs.syncBlockBitmap.sb = fs.sb := rfl
@[simp] theorem syncBlockBitmap_blockBmap (fs : Server) :
    fs.syncBlockBitmap.blockBmap = fs.blockBmap := rfl
@[simp] theorem syncBlockBitmap_inodeBmap (fs : Server) :
    fs.syncBlockBitmap.inodeBmap = fs.inodeBmap := rfl
@[simp] theorem syncBlockBitmap_fileDescTbl (fs : Server) :
    fs.syncBlockBitmap.fileDescTbl = fs.fileDescTbl := rfl
@[simp] theorem syncBlockBitmap_uid (fs : Server) : fs.syncBlockBitmap.uid = fs.uid := rfl

@[simp] theorem syncInodeBitmap_sb (fs : Server) : fs.syncInodeBitmap.sb = fs.sb := rfl
@[simp] theorem syncInodeBitmap_blockBmap (fs : Server) :
    fs.syncInodeBitmap.blockBmap = fs.blockBmap := rfl
@[simp] theorem syncInodeBitmap_inodeBmap (fs : Server) :
    fs.syncInodeBitmap.inodeBmap = fs.inodeBmap := rfl
@[simp] theorem syncInodeBitmap_uid (fs : Server) : fs.syncInodeBitmap.uid = fs.uid := rfl

theorem writeDisk_disk_self (fs : Server) (lba : Nat) (buf : ByteArea) :
    (fs.writeDisk lba buf).disk lba = buf := Function.update_self ..

theorem writeDisk_disk_of_ne {buf : ByteArea} (hne : other ≠ lba) :
    (fs.writeDisk lba buf).disk other = fs.disk other := Function.update_of_ne hne ..

theorem syncInode_disk_of_ne (hne : lba ≠ fs.inodeSector inode.inodeNo) :
    (fs.syncInode inode).disk lba = fs.disk lba := Function.update_of_ne hne ..

theorem syncBlockBitmap_disk_of_not
    (hout : ¬ (fs.sb.blockBitmapLba ≤ lba ∧ lba < fs.sb.blockBitmapLba + fs.sb.blockBitmapSectors)) :
    fs.syncBlockBitmap.disk lba = fs.disk lba := if_neg hout

theorem syncInodeBitmap_disk_of_not
    (hout : ¬ (fs.sb.inodeBitmapLba ≤ lba ∧ lba < fs.sb.inodeBitmapLba + fs.sb.inodeBitmapSectors)) :
    fs.syncInodeBitmap.disk lba = fs.disk lba := if_neg hout

/-- The block bitmap lies before the inode table. -/
theorem syncBlockBitmap_disk (hlayout : fs.Layout) (hle : fs.sb.inodeTableLba ≤ lba) :
    fs.syncBlockBitmap.disk lba = fs.disk lba := by
  have hblock := hlayout.blockBitmap
  have hinode := hlayout.inodeBitmap
  exact syncBlockBitmap_disk_of_not (by omega)

/-- The inode bitmap lies before the inode table. -/
theorem syncInodeBitmap_disk (hlayout : fs.Layout) (hle : fs.sb.inodeTableLba ≤ lba) :
    fs.syncInodeBitmap.disk lba = fs.disk lba := by
  have hinode := hlayout.inodeBitmap
  exact syncInodeBitmap_disk_of_not (by omega)

theorem IsDataSector.table_le (hdata : fs.IsDataSector lba) (hlayout : fs.Layout) :
    fs.sb.inodeTableLba ≤ lba := by
  have htable := hlayout.inodeTable
  simp only [IsDataSector] at hdata
  omega

/-- An inode only depends on its sector. -/
theorem ino2inode_congr (hsb : fs'.sb = fs.sb)
    (hdisk : fs'.disk (fs.inodeSector ino) = fs.disk (fs.inodeSector ino)) :
    fs'.ino2inode ino = fs.ino2inode ino := by
  have hsector : fs'.inodeSector ino = fs.inodeSector ino := by rw [inodeSector, hsb, inodeSector]
  rw [ino2inode, ino2inode, hsector, hdisk]

/-- A stored inode is loaded again, up to truncation of its fields. -/
theorem ino2inode_syncInode_self (fs : Server) (inode : Inode) :
    (fs.syncInode inode).ino2inode inode.inodeNo = inode.truncate := by
  have hdisk : (fs.syncInode inode).disk (fs.inodeSector inode.inodeNo) =
      Inode.store (fs.disk (fs.inodeSector inode.inodeNo)) (inodeOffset inode.inodeNo) inode :=
    Function.update_self ..
  change Inode.load ((fs.syncInode inode).disk (fs.inodeSector inode.inodeNo)) _ = _
  rw [hdisk, Inode.load_store]

/-- Storing an inode leaves the other ones of the table alone. -/
theorem ino2inode_syncInode_of_ne (hlayout : fs.Layout) (hin : fs.InTable inode.inodeNo)
    (hother : fs.InTable other) (hne : other ≠ inode.inodeNo) :
    (fs.syncInode inode).ino2inode other = fs.ino2inode other := by
  by_cases hsector : fs.inodeSector other = fs.inodeSector inode.inodeNo
  · have hdisk : (fs.syncInode inode).disk (fs.inodeSector other) =
        Inode.store (fs.disk (fs.inodeSector other)) (inodeOffset inode.inodeNo) inode := by
      rw [hsector]
      exact Function.update_self ..
    -- two places of one sector do not overlap
    have hdiv : other / 8 = inode.inodeNo / 8 := by
      rw [inodeSector_eq hlayout hin, inodeSector_eq hlayout hother] at hsector
      omega
    change Inode.load ((fs.syncInode inode).disk (fs.inodeSector other)) _ = _
    rw [hdisk]
    refine Inode.load_congr fun k hlow hhigh => Inode.store_of_not ?_
    simp only [inodeOffset, sectorSize, Inode.bytes] at hlow hhigh ⊢
    omega
  · exact ino2inode_congr rfl (syncInode_disk_of_ne hsector)

theorem ino2inode_syncBlockBitmap (hlayout : fs.Layout) (hin : fs.InTable ino) :
    fs.syncBlockBitmap.ino2inode ino = fs.ino2inode ino :=
  ino2inode_congr rfl (syncBlockBitmap_disk hlayout (inodeSector_mem hlayout hin).1)

theorem ino2inode_syncInodeBitmap (hlayout : fs.Layout) (hin : fs.InTable ino) :
    fs.syncInodeBitmap.ino2inode ino = fs.ino2inode ino :=
  ino2inode_congr rfl (syncInodeBitmap_disk hlayout (inodeSector_mem hlayout hin).1)

/-! ### Allocation -/

/-- The loaded fields fit into their widths. -/
theorem ino2inode_truncate (fs : Server) (ino : Nat) :
    (fs.ino2inode ino).truncate = fs.ino2inode ino := by
  have hget : ∀ (area : ByteArea) (width offset : Nat),
      area.getLE width offset % 256 ^ width = area.getLE width offset := fun area width offset =>
    Nat.mod_eq_of_lt (area.getLE_lt width offset)
  ext <;> exact hget ..

/-- A block was found: its bit was clear and is set now. -/
theorem allocateBlock_spec (halloc : fs.allocateBlock = some (fs', blockNo)) :
    blockNo < fs.blockBmap.bytesLen * 8 ∧ fs.blockBmap.verifyBit blockNo = false ∧
      fs' = { fs with blockBmap := fs.blockBmap.setBit blockNo true } := by
  obtain ⟨slot, hscan, hresult⟩ := Option.map_eq_some_iff.mp halloc
  cases hresult
  exact ⟨(Bitmap.bitmapScan_one_spec hscan).1, (Bitmap.bitmapScan_one_spec hscan).2, rfl⟩

/-- An inode number was found: its bit was clear and is set now. -/
theorem createInode_spec (hcreate : fs.createInode = some (fs', inode)) :
    fs.inodeBmap.bitmapScan 1 = some inode.inodeNo ∧
      fs.inodeBmap.verifyBit inode.inodeNo = false ∧
      fs' = { fs with inodeBmap := fs.inodeBmap.setBit inode.inodeNo true } ∧
      inode.sectors = fun _ => 0 := by
  obtain ⟨⟨fs₁, slot⟩, halloc, hresult⟩ := Option.map_eq_some_iff.mp hcreate
  obtain ⟨slot', hscan, hslot⟩ := Option.map_eq_some_iff.mp halloc
  cases hslot
  cases hresult
  exact ⟨hscan, (Bitmap.bitmapScan_one_spec hscan).2, rfl, rfl⟩

theorem blockLba_eq (hlayout : fs.Layout) (hlt : blockNo < fs.blockBmap.bytesLen * 8) :
    fs.blockLba blockNo = fs.sb.dataStart + blockNo := by
  have hdata := hlayout.data
  rw [blockLba, Nat.mod_eq_of_lt (by omega)]

theorem isDataSector_blockLba (hlayout : fs.Layout) (hlt : blockNo < fs.blockBmap.bytesLen * 8) :
    fs.IsDataSector (fs.blockLba blockNo) := by
  rw [blockLba_eq hlayout hlt, IsDataSector]
  omega

/-- A block with a clear bit is not one in use. -/
theorem blockLba_ne (hlayout : fs.Layout) (hlt : blockNo < fs.blockBmap.bytesLen * 8)
    (hclear : fs.blockBmap.verifyBit blockNo = false) (hoccupied : fs.Occupied lba) :
    fs.blockLba blockNo ≠ lba := by
  rintro rfl
  obtain ⟨-, -, hset⟩ := hoccupied
  rw [blockLba_eq hlayout hlt, Nat.add_sub_cancel_left, hclear] at hset
  cases hset

theorem Occupied.isDataSector (hoccupied : fs.Occupied lba) : fs.IsDataSector lba := hoccupied.1

/-- Sectors stay in use where no bit is cleared. -/
theorem Occupied.mono (hoccupied : fs.Occupied lba) (hsb : fs'.sb = fs.sb)
    (hlen : fs'.blockBmap.bytesLen = fs.blockBmap.bytesLen)
    (hbits : ∀ bit, fs.blockBmap.verifyBit bit = true → fs'.blockBmap.verifyBit bit = true) :
    fs'.Occupied lba := by
  obtain ⟨hlow, hhigh, hset⟩ := hoccupied
  rw [Occupied, hsb, hlen]
  exact ⟨hlow, hhigh, hbits _ hset⟩

theorem Occupied.congr (hoccupied : fs.Occupied lba) (hsb : fs'.sb = fs.sb)
    (hbmap : fs'.blockBmap = fs.blockBmap) : fs'.Occupied lba :=
  hoccupied.mono hsb (by rw [hbmap]) fun _ hset => by rw [hbmap, hset]

/-- The block number of a sector of the data region. -/
theorem blockOf_eq (hlayout : fs.Layout) (hlow : fs.sb.dataStart ≤ lba)
    (hhigh : lba < fs.sb.dataStart + fs.blockBmap.bytesLen * 8) :
    fs.blockOf lba = lba - fs.sb.dataStart := by
  have hdata := hlayout.data
  rw [Server.blockOf, Nat.add_comm, Nat.add_sub_assoc hlow, Nat.add_mod_left, Nat.mod_eq_of_lt]
  omega

/-- The block number of a sector in use. -/
theorem Occupied.blockOf (hoccupied : fs.Occupied lba) (hlayout : fs.Layout) :
    fs.blockOf lba = lba - fs.sb.dataStart :=
  blockOf_eq hlayout hoccupied.1 hoccupied.2.1

theorem setBit_mono {bmap : Bitmap} {idx bit : Nat} (hset : bmap.verifyBit bit = true) :
    (bmap.setBit idx true).verifyBit bit = true := by
  rw [Bitmap.verifyBit_setBit, hset, ite_self]

/-- The new block is in use. -/
theorem occupied_blockLba (hlayout : fs.Layout) (halloc : fs.allocateBlock = some (fs', blockNo)) :
    fs'.Occupied (fs'.blockLba blockNo) := by
  obtain ⟨hlt, -, rfl⟩ := allocateBlock_spec halloc
  change Occupied _ (fs.blockLba blockNo)
  rw [blockLba_eq hlayout hlt]
  refine ⟨Nat.le_add_right _ _, Nat.add_lt_add_left hlt _, ?_⟩
  change (fs.blockBmap.setBit blockNo true).verifyBit (fs.sb.dataStart + blockNo - fs.sb.dataStart) = _
  rw [Nat.add_sub_cancel_left, Bitmap.verifyBit_setBit, if_pos rfl]

theorem Owned.congr {inode' : Inode} (howned : fs.Owned inode) (hsb : fs'.sb = fs.sb)
    (hbmap : fs'.blockBmap = fs.blockBmap) (hsectors : inode'.sectors = inode.sectors) :
    fs'.Owned inode' := by
  obtain ⟨hoccupied, hinjective⟩ := howned
  constructor
  · simpa only [Occupied, hsb, hbmap, hsectors] using hoccupied
  · simpa only [hsectors] using hinjective

/-- An inode still owns its sectors after it got another block. -/
theorem Owned.allocate (howned : fs.Owned inode) (hlayout : fs.Layout)
    (halloc : fs.allocateBlock = some (fs', blockNo)) (i : Fin 9) :
    fs'.Owned (inode.setSector i (fs'.blockLba blockNo)) := by
  have hnew := occupied_blockLba hlayout halloc
  obtain ⟨hlt, hclear, rfl⟩ := allocateBlock_spec halloc
  have hkept : ∀ {lba}, fs.Occupied lba →
      Occupied { fs with blockBmap := fs.blockBmap.setBit blockNo true } lba :=
    fun h => h.mono rfl rfl fun _ => setBit_mono
  have hfresh : ∀ j, inode.sectors j ≠ 0 → inode.sectors j ≠ fs.blockLba blockNo :=
    fun j hne => (blockLba_ne hlayout hlt hclear (howned.occupied j hne)).symm
  constructor
  · intro j hne
    by_cases hij : j = i
    · subst j
      simpa only [Inode.setSector, Function.update_self] using hnew
    · simp only [Inode.setSector, Function.update_of_ne hij] at hne ⊢
      exact hkept (howned.occupied j hne)
  · intro j k hne heq
    by_cases hij : j = i <;> by_cases hik : k = i
    · rw [hij, hik]
    · simp only [Inode.setSector, hij, Function.update_self, Function.update_of_ne hik] at hne heq
      exact absurd heq.symm (hfresh k (heq ▸ hne))
    · simp only [Inode.setSector, hik, Function.update_self, Function.update_of_ne hij] at hne heq
      exact absurd heq (hfresh j hne)
    · simp only [Inode.setSector, Function.update_of_ne hij, Function.update_of_ne hik] at hne heq
      exact howned.injective j k hne heq

/-- An inode still owns its other sectors after one was given back. -/
theorem Owned.release (howned : fs.Owned inode) (hlayout : fs.Layout) (i : Fin 9)
    (hne : inode.sectors i ≠ 0) :
    (fs.freeBlock (fs.blockOf (inode.sectors i))).Owned (inode.setSector i 0) := by
  have hblock := (howned.occupied i hne).blockOf hlayout
  constructor
  · intro j hj
    by_cases hij : j = i
    · simp only [Inode.setSector, hij, Function.update_self, ne_eq, not_true_eq_false] at hj
    · simp only [Inode.setSector, Function.update_of_ne hij] at hj ⊢
      obtain ⟨hlow, hhigh, hset⟩ := howned.occupied j hj
      refine ⟨hlow, hhigh, ?_⟩
      have hother : inode.sectors i - fs.sb.dataStart ≠ inode.sectors j - fs.sb.dataStart := by
        have hlow' := (howned.occupied i hne).1
        have hdiff : inode.sectors i ≠ inode.sectors j := fun heq =>
          hij (howned.injective i j hne heq).symm
        omega
      rw [hblock]
      change (fs.blockBmap.setBit _ false).verifyBit (inode.sectors j - fs.sb.dataStart) = true
      rw [Bitmap.verifyBit_setBit, if_neg hother, hset]
  · intro j k hj heq
    by_cases hij : j = i <;> by_cases hik : k = i
    · rw [hij, hik]
    · simp only [Inode.setSector, hij, Function.update_self, ne_eq, not_true_eq_false] at hj
    · simp only [Inode.setSector, hik, Function.update_self, Function.update_of_ne hij] at hj heq
      exact absurd heq hj
    · simp only [Inode.setSector, Function.update_of_ne hij, Function.update_of_ne hik] at hj heq
      exact howned.injective j k hj heq

end Server

end Shmily.Fs
