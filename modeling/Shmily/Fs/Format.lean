import Shmily.Fs.Layout

/-! # Formatting and mounting a partition

`partition_install_fs` divides a partition into its regions and writes an empty file
system; `mount_partition` reads the superblock and both bitmaps back. The regions
follow each other and stay in the partition, but the inode bitmap is rounded up to
whole sectors and has more bits than the inode table has places.
-/

namespace Shmily.Fs

open Foundation Lib

/-- `enum partition_type`. -/
inductive PartitionType where
  | primary
  | extend
  | logic
  deriving DecidableEq, Repr

/-- `struct partition`, before a file system is mounted from it. -/
structure Partition where
  name : List Byte
  sectorCnt : Nat
  startLba : Nat
  type : PartitionType

/-- `DIV_ROUND_UP`, on `unsigned int`. -/
def divRoundUp (x y : Nat) : Nat := (x + y - 1) % 2 ^ 32 / y

/-- `_fs::max_file_nr`. -/
def maxFileNr : Nat := 1024

/-- `_fs::min_file_nr`. -/
def minFileNr : Nat := 64

/-- The subtraction of `unsigned int`. -/
def wrapSub (x y : Nat) : Nat := (x + 2 ^ 32 - y) % 2 ^ 32

namespace Partition

def isSufficient (part : Partition) : Bool := part.sectorCnt > 10000

/-- `i_bmap_sectors`; the sizes are rounded differently on small partitions. -/
def inodeBitmapSectors (part : Partition) : Nat :=
  if part.isSufficient then divRoundUp maxFileNr (8 * sectorSize)
  else divRoundUp minFileNr sectorSize

/-- `i_tbl_sectors`. -/
def inodeTableSectors (part : Partition) : Nat :=
  if part.isSufficient then divRoundUp (Inode.bytes * maxFileNr) sectorSize
  else divRoundUp (Inode.bytes * minFileNr) sectorSize

/-- `free_sectors`. -/
def freeSectors (part : Partition) : Nat :=
  wrapSub part.sectorCnt (part.inodeBitmapSectors + part.inodeTableSectors + 2)

/-- `block_bmap_sectors`. -/
def blockBmapSectors (part : Partition) : Nat := divRoundUp part.freeSectors (8 * sectorSize)

/-- The superblock that `partition_install_fs` computes. -/
def superBlock (part : Partition) : SuperBlock :=
  let blockBitmapLba := (part.startLba + 2) % 2 ^ 32
  let blockBitmapSectors :=
    divRoundUp (wrapSub part.freeSectors part.blockBmapSectors) (8 * sectorSize)
  let inodeBitmapLba := (blockBitmapLba + blockBitmapSectors) % 2 ^ 32
  let inodeTableLba := (inodeBitmapLba + part.inodeBitmapSectors) % 2 ^ 32
  { blockBitmapLba := blockBitmapLba
    blockBitmapSectors := blockBitmapSectors
    inodeBitmapLba := inodeBitmapLba
    inodeBitmapSectors := part.inodeBitmapSectors
    inodeTableLba := inodeTableLba
    inodeTableSectors := part.inodeTableSectors
    dataStart := (inodeTableLba + part.inodeTableSectors) % 2 ^ 32
    rootInodeNo := 0 }

end Partition

/-- The magic of the file system. -/
def magic : List Byte := [0x53, 0x68, 0x6d, 0x69, 0x6c, 0x79]

/-- Bytes at the start of an area. -/
def storeBytes (area : ByteArea) (bytes : List Byte) : ByteArea := fun k => bytes.getD k (area k)

/-- The sector of `struct super_block_data`. -/
def storeSuperBlock (part : Partition) : ByteArea :=
  let sb := part.superBlock
  let area := storeBytes ByteArea.zeros magic
  let area := area.putLE 1 7 part.isSufficient.toNat
  let area := area.putLE 4 8 part.sectorCnt
  let area := area.putLE 4 16 part.startLba
  let area := area.putLE 4 20 sb.blockBitmapLba
  let area := area.putLE 4 24 sb.blockBitmapSectors
  let area := area.putLE 4 28 sb.inodeBitmapLba
  let area := area.putLE 4 32 sb.inodeBitmapSectors
  let area := area.putLE 4 36 sb.inodeTableLba
  let area := area.putLE 4 40 sb.inodeTableSectors
  let area := area.putLE 4 44 sb.dataStart
  let area := area.putLE 4 48 sb.rootInodeNo
  area.putLE 4 52 72

def loadSuperBlock (area : ByteArea) : SuperBlock where
  blockBitmapLba := area.getLE 4 20
  blockBitmapSectors := area.getLE 4 24
  inodeBitmapLba := area.getLE 4 28
  inodeBitmapSectors := area.getLE 4 32
  inodeTableLba := area.getLE 4 36
  inodeTableSectors := area.getLE 4 40
  dataStart := area.getLE 4 44
  rootInodeNo := area.getLE 4 48

/-- One `write_disk`. -/
structure DiskWrite where
  lba : Nat
  cnt : Nat
  buf : ByteArea

def DiskWrite.apply (disk : Nat → ByteArea) (write : DiskWrite) : Nat → ByteArea := fun sector =>
  if write.lba ≤ sector ∧ sector < write.lba + write.cnt then fun k =>
    write.buf ((sector - write.lba) * sectorSize + k)
  else disk sector

/-- The inode of the root directory. -/
def rootInode (sb : SuperBlock) : Inode where
  inodeNo := 0
  size := 2 * 72
  lastModifyTime := 0
  linkCnt := 0
  uid := 0
  gid := 0
  mode := Server.defaultPrivilege
  sectors i := if i = 0 then sb.dataStart else 0

/-- The first sector of the root directory. -/
def rootEntries : ByteArea := fun k =>
  if k = 0 ∨ k = 72 ∨ k = 73 then 0x2e else 0

/-- The writes of `partition_install_fs`, in their order. The block bitmap is taken from
the heap, where only the first byte is changed. -/
def Partition.installFs (part : Partition) (heap : ByteArea) : List DiskWrite :=
  let sb := part.superBlock
  [ { lba := (part.startLba + 1) % 2 ^ 32, cnt := 1, buf := storeSuperBlock part },
    { lba := sb.blockBitmapLba, cnt := sb.blockBitmapSectors,
      buf := fun k => if k = 0 then heap 0 ||| 1 else heap k },
    { lba := sb.inodeBitmapLba, cnt := sb.inodeBitmapSectors,
      buf := fun k => if k = 0 then 1 else 0 },
    { lba := sb.inodeTableLba, cnt := sb.inodeTableSectors,
      buf := Inode.store ByteArea.zeros 0 (rootInode sb) },
    { lba := sb.dataStart, cnt := 3, buf := rootEntries } ]

/-- The part of `mount_partition` that reads the partition. -/
def Partition.mount (part : Partition) (disk : Nat → ByteArea) : Server :=
  let sb := loadSuperBlock (disk ((part.startLba + 1) % 2 ^ 32))
  { sb := sb
    disk := disk
    blockBmap :=
      { bytesLen := sb.blockBitmapSectors * sectorSize
        base := fun k => disk (sb.blockBitmapLba + k / sectorSize) (k % sectorSize) }
    inodeBmap :=
      { bytesLen := sb.inodeBitmapSectors * sectorSize
        base := fun k => disk (sb.inodeBitmapLba + k / sectorSize) (k % sectorSize) }
    fileDescTbl := fun _ => none
    uid := 0
    now := 0 }

namespace Partition

variable {part : Partition}

/-! ### The regions -/

theorem inodeBitmapSectors_eq (part : Partition) : part.inodeBitmapSectors = 1 := by
  rw [inodeBitmapSectors]
  split <;> decide

theorem inodeTableSectors_eq (part : Partition) :
    part.inodeTableSectors = if part.isSufficient then 128 else 8 := by
  rw [inodeTableSectors]
  split <;> decide

theorem inodeTableSectors_le (part : Partition) : part.inodeTableSectors ≤ 128 := by
  rw [inodeTableSectors_eq]
  split <;> omega

/-- None of the subtractions of `partition_install_fs` wraps. -/
def SubtractionsFit (part : Partition) : Prop :=
  part.inodeBitmapSectors + part.inodeTableSectors + 2 ≤ part.sectorCnt ∧
    part.blockBmapSectors ≤ part.freeSectors

instance (part : Partition) : Decidable part.SubtractionsFit := inferInstanceAs (Decidable (_ ∧ _))

/-- The superblock, the two bitmaps, the inode table and the data blocks, each as its first
sector and the one behind its last. -/
def regions (part : Partition) : List (Nat × Nat) :=
  let sb := part.superBlock
  [ ((part.startLba + 1) % 2 ^ 32, (part.startLba + 1) % 2 ^ 32 + 1),
    (sb.blockBitmapLba, sb.blockBitmapLba + sb.blockBitmapSectors),
    (sb.inodeBitmapLba, sb.inodeBitmapLba + sb.inodeBitmapSectors),
    (sb.inodeTableLba, sb.inodeTableLba + sb.inodeTableSectors),
    (sb.dataStart, part.startLba + part.sectorCnt) ]

/-- The regions are disjoint and in the partition, and every number that the mounted
bitmaps can hand out denotes a place of the region it is for. -/
structure LayoutAgrees (part : Partition) (fs : Server) : Prop where
  disjoint : part.regions.Pairwise fun left right => left.2 ≤ right.1 ∨ right.2 ≤ left.1
  inside : ∀ region ∈ part.regions,
    part.startLba ≤ region.1 ∧ region.2 ≤ part.startLba + part.sectorCnt
  inodes : ∀ ino < fs.inodeBmap.bytesLen * 8, fs.sb.inodeTableLba ≤ fs.inodeSector ino ∧
    fs.inodeSector ino < fs.sb.inodeTableLba + fs.sb.inodeTableSectors
  blocks : ∀ blockNo < fs.blockBmap.bytesLen * 8, fs.sb.dataStart ≤ fs.blockLba blockNo ∧
    fs.blockLba blockNo < part.startLba + part.sectorCnt

/-- The superblock of the partition is the one that `partition_install_fs` has written. -/
def Formatted (part : Partition) (disk : Nat → ByteArea) : Prop :=
  ∀ k < sectorSize, disk ((part.startLba + 1) % 2 ^ 32) k = storeSuperBlock part k

theorem divRoundUp_lt (x y : Nat) : divRoundUp x y < 256 ^ 4 := by
  have hmod : (x + y - 1) % 2 ^ 32 < 2 ^ 32 := Nat.mod_lt _ (by decide)
  exact lt_of_le_of_lt (Nat.div_le_self _ _) hmod

/-- The superblock is read back as it was written. -/
theorem loadSuperBlock_storeSuperBlock (part : Partition) :
    loadSuperBlock (storeSuperBlock part) = part.superBlock := by
  have hwrap : ∀ n : Nat, n % 2 ^ 32 % 256 ^ 4 = n % 2 ^ 32 := fun n => Nat.mod_mod _ _
  have hbitmap : ∀ x, divRoundUp x (8 * sectorSize) % 256 ^ 4 = divRoundUp x (8 * sectorSize) :=
    fun x => Nat.mod_eq_of_lt (divRoundUp_lt x _)
  have hone : part.inodeBitmapSectors % 256 ^ 4 = part.inodeBitmapSectors := by
    rw [inodeBitmapSectors_eq]
    rfl
  have htable : part.inodeTableSectors % 256 ^ 4 = part.inodeTableSectors :=
    Nat.mod_eq_of_lt (lt_of_le_of_lt part.inodeTableSectors_le (by decide))
  simp (disch := omega) only [loadSuperBlock, storeSuperBlock, ByteArea.getLE_putLE_of_disjoint,
    ByteArea.getLE_putLE_self, superBlock, hwrap, hbitmap, hone, htable,
    Nat.zero_mod]

theorem loadSuperBlock_congr {area other : ByteArea}
    (hsame : ∀ k < sectorSize, area k = other k) : loadSuperBlock area = loadSuperBlock other := by
  have hget : ∀ offset, offset + 4 ≤ sectorSize → area.getLE 4 offset = other.getLE 4 offset :=
    fun offset hle => ByteArea.getLE_congr fun i hi => hsame _ (by omega)
  simp only [loadSuperBlock]
  simp (disch := decide) only [hget]

/-- Mounting finds the regions that formatting has laid out. -/
theorem mount_sb {disk : Nat → ByteArea} (hformatted : part.Formatted disk) :
    (part.mount disk).sb = part.superBlock := by
  rw [← loadSuperBlock_storeSuperBlock]
  exact loadSuperBlock_congr hformatted

/-- The last bit of the inode bitmap stands for a place behind the inode table. -/
theorem inodeSector_outside {fs : Server} (hsb : fs.sb = part.superBlock) :
    ¬ (fs.sb.inodeTableLba ≤ fs.inodeSector 4095 ∧
      fs.inodeSector 4095 < fs.sb.inodeTableLba + fs.sb.inodeTableSectors) := by
  have hle := part.inodeTableSectors_le
  have htable : fs.sb.inodeTableSectors = part.inodeTableSectors := by rw [hsb]; rfl
  have hlba : fs.sb.inodeTableLba < 2 ^ 32 := by
    rw [hsb]
    exact Nat.mod_lt _ (by decide)
  have hsector : fs.inodeSector 4095 = (fs.sb.inodeTableLba + 511) % 2 ^ 32 := rfl
  rw [hsector]
  omega

theorem mount_inodeBmap {disk : Nat → ByteArea} (hformatted : part.Formatted disk) :
    (part.mount disk).inodeBmap.bytesLen = 512 := by
  have hsectors : (part.mount disk).sb.inodeBitmapSectors = 1 := by
    rw [mount_sb hformatted]
    exact part.inodeBitmapSectors_eq
  change (part.mount disk).sb.inodeBitmapSectors * sectorSize = 512
  rw [hsectors]
  rfl

/-- On no partition do the bitmaps agree with the layout: the inode bitmap has 4096 bits,
the inode table at most 1024 places. -/
theorem layout_disagrees {disk : Nat → ByteArea} (hformatted : part.Formatted disk) :
    ¬ part.LayoutAgrees (part.mount disk) := by
  intro hagrees
  refine inodeSector_outside (mount_sb hformatted) (hagrees.inodes 4095 ?_)
  rw [mount_inodeBmap hformatted]
  decide

/-- A partition of twenty thousand sectors. -/
def largePartition : Partition where
  name := [0x73, 0x64, 0x61, 0x30]
  sectorCnt := 20000
  startLba := 2048
  type := .primary

/-- A disk with only the superblock of the partition. -/
def formattedDisk (part : Partition) : Nat → ByteArea := fun sector =>
  if sector = (part.startLba + 1) % 2 ^ 32 then storeSuperBlock part else ByteArea.zeros

theorem formattedDisk_formatted (part : Partition) : part.Formatted (formattedDisk part) :=
  fun _ _ => congrFun (if_pos rfl) _

theorem layout_disagrees_large :
    ¬ largePartition.LayoutAgrees (largePartition.mount (formattedDisk largePartition)) :=
  layout_disagrees (formattedDisk_formatted largePartition)

/-- Inode number 4095 of the partition has a bit but no place. -/
theorem last_inode_outside_table :
    largePartition.SubtractionsFit ∧
      ¬ largePartition.LayoutAgrees (largePartition.mount (formattedDisk largePartition)) := by
  refine ⟨by decide, fun hagrees => ?_⟩
  have hformatted := formattedDisk_formatted largePartition
  refine inodeSector_outside (mount_sb hformatted) (hagrees.inodes 4095 ?_)
  rw [mount_inodeBmap hformatted]
  decide

/-! ### The regions of a mounted partition -/

/-- The regions follow each other, up to the end of the partition. -/
theorem superBlock_spec (hfit : part.SubtractionsFit)
    (hend : part.startLba + part.sectorCnt + 4096 ≤ 2 ^ 32) :
    part.superBlock.blockBitmapLba = part.startLba + 2 ∧
      part.superBlock.inodeBitmapLba =
        part.startLba + 2 + part.superBlock.blockBitmapSectors ∧
      part.superBlock.inodeTableLba = part.superBlock.inodeBitmapLba + 1 ∧
      part.superBlock.dataStart = part.superBlock.inodeTableLba + part.inodeTableSectors ∧
      part.superBlock.dataStart ≤ part.startLba + part.sectorCnt ∧
      part.superBlock.dataStart + part.superBlock.blockBitmapSectors * 4096 ≤ 2 ^ 32 := by
  have hone := part.inodeBitmapSectors_eq
  have htable := part.inodeTableSectors_le
  obtain ⟨hcnt, -⟩ := hfit
  have hfree : part.freeSectors = part.sectorCnt - (part.inodeTableSectors + 3) := by
    rw [freeSectors, wrapSub]
    omega
  have hbmap : part.blockBmapSectors = (part.freeSectors + 4095) / 4096 := by
    rw [blockBmapSectors, divRoundUp]
    simp only [sectorSize]
    omega
  have hblock : part.superBlock.blockBitmapSectors =
      (part.freeSectors - part.blockBmapSectors + 4095) / 4096 := by
    change divRoundUp (wrapSub part.freeSectors part.blockBmapSectors) (8 * sectorSize) = _
    rw [divRoundUp, wrapSub]
    simp only [sectorSize]
    omega
  have hblockLba : part.superBlock.blockBitmapLba = part.startLba + 2 :=
    Nat.mod_eq_of_lt (by omega)
  have hinodeLba : part.superBlock.inodeBitmapLba =
      part.startLba + 2 + part.superBlock.blockBitmapSectors := by
    change (part.superBlock.blockBitmapLba + part.superBlock.blockBitmapSectors) % 2 ^ 32 = _
    omega
  have htableLba : part.superBlock.inodeTableLba = part.superBlock.inodeBitmapLba + 1 := by
    change (part.superBlock.inodeBitmapLba + part.inodeBitmapSectors) % 2 ^ 32 = _
    omega
  have hdata : part.superBlock.dataStart =
      part.superBlock.inodeTableLba + part.inodeTableSectors := by
    change (part.superBlock.inodeTableLba + part.inodeTableSectors) % 2 ^ 32 = _
    omega
  refine ⟨hblockLba, hinodeLba, htableLba, hdata, by omega, by omega⟩

/-- The regions are disjoint and in the partition. -/
theorem regions_disjoint (hfit : part.SubtractionsFit)
    (hend : part.startLba + part.sectorCnt + 4096 ≤ 2 ^ 32) :
    (part.regions.Pairwise fun left right => left.2 ≤ right.1 ∨ right.2 ≤ left.1) ∧
      ∀ region ∈ part.regions,
        part.startLba ≤ region.1 ∧ region.2 ≤ part.startLba + part.sectorCnt := by
  obtain ⟨hblock, hinode, htable, hdata, hlast, -⟩ := superBlock_spec hfit hend
  have hone : part.superBlock.inodeBitmapSectors = 1 := part.inodeBitmapSectors_eq
  have hsectors : part.superBlock.inodeTableSectors = part.inodeTableSectors := rfl
  have hfirst : (part.startLba + 1) % 2 ^ 32 = part.startLba + 1 := Nat.mod_eq_of_lt (by omega)
  simp only [regions, hfirst, List.pairwise_cons, List.mem_cons, List.not_mem_nil, or_false,
    forall_eq_or_imp, forall_eq, List.Pairwise.nil, and_true, IsEmpty.forall_iff, implies_true]
  omega

/-- A formatted partition is mounted with its regions in order. -/
theorem mount_layout {disk : Nat → ByteArea} (hfit : part.SubtractionsFit)
    (hend : part.startLba + part.sectorCnt + 4096 ≤ 2 ^ 32) (hformatted : part.Formatted disk) :
    (part.mount disk).Layout := by
  obtain ⟨hblock, hinode, htable, hdata, -, hblocks⟩ := superBlock_spec hfit hend
  have hone : part.superBlock.inodeBitmapSectors = 1 := part.inodeBitmapSectors_eq
  have hsectors : part.superBlock.inodeTableSectors = part.inodeTableSectors := rfl
  have hlen : (part.mount disk).blockBmap.bytesLen =
      (part.mount disk).sb.blockBitmapSectors * 512 := rfl
  constructor <;> simp only [hlen, mount_sb hformatted]
  case root => rfl
  all_goals omega

end Partition

end Shmily.Fs
