import Mathlib.Tactic.Simps.Basic
import Shmily.Foundation.ByteArea
import Shmily.Lib.Bitmap

/-! # Inodes and the disk of the file system server

The mounted partition has a block bitmap, an inode bitmap, a table of inodes and
a region of data blocks. Inodes are stored in 64 bytes, eight to a sector; both
bitmaps are kept in memory and are written back as a whole.
-/

namespace Shmily.Fs

open Foundation Lib

/-- `_fs::sector_size`. -/
def sectorSize : Nat := 512

/-- The value `-1` of an `unsigned int`. -/
def minusOne : Nat := 0xffffffff

/-- The fields of `super_block_data` that are used once the partition is mounted. -/
structure SuperBlock where
  blockBitmapLba : Nat
  blockBitmapSectors : Nat
  inodeBitmapLba : Nat
  inodeBitmapSectors : Nat
  inodeTableLba : Nat
  inodeTableSectors : Nat
  dataStart : Nat
  rootInodeNo : Nat

/-- The sectors of an inode are numbered from zero. -/
instance instNeZeroNine : NeZero 9 := ⟨by decide⟩

/-- `struct inode`. -/
@[ext]
structure Inode where
  inodeNo : Nat
  size : Nat
  lastModifyTime : Nat
  linkCnt : Nat
  uid : Nat
  gid : Nat
  mode : Nat
  sectors : Fin 9 → Nat
deriving DecidableEq

namespace Inode

/-- `sizeof(struct inode)`. -/
def bytes : Nat := 64

/-- The nine sector numbers, in four bytes each. -/
def storeSectors (area : ByteArea) (offset : Nat) (sectors : Fin 9 → Nat) : ByteArea := fun k =>
  if h : offset ≤ k ∧ k < offset + 36 then
    BitVec.ofNat 8 (sectors ⟨(k - offset) / 4, by omega⟩ / 256 ^ ((k - offset) % 4))
  else area k

/-- The inode as it lies in a sector; the structure is packed. -/
def store (area : ByteArea) (offset : Nat) (inode : Inode) : ByteArea :=
  let area := area.putLE 4 offset inode.inodeNo
  let area := area.putLE 4 (offset + 4) inode.size
  let area := area.putLE 8 (offset + 8) inode.lastModifyTime
  let area := area.putLE 4 (offset + 16) inode.linkCnt
  let area := area.putLE 2 (offset + 20) inode.uid
  let area := area.putLE 2 (offset + 22) inode.gid
  let area := area.putLE 4 (offset + 24) inode.mode
  storeSectors area (offset + 28) inode.sectors

def load (area : ByteArea) (offset : Nat) : Inode where
  inodeNo := area.getLE 4 offset
  size := area.getLE 4 (offset + 4)
  lastModifyTime := area.getLE 8 (offset + 8)
  linkCnt := area.getLE 4 (offset + 16)
  uid := area.getLE 2 (offset + 20)
  gid := area.getLE 2 (offset + 22)
  mode := area.getLE 4 (offset + 24)
  sectors i := area.getLE 4 (offset + 28 + 4 * i)

def setSector (inode : Inode) (i : Fin 9) (lba : Nat) : Inode :=
  { inode with sectors := Function.update inode.sectors i lba }

/-- The values of the fields as they are stored. -/
def truncate (inode : Inode) : Inode where
  inodeNo := inode.inodeNo % 256 ^ 4
  size := inode.size % 256 ^ 4
  lastModifyTime := inode.lastModifyTime % 256 ^ 8
  linkCnt := inode.linkCnt % 256 ^ 4
  uid := inode.uid % 256 ^ 2
  gid := inode.gid % 256 ^ 2
  mode := inode.mode % 256 ^ 4
  sectors i := inode.sectors i % 256 ^ 4

variable {area other : ByteArea} {offset : Nat} {inode : Inode}

theorem storeSectors_getLE (sectors : Fin 9 → Nat) (i : Fin 9) :
    (storeSectors area offset sectors).getLE 4 (offset + 4 * i) = sectors i % 256 ^ 4 := by
  refine ByteArea.getLE_digits fun j hj => ?_
  have hin : offset ≤ offset + 4 * i.val + j ∧ offset + 4 * i.val + j < offset + 36 := by omega
  have hdiv : (offset + 4 * i.val + j - offset) / 4 = i.val := by omega
  have hmod : (offset + 4 * i.val + j - offset) % 4 = j := by omega
  rw [storeSectors, dif_pos hin]
  simp only [hdiv, hmod]

theorem storeSectors_of_not {sectors : Fin 9 → Nat} {k : Nat}
    (hout : ¬ (offset ≤ k ∧ k < offset + 36)) : storeSectors area offset sectors k = area k :=
  dif_neg hout

theorem storeSectors_getLE_of_le {sectors : Fin 9 → Nat} {width start : Nat}
    (hbefore : start + width ≤ offset) :
    (storeSectors area offset sectors).getLE width start = area.getLE width start :=
  ByteArea.getLE_congr fun i hi => storeSectors_of_not (by omega)

/-- A stored inode is read back, up to truncation of its fields. -/
theorem load_store (area : ByteArea) (offset : Nat) (inode : Inode) :
    load (store area offset inode) offset = inode.truncate := by
  have hlast : ∀ {width start}, start + width ≤ offset + 28 →
      (store area offset inode).getLE width start =
        (((((((area.putLE 4 offset inode.inodeNo).putLE 4 (offset + 4) inode.size).putLE 8
          (offset + 8) inode.lastModifyTime).putLE 4 (offset + 16) inode.linkCnt).putLE 2
          (offset + 20) inode.uid).putLE 2 (offset + 22) inode.gid).putLE 4 (offset + 24)
          inode.mode).getLE width start := fun h => storeSectors_getLE_of_le h
  ext
  case inodeNo =>
    simp (disch := omega) only [load, hlast, ByteArea.getLE_putLE_of_disjoint,
      ByteArea.getLE_putLE_self, truncate]
  case size =>
    simp (disch := omega) only [load, hlast, ByteArea.getLE_putLE_of_disjoint,
      ByteArea.getLE_putLE_self, truncate]
  case lastModifyTime =>
    simp (disch := omega) only [load, hlast, ByteArea.getLE_putLE_of_disjoint,
      ByteArea.getLE_putLE_self, truncate]
  case linkCnt =>
    simp (disch := omega) only [load, hlast, ByteArea.getLE_putLE_of_disjoint,
      ByteArea.getLE_putLE_self, truncate]
  case uid =>
    simp (disch := omega) only [load, hlast, ByteArea.getLE_putLE_of_disjoint,
      ByteArea.getLE_putLE_self, truncate]
  case gid =>
    simp (disch := omega) only [load, hlast, ByteArea.getLE_putLE_of_disjoint,
      ByteArea.getLE_putLE_self, truncate]
  case mode =>
    simp (disch := omega) only [load, hlast, ByteArea.getLE_putLE_self, truncate]
  case sectors i =>
    exact storeSectors_getLE inode.sectors i

/-- Only the 64 bytes of the inode are written. -/
theorem store_of_not {k : Nat} (hout : ¬ (offset ≤ k ∧ k < offset + bytes)) :
    store area offset inode k = area k := by
  simp only [bytes] at hout
  rw [store, storeSectors_of_not (by omega)]
  repeat rw [ByteArea.putLE_of_not (by omega)]

theorem load_congr (hsame : ∀ k, offset ≤ k → k < offset + bytes → area k = other k) :
    load area offset = load other offset := by
  have hget : ∀ {width start}, offset ≤ start → start + width ≤ offset + bytes →
      area.getLE width start = other.getLE width start := fun hlow hhigh =>
    ByteArea.getLE_congr fun i hi => hsame _ (by omega) (by omega)
  ext
  case sectors i => exact hget (by omega) (by simp only [bytes]; omega)
  all_goals exact hget (by omega) (by simp only [bytes]; omega)

end Inode

/-- `struct file`: an open file with its copy of the inode. -/
structure OpenFile where
  offset : Nat
  inode : Inode

/-- The state of the file system server: the mounted partition, the descriptor
table, the user on whose behalf it acts, and the clock. -/
structure Server where
  sb : SuperBlock
  disk : Nat → ByteArea
  blockBmap : Bitmap
  inodeBmap : Bitmap
  fileDescTbl : Nat → Option OpenFile
  uid : Nat
  now : Nat

namespace Server

/-- `write_disk` of one sector. -/
@[simps -fullyApplied]
def writeDisk (fs : Server) (lba : Nat) (buf : ByteArea) : Server :=
  { fs with disk := Function.update fs.disk lba buf }

/-- `write_disk` of several sectors. -/
@[simps -fullyApplied]
def writeSectors (fs : Server) (lba cnt : Nat) (buf : ByteArea) : Server :=
  { fs with
    disk := fun sector =>
      if lba ≤ sector ∧ sector < lba + cnt then fun k => buf ((sector - lba) * sectorSize + k)
      else fs.disk sector }

/-- `sync_inode_bitmap`. -/
def syncInodeBitmap (fs : Server) : Server :=
  fs.writeSectors fs.sb.inodeBitmapLba fs.sb.inodeBitmapSectors fs.inodeBmap.base

/-- `sync_block_bitmap`. -/
def syncBlockBitmap (fs : Server) : Server :=
  fs.writeSectors fs.sb.blockBitmapLba fs.sb.blockBitmapSectors fs.blockBmap.base

/-- The sector of the inode table that holds an inode. -/
def inodeSector (fs : Server) (ino : Nat) : Nat :=
  (fs.sb.inodeTableLba + ino / (sectorSize / Inode.bytes)) % 2 ^ 32

/-- The place of an inode in its sector. -/
def inodeOffset (ino : Nat) : Nat := ino % (sectorSize / Inode.bytes) * Inode.bytes

/-- `ino2inode`. -/
def ino2inode (fs : Server) (ino : Nat) : Inode :=
  Inode.load (fs.disk (fs.inodeSector ino)) (inodeOffset ino)

/-- `sync_inode`. -/
def syncInode (fs : Server) (inode : Inode) : Server :=
  fs.writeDisk (fs.inodeSector inode.inodeNo)
    (Inode.store (fs.disk (fs.inodeSector inode.inodeNo)) (inodeOffset inode.inodeNo) inode)

/-- `allocate_block`. Without a free block the code sets a bit far outside the map
and returns nothing defined: there is no result. -/
def allocateBlock (fs : Server) : Option (Server × Nat) :=
  (fs.blockBmap.bitmapScan 1).map fun slot =>
    ({ fs with blockBmap := fs.blockBmap.setBit slot true }, slot)

/-- `free_block`. -/
@[simps -fullyApplied]
def freeBlock (fs : Server) (blockNo : Nat) : Server :=
  { fs with blockBmap := fs.blockBmap.setBit blockNo false }

/-- `free_inode`. -/
@[simps -fullyApplied]
def freeInode (fs : Server) (ino : Nat) : Server :=
  { fs with inodeBmap := fs.inodeBmap.setBit ino false }

/-- `allocate_inode_no`, undefined like `allocate_block`. -/
def allocateInodeNo (fs : Server) : Option (Server × Nat) :=
  (fs.inodeBmap.bitmapScan 1).map fun slot =>
    ({ fs with inodeBmap := fs.inodeBmap.setBit slot true }, slot)

/-- `inode_mode::DEFAULT_PRIVILEGE`. -/
def defaultPrivilege : Nat := 0x3d

/-- `create_inode`. -/
def createInode (fs : Server) : Option (Server × Inode) :=
  fs.allocateInodeNo.map fun allocated =>
    (allocated.1,
      { inodeNo := allocated.2
        size := 0
        lastModifyTime := fs.now
        linkCnt := 0
        uid := fs.uid % 2 ^ 16
        gid := 0
        mode := defaultPrivilege
        sectors := fun _ => 0 })

/-- The sector of a data block. -/
def blockLba (fs : Server) (blockNo : Nat) : Nat := (fs.sb.dataStart + blockNo) % 2 ^ 32

/-- The block of a data sector, an `unsigned int`. -/
def blockOf (fs : Server) (lba : Nat) : Nat := (lba + 2 ^ 32 - fs.sb.dataStart) % 2 ^ 32

/-- `access_mode`. -/
def accessRead : Byte := 0x4
def accessWrite : Byte := 0x2

/-- `check_inode_permission`; the shift is one of `unsigned char`. -/
def checkInodePermission (fs : Server) (inode : Inode) (op : Byte) : Bool :=
  if fs.uid = 0 then true
  else
    let op := if fs.uid = inode.uid then op <<< 3 else op
    inode.mode &&& op.toNat ≠ 0

end Server

end Shmily.Fs
