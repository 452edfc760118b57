import Shmily.Fs.Inode

/-! # Directories and paths

The directory operations of `dir.cc`. A directory is an inode whose sectors hold
entries of 72 bytes, seven to a sector; an entry with an empty name is free.
Paths are split by hand in two ways: forward, component by component, for
resolution, and at the last slash, for the operations on a parent directory.
-/

namespace Shmily.Fs

open Foundation Lib

/-- A string of `char`, up to its terminating NUL. -/
structure CString where
  chars : List Byte
  nulFree : 0 ∉ chars

/-- `'/'`. -/
def slash : Byte := 0x2f

/-- `'.'`. -/
def dot : Byte := 0x2e

/-- `strcmp` of the string that starts at an offset; it is true on equality. -/
def strcmp (area : ByteArea) : Nat → List Byte → Bool
  | offset, [] => area offset = 0
  | offset, c :: str => area offset = c && strcmp area (offset + 1) str

/-- `enum dir_entry_type`. -/
inductive DirEntryType where
  | dir
  | file
  deriving DecidableEq, Repr

def DirEntryType.code : DirEntryType → Nat
  | dir => 0
  | file => 1

/-- `struct dir_entry`; the name is padded with NULs. -/
structure DirEntry where
  name : List Byte
  inodeNo : Nat
  type : DirEntryType

namespace DirEntry

/-- `sizeof(struct dir_entry)`. -/
def bytes : Nat := 72

/-- `_fs::sector_size / sizeof(struct dir_entry)`. -/
def perSector : Nat := sectorSize / bytes

/-- The name of an entry, in its 64 bytes. -/
def storeName (area : ByteArea) (offset : Nat) (name : List Byte) : ByteArea := fun k =>
  if offset ≤ k ∧ k < offset + 64 then name.getD (k - offset) 0 else area k

/-- Assignment of an entry in a sector. -/
def store (area : ByteArea) (offset : Nat) (entry : DirEntry) : ByteArea :=
  ((storeName area offset entry.name).putLE 4 (offset + 64) entry.inodeNo).putLE 4 (offset + 68)
    entry.type.code

end DirEntry

/-- The offset of an entry in its sector. -/
def entryOffset (j : Nat) : Nat := j * DirEntry.bytes

/-- The entries of a sector, in the order of the loops over them. -/
def entryOffsets : List Nat := (List.range DirEntry.perSector).map entryOffset

/-- `split_path`: the next component and the rest of the path. -/
def splitPath : List Byte → List Byte × Option (List Byte)
  | [] => ([], none)
  | c :: path =>
      if c = slash then ([slash], some path)
      else
        match path with
        | [] => ([c], none)
        | d :: rest =>
            if d = slash then ([c], some rest)
            else
              let (component, next) := splitPath (d :: rest)
              (c :: component, next)

/-- The copying loop of `split_path_2parts`: everything through the given number
of slashes, and what follows. -/
def copyThrough : Nat → List Byte → List Byte × List Byte
  | 0, path => ([], path)
  | _ + 1, [] => ([], [])
  | slashes + 1, c :: path =>
      let (parent, rest) := copyThrough (if c = slash then slashes else slashes + 1) path
      (c :: parent, rest)

/-- `skip_last_slash`. -/
def skipLastSlash (str : List Byte) : List Byte :=
  if str.getLast? = some slash then str.dropLast else str

/-- `split_path_2parts`: the parent and the last component, `none` for the result
`NULL`. -/
def splitPath2parts (path : List Byte) : Option (List Byte × List Byte) :=
  if path.head? = some slash then
    let (parent, name) := copyThrough (path.count slash) path
    some (if parent.length ≤ 1 then parent else skipLastSlash parent.dropLast, name)
  else none

namespace Server

/-- The loop of `find_dir_entry` over one sector. -/
def findInSector (buf : ByteArea) (child : List Byte) : Option Nat :=
  entryOffsets.findSome? fun offset =>
    if buf offset = 0 then none
    else if strcmp buf offset child then some (buf.getLE 4 (offset + 64))
    else none

/-- `find_dir_entry`. -/
def findDirEntry (fs : Server) (inode : Inode) (child : List Byte) : Nat :=
  ((List.finRange 9).findSome? fun i =>
    if inode.sectors i = 0 then none
    else findInSector (fs.disk (inode.sectors i)) child).getD minusOne

/-- The loop of `dir_is_exists`. Each step consumes a character or is the last one,
so the length of the path bounds their number. -/
def walk (fs : Server) : Nat → Nat → List Byte → Nat
  | 0, ino, _ => ino
  | fuel + 1, ino, path =>
      let (component, next) := splitPath path
      let found :=
        if component = [slash] then ino else fs.findDirEntry (fs.ino2inode ino) component
      if component ≠ [slash] ∧ found = minusOne then minusOne
      else
        match next with
        | none => found
        | some path => walk fs fuel found path

/-- `dir_is_exists`. -/
def dirIsExists (fs : Server) (path : List Byte) : Nat :=
  if path.head? ≠ some slash then minusOne
  else if path.tail = [] then 0
  else fs.walk (path.length + 1) fs.sb.rootInodeNo path

/-- The slot that `create_dir_entry` has found, zero at first. -/
structure FreeSlot where
  sector : Nat
  offset : Nat
  deriving DecidableEq

/-- One entry in the search of `create_dir_entry`; `none` when the name is there. -/
def scanEntry (lba : Nat) (buf : ByteArea) (name : List Byte) (slot : FreeSlot) (j : Nat) :
    Option FreeSlot :=
  if buf (entryOffset j) = 0 ∧ slot.offset = 0 ∧ slot.sector = 0 then some ⟨lba, j⟩
  else if strcmp buf (entryOffset j) name then none
  else some slot

/-- The search of `create_dir_entry` over one sector. -/
def scanSector (fs : Server) (inode : Inode) (name : List Byte) (slot : FreeSlot) (i : Fin 9) :
    Option FreeSlot :=
  if inode.sectors i = 0 then some slot
  else
    (List.range DirEntry.perSector).foldlM
      (scanEntry (inode.sectors i) (fs.disk (inode.sectors i)) name) slot

/-- The search of `create_dir_entry` for a free slot. -/
def scanDir (fs : Server) (inode : Inode) (name : List Byte) : Option FreeSlot :=
  (List.finRange 9).foldlM (fs.scanSector inode name) ⟨0, 0⟩

/-- The first sector index that is not in use. -/
def freeIndex (inode : Inode) : Option (Fin 9) :=
  (List.finRange 9).find? fun i => inode.sectors i = 0

/-- `create_dir_entry`. A new block keeps its content behind the first entry. -/
def createDirEntry (fs : Server) (inode : Inode) (child : DirEntry) : Option Server :=
  match fs.scanDir inode child.name with
  | none => some fs
  | some slot =>
      if slot.sector ≠ 0 then
        some (fs.writeDisk slot.sector
          (child.store (fs.disk slot.sector) (entryOffset slot.offset)))
      else
        match freeIndex inode with
        | none => some fs
        | some i => do
            let (fs, blockNo) ← fs.allocateBlock
            let lba := fs.blockLba blockNo
            let fs := fs.writeDisk lba (child.store (fs.disk lba) 0)
            let fs := fs.syncInode (inode.setSector i lba)
            some fs.syncBlockBitmap

/-- `init_child_dir`. The sector is built in `buf`, fresh memory that is not
cleared, so only the bytes written here are known. -/
def initChildDir (fs : Server) (buf : ByteArea) (parentIno ino : Nat) : Option Server := do
  let inode := fs.ino2inode ino
  let buf := buf.putLE 1 (entryOffset 0) dot.toNat
  let buf := buf.putLE 4 (entryOffset 0 + 64) ino
  let buf := (buf.putLE 1 (entryOffset 1) dot.toNat).putLE 1 (entryOffset 1 + 1) dot.toNat
  let buf := buf.putLE 4 (entryOffset 1 + 64) parentIno
  let (fs, blockNo) ← fs.allocateBlock
  let inode := inode.setSector 0 (fs.blockLba blockNo)
  let fs := fs.writeDisk (inode.sectors 0) buf
  let fs := fs.syncInode inode
  some fs.syncBlockBitmap

/-- The state of `remove_dir_entry` inside a sector. -/
structure RemoveScan where
  fs : Server
  buf : ByteArea
  isFound : Bool
  emptyCnts : Nat

/-- One entry in `remove_dir_entry`. -/
def removeEntry (lba : Nat) (name : List Byte) (scan : RemoveScan) (j : Nat) : RemoveScan :=
  if strcmp scan.buf (entryOffset j) name then
    let buf := Function.update scan.buf (entryOffset j) 0
    { fs := scan.fs.writeDisk lba buf
      buf := buf
      isFound := true
      emptyCnts := scan.emptyCnts + 1 }
  else if scan.buf (entryOffset j) = 0 then { scan with emptyCnts := scan.emptyCnts + 1 }
  else scan

/-- The loop of `remove_dir_entry` over one sector. -/
def removeInSector (fs : Server) (lba : Nat) (name : List Byte) (isFound : Bool) : RemoveScan :=
  (List.range DirEntry.perSector).foldl (removeEntry lba name)
    { fs := fs, buf := fs.disk lba, isFound := isFound, emptyCnts := 0 }

/-- The loop of `remove_dir_entry` over the sectors; it ends at a sector that is
empty once the entry was found. -/
def removeFrom (inode : Inode) (name : List Byte) : List (Fin 9) → Bool → Server → Server
  | [], _, fs => fs
  | i :: rest, isFound, fs =>
      if inode.sectors i = 0 then removeFrom inode name rest isFound fs
      else
        let scan := fs.removeInSector (inode.sectors i) name isFound
        if scan.isFound ∧ scan.emptyCnts = DirEntry.perSector then
          let fs := scan.fs.freeBlock (scan.fs.blockOf (inode.sectors i))
          let fs := fs.syncBlockBitmap
          fs.syncInode (inode.setSector i 0)
        else removeFrom inode name rest scan.isFound scan.fs

/-- `remove_dir_entry`. -/
def removeDirEntry (fs : Server) (inode : Inode) (pathDel : List Byte) : Server :=
  removeFrom inode pathDel (List.finRange 9) false fs

/-- `dir_is_empty`. -/
def dirIsEmpty (fs : Server) (path : List Byte) : Bool :=
  let inode := fs.ino2inode (fs.dirIsExists path)
  ((List.range DirEntry.perSector).drop 2).all (fun j =>
    fs.disk (inode.sectors 0) (entryOffset j) = 0) &&
  ((List.finRange 9).drop 1).all fun i => inode.sectors i = 0

/-- `sys_mkdir`; `buf` is the memory that `init_child_dir` is given. -/
def sysMkdir (fs : Server) (buf : ByteArea) (path : List Byte) : Option Server :=
  match splitPath2parts path with
  | none => some fs
  | some (parent, childName) =>
      let parentIno := fs.dirIsExists parent
      if parentIno = minusOne then some fs
      else
        let inode := fs.ino2inode parentIno
        if !fs.checkInodePermission inode accessWrite then some fs
        else do
          let (fs, childInode) ← fs.createInode
          let fs := (fs.syncInode childInode).syncInodeBitmap
          let fs ← fs.createDirEntry inode
            { name := childName, inodeNo := childInode.inodeNo, type := .dir }
          fs.initChildDir buf parentIno childInode.inodeNo

/-- `sys_rmdir`. -/
def sysRmdir (fs : Server) (path : List Byte) : Server :=
  if !fs.dirIsEmpty path then fs
  else
    match splitPath2parts path with
    | none => fs
    | some (parent, pathDel) =>
        let parentIno := fs.dirIsExists parent
        let childIno := fs.dirIsExists path
        if parentIno = minusOne then fs
        else
          let inodeParent := fs.ino2inode parentIno
          if !fs.checkInodePermission inodeParent accessWrite then fs
          else ((fs.removeDirEntry inodeParent pathDel).freeInode childIno).syncInodeBitmap

end Server

end Shmily.Fs
