import Shmily.Fs.Dir

/-! # Files

The operations of `file.cc`. An open file has a private copy of its inode, taken
when it was opened; `write_file` changes this copy and writes it back as a whole.
A result is missing where the code indexes a table outside its bounds, follows a
null pointer, reads behind a buffer, or asks for a block when none is free.
-/

namespace Shmily.Fs

open Foundation Lib

/-- `file_io::APPEND`. -/
def fileAppend : Byte := 0

/-- `file_io::COVER`. -/
def fileCover : Byte := 1

/-- Memory that holds a NUL-terminated string and whatever lies behind it. -/
structure StringBuffer where
  bytes : ByteArea
  strlen : Nat
  nulFree : ∀ i < strlen, bytes i ≠ 0
  terminated : bytes strlen = 0

/-- `inode->sectors[i]`. -/
def Inode.sectorAt (inode : Inode) (i : Nat) : Option Nat :=
  if h : i < 9 then some (inode.sectors ⟨i, h⟩) else none

/-- `inode->sectors[i] = lba`. -/
def Inode.setSectorAt (inode : Inode) (i lba : Nat) : Option Inode :=
  if h : i < 9 then some (inode.setSector ⟨i, h⟩ lba) else none

namespace Server

/-- `file_desc_tbl[fd]`, which has 64 entries. -/
def fileAt (fs : Server) (fd : Nat) : Option (Option OpenFile) :=
  if fd < 64 then some (fs.fileDescTbl fd) else none

@[simps -fullyApplied]
def setFile (fs : Server) (fd : Nat) (file : Option OpenFile) : Server :=
  { fs with fileDescTbl := Function.update fs.fileDescTbl fd file }

/-- `sys_mkfile`. -/
def sysMkfile (fs : Server) (path : List Byte) : Option Server :=
  match splitPath2parts path with
  | none => some fs
  | some (parent, fileName) =>
      let parentIno := fs.dirIsExists parent
      if parentIno = minusOne then some fs
      else
        let parentInode := fs.ino2inode parentIno
        if !fs.checkInodePermission parentInode accessWrite then some fs
        else do
          let (fs, fileInode) ← fs.createInode
          let fs := (fs.syncInode fileInode).syncInodeBitmap
          fs.createDirEntry parentInode
            { name := fileName, inodeNo := fileInode.inodeNo, type := .file }

/-- The loop of `free_inode_sectors`. -/
def freeSectors (fs : Server) (inode : Inode) : List (Fin 9) → Server
  | [] => fs
  | i :: rest =>
      if inode.sectors i = 0 then fs.freeSectors inode rest
      else (fs.freeBlock (fs.blockOf (inode.sectors i))).freeSectors inode rest

/-- `free_inode_sectors`. -/
def freeInodeSectors (fs : Server) (inode : Inode) : Server :=
  (fs.freeSectors inode (List.finRange 9)).syncBlockBitmap

/-- `sys_rmfile`. The parent is used even when it was not found. -/
def sysRmfile (fs : Server) (path : List Byte) : Server :=
  match splitPath2parts path with
  | none => fs
  | some (parent, fileDel) =>
      let parentIno := fs.dirIsExists parent
      let fileDelIno := fs.dirIsExists path
      if fileDelIno = minusOne then fs
      else
        let inodeParent := fs.ino2inode parentIno
        if !fs.checkInodePermission inodeParent accessWrite then fs
        else
          let inodeDel := fs.ino2inode fileDelIno
          let fs := fs.removeDirEntry inodeParent fileDel
          let fs := fs.freeInodeSectors inodeDel
          (fs.freeInode fileDelIno).syncInodeBitmap

/-- The allocating loop of `write_file`. -/
def allocateSectors (fs : Server) (inode : Inode) : List Nat → Option (Server × Inode)
  | [] => some (fs, inode)
  | i :: rest => do
      let lba ← inode.sectorAt i
      if lba = 0 then
        let (fs, blockNo) ← fs.allocateBlock
        let inode ← inode.setSectorAt i (fs.blockLba blockNo)
        fs.allocateSectors inode rest
      else fs.allocateSectors inode rest

/-- The loop of `write_file` over whole sectors; the text is read at the index of
the sector, counted from the pointer behind the first part. -/
def writeWhole (fs : Server) (inode : Inode) (str : ByteArea) : List Nat → Option Server
  | [] => some fs
  | i :: rest => do
      let lba ← inode.sectorAt i
      (fs.writeDisk lba fun k => str (i * 512 + k)).writeWhole inode str rest

/-- The loop of `write_file` that gives back sectors, with `has_surplus`. -/
def freeSurplus (fs : Server) (inode : Inode) : List (Fin 9) → Bool → Server × Inode × Bool
  | [], hasSurplus => (fs, inode, hasSurplus)
  | i :: rest, hasSurplus =>
      if inode.sectors i = 0 then fs.freeSurplus inode rest hasSurplus
      else
        (fs.freeBlock (fs.blockOf (inode.sectors i))).freeSurplus (inode.setSector i 0) rest true

/-- Where `write_file` starts and ends, as sector indices and places in a sector. -/
structure WritePlan where
  count : Nat
  startSector : Nat
  startPos : Nat
  sectorCnts : Int
  lastSectorBytes : Nat

/-- The arithmetic of `write_file`. When appending, the number of sectors is counted
from the first one that is written. -/
def writePlan (size strlen count : Nat) (mode : Byte) : WritePlan :=
  let count := if strlen < count then strlen + 1 else count
  if mode = fileAppend then
    let startSector := size / sectorSize
    let allBytes := (size + count) % 2 ^ 32
    { count := count
      startSector := startSector
      startPos := size % sectorSize
      sectorCnts := (allBytes / sectorSize : Nat) - startSector
      lastSectorBytes := allBytes % sectorSize }
  else
    { count := count
      startSector := 0
      startPos := 0
      sectorCnts := (count / sectorSize : Nat)
      lastSectorBytes := count % sectorSize }

/-- The loop indices from `low` up to `high`, the latter excluded. -/
def indices (low : Nat) (high : Int) : List Nat := List.range' low (high.toNat - low)

/-- The part of `write_file` that writes the text. -/
def writeData (fs : Server) (inode : Inode) (str : ByteArea) (plan : WritePlan) :
    Option Server := do
  let surplus := sectorSize - plan.startPos
  let first := if surplus < plan.count then surplus else plan.count
  let lba ← inode.sectorAt plan.startSector
  let buf := (fs.disk lba).copyIn plan.startPos str 0 first
  let fs := fs.writeDisk lba buf
  let str : ByteArea := fun k => str (first + k)
  let fs ← fs.writeWhole inode str (indices (plan.startSector + 1) (plan.sectorCnts - 1))
  if plan.count > surplus then
    let i := max (plan.startSector + 1) (plan.sectorCnts - 1).toNat
    let lba ← inode.sectorAt i
    some (fs.writeDisk lba (ByteArea.zeros.copyIn 0 str (i * 512) plan.lastSectorBytes))
  else some fs

/-- The end of `write_file`: surplus sectors are given back and the inode is stored
with its new size. -/
def finishWrite (fs : Server) (fd : Nat) (file : OpenFile) (inode : Inode) (plan : WritePlan)
    (mode : Byte) : Server :=
  let (fs, inode, hasSurplus) := fs.freeSurplus inode
    ((List.finRange 9).drop (plan.sectorCnts + 1).toNat) false
  let size := if mode = fileAppend then (inode.size + plan.count) % 2 ^ 32 else plan.count
  let inode := { inode with size := size }
  let fs := fs.syncInode inode
  let fs := if hasSurplus then fs.syncBlockBitmap else fs
  fs.setFile fd (some { file with inode := inode })

/-- `write_file`. -/
def writeFile (fs : Server) (fd : Nat) (str : StringBuffer) (count : Nat) (mode : Byte) :
    Option Server := do
  match ← fs.fileAt fd with
  | none => some fs
  | some file =>
      if !fs.checkInodePermission file.inode accessWrite then some fs
      else
        let plan := writePlan file.inode.size str.strlen count mode
        let (fs, inode) ← fs.allocateSectors file.inode
          (indices plan.startSector (plan.sectorCnts + 1))
        let fs := (fs.syncInode inode).syncBlockBitmap
        let fs ← fs.writeData inode str.bytes plan
        -- a negative start of the loop would index before the array
        if plan.sectorCnts + 1 < 0 then none
        else some (fs.finishWrite fd file inode plan mode)

/-- The loop of `read_file` over whole sectors, into memory that starts behind the
first part. -/
def readWhole (fs : Server) (inode : Inode) (buf : ByteArea) (start : Nat) :
    List Nat → Option ByteArea
  | [] => some buf
  | i :: rest => do
      let lba ← inode.sectorAt i
      fs.readWhole inode (buf.copyIn (start + i * 512) (fs.disk lba) 0 512) start rest

/-- The part of `read_file` that copies the content. -/
def readData (fs : Server) (file : OpenFile) (buf : ByteArea) (count : Nat) : Option ByteArea := do
  let startSector := file.offset / sectorSize
  let startOffset := file.offset % sectorSize
  let first := if count > 512 then (sectorSize + 2 ^ 32 - file.offset) % 2 ^ 32 else count
  let left := (count + 2 ^ 32 - first) % 2 ^ 32
  let sectorCnts := if count > 512 then left / sectorSize else 0
  let lba ← file.inode.sectorAt startSector
  if startOffset + first > sectorSize then none
  else
    let buf := buf.copyIn 0 (fs.disk lba) startOffset first
    let buf ← fs.readWhole file.inode buf first (indices (startSector + 1) sectorCnts)
    if count > 512 then
      let i := max (startSector + 1) sectorCnts
      let lba ← file.inode.sectorAt i
      some (buf.copyIn (first + i * 512) (fs.disk lba) 0 (left % sectorSize))
    else some buf

/-- `read_file`, with the memory at `buf` and the result. -/
def readFile (fs : Server) (fd : Nat) (buf : ByteArea) (count : Nat) :
    Option (Server × ByteArea × Nat) := do
  match ← fs.fileAt fd with
  | none => some (fs, buf, minusOne)
  | some file =>
      if !fs.checkInodePermission file.inode accessRead then some (fs, buf, minusOne)
      else
        let count := if count > file.inode.size then file.inode.size else count
        let buf ← fs.readData file buf count
        some (fs.setFile fd (some { file with offset := (file.offset + count) % 2 ^ 32 }), buf, count)

/-- `lseek_file`. -/
def lseekFile (fs : Server) (fd offset : Nat) : Option Server := do
  match ← fs.fileAt fd with
  | none => none
  | some file =>
      let offset := if offset > file.inode.size then file.inode.size else offset
      some (fs.setFile fd (some { file with offset := offset }))

/-- `is_eof`. -/
def isEof (fs : Server) (fd : Nat) : Option Bool := do
  match ← fs.fileAt fd with
  | none => none
  | some file => some (file.inode.size ≤ file.offset)

/-- `get_fdt_free_slot`. -/
def getFdtFreeSlot (fs : Server) : Option Nat :=
  (List.range 64).find? fun slot => (fs.fileDescTbl slot).isNone

/-- `open_file`, with its result. -/
def openFile (fs : Server) (path : List Byte) : Server × Nat :=
  let ino := fs.dirIsExists path
  if ino = minusOne then (fs, minusOne)
  else
    let inode := fs.ino2inode ino
    if !fs.checkInodePermission inode accessRead then (fs, minusOne)
    else
      match fs.getFdtFreeSlot with
      | none => (fs, minusOne)
      | some slot => (fs.setFile slot (some { offset := 0, inode := inode }), slot)

/-- `close_file`. -/
def closeFile (fs : Server) (fd : Nat) : Option Server := do
  match ← fs.fileAt fd with
  | none => some fs
  | some _ => some (fs.setFile fd none)

/-- The loop of `copy_file`. -/
def copySectors (fs : Server) (srcInode dstInode : Inode) : List (Fin 9) → Option (Server × Inode)
  | [] => some (fs, dstInode)
  | i :: rest =>
      if srcInode.sectors i = 0 then fs.copySectors srcInode dstInode rest
      else do
        let (fs, blockNo) ← fs.allocateBlock
        let lba := fs.blockLba blockNo
        (fs.writeDisk lba (fs.disk (srcInode.sectors i))).copySectors srcInode
          (dstInode.setSector i lba) rest

/-- `copy_file`. Whether `sys_mkfile` made an entry is not looked at. -/
def copyFile (fs : Server) (src dst : List Byte) : Option Server := do
  let fs ← fs.sysMkfile dst
  let srcInode := fs.ino2inode (fs.dirIsExists src)
  let dstInode := fs.ino2inode (fs.dirIsExists dst)
  if !fs.checkInodePermission srcInode accessRead then some fs
  else
    let (fs, dstInode) ← fs.copySectors srcInode dstInode (List.finRange 9)
    let fs := fs.syncInode { dstInode with size := srcInode.size }
    some fs.syncBlockBitmap

/-- `move_file`. A source that is not absolute has no name to remove. -/
def moveFile (fs : Server) (src dst : List Byte) : Option Server := do
  let fs ← fs.sysMkfile dst
  let srcParent := ((splitPath2parts src).map Prod.fst).getD []
  let srcIno := fs.dirIsExists src
  let srcParentInode := fs.ino2inode (fs.dirIsExists srcParent)
  let srcInode := fs.ino2inode srcIno
  let dstInode := fs.ino2inode (fs.dirIsExists dst)
  if !fs.checkInodePermission srcInode accessWrite then some fs
  else
    let (_, srcFilename) ← splitPath2parts src
    let dstInode := { dstInode with sectors := srcInode.sectors, size := srcInode.size }
    let fs := fs.removeDirEntry srcParentInode srcFilename
    some ((fs.freeInode srcIno).syncInode dstInode).syncInodeBitmap

/-- `sys_chmod`. -/
def sysChmod (fs : Server) (path : List Byte) (newMode : Byte) : Server :=
  let ino := fs.dirIsExists path
  if ino = minusOne then fs
  else
    let inode := fs.ino2inode ino
    fs.syncInode
      (if fs.uid = 0 ∨ fs.uid = inode.uid then { inode with mode := newMode.toNat } else inode)

/-- `sys_chown`; the owner is stored in 16 bits. -/
def sysChown (fs : Server) (path : List Byte) (newUid : Nat) : Server :=
  let ino := fs.dirIsExists path
  if ino = minusOne then fs
  else
    let inode := fs.ino2inode ino
    fs.syncInode
      (if fs.uid = 0 ∨ fs.uid = inode.uid then { inode with uid := newUid % 2 ^ 16 } else inode)

end Server

/-- The requests that the server dispatches on, with their arguments. The heap is
the content of the memory that the handler of the request is given. -/
inductive Request where
  | mkdir (path : CString) (heap : ByteArea)
  | rmdir (path : CString)
  | mkfile (path : CString)
  | rmfile (path : CString)
  | openFile (path : CString)
  | closeFile (fd : Nat)
  | writeFile (fd : Nat) (str : StringBuffer) (count : Nat) (mode : Byte)
  | readFile (fd : Nat) (buf : ByteArea) (count : Nat)
  | lseekFile (fd offset : Nat)
  | isEof (fd : Nat)
  | cpfile (src dst : CString)
  | mvfile (src dst : CString)
  | chmod (path : CString) (newMode : Byte)
  | chown (path : CString) (newUid : Nat)

/-- Every component fits into the 64 bytes that resolution copies it to. -/
def componentsFit (path : List Byte) : Bool := (path.splitOn slash).all (·.length < 64)

/-- The parent, through its slash, fits into the 64 bytes it is copied to. -/
def parentFits (path : List Byte) : Bool := (copyThrough (path.count slash) path).1.length ≤ 64

/-- The paths of the request fit into the buffers of its handler. -/
def Request.fits : Request → Bool
  | mkdir path _ | rmdir path | mkfile path | rmfile path =>
      componentsFit path.chars && parentFits path.chars
  | openFile path | chmod path _ | chown path _ => componentsFit path.chars
  | cpfile src dst => componentsFit src.chars && componentsFit dst.chars && parentFits dst.chars
  | mvfile src dst =>
      componentsFit src.chars && parentFits src.chars && componentsFit dst.chars &&
        parentFits dst.chars
  | closeFile _ | writeFile .. | readFile .. | lseekFile .. | isEof _ => true

namespace Server

/-- The handlers of the server's main loop. -/
def handle (fs : Server) : Request → Option Server
  | .mkdir path heap => fs.sysMkdir heap path.chars
  | .rmdir path => some (fs.sysRmdir path.chars)
  | .mkfile path => fs.sysMkfile path.chars
  | .rmfile path => some (fs.sysRmfile path.chars)
  | .openFile path => some (fs.openFile path.chars).1
  | .closeFile fd => fs.closeFile fd
  | .writeFile fd str count mode => fs.writeFile fd str count mode
  | .readFile fd buf count => (fs.readFile fd buf count).map Prod.fst
  | .lseekFile fd offset => fs.lseekFile fd offset
  | .isEof fd => (fs.isEof fd).map fun _ => fs
  | .cpfile src dst => fs.copyFile src.chars dst.chars
  | .mvfile src dst => fs.moveFile src.chars dst.chars
  | .chmod path newMode => some (fs.sysChmod path.chars newMode)
  | .chown path newUid => some (fs.sysChown path.chars newUid)

/-- One turn of the main loop; without a result where a buffer is overrun. -/
def step (fs : Server) (req : Request) : Option Server := if req.fits then fs.handle req else none

end Server

end Shmily.Fs
