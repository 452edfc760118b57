import Shmily.Fs.Making

/-! # When nothing is free

`allocate_block` and `allocate_inode_no` set the bit that `bitmap_scan` has found before
they look at the result. Without a clear bit this is the bit `0xffffffff`, far behind the
map, and then they end without a value. No caller can tell, and none of them has a defined
result.
-/

namespace Shmily.Fs

open Foundation Lib

/-- All bits of the map are set. -/
def Exhausted (bmap : Bitmap) : Prop := ∀ idx < bmap.bytesLen * 8, bmap.verifyBit idx = true

/-- What an allocation has done: the map, the bytes that were written, counted from the
base of the map, and the value that is returned, if there is one. -/
structure SlotTaken where
  bmap : Bitmap
  written : List Nat
  returned : Option Nat

/-- The body of `allocate_block` and of `allocate_inode_no`, on the map of each. -/
def takeSlot (bmap : Bitmap) : SlotTaken :=
  let slot := (bmap.bitmapScan 1).getD minusOne
  { bmap := bmap.setBit slot true
    written := [slot / 8]
    returned := if minusOne ≠ slot then some slot else none }

/-- The failure is a value that is no slot of the map, and nothing was written. -/
def ReportsFailure (bmap : Bitmap) : Prop :=
  (takeSlot bmap).written = [] ∧
    ∃ value, (takeSlot bmap).returned = some value ∧ bmap.bytesLen * 8 ≤ value

namespace Server

/-- The calls that may need an inode or a block. -/
inductive AllocatingCall where
  | mkdir (path : List Byte) (heap : ByteArea)
  | mkfile (path : List Byte)
  | createDirEntry (inode : Inode) (child : DirEntry)
  | writeFile (fd : Nat) (str : StringBuffer) (count : Nat) (mode : Byte)
  | copyFile (src dst : List Byte)

def AllocatingCall.run (fs : Server) : AllocatingCall → Option Server
  | mkdir path heap => fs.sysMkdir heap path
  | mkfile path => fs.sysMkfile path
  | createDirEntry inode child => fs.createDirEntry inode child
  | writeFile fd str count mode => fs.writeFile fd str count mode
  | copyFile src dst => fs.copyFile src dst

/-- An inode is needed wherever an entry may be made. -/
def AllocatingCall.NeedsInode (fs : Server) : AllocatingCall → Prop
  | mkdir path _ | mkfile path | copyFile _ path => ∃ parent, fs.MakesIn path parent
  | createDirEntry .. | writeFile .. => False

/-- A directory needs a block for a name that it lacks if it has no free slot, but room for
another sector. -/
def EntryNeedsBlock (fs : Server) (inode : Inode) (name : List Byte) : Prop :=
  ∃ slot, fs.scanDir inode name = some slot ∧ slot.sector = 0 ∧ freeIndex inode ≠ none

/-- The entry of a new file needs a block, once the file has its inode. -/
def FileNeedsBlock (fs : Server) (path : List Byte) : Prop :=
  ∃ dir name, splitPath2parts path = some (dir, name) ∧ fs.MakesIn path (fs.dirIsExists dir) ∧
    ∀ fs₁ inode, fs.createInode = some (fs₁, inode) →
      (fs₁.syncInode inode).syncInodeBitmap.EntryNeedsBlock (fs.ino2inode (fs.dirIsExists dir)) name

/-- A block is needed for a new directory, for an entry, for a sector of the text that the
file does not have, and for each sector of the file that is copied. -/
def AllocatingCall.NeedsBlock (fs : Server) : AllocatingCall → Prop
  | mkdir path _ => ∃ parent, fs.MakesIn path parent
  | mkfile path => fs.FileNeedsBlock path
  | createDirEntry inode child => fs.EntryNeedsBlock inode child.name
  | writeFile fd str count mode =>
      ∃ file, fs.fileDescTbl fd = some file ∧
        fs.checkInodePermission file.inode accessWrite = true ∧
        ∃ i ∈ indices (writePlan file.inode.size str.strlen count mode).startSector
            ((writePlan file.inode.size str.strlen count mode).sectorCnts + 1),
          file.inode.sectorAt i = some 0
  | copyFile src dst =>
      fs.FileNeedsBlock dst ∨
        ∀ fs₁, fs.sysMkfile dst = some fs₁ →
          fs₁.checkInodePermission (fs₁.ino2inode (fs₁.dirIsExists src)) accessRead = true ∧
            ∃ i, (fs₁.ino2inode (fs₁.dirIsExists src)).sectors i ≠ 0

/-- There is a result, with the same paths, files and bitmaps. -/
def LeavesUnchanged (fs : Server) (call : AllocatingCall) : Prop :=
  ∃ fs', call.run fs = some fs' ∧ (∀ path, fs'.dirIsExists path = fs.dirIsExists path) ∧
    (∀ ino, fs.InUse ino → SameContent fs fs' ino) ∧
    fs'.inodeBmap = fs.inodeBmap ∧ fs'.blockBmap = fs.blockBmap

end Server

variable {bmap : Bitmap}

theorem Exhausted.bitmapScan (hfull : Exhausted bmap) : bmap.bitmapScan 1 = none := by
  rw [Option.eq_none_iff_forall_ne_some]
  intro idx hscan
  obtain ⟨hidx, hclear⟩ := Bitmap.bitmapScan_one_spec hscan
  rw [hfull idx hidx] at hclear
  cases hclear

/-- Without a clear bit a byte far behind every map is written, and no value is returned. -/
theorem takeSlot_of_none (hscan : bmap.bitmapScan 1 = none) :
    (takeSlot bmap).written = [0x1fffffff] ∧ (takeSlot bmap).returned = none := by
  simp only [takeSlot, hscan, Option.getD_none, ne_eq, not_true_eq_false, if_false, and_true]
  rfl

theorem not_reportsFailure (bmap : Bitmap) : ¬ ReportsFailure bmap := fun hreports =>
  absurd hreports.1 (List.cons_ne_nil _ _)

/-- Where a bit is clear, its slot is returned. -/
theorem takeSlot_of_scan {slot : Nat} (hscan : bmap.bitmapScan 1 = some slot)
    (hlen : bmap.bytesLen * 8 ≤ minusOne) :
    (takeSlot bmap).bmap = bmap.setBit slot true ∧ (takeSlot bmap).returned = some slot := by
  have hlt := (Bitmap.bitmapScan_one_spec hscan).1
  rw [takeSlot, hscan]
  exact ⟨rfl, if_pos (Nat.lt_of_lt_of_le hlt hlen).ne'⟩

namespace Server

variable {fs fs' : Server} {inode dstInode : Inode} {path dst : List Byte}

/-- The allocations of the model are those of the code. -/
theorem allocateBlock_eq (hlen : fs.blockBmap.bytesLen * 8 ≤ minusOne) :
    fs.allocateBlock = (takeSlot fs.blockBmap).returned.map fun slot =>
      ({ fs with blockBmap := (takeSlot fs.blockBmap).bmap }, slot) := by
  cases hscan : fs.blockBmap.bitmapScan 1 with
  | none => rw [allocateBlock, hscan, (takeSlot_of_none hscan).2, Option.map_none, Option.map_none]
  | some slot =>
      obtain ⟨hbmap, hreturned⟩ := takeSlot_of_scan hscan hlen
      rw [allocateBlock, hscan, hbmap, hreturned, Option.map_some, Option.map_some]

theorem allocateInodeNo_eq (hlen : fs.inodeBmap.bytesLen * 8 ≤ minusOne) :
    fs.allocateInodeNo = (takeSlot fs.inodeBmap).returned.map fun slot =>
      ({ fs with inodeBmap := (takeSlot fs.inodeBmap).bmap }, slot) := by
  cases hscan : fs.inodeBmap.bitmapScan 1 with
  | none =>
      rw [allocateInodeNo, hscan, (takeSlot_of_none hscan).2, Option.map_none, Option.map_none]
  | some slot =>
      obtain ⟨hbmap, hreturned⟩ := takeSlot_of_scan hscan hlen
      rw [allocateInodeNo, hscan, hbmap, hreturned, Option.map_some, Option.map_some]

theorem allocateBlock_exhausted (hfull : Exhausted fs.blockBmap) : fs.allocateBlock = none := by
  rw [allocateBlock, hfull.bitmapScan, Option.map_none]

theorem createInode_exhausted (hfull : Exhausted fs.inodeBmap) : fs.createInode = none := by
  rw [createInode, allocateInodeNo, hfull.bitmapScan, Option.map_none, Option.map_none]

/-- A new entry whose directory needs a block for it. -/
theorem createDirEntry_exhausted {child : DirEntry} (hfull : Exhausted fs.blockBmap)
    (hneeds : fs.EntryNeedsBlock inode child.name) : fs.createDirEntry inode child = none := by
  obtain ⟨slot, hscan, hsector, hroom⟩ := hneeds
  obtain ⟨i, hi⟩ := Option.ne_none_iff_exists'.mp hroom
  rw [createDirEntry, hscan]
  dsimp only
  rw [if_neg (not_not.mpr hsector), hi]
  dsimp only
  rw [allocateBlock_exhausted hfull]
  rfl

/-- An entry that was made nevertheless has taken no block. -/
theorem createDirEntry_blockBmap {child : DirEntry} (hfull : Exhausted fs.blockBmap)
    (hcreate : fs.createDirEntry inode child = some fs') : fs'.blockBmap = fs.blockBmap := by
  unfold createDirEntry at hcreate
  split at hcreate
  next =>
    cases hcreate
    rfl
  next =>
    split at hcreate
    next =>
      cases hcreate
      rfl
    next =>
      split at hcreate
      next =>
        cases hcreate
        rfl
      next =>
        rw [allocateBlock_exhausted hfull] at hcreate
        cases hcreate

theorem createInode_blockBmap (hcreate : fs.createInode = some (fs', inode)) :
    fs'.blockBmap = fs.blockBmap := by
  obtain ⟨-, -, rfl, -⟩ := createInode_spec hcreate
  rfl

theorem initChildDir_exhausted {heap : ByteArea} {parent ino : Nat}
    (hfull : Exhausted fs.blockBmap) : fs.initChildDir heap parent ino = none := by
  rw [initChildDir, allocateBlock_exhausted hfull]
  rfl

/-- What the creating calls do where they may make an entry. -/
theorem MakesIn.sysMkfile_eq {parent : Nat} (hmakes : fs.MakesIn path parent) :
    ∃ dir name, splitPath2parts path = some (dir, name) ∧ fs.dirIsExists dir = parent ∧
      fs.sysMkfile path = fs.createInode.bind fun created =>
        ((created.1.syncInode created.2).syncInodeBitmap).createDirEntry (fs.ino2inode parent)
          { name := name, inodeNo := created.2.inodeNo, type := .file } := by
  obtain ⟨hparent, hfound, hallowed⟩ := hmakes
  obtain ⟨⟨dir, name⟩, hsplit, rfl⟩ := Option.map_eq_some_iff.mp hparent
  rw [MayWrite] at hallowed
  refine ⟨dir, name, hsplit, rfl, ?_⟩
  simp only [sysMkfile, hsplit, hfound, if_false, hallowed, Bool.not_true, Bool.false_eq_true]
  rfl

theorem MakesIn.sysMkdir_eq {parent : Nat} (hmakes : fs.MakesIn path parent) (heap : ByteArea) :
    ∃ name, fs.sysMkdir heap path = fs.createInode.bind fun created =>
      (((created.1.syncInode created.2).syncInodeBitmap).createDirEntry (fs.ino2inode parent)
        { name := name, inodeNo := created.2.inodeNo, type := .dir }).bind fun fs =>
          fs.initChildDir heap parent created.2.inodeNo := by
  obtain ⟨hparent, hfound, hallowed⟩ := hmakes
  obtain ⟨⟨dir, name⟩, hsplit, rfl⟩ := Option.map_eq_some_iff.mp hparent
  rw [MayWrite] at hallowed
  refine ⟨name, ?_⟩
  simp only [sysMkdir, hsplit, hfound, if_false, hallowed, Bool.not_true, Bool.false_eq_true]
  rfl

theorem sysMkdir_exhausted {parent : Nat} (hfull : Exhausted fs.blockBmap)
    (hmakes : fs.MakesIn path parent) (heap : ByteArea) : fs.sysMkdir heap path = none := by
  obtain ⟨name, hmkdir⟩ := hmakes.sysMkdir_eq heap
  rw [hmkdir, Option.bind_eq_none_iff]
  intro created hcreated
  rw [Option.bind_eq_none_iff]
  intro fs₂ hentry
  have hbmap := createInode_blockBmap hcreated
  have hfull₁ : Exhausted ((created.1.syncInode created.2).syncInodeBitmap).blockBmap :=
    hbmap.symm ▸ hfull
  exact initChildDir_exhausted (createDirEntry_blockBmap hfull₁ hentry ▸ hfull₁)

theorem sysMkfile_exhausted (hfull : Exhausted fs.blockBmap) (hneeds : fs.FileNeedsBlock path) :
    fs.sysMkfile path = none := by
  obtain ⟨dir, name, hsplit, hmakes, hneeds⟩ := hneeds
  obtain ⟨dir', name', hsplit', -, hmkfile⟩ := hmakes.sysMkfile_eq
  rw [hsplit, Option.some.injEq, Prod.mk.injEq] at hsplit'
  obtain ⟨rfl, rfl⟩ := hsplit'
  rw [hmkfile, Option.bind_eq_none_iff]
  intro created hcreated
  have hbmap := createInode_blockBmap hcreated
  exact createDirEntry_exhausted (hbmap.symm ▸ hfull) (hneeds created.1 created.2 hcreated)

/-- A file that was made nevertheless has taken no block. -/
theorem sysMkfile_blockBmap (hfull : Exhausted fs.blockBmap)
    (hmake : fs.sysMkfile path = some fs') : fs'.blockBmap = fs.blockBmap := by
  by_cases hmakes : ∃ parent, fs.MakesIn path parent
  · obtain ⟨parent, hmakes⟩ := hmakes
    obtain ⟨dir, name, -, -, hmkfile⟩ := hmakes.sysMkfile_eq
    rw [hmkfile, Option.bind_eq_some_iff] at hmake
    obtain ⟨created, hcreated, hentry⟩ := hmake
    have hbmap := createInode_blockBmap hcreated
    exact (createDirEntry_blockBmap (hbmap.symm ▸ hfull) hentry).trans hbmap
  · have hrefused := (making_refused (not_exists.mp hmakes) ByteArea.zeros).2
    rw [hmake, Option.some.injEq] at hrefused
    rw [hrefused]

/-- The loop stops at the first sector that has no block. -/
theorem allocateSectors_exhausted {indices : List Nat} (hfull : Exhausted fs.blockBmap)
    (hneeds : ∃ i ∈ indices, inode.sectorAt i = some 0) :
    fs.allocateSectors inode indices = none := by
  induction indices with
  | nil =>
      obtain ⟨i, hmem, -⟩ := hneeds
      cases hmem
  | cons i rest ih =>
      rw [allocateSectors]
      cases hsector : inode.sectorAt i with
      | none => rfl
      | some lba =>
          change (if lba = 0 then _ else fs.allocateSectors inode rest) = none
          split
          next =>
            rw [allocateBlock_exhausted hfull]
            rfl
          next hne =>
            obtain ⟨k, hmem, hk⟩ := hneeds
            rcases List.mem_cons.mp hmem with rfl | hrest
            · rw [hsector, Option.some.injEq] at hk
              exact absurd hk hne
            · exact ih ⟨k, hrest, hk⟩

theorem copySectors_exhausted {indices : List (Fin 9)} (hfull : Exhausted fs.blockBmap)
    (hneeds : ∃ i ∈ indices, inode.sectors i ≠ 0) :
    fs.copySectors inode dstInode indices = none := by
  induction indices with
  | nil =>
      obtain ⟨i, hmem, -⟩ := hneeds
      cases hmem
  | cons i rest ih =>
      rw [copySectors]
      split
      next hzero =>
        obtain ⟨k, hmem, hk⟩ := hneeds
        rcases List.mem_cons.mp hmem with rfl | hrest
        · exact absurd hzero hk
        · exact ih ⟨k, hrest, hk⟩
      next =>
        rw [allocateBlock_exhausted hfull]
        rfl

variable {call : AllocatingCall}

/-- Without a free inode no call that needs one has a result. -/
theorem run_eq_none_of_needsInode (hfull : Exhausted fs.inodeBmap) (hneeds : call.NeedsInode fs) :
    call.run fs = none := by
  have hmkfile : ∀ {path}, (∃ parent, fs.MakesIn path parent) → fs.sysMkfile path = none := by
    rintro path ⟨parent, hmakes⟩
    obtain ⟨dir, name, -, -, hmkfile⟩ := hmakes.sysMkfile_eq
    rw [hmkfile, createInode_exhausted hfull, Option.bind_none]
  cases call with
  | mkdir path heap =>
      obtain ⟨parent, hmakes⟩ := hneeds
      obtain ⟨name, hmkdir⟩ := hmakes.sysMkdir_eq heap
      change fs.sysMkdir heap path = none
      rw [hmkdir, createInode_exhausted hfull, Option.bind_none]
  | mkfile path => exact hmkfile hneeds
  | createDirEntry inode child => exact hneeds.elim
  | writeFile fd str count mode => exact hneeds.elim
  | copyFile src dst =>
      change fs.copyFile src dst = none
      rw [copyFile, hmkfile hneeds]
      rfl

/-- Without a free block no call that needs one has a result. -/
theorem run_eq_none_of_needsBlock (hfull : Exhausted fs.blockBmap) (hneeds : call.NeedsBlock fs) :
    call.run fs = none := by
  cases call with
  | mkdir path heap =>
      obtain ⟨parent, hmakes⟩ := hneeds
      exact sysMkdir_exhausted hfull hmakes heap
  | mkfile path => exact sysMkfile_exhausted hfull hneeds
  | createDirEntry inode child => exact createDirEntry_exhausted hfull hneeds
  | writeFile fd str count mode =>
      obtain ⟨file, hfile, hallowed, hneeds⟩ := hneeds
      change fs.writeFile fd str count mode = none
      by_cases hfd : fd < 64
      · rw [writeFile, fileAt, if_pos hfd, hfile]
        simp only [Option.bind_eq_bind, Option.bind_some, hallowed, Bool.not_true,
          Bool.false_eq_true, if_false, allocateSectors_exhausted hfull hneeds, Option.bind_none]
      · rw [writeFile, fileAt, if_neg hfd]
        rfl
  | copyFile src dst =>
      change fs.copyFile src dst = none
      rw [copyFile]
      rcases hneeds with hneeds | hneeds
      · rw [sysMkfile_exhausted hfull hneeds]
        rfl
      · cases hmake : fs.sysMkfile dst with
        | none => rfl
        | some fs₁ =>
            obtain ⟨hallowed, i, hi⟩ := hneeds fs₁ hmake
            have hfull₁ : Exhausted fs₁.blockBmap := sysMkfile_blockBmap hfull hmake ▸ hfull
            simp only [Option.bind_eq_bind, Option.bind_some, hallowed, Bool.not_true,
              Bool.false_eq_true, if_false,
              copySectors_exhausted hfull₁ ⟨i, List.mem_finRange i, hi⟩, Option.bind_none]

theorem not_leavesUnchanged (hnone : call.run fs = none) : ¬ fs.LeavesUnchanged call := by
  rintro ⟨fs', hresult, -⟩
  rw [hnone] at hresult
  cases hresult

/-- Exhaustion is never reported, and no call that runs into it leaves the state as it is. -/
theorem exhaustion_unreported (fs : Server) :
    (Exhausted fs.blockBmap → ¬ ReportsFailure fs.blockBmap ∧
      ∀ call : AllocatingCall, call.NeedsBlock fs → ¬ fs.LeavesUnchanged call) ∧
    (Exhausted fs.inodeBmap → ¬ ReportsFailure fs.inodeBmap ∧
      ∀ call : AllocatingCall, call.NeedsInode fs → ¬ fs.LeavesUnchanged call) :=
  ⟨fun hfull => ⟨not_reportsFailure _,
      fun _ hneeds => not_leavesUnchanged (run_eq_none_of_needsBlock hfull hneeds)⟩,
    fun hfull => ⟨not_reportsFailure _,
      fun _ hneeds => not_leavesUnchanged (run_eq_none_of_needsInode hfull hneeds)⟩⟩

/-- A map of eight set bits. -/
def fullBitmap : Bitmap := ⟨1, fun _ => 0xff⟩

theorem fullBitmap_exhausted : Exhausted fullBitmap := by
  unfold Exhausted
  decide

/-- The superuser on a full disk. -/
def fullTree : Server := { rootTree with blockBmap := fullBitmap, inodeBmap := fullBitmap }

theorem fullTree_makesIn : fullTree.MakesIn pathC.chars 0 :=
  ⟨by decide, by decide, by decide⟩

/-- A new directory and a new file on the full disk. -/
theorem exhaustion_unreported_full :
    (¬ ReportsFailure fullTree.blockBmap ∧
        ¬ fullTree.LeavesUnchanged (.mkdir pathC.chars ByteArea.zeros)) ∧
      ¬ ReportsFailure fullTree.inodeBmap ∧ ¬ fullTree.LeavesUnchanged (.mkfile pathC.chars) :=
  have ⟨hblock, hinode⟩ := exhaustion_unreported fullTree
  ⟨⟨(hblock fullBitmap_exhausted).1, (hblock fullBitmap_exhausted).2 _ ⟨0, fullTree_makesIn⟩⟩,
    (hinode fullBitmap_exhausted).1, (hinode fullBitmap_exhausted).2 _ ⟨0, fullTree_makesIn⟩⟩

/-- A full map is written behind its end, and the new directory has no defined result. -/
theorem full_disk_unreported :
    ¬ ∀ fs : Server,
      (Exhausted fs.blockBmap → ReportsFailure fs.blockBmap ∧
        ∀ call : AllocatingCall, call.NeedsBlock fs → fs.LeavesUnchanged call) ∧
      (Exhausted fs.inodeBmap → ReportsFailure fs.inodeBmap ∧
        ∀ call : AllocatingCall, call.NeedsInode fs → fs.LeavesUnchanged call) := by
  intro hall
  exact not_reportsFailure fullTree.blockBmap ((hall fullTree).1 fullBitmap_exhausted).1

end Server

end Shmily.Fs
