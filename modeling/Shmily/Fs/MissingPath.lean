import Shmily.Fs.Components
import Shmily.Fs.Making
import Shmily.Fs.Moving

/-! # Removing what is not there

`sys_rmfile` stops when the path is not found. `sys_rmdir` goes on with the result `-1` as
an inode number: it loads the record of this inode from far behind the inode table, and if
what lies there looks like an empty directory, it frees the inode.
-/

namespace Shmily.Fs.Server

open Foundation Lib

/-- What an operation accesses: a sector of the disk, or a bit of one of the bitmaps. -/
inductive Access where
  | sector (lba : Nat)
  | inodeBit (ino : Nat)
  | blockBit (blockNo : Nat)
  deriving DecidableEq

/-- A sector of the partition, or a bit of the map. -/
def Access.Within (fs : Server) (inside : Nat → Prop) : Access → Prop
  | sector lba => inside lba
  | inodeBit ino => ino < fs.inodeBmap.bytesLen * 8
  | blockBit blockNo => blockNo < fs.blockBmap.bytesLen * 8

/-- The sectors that `find_dir_entry` reads, from some of the nine on. -/
def findSectorsFrom (fs : Server) (inode : Inode) (child : List Byte) : List (Fin 9) → List Nat
  | [] => []
  | i :: rest =>
      if inode.sectors i = 0 then fs.findSectorsFrom inode child rest
      else if (findInSector (fs.disk (inode.sectors i)) child).isSome then [inode.sectors i]
      else inode.sectors i :: fs.findSectorsFrom inode child rest

/-- The sectors that `find_dir_entry` reads. -/
def findSectors (fs : Server) (inode : Inode) (child : List Byte) : List Nat :=
  fs.findSectorsFrom inode child (List.finRange 9)

/-- The sectors that the loop of `dir_is_exists` reads: those of each directory, and then
that of the inode that was found there. -/
def walkSectors (fs : Server) : Nat → Nat → List Byte → List Nat
  | 0, _, _ => []
  | fuel + 1, ino, path =>
      let (component, next) := splitPath path
      let found :=
        if component = [slash] then ino else fs.findDirEntry (fs.ino2inode ino) component
      let read := if component = [slash] then [] else fs.findSectors (fs.ino2inode ino) component
      if component ≠ [slash] ∧ found = minusOne then read
      else
        let loaded := if component = [slash] then [] else [fs.inodeSector found]
        match next with
        | none => read ++ loaded
        | some path => read ++ loaded ++ walkSectors fs fuel found path

/-- The sectors that `dir_is_exists` reads. -/
def resolveSectors (fs : Server) (path : List Byte) : List Nat :=
  if path.head? ≠ some slash then []
  else if path.tail = [] then []
  else
    fs.inodeSector fs.sb.rootInodeNo :: fs.walkSectors (path.length + 1) fs.sb.rootInodeNo path

/-- The sectors of `sync_inode_bitmap`. -/
def inodeBitmapAccesses (fs : Server) : List Access :=
  (List.range' fs.sb.inodeBitmapLba fs.sb.inodeBitmapSectors).map .sector

/-- The sectors of `sync_block_bitmap`. -/
def blockBitmapAccesses (fs : Server) : List Access :=
  (List.range' fs.sb.blockBitmapLba fs.sb.blockBitmapSectors).map .sector

/-- The accesses of `remove_dir_entry`, from some of the nine sectors on. -/
def removeAccesses (inode : Inode) (name : List Byte) :
    List (Fin 9) → Bool → Server → List Access
  | [], _, _ => []
  | i :: rest, isFound, fs =>
      if inode.sectors i = 0 then removeAccesses inode name rest isFound fs
      else
        let scan := fs.removeInSector (inode.sectors i) name isFound
        if scan.isFound ∧ scan.emptyCnts = DirEntry.perSector then
          [.sector (inode.sectors i), .blockBit (fs.blockOf (inode.sectors i))] ++
            fs.blockBitmapAccesses ++ [.sector (fs.inodeSector inode.inodeNo)]
        else .sector (inode.sectors i) :: removeAccesses inode name rest scan.isFound scan.fs

/-- The accesses of `free_inode` and `sync_inode_bitmap`. -/
def freeInodeAccesses (fs : Server) (ino : Nat) : List Access :=
  .inodeBit ino :: fs.inodeBitmapAccesses

/-- The accesses of `sys_rmdir`. The first sector of the directory is read even if its
number is zero. -/
def sysRmdirAccesses (fs : Server) (path : List Byte) : List Access :=
  let inode := fs.ino2inode (fs.dirIsExists path)
  let looked := (fs.resolveSectors path).map .sector ++
    [.sector (fs.inodeSector (fs.dirIsExists path)), .sector (inode.sectors 0)]
  if !fs.dirIsEmpty path then looked
  else
    match splitPath2parts path with
    | none => looked
    | some (parent, pathDel) =>
        let parentIno := fs.dirIsExists parent
        let resolved := looked ++ (fs.resolveSectors parent).map .sector ++
          (fs.resolveSectors path).map .sector
        if parentIno = minusOne then resolved
        else
          let inodeParent := fs.ino2inode parentIno
          let loaded := resolved ++ [.sector (fs.inodeSector parentIno)]
          if !fs.checkInodePermission inodeParent accessWrite then loaded
          else
            loaded ++ removeAccesses inodeParent pathDel (List.finRange 9) false fs ++
              fs.freeInodeAccesses (fs.dirIsExists path)

/-- The accesses of `sys_rmfile`. -/
def sysRmfileAccesses (fs : Server) (path : List Byte) : List Access :=
  match splitPath2parts path with
  | none => []
  | some (parent, fileDel) =>
      let parentIno := fs.dirIsExists parent
      let fileDelIno := fs.dirIsExists path
      let resolved :=
        (fs.resolveSectors parent).map .sector ++ (fs.resolveSectors path).map .sector
      if fileDelIno = minusOne then resolved
      else
        let inodeParent := fs.ino2inode parentIno
        let loaded := resolved ++ [.sector (fs.inodeSector parentIno)]
        if !fs.checkInodePermission inodeParent accessWrite then loaded
        else
          let inodeDel := fs.ino2inode fileDelIno
          loaded ++ [.sector (fs.inodeSector fileDelIno)] ++
            removeAccesses inodeParent fileDel (List.finRange 9) false fs ++
            (((List.finRange 9).filter fun i => inodeDel.sectors i ≠ 0).map fun i =>
              .blockBit (fs.blockOf (inodeDel.sectors i))) ++
            fs.blockBitmapAccesses ++ fs.freeInodeAccesses fileDelIno

/-- Nothing has changed, and nothing outside the partition and the bitmaps was accessed. -/
def Harmless (fs : Server) (inside : Nat → Prop) (fs' : Server) (accesses : List Access) : Prop :=
  SameStorage fs fs' ∧ ∀ access ∈ accesses, access.Within fs inside

/-- Resolution only reads sectors of the partition. -/
def ResolvesInside (fs : Server) (inside : Nat → Prop) (path : List Byte) : Prop :=
  ∀ lba ∈ fs.resolveSectors path, inside lba

variable {fs : Server} {inside : Nat → Prop} {path parent name : List Byte} {lbas : List Nat}

theorem within_sectors :
    (∀ access ∈ lbas.map Access.sector, access.Within fs inside) ↔ ∀ lba ∈ lbas, inside lba := by
  rw [List.forall_mem_map]
  rfl

/-- A path that is not found is left alone by `sys_rmfile`. -/
theorem sysRmfile_missing (hsplit : splitPath2parts path = some (parent, name))
    (hmissing : fs.dirIsExists path = minusOne) :
    Harmless fs inside (fs.sysRmfile path) (fs.sysRmfileAccesses path) ↔
      fs.ResolvesInside inside parent ∧ fs.ResolvesInside inside path := by
  have hsame : fs.sysRmfile path = fs := by
    simp only [sysRmfile, hsplit, hmissing, if_true]
  have haccesses : fs.sysRmfileAccesses path =
      (fs.resolveSectors parent).map .sector ++ (fs.resolveSectors path).map .sector := by
    simp only [sysRmfileAccesses, hsplit, hmissing, if_true]
  rw [Harmless, hsame, haccesses, List.forall_mem_append, within_sectors, within_sectors]
  exact and_iff_right (.refl fs)

/-- `sys_rmdir` loads the record of the inode number `-1`. Only if this is inside the
partition, and if the directory is then refused, nothing happens. -/
theorem sysRmdir_missing (hsplit : splitPath2parts path = some (parent, name))
    (hmissing : fs.dirIsExists path = minusOne) (hbits : fs.inodeBmap.bytesLen * 8 ≤ minusOne) :
    Harmless fs inside (fs.sysRmdir path) (fs.sysRmdirAccesses path) ↔
      fs.ResolvesInside inside path ∧ inside (fs.inodeSector minusOne) ∧
        inside ((fs.ino2inode minusOne).sectors 0) ∧
        (fs.dirIsEmpty path = true → fs.ResolvesInside inside parent ∧
          (fs.dirIsExists parent = minusOne ∨
            inside (fs.inodeSector (fs.dirIsExists parent)) ∧
              ¬ fs.MayWrite (fs.dirIsExists parent))) := by
  have hlooked : (∀ access ∈ (fs.resolveSectors path).map Access.sector ++
      [.sector (fs.inodeSector minusOne), .sector ((fs.ino2inode minusOne).sectors 0)],
      access.Within fs inside) ↔ fs.ResolvesInside inside path ∧ inside (fs.inodeSector minusOne) ∧
        inside ((fs.ino2inode minusOne).sectors 0) := by
    rw [List.forall_mem_append, within_sectors]
    simp only [List.forall_mem_cons, List.not_mem_nil, false_implies, implies_true, and_true]
    rfl
  rw [Harmless, sysRmdir, sysRmdirAccesses, hmissing]
  dsimp only
  generalize (fs.resolveSectors path).map Access.sector ++
    [.sector (fs.inodeSector minusOne), .sector ((fs.ino2inode minusOne).sectors 0)] = looked at *
  cases hempty : fs.dirIsEmpty path with
  | false =>
      simp only [Bool.not_false, if_true, hlooked, Bool.false_eq_true, false_implies, and_true]
      exact and_iff_right (.refl fs)
  | true =>
      simp only [Bool.not_true, Bool.false_eq_true, if_false, hsplit, true_implies]
      by_cases hparent : fs.dirIsExists parent = minusOne
      · simp only [hparent, if_true, List.forall_mem_append, hlooked, within_sectors, true_or,
          and_true]
        constructor
        · rintro ⟨-, ⟨⟨hpath, hrecord, hfirst⟩, hdir⟩, -⟩
          exact ⟨hpath, hrecord, hfirst, hdir⟩
        · rintro ⟨hpath, hrecord, hfirst, hdir⟩
          exact ⟨.refl fs, ⟨⟨hpath, hrecord, hfirst⟩, hdir⟩, hpath⟩
      · simp only [hparent, if_false, false_or, MayWrite]
        cases hwrite : fs.checkInodePermission (fs.ino2inode (fs.dirIsExists parent)) accessWrite with
        | false =>
            simp only [Bool.not_false, if_true, List.forall_mem_append, hlooked, within_sectors,
              List.forall_mem_singleton, Bool.false_eq_true, not_false_eq_true, and_true]
            constructor
            · rintro ⟨-, ⟨⟨⟨hpath, hrecord, hfirst⟩, hdir⟩, -⟩, hloaded⟩
              exact ⟨hpath, hrecord, hfirst, hdir, hloaded⟩
            · rintro ⟨hpath, hrecord, hfirst, hdir, hloaded⟩
              exact ⟨.refl fs, ⟨⟨⟨hpath, hrecord, hfirst⟩, hdir⟩, hpath⟩, hloaded⟩
        | true =>
            -- the inode with the number `-1` is freed
            refine iff_of_false ?_ fun hcond => hcond.2.2.2.2.2 rfl
            rintro ⟨-, hall⟩
            have hbit : Access.Within fs inside (.inodeBit minusOne) := hall _ (by
              simp only [Bool.not_true, Bool.false_eq_true, if_false, freeInodeAccesses]
              exact List.mem_append_right _ List.mem_cons_self)
            exact absurd hbit (Nat.not_lt.mpr hbits)

/-- Removing a path that is not found is harmless if and only if resolution, the record of
the inode number `-1` and its first sector lie inside the partition, and this record is not
that of an empty directory, or the parent is refused. -/
theorem removingMissing_iff (hsplit : splitPath2parts path = some (parent, name))
    (hmissing : fs.dirIsExists path = minusOne) (hbits : fs.inodeBmap.bytesLen * 8 ≤ minusOne) :
    Harmless fs inside (fs.sysRmdir path) (fs.sysRmdirAccesses path) ∧
        Harmless fs inside (fs.sysRmfile path) (fs.sysRmfileAccesses path) ↔
      (fs.ResolvesInside inside path ∧ fs.ResolvesInside inside parent) ∧
        (inside (fs.inodeSector minusOne) ∧ inside ((fs.ino2inode minusOne).sectors 0)) ∧
        (fs.dirIsEmpty path = true → fs.dirIsExists parent = minusOne ∨
          inside (fs.inodeSector (fs.dirIsExists parent)) ∧
            ¬ fs.MayWrite (fs.dirIsExists parent)) := by
  rw [sysRmdir_missing hsplit hmissing hbits, sysRmfile_missing hsplit hmissing]
  constructor
  · rintro ⟨⟨hpath, hrecord, hfirst, hrefused⟩, hdir, -⟩
    exact ⟨⟨hpath, hdir⟩, ⟨hrecord, hfirst⟩, fun hempty => (hrefused hempty).2⟩
  · rintro ⟨⟨hpath, hdir⟩, ⟨hrecord, hfirst⟩, hrefused⟩
    exact ⟨⟨hpath, hrecord, hfirst, fun hempty => ⟨hdir, hrefused hempty⟩⟩, hdir, hpath⟩

/-- The disk driver has 28 bits for the number of a sector. On such a disk the record of
the inode number `-1` never lies inside the partition. -/
theorem sysRmdir_missing_outside (hsplit : splitPath2parts path = some (parent, name))
    (hmissing : fs.dirIsExists path = minusOne) (hbits : fs.inodeBmap.bytesLen * 8 ≤ minusOne)
    (hdisk : ∀ lba, inside lba → lba < 2 ^ 28) (htable : fs.sb.inodeTableLba < 2 ^ 28) :
    ¬ Harmless fs inside (fs.sysRmdir path) (fs.sysRmdirAccesses path) := by
  rw [sysRmdir_missing hsplit hmissing hbits]
  rintro ⟨-, hrecord, -⟩
  have hlt := hdisk _ hrecord
  simp only [inodeSector, minusOne, sectorSize, Inode.bytes] at hlt
  omega

/-- The sectors of the small partition. -/
def InSmallPartition (lba : Nat) : Prop := 2 ≤ lba ∧ lba < 21

/-- The directory `c` is not there. -/
theorem removingMissing_iff_c :
    Harmless rootTree InSmallPartition (rootTree.sysRmdir pathC.chars)
          (rootTree.sysRmdirAccesses pathC.chars) ∧
        Harmless rootTree InSmallPartition (rootTree.sysRmfile pathC.chars)
          (rootTree.sysRmfileAccesses pathC.chars) ↔
      (rootTree.ResolvesInside InSmallPartition pathC.chars ∧
          rootTree.ResolvesInside InSmallPartition [slash]) ∧
        (InSmallPartition (rootTree.inodeSector minusOne) ∧
          InSmallPartition ((rootTree.ino2inode minusOne).sectors 0)) ∧
        (rootTree.dirIsEmpty pathC.chars = true → rootTree.dirIsExists [slash] = minusOne ∨
          InSmallPartition (rootTree.inodeSector (rootTree.dirIsExists [slash])) ∧
            ¬ rootTree.MayWrite (rootTree.dirIsExists [slash])) :=
  removingMissing_iff (show splitPath2parts pathC.chars = some ([slash], [0x63]) by decide)
    (by decide) (by decide)

/-- The inode with the number `-1` is freed. -/
theorem missing_directory_frees_inode :
    ¬ ∀ (fs : Server) (inside : Nat → Prop) (path : List Byte), fs.Consistent →
      (∀ lba, fs.sb.blockBitmapLba ≤ lba → lba < fs.sb.dataStart + fs.blockBmap.bytesLen * 8 →
        inside lba) →
      path.head? = some slash → fs.dirIsExists path = minusOne →
      Harmless fs inside (fs.sysRmdir path) (fs.sysRmdirAccesses path) ∧
        Harmless fs inside (fs.sysRmfile path) (fs.sysRmfileAccesses path) := by
  intro hall
  obtain ⟨⟨-, hwithin⟩, -⟩ := hall rootTree (fun lba => 2 ≤ lba ∧ lba < 21) pathC.chars
    rootTree_consistent (fun lba hlow hhigh => ⟨hlow, hhigh⟩) rfl (by decide)
  have hfreed : Access.inodeBit minusOne ∈ rootTree.sysRmdirAccesses pathC.chars := by decide
  have hbit := hwithin _ hfreed
  exact absurd hbit (by change ¬ minusOne < 8; decide)

/-! ### Resolution in a consistent file system -/

variable {ino fuel : Nat} {inode : Inode}

theorem mem_findSectorsFrom {indices : List (Fin 9)} {lba : Nat}
    (hmem : lba ∈ fs.findSectorsFrom inode name indices) :
    ∃ i, inode.sectors i ≠ 0 ∧ inode.sectors i = lba := by
  induction indices with
  | nil => exact absurd hmem List.not_mem_nil
  | cons i rest ih =>
      unfold findSectorsFrom at hmem
      split at hmem
      next => exact ih hmem
      next hne =>
        split at hmem
        next => exact ⟨i, hne, (List.mem_singleton.mp hmem).symm⟩
        next =>
          rcases List.mem_cons.mp hmem with rfl | hrest
          · exact ⟨i, hne, rfl⟩
          · exact ih hrest

/-- The table and the data blocks lie inside. -/
def RegionsInside (fs : Server) (inside : Nat → Prop) : Prop :=
  ∀ lba, fs.sb.inodeTableLba ≤ lba → lba < fs.sb.dataStart + fs.blockBmap.bytesLen * 8 → inside lba

theorem findSectors_inside (hcons : fs.Consistent) (hregions : fs.RegionsInside inside)
    (huse : fs.InUse ino) (name : List Byte) :
    ∀ lba ∈ fs.findSectors (fs.ino2inode ino) name, inside lba := by
  intro lba hmem
  obtain ⟨i, hne, rfl⟩ := mem_findSectorsFrom hmem
  have hoccupied := (hcons.owned ino huse).occupied i hne
  exact hregions _ (hoccupied.isDataSector.table_le hcons.layout) hoccupied.2.1

theorem inodeSector_inside (hcons : fs.Consistent) (hregions : fs.RegionsInside inside)
    (huse : fs.InUse ino) : inside (fs.inodeSector ino) := by
  obtain ⟨hlow, hhigh⟩ := inodeSector_mem hcons.layout huse.1
  exact hregions _ hlow (Nat.lt_of_lt_of_le hhigh (Nat.le_add_right _ _))

/-- What is found has a name and is in use, so that the walk stays inside. -/
theorem walkSectors_inside (hcons : fs.Consistent) (hclosed : fs.Closed)
    (hregions : fs.RegionsInside inside) (huse : fs.InUse ino)
    (hnames : ∀ name ∈ components path, IsName name) :
    ∀ lba ∈ fs.walkSectors fuel ino path, inside lba := by
  induction fuel generalizing ino path with
  | zero => exact fun lba hmem => absurd hmem List.not_mem_nil
  | succ fuel ih =>
      have hread := fun name => findSectors_inside hcons hregions huse name
      have hnext : ∀ name, IsName name → fs.findDirEntry (fs.ino2inode ino) name ≠ minusOne →
          fs.InUse (fs.findDirEntry (fs.ino2inode ino) name) := fun name hname hfound =>
        (hclosed ino name huse hname).resolve_left hfound
      rcases path_cases path with hslash | ⟨rest, rfl⟩ | ⟨name, rest, rfl, hname, hslash⟩
      · have hne : path ≠ [slash] := fun h => hslash (h ▸ List.mem_singleton_self _)
        by_cases hnil : path = []
        · subst hnil
          rw [walkSectors, splitPath]
          simpa [findDirEntry_nil] using hread []
        · rw [components_last hnil hslash, List.forall_mem_singleton] at hnames
          rw [walkSectors, splitPath_last hnil hslash]
          simp only [hne, if_false, ne_eq, not_false_eq_true, true_and]
          split
          next => exact hread path
          next hfound =>
            rw [List.forall_mem_append, List.forall_mem_singleton]
            exact ⟨hread path, inodeSector_inside hcons hregions (hnext path hnames hfound)⟩
      · rw [components_slash] at hnames
        rw [walkSectors, splitPath_slash]
        simpa using ih huse hnames
      · have hne : name ≠ [slash] := fun h => hslash (h ▸ List.mem_singleton_self _)
        rw [components_step hname hslash, List.forall_mem_cons] at hnames
        rw [walkSectors, splitPath_step hname hslash]
        simp only [hne, if_false, ne_eq, not_false_eq_true, true_and]
        split
        next => exact hread name
        next hfound =>
          have huse' := hnext name hnames.1 hfound
          rw [List.forall_mem_append, List.forall_mem_append, List.forall_mem_singleton]
          exact ⟨⟨hread name, inodeSector_inside hcons hregions huse'⟩, ih huse' hnames.2⟩

/-- In a consistent file system in which every name is that of an inode in use, resolution
stays inside the partition. -/
theorem resolvesInside (hcons : fs.Consistent) (hclosed : fs.Closed)
    (hregions : fs.RegionsInside inside) (hroot : fs.InUse fs.sb.rootInodeNo)
    (hnames : ∀ name ∈ components path, IsName name) : fs.ResolvesInside inside path := by
  unfold ResolvesInside resolveSectors
  split
  next => exact fun lba hmem => absurd hmem List.not_mem_nil
  next =>
    split
    next => exact fun lba hmem => absurd hmem List.not_mem_nil
    next =>
      rw [List.forall_mem_cons]
      exact ⟨inodeSector_inside hcons hregions hroot,
        walkSectors_inside hcons hclosed hregions hroot hnames⟩

/-- There `sys_rmfile` is harmless. -/
theorem sysRmfile_missing_harmless (hcons : fs.Consistent) (hclosed : fs.Closed)
    (hregions : fs.RegionsInside inside) (hroot : fs.InUse fs.sb.rootInodeNo)
    (hsplit : splitPath2parts path = some (parent, name)) (hmissing : fs.dirIsExists path = minusOne)
    (hnames : ∀ name ∈ components path, IsName name)
    (hparent : ∀ name ∈ components parent, IsName name) :
    Harmless fs inside (fs.sysRmfile path) (fs.sysRmfileAccesses path) :=
  (sysRmfile_missing hsplit hmissing).mpr
    ⟨resolvesInside hcons hclosed hregions hroot hparent,
      resolvesInside hcons hclosed hregions hroot hnames⟩

end Shmily.Fs.Server
