import Shmily.Fs.AccessControl
import Shmily.Fs.Removal

/-! # What making an entry leaves behind

`sys_mkdir` and `sys_mkfile` take an inode before `create_dir_entry` sees that the name is
there already, and nothing gives it back. The block that a new directory is made in is not
given back either, when the directory is removed.
-/

namespace Shmily.Fs.Server

open Foundation Lib

/-- The bitmaps and the disk are as they were. -/
structure SameStorage (fs fs' : Server) : Prop where
  inodeBmap : fs'.inodeBmap = fs.inodeBmap
  blockBmap : fs'.blockBmap = fs.blockBmap
  disk : fs'.disk = fs.disk

/-- There is a result, in which nothing has changed. -/
def ChangesNothing (fs : Server) (result : Option Server) : Prop :=
  ∃ fs', result = some fs' ∧ SameStorage fs fs'

/-- An inode is taken. -/
def TakesInode (fs fs' : Server) : Prop :=
  ∃ ino, fs.inodeBmap.verifyBit ino = false ∧ fs'.inodeBmap = fs.inodeBmap.setBit ino true

variable {fs fs' : Server} {inode : Inode} {child : DirEntry} {path name : List Byte}
  {heap : ByteArea} {parent ino : Nat}

theorem SameStorage.refl (fs : Server) : SameStorage fs fs := ⟨rfl, rfl, rfl⟩

theorem TakesInode.not_same (htakes : TakesInode fs fs') : ¬ SameStorage fs fs' := by
  obtain ⟨ino, hclear, hset⟩ := htakes
  intro hsame
  have hbit := Bitmap.verifyBit_setBit fs.inodeBmap ino ino true
  rw [← hset, hsame.inodeBmap, hclear, if_pos rfl] at hbit
  cases hbit

theorem allocateBlock_inodeBmap {blockNo : Nat} (halloc : fs.allocateBlock = some (fs', blockNo)) :
    fs'.inodeBmap = fs.inodeBmap := by
  obtain ⟨-, -, rfl⟩ := allocateBlock_spec halloc
  rfl

theorem createDirEntry_inodeBmap (hcreate : fs.createDirEntry inode child = some fs') :
    fs'.inodeBmap = fs.inodeBmap := by
  unfold createDirEntry at hcreate
  split at hcreate
  next =>
    cases hcreate
    rfl
  next =>
    split at hcreate
    next =>
      cases hcreate
      rfl
    next =>
      split at hcreate
      next =>
        cases hcreate
        rfl
      next =>
        simp only [Option.bind_eq_bind, Option.bind_eq_some_iff, Prod.exists] at hcreate
        obtain ⟨fs₁, blockNo, halloc, hcreate⟩ := hcreate
        cases hcreate
        have hsame := allocateBlock_inodeBmap halloc
        exact hsame

theorem initChildDir_inodeBmap (hinit : fs.initChildDir heap parent ino = some fs') :
    fs'.inodeBmap = fs.inodeBmap := by
  simp only [initChildDir, Option.bind_eq_bind, Option.bind_eq_some_iff, Prod.exists] at hinit
  obtain ⟨fs₁, blockNo, halloc, hinit⟩ := hinit
  cases hinit
  have hsame := allocateBlock_inodeBmap halloc
  exact hsame

/-- The parent is found and may be written to: an inode is taken, whether the name is there
or not. -/
theorem sysMkfile_takesInode (hmakes : fs.MakesIn path parent)
    (hmake : fs.sysMkfile path = some fs') : TakesInode fs fs' := by
  obtain ⟨hparent, hfound, hallowed⟩ := hmakes
  obtain ⟨⟨dir, name⟩, hsplit, rfl⟩ := Option.map_eq_some_iff.mp hparent
  rw [MayWrite] at hallowed
  simp only [sysMkfile, hsplit, hfound, if_false, hallowed, Bool.not_true, Bool.false_eq_true,
    Option.bind_eq_bind, Option.bind_eq_some_iff, Prod.exists] at hmake
  obtain ⟨fs₁, inode, hcreate, hentry⟩ := hmake
  obtain ⟨-, hclear, rfl, -⟩ := createInode_spec hcreate
  exact ⟨inode.inodeNo, hclear, createDirEntry_inodeBmap hentry⟩

theorem sysMkdir_takesInode (hmakes : fs.MakesIn path parent)
    (hmake : fs.sysMkdir heap path = some fs') : TakesInode fs fs' := by
  obtain ⟨hparent, hfound, hallowed⟩ := hmakes
  obtain ⟨⟨dir, name⟩, hsplit, rfl⟩ := Option.map_eq_some_iff.mp hparent
  rw [MayWrite] at hallowed
  simp only [sysMkdir, hsplit, hfound, if_false, hallowed, Bool.not_true, Bool.false_eq_true,
    Option.bind_eq_bind, Option.bind_eq_some_iff, Prod.exists] at hmake
  obtain ⟨fs₁, inode, hcreate, fs₂, hentry, hinit⟩ := hmake
  obtain ⟨-, hclear, rfl, -⟩ := createInode_spec hcreate
  exact ⟨inode.inodeNo, hclear,
    (initChildDir_inodeBmap hinit).trans (createDirEntry_inodeBmap hentry)⟩

/-- The parent is not found or may not be written to. -/
theorem making_refused (hrefused : ∀ parent, ¬ fs.MakesIn path parent) (heap : ByteArea) :
    fs.sysMkdir heap path = some fs ∧ fs.sysMkfile path = some fs := by
  cases hsplit : splitPath2parts path with
  | none => rw [sysMkdir, sysMkfile, hsplit]; exact ⟨rfl, rfl⟩
  | some parts =>
      obtain ⟨dir, name⟩ := parts
      have hparent : fs.parentIno path = some (fs.dirIsExists dir) := by rw [parentIno, hsplit]; rfl
      have hnot : fs.dirIsExists dir ≠ minusOne →
          fs.checkInodePermission (fs.ino2inode (fs.dirIsExists dir)) accessWrite = false := by
        intro hfound
        rw [Bool.eq_false_iff]
        exact fun hallowed => hrefused _ ⟨hparent, hfound, hallowed⟩
      simp only [sysMkdir, sysMkfile, hsplit]
      by_cases hfound : fs.dirIsExists dir = minusOne
      · rw [if_pos hfound, if_pos hfound]
        exact ⟨rfl, rfl⟩
      · rw [if_neg hfound, if_neg hfound, hnot hfound]
        exact ⟨rfl, rfl⟩

/-- Making an entry changes nothing if and only if the parent is not found or may not be
written to; that the name is there makes no difference. -/
theorem changesNothing_iff (fs : Server) (path : List Byte) :
    (∀ heap, ChangesNothing fs (fs.sysMkdir heap path) ↔ ∀ parent, ¬ fs.MakesIn path parent) ∧
      (ChangesNothing fs (fs.sysMkfile path) ↔ ∀ parent, ¬ fs.MakesIn path parent) := by
  constructor
  · intro heap
    constructor
    · rintro ⟨fs', hmake, hsame⟩ parent hmakes
      exact (sysMkdir_takesInode hmakes hmake).not_same hsame
    · intro hrefused
      exact ⟨fs, (making_refused hrefused heap).1, .refl fs⟩
  · constructor
    · rintro ⟨fs', hmake, hsame⟩ parent hmakes
      exact (sysMkfile_takesInode hmakes hmake).not_same hsame
    · intro hrefused
      exact ⟨fs, (making_refused hrefused ByteArea.zeros).2, .refl fs⟩

/-- The superuser in the same tree. -/
def rootTree : Server := { treeServer with uid := 0 }

/-- The file `a` is there, and another inode is taken for it. -/
theorem existing_file_takes_inode :
    ¬ ∀ (fs : Server) (path : List Byte), fs.dirIsExists path ≠ minusOne →
      (∀ heap, ChangesNothing fs (fs.sysMkdir heap path)) ∧
        ChangesNothing fs (fs.sysMkfile path) := by
  intro hall
  obtain ⟨-, fs', hmake, hsame⟩ := hall rootTree pathA.chars (by decide)
  have hseen : (rootTree.sysMkfile pathA.chars).map (fun fs' => fs'.inodeBmap.verifyBit 3) =
      some true := by
    decide
  rw [hmake, Option.map_some, hsame.inodeBmap] at hseen
  exact absurd hseen (by decide)

/-! ### The way back -/

/-- There is a result in which every path is resolved as before and the bitmaps are as
before. -/
def Undone (fs : Server) (result : Option Server) : Prop :=
  ∃ fs', result = some fs' ∧ (∀ path, fs'.dirIsExists path = fs.dirIsExists path) ∧
    fs'.inodeBmap = fs.inodeBmap ∧ fs'.blockBmap = fs.blockBmap

/-- `sys_mkdir`, then `sys_rmdir`. -/
def mkdirRmdir (fs : Server) (heap : ByteArea) (path : List Byte) : Option Server :=
  (fs.sysMkdir heap path).map fun fs => fs.sysRmdir path

variable {owner : Nat} {isFound : Bool}

theorem removeInSector_fields (fs : Server) (lba : Nat) (name : List Byte) (isFound : Bool) :
    (fs.removeInSector lba name isFound).fs.sb = fs.sb ∧
      (fs.removeInSector lba name isFound).fs.blockBmap = fs.blockBmap := by
  rw [removeInSector]
  refine List.foldlRecOn (motive := fun scan : RemoveScan =>
    scan.fs.sb = fs.sb ∧ scan.fs.blockBmap = fs.blockBmap) _ _ ⟨rfl, rfl⟩ ?_
  intro scan hsame j _
  unfold removeEntry
  split
  next => exact hsame
  next =>
    split
    next => exact hsame
    next => exact hsame

/-- At most one bit is cleared, that of a sector of the directory. -/
theorem removeFrom_blockBmap {indices : List (Fin 9)} :
    (removeFrom inode name indices isFound fs).blockBmap = fs.blockBmap ∨
      ∃ i, inode.sectors i ≠ 0 ∧ (removeFrom inode name indices isFound fs).blockBmap =
        fs.blockBmap.setBit (fs.blockOf (inode.sectors i)) false := by
  induction indices generalizing isFound fs with
  | nil => exact .inl rfl
  | cons i rest ih =>
      unfold removeFrom
      split
      next => exact ih
      next hne =>
        obtain ⟨hsb, hbmap⟩ := fs.removeInSector_fields (inode.sectors i) name isFound
        generalize fs.removeInSector (inode.sectors i) name isFound = scan at hsb hbmap ⊢
        have hblock : ∀ lba, scan.fs.blockOf lba = fs.blockOf lba := fun lba => by
          rw [blockOf, hsb, blockOf]
        dsimp only
        split
        next =>
          refine .inr ⟨i, hne, ?_⟩
          change scan.fs.blockBmap.setBit (scan.fs.blockOf (inode.sectors i)) false = _
          rw [hblock, hbmap]
        next =>
          have hrest := @ih scan.fs scan.isFound
          simpa only [hbmap, hblock] using hrest

theorem removeDirEntry_blockBmap (fs : Server) (inode : Inode) (pathDel : List Byte) :
    (fs.removeDirEntry inode pathDel).blockBmap = fs.blockBmap ∨
      ∃ i, inode.sectors i ≠ 0 ∧ (fs.removeDirEntry inode pathDel).blockBmap =
        fs.blockBmap.setBit (fs.blockOf (inode.sectors i)) false :=
  removeFrom_blockBmap

theorem sysRmdir_blockBmap (fs : Server) (path : List Byte) :
    (fs.sysRmdir path).blockBmap = fs.blockBmap ∨
      ∃ parent, fs.MakesIn path parent ∧ ∃ i, (fs.ino2inode parent).sectors i ≠ 0 ∧
        (fs.sysRmdir path).blockBmap =
          fs.blockBmap.setBit (fs.blockOf ((fs.ino2inode parent).sectors i)) false := by
  unfold sysRmdir
  split
  next => exact .inl rfl
  next =>
    split
    next => exact .inl rfl
    next dir name hsplit =>
      have hparent : fs.parentIno path = some (fs.dirIsExists dir) := by rw [parentIno, hsplit]; rfl
      dsimp only
      split
      next => exact .inl rfl
      next hfound =>
        split
        next => exact .inl rfl
        next hallowed =>
          have hmakes : fs.MakesIn path (fs.dirIsExists dir) :=
            ⟨hparent, hfound, by simpa [MayWrite] using hallowed⟩
          rw [syncInodeBitmap_blockBmap, freeInode]
          dsimp only
          obtain hsame | hcleared :=
            fs.removeDirEntry_blockBmap (fs.ino2inode (fs.dirIsExists dir)) name
          · exact .inl hsame
          · exact .inr ⟨_, hmakes, hcleared⟩

/-- A directory whose entries are the same. -/
theorem Updates.extends_of_entries (hupdates : Updates fs owner fs')
    (hentries : ∀ slot ∈ dirSlots,
      fs'.entryAt (fs'.ino2inode owner) slot = fs.entryAt (fs.ino2inode owner) slot) :
    Extends fs fs' where
  sb := hupdates.works.sb
  inUse _ huse := hupdates.works.inUse_iff.mpr huse
  lookup other child huse hname _ := by
    by_cases hother : other = owner
    · subst hother
      rw [find, find, findDirEntry_eq _ _ hname.length hname.nulFree,
        findDirEntry_eq _ _ hname.length hname.nulFree]
      congr 1
      refine findSome?_congr fun slot hslot => ?_
      rw [lookupAt, hentries slot hslot, lookupAt]
    · exact (hupdates.works.spared huse hother).findDirEntry hname.length hname.nulFree

/-- A free slot in a sector of the directory, where one was found. -/
def FreeSlotOf (fs : Server) (inode : Inode) (slot : FreeSlot) : Prop :=
  slot.sector = 0 ∨ ∃ i, inode.sectors i = slot.sector ∧ inode.sectors i ≠ 0 ∧
    fs.disk slot.sector (entryOffset slot.offset) = 0

theorem scanDir_free {slot : FreeSlot} (hscan : fs.scanDir inode name = some slot) :
    fs.FreeSlotOf inode slot := by
  refine foldlM_option_invariant hscan (fs.FreeSlotOf inode) (.inl rfl)
    fun before i after hbefore hsector => ?_
  unfold scanSector at hsector
  split at hsector
  next =>
    cases hsector
    exact hbefore
  next hne =>
    refine foldlM_option_invariant hsector (fs.FreeSlotOf inode) hbefore
      fun slot j next hslot hentry => ?_
    unfold scanEntry at hentry
    split at hentry
    next hfree =>
      cases hentry
      exact .inr ⟨i, rfl, hne, hfree.1⟩
    next =>
      split at hentry
      next => cases hentry
      next =>
        cases hentry
        exact hslot

/-- An entry without a name leaves its slot free. -/
theorem entryIn_store_nil {area : ByteArea} {j : Nat} (hnil : child.name = []) :
    entryIn (child.store area (entryOffset j)) j = none := by
  rw [entryIn_eq_none_iff, DirEntry.store, ByteArea.putLE_of_not (by omega),
    ByteArea.putLE_of_not (by omega), DirEntry.storeName, if_pos (by omega), hnil, List.getD_nil]

/-- The entry goes to a free slot of a sector that the directory has. -/
theorem extends_slot (hmarked : fs.Marked) (hsound : fs.Sound owner) (hlen : child.name.length < 64)
    (hnul : 0 ∉ child.name) (hino : child.inodeNo < 2 ^ 32) {slot : FreeSlot}
    (hscan : fs.scanDir (fs.ino2inode owner) child.name = some slot) (hsector : slot.sector ≠ 0)
    (hcreate : fs.createDirEntry (fs.ino2inode owner) child = some fs') : Extends fs fs' := by
  have hupdates := createDirEntry_updates hmarked hsound hcreate
  by_cases hnil : child.name = []
  · refine hupdates.extends_of_entries fun other hother => ?_
    obtain ⟨i, hi, hne, hfree⟩ := (scanDir_free hscan).resolve_left hsector
    rw [createDirEntry, hscan] at hcreate
    dsimp only at hcreate
    rw [if_pos hsector, Option.some.injEq, ← hi] at hcreate
    have hstored : fs'.ino2inode owner = fs.ino2inode owner := by
      rw [← hcreate]
      exact (Working.start hmarked hsound).ino2inode_writeDisk hmarked.layout hsound.inUse.1 i _
    rw [entryAt, entryAt, hstored]
    split
    next => rfl
    next =>
      rw [← hcreate]
      by_cases hsame : (fs.ino2inode owner).sectors other.1 = (fs.ino2inode owner).sectors i
      · rw [hsame, writeDisk_disk_self]
        by_cases hj : other.2 = slot.offset
        · rw [hj, entryIn_store_nil hnil, eq_comm, entryIn_eq_none_iff, hi]
          exact hfree
        · exact entryIn_store_of_ne hj
      · rw [writeDisk_disk_of_ne hsame]
  · have hname : IsName child.name := ⟨hnil, hlen, hnul⟩
    have hslots := hscan
    rw [scanDir_eq] at hslots
    have hplace : ∃ slot ∈ dirSlots, fs.IsFree (fs.ino2inode owner) slot := by
      rcases (foldlM_scanSlot_spec hname hslots).2 with ⟨rfl, -⟩ | ⟨-, place, hmem, hfree, -⟩
      · exact absurd rfl hsector
      · exact ⟨place, hmem, hfree⟩
    rcases createDirEntry_cases hmarked hsound hname hino (fun _ => .inl (.inl hplace)) hcreate with
      ⟨rfl, -⟩ | hinserted
    · exact .refl fs'
    · exact hupdates.extends hinserted hmarked

/-- A new entry hides no name, or the directory has got a new block for it. -/
theorem createDirEntry_extends (hmarked : fs.Marked) (hsound : fs.Sound owner)
    (hlen : child.name.length < 64) (hnul : 0 ∉ child.name) (hino : child.inodeNo < 2 ^ 32)
    (hcreate : fs.createDirEntry (fs.ino2inode owner) child = some fs') :
    Extends fs fs' ∧ fs'.blockBmap = fs.blockBmap ∨
      ∃ blockNo, fs.blockBmap.verifyBit blockNo = false ∧
        fs'.blockBmap = fs.blockBmap.setBit blockNo true := by
  have hresult := hcreate
  unfold createDirEntry at hresult
  split at hresult
  next =>
    cases hresult
    exact .inl ⟨.refl fs, rfl⟩
  next slot hscan =>
    split at hresult
    next hsector =>
      refine .inl ⟨extends_slot hmarked hsound hlen hnul hino hscan hsector hcreate, ?_⟩
      cases hresult
      rfl
    next =>
      split at hresult
      next =>
        cases hresult
        exact .inl ⟨.refl fs, rfl⟩
      next =>
        simp only [Option.bind_eq_bind, Option.bind_eq_some_iff, Prod.exists] at hresult
        obtain ⟨fs₁, blockNo, halloc, hresult⟩ := hresult
        obtain ⟨-, hclear, rfl⟩ := allocateBlock_spec halloc
        cases hresult
        exact .inr ⟨blockNo, hclear, rfl⟩

/-- The sectors of an inode are stored, also when the bitmap is stored behind it. -/
theorem Working.stored_synced (hworking : Working fs owner fs' inode) (hmarked : fs.Marked)
    (hin : fs.InTable owner) :
    ((fs'.syncInode inode).syncBlockBitmap.ino2inode owner).sectors = inode.sectors := by
  have hlayout : (fs'.syncInode inode).Layout :=
    (hworking.works.layout hmarked.layout).congr rfl rfl
  rw [ino2inode_syncBlockBitmap hlayout (hin.congr hworking.works.sb)]
  exact (hworking.stored hmarked hin).2

/-- The new directory is made in a block that was free. -/
theorem initChildDir_block (hmarked : fs.Marked) (hsound : fs.Sound ino)
    (hempty : (fs.ino2inode ino).sectors = fun _ => 0)
    (hinit : fs.initChildDir heap parent ino = some fs') :
    Extends fs fs' ∧ ∃ blockNo, fs.blockBmap.verifyBit blockNo = false ∧
      fs'.blockBmap = fs.blockBmap.setBit blockNo true ∧
      (fs'.ino2inode ino).sectors 0 = fs.sb.dataStart + blockNo := by
  have hupdates := initChildDir_updates hmarked hsound hinit
  simp only [initChildDir, Option.bind_eq_bind, Option.bind_eq_some_iff, Prod.exists] at hinit
  obtain ⟨fs₁, blockNo, halloc, hinit⟩ := hinit
  constructor
  · refine ⟨hupdates.works.sb, fun _ h => hupdates.works.inUse_iff.mpr h,
      fun other name hother hname hfound => ?_⟩
    by_cases hne : other = ino
    · -- nothing was found in a directory without sectors
      have hnone : dirSlots.findSome? (fs.lookupAt (fs.ino2inode ino) name) = none := by
        rw [List.findSome?_eq_none_iff]
        intro slot _
        rw [lookupAt, entryAt, hempty, if_pos rfl]
        rfl
      rw [hne, find, findDirEntry_eq _ _ hname.length hname.nulFree, hnone] at hfound
      exact absurd (hmarked.owner_lt hfound.1) (Nat.lt_irrefl _)
    · exact (hupdates.works.spared hother hne).findDirEntry hname.length hname.nulFree
  · have hgrown := (Working.start hmarked hsound).allocate hmarked.layout halloc 0
    obtain ⟨hlt, hclear, rfl⟩ := allocateBlock_spec halloc
    have hlba := blockLba_eq hmarked.layout hlt
    cases hinit
    refine ⟨blockNo, hclear, rfl, ?_⟩
    have hstored := fun buf =>
      (hgrown.writeDisk hmarked.layout 0 buf).stored_synced hmarked hsound.inUse.1
    refine (congrFun (hstored _) 0).trans ?_
    rw [setSector_sectors, if_pos rfl]
    exact hlba

/-- A bit that is clear afterwards is the one that was cleared. -/
theorem eq_of_cleared {bmap : Bitmap} {bit taken : Nat} (hset : bmap.verifyBit taken = true)
    (hclear : (bmap.setBit bit false).verifyBit taken = false) : bit = taken := by
  by_contra hne
  rw [Bitmap.verifyBit_setBit, if_neg hne, hset] at hclear
  cases hclear

/-- `sys_rmdir` never undoes `sys_mkdir`: the block of the new directory stays taken. -/
theorem mkdirRmdir_not_undone {dir : List Byte} (hcons : fs.Consistent) (hparent : Names fs dir parent)
    (hsplit : splitPath2parts path = some (dir, name)) (hlen : name.length < 64) (hnul : 0 ∉ name)
    (hwrite : fs.MayWrite parent)
    (hroom : ∀ ino, fs.inodeBmap.bitmapScan 1 = some ino → fs.InTable ino) (heap : ByteArea) :
    ¬ Undone fs (fs.mkdirRmdir heap path) := by
  rintro ⟨fs', hresult, -, -, hbmap⟩
  have hmarked := hcons.marked
  obtain ⟨fs₃, hmake, rfl⟩ := Option.map_eq_some_iff.mp hresult
  have hmakes : fs.MakesIn path parent := by
    refine ⟨?_, (hmarked.owner_lt hparent.inUse.1).ne, hwrite⟩
    rw [parentIno, hsplit, Option.map_some, hparent.dirIsExists hmarked]
  have honly : ∀ {other}, fs.MakesIn path other → other = parent := fun hother =>
    Option.some.inj (hother.1.symm.trans hmakes.1)
  have hcan : fs.CanMake path := fun other hother => by
    rw [honly hother]
    exact ⟨hcons.sound hparent.inUse, hroom⟩
  rcases sysMkdir_cases hmarked hcan hmake with rfl | ⟨other, ino, fs₁, fs₂, hmade, hinit⟩
  · exact (sysMkdir_takesInode hmakes hmake).not_same (.refl fs₃)
  obtain rfl := honly hmade.makesIn
  obtain ⟨dir', name', hsplit', hentry⟩ := hmade.entry
  rw [hsplit, Option.some.injEq, Prod.mk.injEq] at hsplit'
  obtain ⟨rfl, rfl⟩ := hsplit'
  -- the steps of `sys_mkdir`: the inode, the entry, and the block of the new directory
  have hmarked₁ := hmade.created.marked hmarked
  have hmarked₂ := (hmade.updates hmarked).marked hmarked₁
  have hsound₁ : fs₁.Sound other := hmade.created.sound hmarked hmade.sound
  have hino : fs₂.Sound ino :=
    (hmade.changes hmarked).keepsSound ino ((hmade.inUse_iff hmarked).mpr (.inr rfl)) hcons.sound
  have hne : ino ≠ other := (hmade.created.ne hmade.sound.inUse).symm
  have hempty : (fs₂.ino2inode ino).sectors = fun _ => 0 := by
    rw [(hmade.updates hmarked).works.inodes ino (hmade.created.inUse_iff.mpr (.inr rfl)).1 hne]
    exact hmade.created.sectors
  have hlt : ino < 2 ^ 32 := Nat.lt_trans (hmarked.owner_lt hmade.created.inTable) (by decide)
  have hfirst := createDirEntry_extends hmarked₁ hsound₁ hlen hnul hlt hentry
  obtain ⟨hext₃, blockNo, hclear, hsecond, hsector⟩ :=
    initChildDir_block hmarked₂ hino hempty hinit
  have hchild := initChildDir_updates hmarked₂ hino hinit
  have hmarked₃ := hchild.marked hmarked₂
  rw [hmade.created.blockBmap] at hfirst
  have hset : fs₃.blockBmap.verifyBit blockNo = true := by
    rw [hsecond, Bitmap.verifyBit_setBit, if_pos rfl]
  have hbefore : fs.blockBmap.verifyBit blockNo = false := by
    rcases hfirst with ⟨-, hsame⟩ | ⟨first, -, htaken⟩
    · rwa [hsame] at hclear
    · rw [htaken, Bitmap.verifyBit_setBit] at hclear
      split at hclear
      next => cases hclear
      next => exact hclear
  rcases fs₃.sysRmdir_blockBmap path with hsame | ⟨parent', hmakes₃, i, hi, hcleared⟩
  · rw [← hsame, hbmap, hbefore] at hset
    cases hset
  -- the only block that is given back is that of the new directory
  rw [hbmap] at hcleared
  have hbit := eq_of_cleared hset (hcleared ▸ hbefore)
  rcases hfirst with ⟨hext₂, -⟩ | ⟨first, hfree, htaken⟩
  · have hparent₃ : Names fs₃ dir other :=
      ((hparent.extends (hmade.created.extends hmarked)).extends hext₂).extends hext₃
    obtain rfl : other = parent' := by
      refine Option.some.inj (Eq.trans ?_ hmakes₃.1)
      rw [parentIno, hsplit, Option.map_some, hparent₃.dirIsExists hmarked₃]
    have howned := hmarked₃.occupied other hparent₃.inUse i hi
    rw [howned.blockOf hmarked₃.layout] at hbit
    have hsb : fs₃.sb = fs₂.sb := hext₃.sb
    refine (hchild.sound_self hino.inUse).apart 0 other hparent₃.inUse hne.symm i hi ?_
    rw [hsector, ← hbit, hsb, Nat.add_sub_cancel' (hsb ▸ howned.1)]
  · -- then the block that the parent has got is still taken
    have hother : blockNo ≠ first := by
      rintro rfl
      rw [htaken, Bitmap.verifyBit_setBit, if_pos rfl] at hclear
      cases hclear
    have hkept : fs₃.blockBmap.verifyBit first = true := by
      rw [hsecond, Bitmap.verifyBit_setBit, if_neg hother, htaken, Bitmap.verifyBit_setBit,
        if_pos rfl]
    exact hother (hbit.symm.trans (eq_of_cleared hkept (hcleared ▸ hfree)))

theorem rootTree_consistent : rootTree.Consistent :=
  treeServer_consistent.mono rfl rfl fun _ huse => ⟨huse, rfl⟩

theorem pathC_nulFree : (0 : Byte) ∉ ([0x2f, 0x63] : List Byte) := by decide

/-- The path `/c`, which names nothing. -/
def pathC : CString := ⟨[0x2f, 0x63], pathC_nulFree⟩

/-- A directory `c` in the root. -/
theorem mkdirRmdir_not_undone_c :
    ¬ Undone rootTree (rootTree.mkdirRmdir ByteArea.zeros pathC.chars) :=
  mkdirRmdir_not_undone rootTree_consistent (.inl ⟨rfl, rfl, by decide⟩)
    (show splitPath2parts pathC.chars = some ([slash], [0x63]) by decide) (by decide) (by decide)
    (by decide) (by decide) ByteArea.zeros

/-- The block of the directory `c` stays taken. -/
theorem directory_block_stays_taken :
    ¬ ∀ (fs : Server) (heap : ByteArea) (path dir name : List Byte) (parent : Nat), fs.Consistent →
      Names fs dir parent → splitPath2parts path = some (dir, name) → IsName name →
      fs.MayWrite parent → fs.dirIsExists path = minusOne → 0 < fs.inodeBmap.clearCount →
      2 ≤ fs.blockBmap.clearCount → Undone fs (fs.mkdirRmdir heap path) := by
  intro hall
  obtain ⟨fs', hresult, -, -, hbmap⟩ := hall rootTree ByteArea.zeros pathC.chars [slash] [0x63] 0
    rootTree_consistent (.inl ⟨rfl, rfl, by decide⟩) (by decide)
    ⟨by decide, by decide, by decide⟩ (by decide) (by decide) (by decide)
    (by decide)
  have hseen : (rootTree.mkdirRmdir ByteArea.zeros pathC.chars).map
      (fun fs' => fs'.blockBmap.verifyBit 3) = some true := by decide +kernel
  rw [hresult, Option.map_some, hbmap] at hseen
  exact absurd hseen (by decide)

end Shmily.Fs.Server
