import Shmily.Fs.Resolution

/-! # What a request can change

The handlers are sequences of a few steps: an inode is created, work is done on one
inode, an inode is given back. Each step leaves sound inodes sound and spares all
inodes but those it works on, and so does a handler whose paths lead to sound inodes.
-/

namespace Shmily.Fs.Server

open Foundation Lib

/-- Sound inodes stay so, and only these inodes change. -/
structure Changes (fs : Server) (touched : Nat → Prop) (fs' : Server) : Prop where
  marked : fs'.Marked
  keepsSound : KeepsSound fs fs'
  sb : fs'.sb = fs.sb
  uid : fs'.uid = fs.uid
  spared : ∀ ino, fs.InUse ino → fs'.InUse ino → ¬ touched ino → Spared fs fs' ino

/-- The size, the sectors and what they hold are as they were. -/
structure SameContent (fs fs' : Server) (ino : Nat) : Prop where
  size : (fs'.ino2inode ino).size = (fs.ino2inode ino).size
  sectors : (fs'.ino2inode ino).sectors = (fs.ino2inode ino).sectors
  data : ∀ i, (fs.ino2inode ino).sectors i ≠ 0 →
    fs'.disk ((fs.ino2inode ino).sectors i) = fs.disk ((fs.ino2inode ino).sectors i)

/-- The current user may write to the inode. -/
def MayWrite (fs : Server) (ino : Nat) : Prop :=
  fs.checkInodePermission (fs.ino2inode ino) accessWrite = true

/-- The current user may read the inode. -/
def MayRead (fs : Server) (ino : Nat) : Prop :=
  fs.checkInodePermission (fs.ino2inode ino) accessRead = true

instance (fs : Server) (ino : Nat) : Decidable (fs.MayWrite ino) :=
  inferInstanceAs (Decidable (_ = _))

instance (fs : Server) (ino : Nat) : Decidable (fs.MayRead ino) :=
  inferInstanceAs (Decidable (_ = _))

/-- The inode number of the directory that a path names an entry of. -/
def parentIno (fs : Server) (path : List Byte) : Option Nat :=
  (splitPath2parts path).map fun parts => fs.dirIsExists parts.1

variable {fs fs' fs'' : Server} {owner ino : Nat} {touched touched' : Nat → Prop} {inode : Inode}

/-! ### Steps and their composition -/

theorem Spared.trans (hfirst : Spared fs fs' ino) (hsecond : Spared fs' fs'' ino) :
    Spared fs fs'' ino where
  inode := hsecond.inode.trans hfirst.inode
  data i hi := by
    have hlater := hsecond.data i (by rwa [hfirst.inode])
    rw [hfirst.inode] at hlater
    exact hlater.trans (hfirst.data i hi)

theorem Spared.sameContent (hspared : Spared fs fs' ino) : SameContent fs fs' ino where
  size := by rw [hspared.inode]
  sectors := by rw [hspared.inode]
  data := hspared.data

theorem KeepsSound.refl (fs : Server) : KeepsSound fs fs := fun _ huse hsound => hsound huse

theorem KeepsSound.trans (hfirst : KeepsSound fs fs') (hsecond : KeepsSound fs' fs'') :
    KeepsSound fs fs'' :=
  fun ino huse hsound => hsecond ino huse fun huse' => hfirst ino huse' hsound

theorem Changes.refl (hmarked : fs.Marked) : Changes fs touched fs where
  marked := hmarked
  keepsSound := .refl fs
  sb := rfl
  uid := rfl
  spared _ _ _ _ := ⟨rfl, fun _ _ => rfl⟩

theorem Changes.mono (hchanges : Changes fs touched fs')
    (hsub : ∀ ino, fs.InUse ino → touched ino → touched' ino) : Changes fs touched' fs' where
  marked := hchanges.marked
  keepsSound := hchanges.keepsSound
  sb := hchanges.sb
  uid := hchanges.uid
  spared ino huse huse' hnot := hchanges.spared ino huse huse' fun h => hnot (hsub ino huse h)

/-- One step after another; an inode that is there at both ends is there in between. -/
theorem Changes.trans (hfirst : Changes fs touched fs') (hsecond : Changes fs' touched' fs'')
    (hmid : ∀ ino, fs.InUse ino → fs''.InUse ino → fs'.InUse ino) :
    Changes fs (fun ino => touched ino ∨ touched' ino) fs'' where
  marked := hsecond.marked
  keepsSound := hfirst.keepsSound.trans hsecond.keepsSound
  sb := hsecond.sb.trans hfirst.sb
  uid := hsecond.uid.trans hfirst.uid
  spared ino huse huse' hnot := by
    rw [not_or] at hnot
    have huseMid := hmid ino huse huse'
    exact (hfirst.spared ino huse huseMid hnot.1).trans (hsecond.spared ino huseMid huse' hnot.2)

theorem Changes.sound (hchanges : Changes fs touched fs') (hsound : fs.Sound ino)
    (huse : fs'.InUse ino) : fs'.Sound ino :=
  hchanges.keepsSound ino huse fun _ => hsound

/-- Work on one inode. -/
theorem Updates.changes (hupdates : Updates fs owner fs') (hmarked : fs.Marked) :
    Changes fs (· = owner) fs' where
  marked := hupdates.marked hmarked
  keepsSound := hupdates.keepsSound hmarked
  sb := hupdates.works.sb
  uid := hupdates.works.uid
  spared _ huse _ hne := hupdates.works.spared huse hne

/-- A new inode. -/
theorem Created.changes (hcreated : Created fs fs' ino) (hmarked : fs.Marked) :
    Changes fs (fun _ => False) fs' where
  marked := hcreated.marked hmarked
  keepsSound := hcreated.keepsSound hmarked
  sb := hcreated.sb
  uid := hcreated.uid
  spared _ huse _ _ := hcreated.spared hmarked huse

theorem freeInode_inUse_iff {other : Nat} :
    (fs.freeInode ino).InUse other ↔ fs.InUse other ∧ other ≠ ino := by
  change fs.InTable other ∧ (fs.inodeBmap.setBit ino false).verifyBit other = true ↔ _
  rw [Bitmap.verifyBit_setBit]
  constructor
  · rintro ⟨hin, hset⟩
    split at hset
    next => cases hset
    next hne => exact ⟨⟨hin, hset⟩, Ne.symm hne⟩
  · rintro ⟨⟨hin, hset⟩, hne⟩
    exact ⟨hin, by rw [if_neg (Ne.symm hne), hset]⟩

/-- An inode is given back after work on it, in whatever state it is. -/
theorem Works.freeInode_changes (hworks : Works fs owner fs') (hmarked : fs.Marked) :
    Changes fs (fun _ => False) (fs'.freeInode owner) := by
  have huse : ∀ {ino}, (fs'.freeInode owner).InUse ino → fs.InUse ino ∧ ino ≠ owner := by
    intro ino huse
    obtain ⟨huse, hne⟩ := freeInode_inUse_iff.mp huse
    exact ⟨hworks.inUse_iff.mp huse, hne⟩
  have hsame : ∀ {ino}, (fs'.freeInode owner).InUse ino →
      (fs'.freeInode owner).ino2inode ino = fs.ino2inode ino := fun h =>
    hworks.inodes _ (huse h).1.1 (huse h).2
  have hmarked' : (fs'.freeInode owner).Marked := by
    refine ⟨(hworks.layout hmarked.layout).congr rfl rfl, ?_, fun ino h i hne => ?_⟩
    · change fs'.sb.inodeTableSectors * 8 ≤ minusOne
      rw [hworks.sb]
      exact hmarked.numbers
    · rw [hsame h] at hne ⊢
      exact hworks.occupied ino (huse h).1 (huse h).2 i hne
  exact ⟨hmarked', keepsSound_of_inode hmarked' fun ino h => ⟨(huse h).1, hsame h⟩, hworks.sb,
    hworks.uid, fun ino _ h _ => ⟨hsame h, hworks.data ino (huse h).1 (huse h).2⟩⟩

/-- An inode is given back, if there is one of that number. -/
theorem freeInode_changes (hmarked : fs.Marked) (ino : Nat) :
    Changes fs (fun _ => False) (fs.freeInode ino) :=
  (Works.refl hmarked ino).freeInode_changes hmarked

theorem syncInodeBitmap_changes (hmarked : fs.Marked) :
    Changes fs (fun _ => False) fs.syncInodeBitmap := by
  have hinode : ∀ ino, fs.syncInodeBitmap.InUse ino →
      fs.InUse ino ∧ fs.syncInodeBitmap.ino2inode ino = fs.ino2inode ino := fun _ huse =>
    ⟨huse, ino2inode_syncInodeBitmap hmarked.layout huse.1⟩
  have hmarked' : fs.syncInodeBitmap.Marked := hmarked.mono rfl rfl hinode
  refine ⟨hmarked', keepsSound_of_inode hmarked' hinode, rfl, rfl, fun ino huse _ _ =>
    ⟨(hinode ino huse).2, fun i hi => ?_⟩⟩
  have hdata := (hmarked.occupied ino huse i hi).isDataSector
  exact syncInodeBitmap_disk hmarked.layout (hdata.table_le hmarked.layout)

theorem syncInodeBitmap_inUse_iff : fs.syncInodeBitmap.InUse ino ↔ fs.InUse ino := Iff.rfl

/-! ### New entries -/

/-- The user may make an entry in this directory. -/
def MakesIn (fs : Server) (path : List Byte) (parent : Nat) : Prop :=
  fs.parentIno path = some parent ∧ parent ≠ minusOne ∧ fs.MayWrite parent

/-- Where an entry is made, the directory is sound, and the inode table has a place for
the inode that is allocated next. -/
def CanMake (fs : Server) (path : List Byte) : Prop :=
  ∀ parent, fs.MakesIn path parent → fs.Sound parent ∧
    ∀ ino, fs.inodeBmap.bitmapScan 1 = some ino → fs.InTable ino

/-- The steps of `sys_mkfile` and `sys_mkdir` up to the new entry. -/
structure Made (fs fs₁ fs₂ : Server) (path : List Byte) (type : DirEntryType) (parent ino : Nat) :
    Prop where
  makesIn : fs.MakesIn path parent
  sound : fs.Sound parent
  next : fs.inodeBmap.bitmapScan 1 = some ino
  created : Created fs fs₁ ino
  entry : ∃ dir name, splitPath2parts path = some (dir, name) ∧
    fs₁.createDirEntry (fs₁.ino2inode parent) { name := name, inodeNo := ino, type := type } = some fs₂

variable {fs₁ fs₂ : Server} {path : List Byte} {type : DirEntryType} {parent : Nat}

/-- The checks of `sys_mkfile`, `sys_mkdir` and `sys_rmdir` before they write. -/
theorem makesIn_of_checks {dir name : List Byte} (hsplit : splitPath2parts path = some (dir, name))
    (hfound : fs.dirIsExists dir ≠ minusOne)
    (hallowed : ¬ (!fs.checkInodePermission (fs.ino2inode (fs.dirIsExists dir)) accessWrite) = true) :
    fs.MakesIn path (fs.dirIsExists dir) :=
  ⟨by rw [parentIno, hsplit]; rfl, hfound, by simpa [MayWrite] using hallowed⟩

/-- Where no entry may be made, `sys_mkfile` returns before it writes anything. -/
theorem sysMkfile_refused (hnone : ∀ parent, ¬ fs.MakesIn path parent) :
    fs.sysMkfile path = some fs := by
  unfold sysMkfile
  split
  next => rfl
  next dir name hsplit =>
    dsimp only
    split
    next => rfl
    next hfound =>
      rw [if_pos]
      by_contra hallowed
      exact hnone _ (makesIn_of_checks hsplit hfound hallowed)

theorem sysMkdir_refused {heap : ByteArea} (hnone : ∀ parent, ¬ fs.MakesIn path parent) :
    fs.sysMkdir heap path = some fs := by
  unfold sysMkdir
  split
  next => rfl
  next dir name hsplit =>
    dsimp only
    split
    next => rfl
    next hfound =>
      rw [if_pos]
      by_contra hallowed
      exact hnone _ (makesIn_of_checks hsplit hfound hallowed)

theorem sysMkfile_cases (hmarked : fs.Marked) (hcan : fs.CanMake path)
    (hmake : fs.sysMkfile path = some fs') :
    fs' = fs ∧ (∀ parent, ¬ fs.MakesIn path parent) ∨
      ∃ parent ino fs₁, Made fs fs₁ fs' path .file parent ino := by
  unfold sysMkfile at hmake
  split at hmake
  next hsplit =>
    cases hmake
    refine .inl ⟨rfl, fun parent hmakes => ?_⟩
    have hnone := hmakes.1
    rw [parentIno, hsplit] at hnone
    cases hnone
  next dir name hsplit =>
    have hparent : fs.parentIno path = some (fs.dirIsExists dir) := by rw [parentIno, hsplit]; rfl
    dsimp only at hmake
    split at hmake
    next hmissing =>
      cases hmake
      refine .inl ⟨rfl, fun parent hmakes => hmakes.2.1 ?_⟩
      rw [← Option.some.inj (hparent.symm.trans hmakes.1), hmissing]
    next hfound =>
      split at hmake
      next hdenied =>
        cases hmake
        refine .inl ⟨rfl, fun parent hmakes => ?_⟩
        have hallowed := hmakes.2.2
        rw [MayWrite, ← Option.some.inj (hparent.symm.trans hmakes.1)] at hallowed
        simp [hallowed] at hdenied
      next hallowed =>
        have hmakes := makesIn_of_checks hsplit hfound hallowed
        obtain ⟨hsound, hroom⟩ := hcan _ hmakes
        simp only [Option.bind_eq_bind, Option.bind_eq_some_iff, Prod.exists] at hmake
        obtain ⟨fs₀, inode, hcreate, hentry⟩ := hmake
        obtain ⟨hnext, -, -, -⟩ := createInode_spec hcreate
        have hcreated := createInode_created hmarked hcreate (hroom _ hnext)
        refine .inr ⟨_, _, _, hmakes, hsound, hnext, hcreated, dir, name, hsplit, ?_⟩
        rw [(hcreated.spared hmarked hsound.inUse).inode]
        exact hentry

theorem sysMkdir_cases {heap : ByteArea} (hmarked : fs.Marked) (hcan : fs.CanMake path)
    (hmake : fs.sysMkdir heap path = some fs') :
    fs' = fs ∨ ∃ parent ino fs₁ fs₂, Made fs fs₁ fs₂ path .dir parent ino ∧
      fs₂.initChildDir heap parent ino = some fs' := by
  unfold sysMkdir at hmake
  split at hmake
  next =>
    cases hmake
    exact .inl rfl
  next dir name hsplit =>
    dsimp only at hmake
    split at hmake
    next =>
      cases hmake
      exact .inl rfl
    next hfound =>
      split at hmake
      next =>
        cases hmake
        exact .inl rfl
      next hallowed =>
        have hmakes := makesIn_of_checks hsplit hfound hallowed
        obtain ⟨hsound, hroom⟩ := hcan _ hmakes
        simp only [Option.bind_eq_bind, Option.bind_eq_some_iff, Prod.exists] at hmake
        obtain ⟨fs₀, inode, hcreate, fs₂, hentry, hinit⟩ := hmake
        obtain ⟨hnext, -, -, -⟩ := createInode_spec hcreate
        have hcreated := createInode_created hmarked hcreate (hroom _ hnext)
        refine .inr ⟨_, _, _, fs₂, ⟨hmakes, hsound, hnext, hcreated, dir, name, hsplit, ?_⟩, hinit⟩
        rw [(hcreated.spared hmarked hsound.inUse).inode]
        exact hentry

theorem Made.updates (hmade : Made fs fs₁ fs₂ path type parent ino) (hmarked : fs.Marked) :
    Updates fs₁ parent fs₂ := by
  obtain ⟨dir, name, -, hentry⟩ := hmade.entry
  exact createDirEntry_updates (hmade.created.marked hmarked)
    (hmade.created.sound hmarked hmade.sound) hentry

/-- A new entry only changes its directory. -/
theorem Made.changes (hmade : Made fs fs₁ fs₂ path type parent ino) (hmarked : fs.Marked) :
    Changes fs (fs.MakesIn path) fs₂ := by
  have hupdates := hmade.updates hmarked
  have hboth := (hmade.created.changes hmarked).trans
    (hupdates.changes (hmade.created.marked hmarked))
    fun _ huse _ => hmade.created.inUse_iff.mpr (.inl huse)
  refine hboth.mono fun other _ htouched => ?_
  rcases htouched with hfalse | rfl
  · exact hfalse.elim
  · exact hmade.makesIn

theorem Made.inUse_iff (hmade : Made fs fs₁ fs₂ path type parent ino) (hmarked : fs.Marked)
    {other : Nat} : fs₂.InUse other ↔ fs.InUse other ∨ other = ino :=
  (hmade.updates hmarked).works.inUse_iff.trans hmade.created.inUse_iff

theorem sysMkfile_changes (hmarked : fs.Marked) (hcan : fs.CanMake path)
    (hmake : fs.sysMkfile path = some fs') :
    Changes fs (fs.MakesIn path) fs' ∧ ∀ ino, fs.InUse ino → fs'.InUse ino := by
  rcases sysMkfile_cases hmarked hcan hmake with ⟨rfl, -⟩ | ⟨parent, ino, fs₁, hmade⟩
  · exact ⟨.refl hmarked, fun _ => id⟩
  · exact ⟨hmade.changes hmarked, fun _ huse => (hmade.inUse_iff hmarked).mpr (.inl huse)⟩

theorem sysMkdir_changes {heap : ByteArea} (hmarked : fs.Marked) (hcan : fs.CanMake path)
    (hmake : fs.sysMkdir heap path = some fs') : Changes fs (fs.MakesIn path) fs' := by
  rcases sysMkdir_cases hmarked hcan hmake with rfl | ⟨parent, ino, fs₁, fs₂, hmade, hinit⟩
  · exact .refl hmarked
  · have hentry := hmade.changes hmarked
    have hino : fs₂.Sound ino :=
      hentry.keepsSound ino ((hmade.inUse_iff hmarked).mpr (.inr rfl)) fun huse =>
        absurd rfl (hmade.created.ne huse)
    have hchild := initChildDir_updates hentry.marked hino hinit
    have hboth := hentry.trans (hchild.changes hentry.marked)
      fun _ huse _ => (hmade.inUse_iff hmarked).mpr (.inl huse)
    refine hboth.mono fun other huse htouched => ?_
    -- the child was not in use
    rcases htouched with hmakes | rfl
    · exact hmakes
    · exact absurd rfl (hmade.created.ne huse)

/-! ### Entries and inodes that are removed -/

/-- The directory that an entry is removed from is sound. -/
def CanRmdir (fs : Server) (path : List Byte) : Prop :=
  fs.dirIsEmpty path = true → ∀ parent, fs.MakesIn path parent → fs.Sound parent

/-- The user may remove the entry from this directory. -/
def RemovesFrom (fs : Server) (path : List Byte) (parent : Nat) : Prop :=
  fs.parentIno path = some parent ∧ fs.dirIsExists path ≠ minusOne ∧ fs.MayWrite parent

/-- The file and its directory are sound. -/
def CanRmfile (fs : Server) (path : List Byte) : Prop :=
  ∀ parent, fs.RemovesFrom path parent → fs.Sound parent ∧ fs.Sound (fs.dirIsExists path)

theorem sysRmdir_refused
    (hnone : fs.dirIsEmpty path = false ∨ ∀ parent, ¬ fs.MakesIn path parent) :
    fs.sysRmdir path = fs := by
  unfold sysRmdir
  split
  next => rfl
  next hempty =>
    have hnone := hnone.resolve_left (by simpa using hempty)
    split
    next => rfl
    next dir name hsplit =>
      dsimp only
      split
      next => rfl
      next hfound =>
        rw [if_pos]
        by_contra hallowed
        exact hnone _ (makesIn_of_checks hsplit hfound hallowed)

theorem sysRmdir_changes (hmarked : fs.Marked) (hcan : fs.CanRmdir path) :
    Changes fs (fs.MakesIn path) (fs.sysRmdir path) := by
  unfold sysRmdir
  split
  next => exact .refl hmarked
  next hempty =>
    split
    next => exact .refl hmarked
    next dir name hsplit =>
      dsimp only
      split
      next => exact .refl hmarked
      next hfound =>
        split
        next => exact .refl hmarked
        next hallowed =>
          have hmakes := makesIn_of_checks hsplit hfound hallowed
          have hsound := hcan (by simpa using hempty) _ hmakes
          have hremoved := (removeDirEntry_updates hmarked hsound name).changes hmarked
          have hfreed := freeInode_changes hremoved.marked (fs.dirIsExists path)
          have hsynced := syncInodeBitmap_changes hfreed.marked
          have hboth := hremoved.trans hfreed fun _ _ h => (freeInode_inUse_iff.mp h).1
          have hall := hboth.trans hsynced fun _ _ h => syncInodeBitmap_inUse_iff.mp h
          refine hall.mono fun other _ htouched => ?_
          rcases htouched with (rfl | hfalse) | hfalse
          · exact hmakes
          · exact hfalse.elim
          · exact hfalse.elim

/-- The blocks of an inode are given back, and then its number. -/
theorem freeFile_changes (hmarked : fs.Marked) (hlt : ∀ i, inode.sectors i < 2 ^ 32)
    (hprivate : ∀ i, fs.Private ino (inode.sectors i)) :
    Changes fs (fun _ => False) ((fs.freeInodeSectors inode).freeInode ino) := by
  have hfreed := freeSectors_works (.refl hmarked ino) hmarked.layout hprivate hlt (List.finRange 9)
  exact (hfreed.syncBlockBitmap hmarked.layout).freeInode_changes hmarked

/-- The checks of `sys_rmfile` before it writes. -/
theorem removesFrom_of_checks {dir name : List Byte}
    (hsplit : splitPath2parts path = some (dir, name)) (hfound : fs.dirIsExists path ≠ minusOne)
    (hallowed : ¬ (!fs.checkInodePermission (fs.ino2inode (fs.dirIsExists dir)) accessWrite) = true) :
    fs.RemovesFrom path (fs.dirIsExists dir) :=
  ⟨by rw [parentIno, hsplit]; rfl, hfound, by simpa [MayWrite] using hallowed⟩

theorem sysRmfile_refused (hnone : ∀ parent, ¬ fs.RemovesFrom path parent) :
    fs.sysRmfile path = fs := by
  unfold sysRmfile
  split
  next => rfl
  next dir name hsplit =>
    dsimp only
    split
    next => rfl
    next hfound =>
      rw [if_pos]
      by_contra hallowed
      exact hnone _ (removesFrom_of_checks hsplit hfound hallowed)

theorem sysRmfile_changes (hmarked : fs.Marked) (hcan : fs.CanRmfile path) :
    Changes fs (fs.RemovesFrom path) (fs.sysRmfile path) := by
  unfold sysRmfile
  split
  next => exact .refl hmarked
  next dir name hsplit =>
    dsimp only
    split
    next => exact .refl hmarked
    next hfound =>
      split
      next => exact .refl hmarked
      next hallowed =>
        have hremoves := removesFrom_of_checks hsplit hfound hallowed
        obtain ⟨hsound, hfile⟩ := hcan _ hremoves
        have hupdates := removeDirEntry_updates hmarked hsound name
        have hremoved := hupdates.changes hmarked
        have hfreed := freeFile_changes hremoved.marked
          (hfile.owned.sectors_lt hmarked.layout) (hupdates.private_old hfile)
        have hsynced := syncInodeBitmap_changes hfreed.marked
        have hboth := hremoved.trans hfreed fun ino huse _ => hupdates.works.inUse_iff.mpr huse
        have hall := hboth.trans hsynced fun _ _ h => syncInodeBitmap_inUse_iff.mp h
        refine hall.mono fun other _ htouched => ?_
        rcases htouched with (rfl | hfalse) | hfalse
        · exact hremoves
        · exact hfalse.elim
        · exact hfalse.elim

/-! ### Permissions of a directory -/

/-- An inode with another size and other sectors is stored as it is. -/
theorem Working.stored_with {size : Nat} {sectors : Fin 9 → Nat}
    (hworking : Working fs owner fs' { fs''.ino2inode owner with size := size, sectors := sectors })
    (hmarked : fs.Marked) (hsize : size < 2 ^ 32) :
    (fs'.syncInode { fs''.ino2inode owner with size := size, sectors := sectors }).ino2inode owner =
      { fs''.ino2inode owner with size := size, sectors := sectors } := by
  have hself := fs'.ino2inode_syncInode_self
    { fs''.ino2inode owner with size := size, sectors := sectors }
  rw [hworking.number] at hself
  have hfits := fs''.ino2inode_truncate owner
  rw [hself]
  refine Inode.truncate_with hfits ?_ (congrArg Inode.uid hfits :) (congrArg Inode.mode hfits :)
    fun i => ?_
  · exact Nat.mod_eq_of_lt (by omega)
  · exact Nat.mod_eq_of_lt (hworking.owned.sectors_lt (hworking.works.layout hmarked.layout) i)

/-- A new entry may give the directory a sector, and nothing else. -/
theorem createDirEntry_fields (hmarked : fs.Marked) (hsound : fs.Sound owner) {child : DirEntry}
    (hcreate : fs.createDirEntry (fs.ino2inode owner) child = some fs') :
    ∃ sectors, fs'.ino2inode owner = { fs.ino2inode owner with sectors := sectors } := by
  have hstart := Working.start hmarked hsound
  unfold createDirEntry at hcreate
  split at hcreate
  next =>
    cases hcreate
    exact ⟨_, rfl⟩
  next slot hscan =>
    split at hcreate
    next hsector =>
      cases hcreate
      obtain ⟨i, hi⟩ := (scanDir_slotOf hscan).resolve_left hsector
      rw [← hi]
      exact ⟨_, hstart.ino2inode_writeDisk hmarked.layout hsound.inUse.1 i _⟩
    next =>
      split at hcreate
      next =>
        cases hcreate
        exact ⟨_, rfl⟩
      next i _ =>
        simp only [Option.bind_eq_bind, Option.bind_eq_some_iff, Prod.exists] at hcreate
        obtain ⟨fs₁, blockNo, halloc, hcreate⟩ := hcreate
        cases hcreate
        have hgrown := hstart.allocate_writeDisk hmarked.layout halloc i
          (child.store (fs₁.disk (fs₁.blockLba blockNo)) 0)
        have hsize := congrArg Inode.size (fs.ino2inode_truncate owner)
        have hlt : (fs.ino2inode owner).size < 2 ^ 32 :=
          hsize ▸ Nat.mod_lt _ (by decide)
        refine ⟨((fs.ino2inode owner).setSector i (fs₁.blockLba blockNo)).sectors, ?_⟩
        have hstored := (hgrown.syncInode hmarked.layout hsound.inUse.1).works
        rw [ino2inode_syncBlockBitmap (hstored.layout hmarked.layout)
          (hsound.inUse.1.congr hstored.sb)]
        exact hgrown.stored_with hmarked hlt

/-- The user and the group bits that permissions are decided by. -/
def SamePermissions (fs fs' : Server) (ino : Nat) : Prop :=
  ∀ op, fs'.checkInodePermission (fs'.ino2inode ino) op =
    fs.checkInodePermission (fs.ino2inode ino) op

theorem samePermissions_of_fields (huid : fs'.uid = fs.uid)
    (hfields : ∃ sectors, fs'.ino2inode ino = { fs.ino2inode ino with sectors := sectors }) :
    SamePermissions fs fs' ino := by
  obtain ⟨sectors, hinode⟩ := hfields
  intro op
  rw [hinode]
  exact checkInodePermission_congr huid rfl rfl

/-- Making a file changes no permissions. -/
theorem sysMkfile_permissions (hmarked : fs.Marked) (hcan : fs.CanMake path)
    (hmake : fs.sysMkfile path = some fs') (huse : fs.InUse ino) : SamePermissions fs fs' ino := by
  rcases sysMkfile_cases hmarked hcan hmake with ⟨rfl, -⟩ | ⟨parent, new, fs₁, hmade⟩
  · exact fun _ => rfl
  · have hmarked₁ := hmade.created.marked hmarked
    have huse₁ := hmade.created.inUse_iff.mpr (.inl huse)
    have hsame := (hmade.created.spared hmarked huse).inode
    apply samePermissions_of_fields ((hmade.changes hmarked).uid)
    rw [← hsame]
    by_cases hparent : ino = parent
    · obtain ⟨dir, name, -, hentry⟩ := hmade.entry
      subst hparent
      exact createDirEntry_fields hmarked₁ (hmade.created.sound hmarked hmade.sound) hentry
    · exact ⟨_, (hmade.updates hmarked).works.inodes ino huse₁.1 hparent⟩

/-! ### Paths after a file was made -/

/-- A directory that lacks the name can take it, in a slot or in a clean block, or is full. -/
def EntryFits (fs : Server) (path : List Byte) : Prop :=
  ∀ dir name parent, splitPath2parts path = some (dir, name) → fs.MakesIn path parent →
    IsName name ∧ (fs.Absent (fs.ino2inode parent) name →
      fs.HasSlot (fs.ino2inode parent) ∨ freeIndex (fs.ino2inode parent) = none)

/-- The path names nothing, and `sys_mkfile` will make a file of this number there. -/
structure NewFile (fs : Server) (path : List Byte) (ino : Nat) : Prop where
  next : fs.inodeBmap.bitmapScan 1 = some ino
  entry : ∃ dir name parent, splitPath2parts path = some (dir, name) ∧ Names fs dir parent ∧
    fs.MayWrite parent ∧ fs.Absent (fs.ino2inode parent) name ∧
    ((∃ slot ∈ dirSlots, fs.IsFree (fs.ino2inode parent) slot) ∨
      freeIndex (fs.ino2inode parent) ≠ none)

/-- The path leads to the inode when `sys_mkfile` has returned: through inodes in use, to the
file that is made, or as the code finds it where nothing is made. -/
def Lands (fs : Server) (made path : List Byte) (ino : Nat) : Prop :=
  Names fs path ino ∨ path = made ∧ fs.NewFile made ino ∨
    (∀ parent, ¬ fs.MakesIn made parent) ∧ fs.dirIsExists path = ino ∧ fs.InUse ino

/-- The inode that the path leads to then is sound: it is new, or it was sound before. -/
def LandsSound (fs : Server) (made path : List Byte) (ino : Nat) : Prop :=
  fs.Lands made path ino ∧ (fs.InUse ino → fs.Sound ino)

/-- Whether `sys_mkfile` makes something or not, the source is then without the permission. -/
def Denied (fs : Server) (op : Byte) (made path : List Byte) : Prop :=
  fs.checkInodePermission (fs.ino2inode (fs.dirIsExists path)) op = false ∧
    ((∀ parent, ¬ fs.MakesIn made parent) ∨ ∃ ino, Names fs path ino)

variable {name : List Byte}

theorem Spared.absent_iff (hspared : Spared fs fs' ino) :
    fs'.Absent (fs'.ino2inode ino) name ↔ fs.Absent (fs.ino2inode ino) name := by
  simp only [Absent, lookupAt, hspared.entryAt]

theorem Spared.isFree_iff (hspared : Spared fs fs' ino) {slot : Fin 9 × Nat} :
    fs'.IsFree (fs'.ino2inode ino) slot ↔ fs.IsFree (fs.ino2inode ino) slot := by
  rw [IsFree, IsFree, hspared.entryAt, hspared.inode]

theorem Created.hasSlot (hcreated : Created fs fs' ino) (hmarked : fs.Marked)
    (huse : fs.InUse parent) (hslot : fs.HasSlot (fs.ino2inode parent)) :
    fs'.HasSlot (fs'.ino2inode parent) := by
  have hspared := hcreated.spared hmarked huse
  rcases hslot with ⟨slot, hmem, hfree⟩ | hclean
  · exact .inl ⟨slot, hmem, hspared.isFree_iff.mpr hfree⟩
  · refine .inr fun blockNo hscan j hj hlt => ?_
    rw [hcreated.blockBmap] at hscan
    have hdata := isDataSector_blockLba hmarked.layout (Bitmap.bitmapScan_one_spec hscan).1
    rw [blockLba, hcreated.sb]
    change entryIn (fs'.disk (fs.blockLba blockNo)) j = none
    rw [hcreated.data _ hdata]
    exact hclean blockNo hscan j hj hlt

/-- The new entry is made, or the name was there, or the directory is full. -/
theorem Made.cases (hmade : Made fs fs₁ fs₂ path type parent ino) (hmarked : fs.Marked)
    (hroom : fs.EntryFits path) :
    ∃ dir name, splitPath2parts path = some (dir, name) ∧ IsName name ∧
      (fs₂ = fs₁ ∧ (fs.Absent (fs.ino2inode parent) name →
          (∀ slot ∈ dirSlots, ¬ fs.IsFree (fs.ino2inode parent) slot) ∧
            freeIndex (fs.ino2inode parent) = none) ∨
        Inserted fs₁ fs₂ parent ⟨name, ino, type.code⟩) := by
  obtain ⟨dir, name, hsplit, hentry⟩ := hmade.entry
  obtain ⟨hname, hslot⟩ := hroom dir name parent hsplit hmade.makesIn
  have hmarked₁ := hmade.created.marked hmarked
  have hspared := hmade.created.spared hmarked hmade.sound.inUse
  have hlt : ino < 2 ^ 32 := Nat.lt_trans (hmarked.owner_lt hmade.created.inTable) (by decide)
  refine ⟨dir, name, hsplit, hname, ?_⟩
  have hcases := createDirEntry_cases hmarked₁ (hmade.created.sound hmarked hmade.sound)
    hname hlt (fun habsent => (hslot (hspared.absent_iff.mp habsent)).imp
      (hmade.created.hasSlot hmarked hmade.sound.inUse) fun hfull => hspared.inode ▸ hfull) hentry
  rcases hcases with ⟨hsame, hfull⟩ | hinserted
  · refine .inl ⟨hsame, fun habsent => ?_⟩
    have h := hfull (hspared.absent_iff.mpr habsent)
    rw [hspared.inode] at h
    exact ⟨fun slot hmem hfree => h.1 slot hmem (hspared.inode ▸ hspared.isFree_iff.mpr hfree), h.2⟩
  · exact .inr hinserted

/-- No path is lost when a file is made. -/
theorem Made.extends (hmade : Made fs fs₁ fs₂ path type parent ino) (hmarked : fs.Marked)
    (hroom : fs.EntryFits path) : Extends fs fs₂ := by
  have hcreated := hmade.created.extends hmarked
  obtain ⟨dir, name, -, -, ⟨rfl, -⟩ | hinserted⟩ := hmade.cases hmarked hroom
  · exact hcreated
  · exact hcreated.trans ((hmade.updates hmarked).extends hinserted (hmade.created.marked hmarked))

theorem sysMkfile_extends (hmarked : fs.Marked) (hcan : fs.CanMake path)
    (hroom : fs.EntryFits path) (hmake : fs.sysMkfile path = some fs') : Extends fs fs' := by
  rcases sysMkfile_cases hmarked hcan hmake with ⟨rfl, -⟩ | ⟨parent, ino, fs₁, hmade⟩
  · exact .refl fs'
  · exact hmade.extends hmarked hroom

/-- The steps of `sys_mkfile` where the path names nothing yet. -/
theorem NewFile.made (hnew : fs.NewFile path ino) (hmarked : fs.Marked) (hcan : fs.CanMake path)
    (hroom : fs.EntryFits path) (hmake : fs.sysMkfile path = some fs') :
    ∃ dir name parent fs₁, Made fs fs₁ fs' path .file parent ino ∧
      splitPath2parts path = some (dir, name) ∧ IsName name ∧ Names fs dir parent ∧
      Inserted fs₁ fs' parent ⟨name, ino, DirEntryType.file.code⟩ := by
  obtain ⟨hnext, dir, name, parent, hsplit, hparent, hwrite, habsent, hfree⟩ := hnew
  have hmakes : fs.MakesIn path parent := by
    refine ⟨?_, (hmarked.owner_lt hparent.inUse.1).ne, hwrite⟩
    rw [parentIno, hsplit, Option.map_some, hparent.dirIsExists hmarked]
  rcases sysMkfile_cases hmarked hcan hmake with ⟨-, hnone⟩ | ⟨parent', ino', fs₁, hmade⟩
  · exact absurd hmakes (hnone parent)
  · obtain rfl : parent = parent' := Option.some.inj (hmakes.1.symm.trans hmade.makesIn.1)
    obtain rfl : ino = ino' := Option.some.inj (hnext.symm.trans hmade.next)
    obtain ⟨dir', name', hsplit', hname, hcases⟩ := hmade.cases hmarked hroom
    rw [hsplit, Option.some.injEq, Prod.mk.injEq] at hsplit'
    obtain ⟨rfl, rfl⟩ := hsplit'
    refine ⟨dir, name, parent, fs₁, hmade, hsplit, hname, hparent, ?_⟩
    rcases hcases with ⟨-, hfull⟩ | hinserted
    · obtain ⟨hnone, hindex⟩ := hfull habsent
      rcases hfree with ⟨slot, hmem, hslot⟩ | hindex'
      · exact absurd hslot (hnone slot hmem)
      · exact absurd hindex hindex'
    · exact hinserted

/-- The new file is found under its path. -/
theorem NewFile.names (hnew : fs.NewFile path ino) (hmarked : fs.Marked) (hcan : fs.CanMake path)
    (hroom : fs.EntryFits path) (hmake : fs.sysMkfile path = some fs') : Names fs' path ino := by
  obtain ⟨dir, name, parent, fs₁, hmade, hsplit, hname, hparent, hinserted⟩ :=
    hnew.made hmarked hcan hroom hmake
  refine (hparent.extends (hmade.extends hmarked hroom)).child hsplit hname ?_
    ((hmade.inUse_iff hmarked).mpr (.inr rfl))
  rw [find, hinserted.findDirEntry hname.length hname.nulFree, if_pos rfl]

variable {made : List Byte}

theorem Lands.found (hlands : fs.Lands made path ino) (hmarked : fs.Marked)
    (hcan : fs.CanMake made) (hroom : fs.EntryFits made) (hmake : fs.sysMkfile made = some fs') :
    fs'.dirIsExists path = ino ∧ fs'.InUse ino := by
  have hmarked' := (sysMkfile_changes hmarked hcan hmake).1.marked
  rcases hlands with hnames | ⟨rfl, hnew⟩ | ⟨hnone, hfound⟩
  · have hnames' := hnames.extends (sysMkfile_extends hmarked hcan hroom hmake)
    exact ⟨hnames'.dirIsExists hmarked', hnames'.inUse⟩
  · have hnames' := hnew.names hmarked hcan hroom hmake
    exact ⟨hnames'.dirIsExists hmarked', hnames'.inUse⟩
  · rw [sysMkfile_refused hnone] at hmake
    cases hmake
    exact hfound

theorem LandsSound.found (hlands : fs.LandsSound made path ino) (hmarked : fs.Marked)
    (hcan : fs.CanMake made) (hroom : fs.EntryFits made) (hmake : fs.sysMkfile made = some fs') :
    fs'.dirIsExists path = ino ∧ fs'.Sound ino := by
  obtain ⟨hfound, huse⟩ := hlands.1.found hmarked hcan hroom hmake
  exact ⟨hfound, (sysMkfile_changes hmarked hcan hmake).1.keepsSound ino huse hlands.2⟩

/-- An inode that was in use is found already. -/
theorem Lands.old (hlands : fs.Lands made path ino) (hmarked : fs.Marked) (huse : fs.InUse ino) :
    fs.dirIsExists path = ino := by
  rcases hlands with hnames | ⟨-, hnew⟩ | ⟨-, hfound, -⟩
  · exact hnames.dirIsExists hmarked
  · have hfresh := (Bitmap.bitmapScan_one_spec hnew.next).2
    exact absurd (hfresh.symm.trans huse.2) Bool.false_ne_true
  · exact hfound

/-- Making the file does not change who may use the source. -/
theorem Denied.after {op : Byte} (hdenied : fs.Denied op made path) (hmarked : fs.Marked)
    (hcan : fs.CanMake made) (hroom : fs.EntryFits made) (hmake : fs.sysMkfile made = some fs') :
    fs'.checkInodePermission (fs'.ino2inode (fs'.dirIsExists path)) op = false := by
  obtain ⟨hpermission, hnone | ⟨ino, hnames⟩⟩ := hdenied
  · rw [sysMkfile_refused hnone] at hmake
    cases hmake
    exact hpermission
  · have hmarked' := (sysMkfile_changes hmarked hcan hmake).1.marked
    have hnames' := hnames.extends (sysMkfile_extends hmarked hcan hroom hmake)
    rw [hnames'.dirIsExists hmarked', sysMkfile_permissions hmarked hcan hmake hnames.inUse,
      ← hnames.dirIsExists hmarked]
    exact hpermission

/-! ### Copying -/

/-- The target of a copy is sound when it is made, unless the source cannot be read. -/
structure CanCopy (fs : Server) (src dst : List Byte) : Prop where
  make : fs.CanMake dst
  fits : fs.EntryFits dst
  paths : fs.Denied accessRead dst src ∨ ∃ target, fs.LandsSound dst dst target

/-- What a copy changes: the directory of the target, and the target. -/
def CopiesTo (fs : Server) (src dst : List Byte) (ino : Nat) : Prop :=
  fs.MakesIn dst ino ∨ ¬ fs.Denied accessRead dst src ∧ fs.dirIsExists dst = ino

variable {src dst dir : List Byte} {source target : Nat}

theorem copyFile_denied (hmake : fs.sysMkfile dst = some fs₁)
    (hdenied : ¬ fs₁.MayRead (fs₁.dirIsExists src)) : fs.copyFile src dst = some fs₁ := by
  rw [MayRead, Bool.not_eq_true] at hdenied
  simp only [copyFile, hmake, Option.bind_eq_bind, Option.bind_some, hdenied, Bool.not_false, if_true]

/-- The target gets blocks of its own. -/
theorem copyFile_updates (hmarked₁ : fs₁.Marked) (hmake : fs.sysMkfile dst = some fs₁)
    (hsound : fs₁.Sound target) (htarget : fs₁.dirIsExists dst = target)
    (hallowed : fs₁.MayRead (fs₁.dirIsExists src)) (hcopy : fs.copyFile src dst = some fs') :
    Updates fs₁ target fs' := by
  rw [MayRead] at hallowed
  simp only [copyFile, hmake, Option.bind_eq_bind, Option.bind_some, hallowed, Bool.not_true,
    Bool.false_eq_true, if_false, htarget, Option.bind_eq_some_iff, Prod.exists] at hcopy
  obtain ⟨fs₂, inode, hsectors, hresult⟩ := hcopy
  cases hresult
  have hworking := copySectors_working (.start hmarked₁ hsound) hmarked₁.layout hsectors
  have hstored := (hworking.setFields { inode with
    size := (fs₁.ino2inode (fs₁.dirIsExists src)).size } rfl rfl).updates_syncInode hmarked₁
      hsound.inUse.1
  exact hstored.syncBlockBitmap hmarked₁ hsound.inUse.1

theorem copyFile_changes (hmarked : fs.Marked) (hcan : fs.CanCopy src dst)
    (hcopy : fs.copyFile src dst = some fs') : Changes fs (fs.CopiesTo src dst) fs' := by
  obtain ⟨hmakeOk, hfits, hpaths⟩ := hcan
  obtain ⟨fs₁, hmake, -⟩ := Option.bind_eq_some_iff.mp hcopy
  obtain ⟨hmade, hkept⟩ := sysMkfile_changes hmarked hmakeOk hmake
  have hdir : Changes fs (fs.CopiesTo src dst) fs₁ := hmade.mono fun _ _ h => .inl h
  by_cases hallowed : fs₁.MayRead (fs₁.dirIsExists src)
  · have hnot : ¬ fs.Denied accessRead dst src := by
      intro hdenied
      have hafter := hdenied.after hmarked hmakeOk hfits hmake
      exact Bool.false_ne_true (hafter.symm.trans hallowed)
    obtain ⟨target, htarget⟩ := hpaths.resolve_left hnot
    obtain ⟨htarget₁, hsound₁⟩ := htarget.found hmarked hmakeOk hfits hmake
    have hupdates := copyFile_updates hmade.marked hmake hsound₁ htarget₁ hallowed hcopy
    have hall := hdir.trans (hupdates.changes hmade.marked) fun ino huse _ => hkept ino huse
    refine hall.mono fun ino huse htouched => ?_
    rcases htouched with hcopies | rfl
    · exact hcopies
    · exact .inr ⟨hnot, htarget.1.old hmarked huse⟩
  · rw [copyFile_denied hmake hallowed] at hcopy
    cases hcopy
    exact hdir

/-! ### Moving -/

/-- The paths of a move lead to sound inodes, unless the source may not be written to. A file
is not its own directory. -/
structure CanMove (fs : Server) (src dst : List Byte) : Prop where
  make : fs.CanMake dst
  fits : fs.EntryFits dst
  paths : fs.Denied accessWrite dst src ∨ ∃ source target dir name parent,
    fs.LandsSound dst src source ∧ fs.LandsSound dst dst target ∧
      splitPath2parts src = some (dir, name) ∧ fs.LandsSound dst dir parent ∧ parent ≠ source

/-- What a move changes: the directory of the target, the target, and the directory that
the source is removed from. -/
def MovesTo (fs : Server) (src dst : List Byte) (ino : Nat) : Prop :=
  fs.MakesIn dst ino ∨ ¬ fs.Denied accessWrite dst src ∧
    (fs.dirIsExists dst = ino ∨ fs.parentIno src = some ino)

/-- The inode of the target with the sectors and the size of the source. -/
def movedInode (fs : Server) (source target : Nat) : Inode :=
  { fs.ino2inode target with
    size := (fs.ino2inode source).size
    sectors := (fs.ino2inode source).sectors }

/-- What `move_file` does once the file is made and the source may be written. -/
def finishMove (fs : Server) (parent : Nat) (name : List Byte) (source target : Nat) : Server :=
  (((fs.removeDirEntry (fs.ino2inode parent) name).freeInode source).syncInode
    (fs.movedInode source target)).syncInodeBitmap

theorem moveFile_denied (hmake : fs.sysMkfile dst = some fs₁)
    (hdenied : ¬ fs₁.MayWrite (fs₁.dirIsExists src)) : fs.moveFile src dst = some fs₁ := by
  rw [MayWrite, Bool.not_eq_true] at hdenied
  simp only [moveFile, hmake, Option.bind_eq_bind, Option.bind_some, hdenied, Bool.not_false, if_true]

theorem moveFile_allowed (hmake : fs.sysMkfile dst = some fs₁)
    (hallowed : fs₁.MayWrite (fs₁.dirIsExists src)) (hsplit : splitPath2parts src = some (dir, name)) :
    fs.moveFile src dst = some
      (fs₁.finishMove (fs₁.dirIsExists dir) name (fs₁.dirIsExists src) (fs₁.dirIsExists dst)) := by
  rw [MayWrite] at hallowed
  simp only [moveFile, hmake, Option.bind_eq_bind, Option.bind_some, hallowed, Bool.not_true,
    Bool.false_eq_true, if_false, hsplit, Option.map_some, Option.getD_some]
  rfl

/-- The target takes the sectors over when the source has given its number back. -/
theorem movedInode_working (hmarked : fs.Marked) (hsource : fs.Sound source)
    (htarget : fs.Sound target) (hself : parent ≠ source) (hupdates : Updates fs parent fs₂) :
    Working (fs₂.freeInode source) target (fs₂.freeInode source) (fs.movedInode source target) := by
  have hmarked₂ := hupdates.marked hmarked
  have hsource₂ := hupdates.sound hmarked hsource
  have hsectors : (fs₂.ino2inode source).sectors = (fs.ino2inode source).sectors := by
    rw [hupdates.works.inodes source hsource.inUse.1 (Ne.symm hself)]
  constructor
  case works => exact .refl (freeInode_changes hmarked₂ source).marked target
  case number => exact htarget.number
  case owned => exact hsource₂.owned.congr rfl rfl hsectors.symm
  case apart =>
    intro i ino huse hne j hj
    obtain ⟨huse₂, hneSource⟩ := freeInode_inUse_iff.mp huse
    change (fs₂.ino2inode ino).sectors j ≠ (fs.ino2inode source).sectors i
    rw [← hsectors]
    exact hsource₂.apart i ino huse₂ hneSource j hj

/-- A move touches the directory of the source and the target. -/
theorem finishMove_changes (hmarked : fs.Marked) (hsource : fs.Sound source)
    (htarget : fs.Sound target) (hparent : fs.Sound parent) (hself : parent ≠ source)
    (name : List Byte) :
    Changes fs (fun ino => ino = parent ∨ ino = target) (fs.finishMove parent name source target) := by
  have hupdates := removeDirEntry_updates hmarked hparent name
  have hworking := movedInode_working hmarked hsource htarget hself hupdates
  rw [finishMove]
  generalize fs.removeDirEntry (fs.ino2inode parent) name = fs₂ at hupdates hworking ⊢
  have hremoved := hupdates.changes hmarked
  have htarget₂ := hupdates.works.inUse_iff.mpr htarget.inUse
  by_cases hother : source = target
  · -- the number was given back, so the inode that is stored is not in use
    subst hother
    have hstored := (Works.refl hremoved.marked source).syncInode hremoved.marked.layout
      htarget₂.1
      (hworking.number : (fs.movedInode source source).inodeNo = source)
    have hfreed := hstored.freeInode_changes hremoved.marked
    have hboth := hremoved.trans hfreed fun ino huse _ => hupdates.works.inUse_iff.mpr huse
    have hall := hboth.trans (syncInodeBitmap_changes hfreed.marked)
      fun _ _ h => syncInodeBitmap_inUse_iff.mp h
    change Changes fs _ ((fs₂.syncInode (fs.movedInode source source)).freeInode
      source).syncInodeBitmap
    refine hall.mono fun ino _ htouched => ?_
    rcases htouched with (hparent | hfalse) | hfalse
    · exact .inl hparent
    · exact hfalse.elim
    · exact hfalse.elim
  · have hfreed := freeInode_changes hremoved.marked source
    have htarget₃ := freeInode_inUse_iff.mpr ⟨htarget₂, Ne.symm hother⟩
    have hstored := hworking.updates_syncInode hfreed.marked htarget₃.1
    have hchanged := hstored.changes hfreed.marked
    have hfirst := hremoved.trans hfreed fun _ _ h => (freeInode_inUse_iff.mp h).1
    have hsecond := hfirst.trans hchanged fun _ _ h => hstored.works.inUse_iff.mp h
    have hall := hsecond.trans (syncInodeBitmap_changes hchanged.marked)
      fun _ _ h => syncInodeBitmap_inUse_iff.mp h
    refine hall.mono fun ino _ htouched => ?_
    rcases htouched with ((hparent | hfalse) | htarget) | hfalse
    · exact .inl hparent
    · exact hfalse.elim
    · exact .inr htarget
    · exact hfalse.elim

theorem moveFile_changes (hmarked : fs.Marked) (hcan : fs.CanMove src dst)
    (hmove : fs.moveFile src dst = some fs') : Changes fs (fs.MovesTo src dst) fs' := by
  obtain ⟨hmakeOk, hfits, hpaths⟩ := hcan
  obtain ⟨fs₁, hmake, -⟩ := Option.bind_eq_some_iff.mp hmove
  obtain ⟨hmade, hkept⟩ := sysMkfile_changes hmarked hmakeOk hmake
  have hdir : Changes fs (fs.MovesTo src dst) fs₁ := hmade.mono fun _ _ h => .inl h
  by_cases hallowed : fs₁.MayWrite (fs₁.dirIsExists src)
  · have hnot : ¬ fs.Denied accessWrite dst src := by
      intro hdenied
      have hafter := hdenied.after hmarked hmakeOk hfits hmake
      exact Bool.false_ne_true (hafter.symm.trans hallowed)
    obtain ⟨source, target, dir, name, parent, hsource, htarget, hsplit, hparent, hself⟩ :=
      hpaths.resolve_left hnot
    obtain ⟨hsource₁, hsourceUse⟩ := hsource.found hmarked hmakeOk hfits hmake
    obtain ⟨htarget₁, htargetUse⟩ := htarget.found hmarked hmakeOk hfits hmake
    obtain ⟨hparent₁, hparentUse⟩ := hparent.found hmarked hmakeOk hfits hmake
    rw [moveFile_allowed hmake hallowed hsplit, hsource₁, htarget₁, hparent₁] at hmove
    cases hmove
    have hfinished := finishMove_changes hmade.marked hsourceUse htargetUse hparentUse hself name
    refine (hdir.trans hfinished fun ino huse _ => hkept ino huse).mono fun ino huse htouched => ?_
    rcases htouched with hmoves | rfl | rfl
    · exact hmoves
    · refine .inr ⟨hnot, .inr ?_⟩
      rw [parentIno, hsplit, Option.map_some, hparent.1.old hmarked huse]
    · exact .inr ⟨hnot, .inl (htarget.1.old hmarked huse)⟩
  · rw [moveFile_denied hmake hallowed] at hmove
    cases hmove
    exact hdir

/-! ### Descriptors and permissions -/

/-- The copy of an inode that can be stored: its number is in use, and its sectors are in
use and belong to no other inode. -/
structure Storable (fs : Server) (inode : Inode) : Prop where
  inUse : fs.InUse inode.inodeNo
  owned : fs.Owned inode
  apart : ∀ i, fs.Private inode.inodeNo (inode.sectors i)

/-- The descriptor is closed, may not be written to, or its copy can be stored. -/
def CanWrite (fs : Server) (fd : Nat) : Prop :=
  ∀ file, fs.fileDescTbl fd = some file →
    fs.checkInodePermission file.inode accessWrite = true → fs.Storable file.inode

/-- The inode that a write through the descriptor is stored to. -/
def WritesThrough (fs : Server) (fd ino : Nat) : Prop :=
  ∃ file, fs.fileDescTbl fd = some file ∧
    fs.checkInodePermission file.inode accessWrite = true ∧ file.inode.inodeNo = ino

theorem Storable.working (hstorable : fs.Storable inode) (hmarked : fs.Marked) :
    Working fs inode.inodeNo fs inode where
  works := .refl hmarked _
  number := rfl
  owned := hstorable.owned
  apart := hstorable.apart

theorem Sound.storable (hsound : fs.Sound ino) : fs.Storable (fs.ino2inode ino) := by
  refine ⟨?_, hsound.owned, ?_⟩
  · rw [hsound.number]
    exact hsound.inUse
  · rw [hsound.number]
    exact hsound.apart

theorem writeFile_changes {fd count : Nat} {str : StringBuffer} {mode : Byte}
    (hmarked : fs.Marked) (hcan : fs.CanWrite fd)
    (hwrite : fs.writeFile fd str count mode = some fs') :
    Changes fs (fs.WritesThrough fd) fs' := by
  by_cases hfd : fd < 64
  · cases hopen : fs.fileDescTbl fd with
    | none =>
        rw [writeFile_closed hfd hopen, Option.some.injEq] at hwrite
        rw [← hwrite]
        exact .refl hmarked
    | some file =>
        cases hallowed : fs.checkInodePermission file.inode accessWrite with
        | false =>
            rw [writeFile_denied hfd hopen hallowed, Option.some.injEq] at hwrite
            rw [← hwrite]
            exact .refl hmarked
        | true =>
            have hstorable := hcan file hopen hallowed
            have hupdates := writeFile_updates hmarked hstorable.inUse hfd hopen hallowed
              (hstorable.working hmarked) hwrite
            refine (hupdates.changes hmarked).mono fun ino _ heq => ?_
            exact ⟨file, hopen, hallowed, heq.symm⟩
  · simp [writeFile, fileAt, hfd] at hwrite

/-- Nothing is written through a descriptor that is closed or may not be written to. -/
theorem writeFile_refused {fd count : Nat} {str : StringBuffer} {mode : Byte}
    (hnone : ∀ ino, ¬ fs.WritesThrough fd ino) (hwrite : fs.writeFile fd str count mode = some fs') :
    fs' = fs := by
  by_cases hfd : fd < 64
  · cases hopen : fs.fileDescTbl fd with
    | none => exact Option.some.inj (hwrite.symm.trans (writeFile_closed hfd hopen))
    | some file =>
        have hdenied : fs.checkInodePermission file.inode accessWrite = false := by
          by_contra hallowed
          exact hnone _ ⟨file, hopen, by simpa using hallowed, rfl⟩
        exact Option.some.inj (hwrite.symm.trans (writeFile_denied hfd hopen hdenied))
  · simp [writeFile, fileAt, hfd] at hwrite

/-- The descriptor table is no part of the disk. -/
theorem fileDescTbl_changes (hmarked : fs.Marked) (table : Nat → Option OpenFile) :
    Changes fs (fun _ => False) { fs with fileDescTbl := table } := by
  have hmarked' : ({ fs with fileDescTbl := table } : Server).Marked :=
    hmarked.mono rfl rfl fun _ huse => ⟨huse, rfl⟩
  exact ⟨hmarked', keepsSound_of_inode hmarked' fun _ huse => ⟨huse, rfl⟩, rfl, rfl,
    fun _ _ _ _ => ⟨rfl, fun _ _ => rfl⟩⟩

theorem readFile_fileDescTbl {fd count len : Nat} {buf buf' : ByteArea}
    (hread : fs.readFile fd buf count = some (fs', buf', len)) :
    ∃ table, fs' = { fs with fileDescTbl := table } := by
  simp only [readFile, Option.bind_eq_bind, Option.bind_eq_some_iff] at hread
  obtain ⟨entry, -, hread⟩ := hread
  cases entry with
  | none =>
      cases hread
      exact ⟨fs.fileDescTbl, rfl⟩
  | some file =>
      dsimp only at hread
      split at hread
      next =>
        cases hread
        exact ⟨fs.fileDescTbl, rfl⟩
      next =>
        obtain ⟨data, -, hresult⟩ := Option.bind_eq_some_iff.mp hread
        cases hresult
        exact ⟨_, rfl⟩

theorem lseekFile_fileDescTbl {fd offset : Nat} (hseek : fs.lseekFile fd offset = some fs') :
    ∃ table, fs' = { fs with fileDescTbl := table } := by
  simp only [lseekFile, Option.bind_eq_bind, Option.bind_eq_some_iff] at hseek
  obtain ⟨entry, -, hseek⟩ := hseek
  cases entry with
  | none => cases hseek
  | some file =>
      cases hseek
      exact ⟨_, rfl⟩

theorem closeFile_fileDescTbl {fd : Nat} (hclose : fs.closeFile fd = some fs') :
    ∃ table, fs' = { fs with fileDescTbl := table } := by
  by_cases hfd : fd < 64
  · obtain ⟨table, htable⟩ := fs.closeFile_disk hfd
    exact ⟨table, Option.some.inj (hclose.symm.trans htable)⟩
  · simp [closeFile, fileAt, hfd] at hclose

/-- Storing an inode with other permissions leaves the size and the sectors alone. -/
theorem syncInode_sameContent (hmarked : fs.Marked) (hsound : fs.Sound owner)
    (hnumber : inode.inodeNo = (fs.ino2inode owner).inodeNo)
    (hsize : inode.size = (fs.ino2inode owner).size)
    (hsectors : inode.sectors = (fs.ino2inode owner).sectors) (hother : fs.InUse ino) :
    SameContent fs (fs.syncInode inode) ino := by
  have hworking := (Working.start hmarked hsound).setFields inode hnumber hsectors
  by_cases hne : ino = owner
  · subst hne
    have hself := fs.ino2inode_syncInode_self inode
    rw [hworking.number] at hself
    constructor
    case size =>
      rw [hself]
      change inode.size % 256 ^ 4 = _
      rw [hsize]
      exact congrArg Inode.size (fs.ino2inode_truncate ino)
    case sectors => exact (hworking.stored hmarked hsound.inUse.1).2.trans hsectors
    case data =>
      intro i hi
      have hdata := (hmarked.occupied ino hother i hi).isDataSector
      refine syncInode_disk_of_ne (hdata.ne_inodeSector hmarked.layout ?_)
      rw [hworking.number]
      exact hsound.inUse.1
  · have hstored := hworking.works.syncInode hmarked.layout hsound.inUse.1 hworking.number
    exact (hstored.spared hother hne).sameContent

/-! ### All requests -/

/-- The inodes that the request works on are sound. -/
def Orderly (fs : Server) : Request → Prop
  | .mkdir path _ | .mkfile path => fs.CanMake path.chars
  | .rmdir path => fs.CanRmdir path.chars
  | .rmfile path => fs.CanRmfile path.chars
  | .writeFile fd _ _ _ => fs.CanWrite fd
  | .cpfile src dst => fs.CanCopy src.chars dst.chars
  | .mvfile src dst => fs.CanMove src.chars dst.chars
  | .chmod path _ | .chown path _ =>
      fs.dirIsExists path.chars ≠ minusOne → fs.Sound (fs.dirIsExists path.chars)
  | .openFile _ | .closeFile _ | .readFile .. | .lseekFile .. | .isEof _ => True

/-- The request returns before it writes anything: it writes nothing at all, or what it asks
for is missing or denied. -/
def Refused (fs : Server) : Request → Prop
  | .mkdir path _ | .mkfile path => ∀ parent, ¬ fs.MakesIn path.chars parent
  | .rmdir path =>
      fs.dirIsEmpty path.chars = false ∨ ∀ parent, ¬ fs.MakesIn path.chars parent
  | .rmfile path => ∀ parent, ¬ fs.RemovesFrom path.chars parent
  | .writeFile fd _ _ _ => ∀ ino, ¬ fs.WritesThrough fd ino
  | .cpfile src dst => (∀ parent, ¬ fs.MakesIn dst.chars parent) ∧
      ¬ fs.MayRead (fs.dirIsExists src.chars)
  | .mvfile src dst => (∀ parent, ¬ fs.MakesIn dst.chars parent) ∧
      ¬ fs.MayWrite (fs.dirIsExists src.chars)
  | .chmod path _ | .chown path _ => fs.dirIsExists path.chars = minusOne
  | .openFile _ | .closeFile _ | .readFile .. | .lseekFile .. | .isEof _ => True

/-- The inodes whose content the request may change. -/
def Touches (fs : Server) : Request → Nat → Prop
  | .mkdir path _ | .rmdir path | .mkfile path => fs.MakesIn path.chars
  | .rmfile path => fs.RemovesFrom path.chars
  | .writeFile fd _ _ _ => fs.WritesThrough fd
  | .cpfile src dst => fs.CopiesTo src.chars dst.chars
  | .mvfile src dst => fs.MovesTo src.chars dst.chars
  | .openFile _ | .closeFile _ | .readFile .. | .lseekFile .. | .isEof _ | .chmod .. | .chown .. =>
      fun _ => False

/-- A refused request changes nothing but the descriptors, in whatever state the server is. -/
theorem handle_refused {req : Request} (hrefused : fs.Refused req)
    (hhandle : fs.handle req = some fs') : ∃ table, fs' = { fs with fileDescTbl := table } := by
  have hsame : fs = fs' → ∃ table, fs' = { fs with fileDescTbl := table } := by
    rintro rfl
    exact ⟨fs.fileDescTbl, rfl⟩
  cases req with
  | mkdir path heap =>
      exact hsame (Option.some.inj ((sysMkdir_refused hrefused).symm.trans hhandle))
  | rmdir path => exact hsame ((sysRmdir_refused hrefused).symm.trans (Option.some.inj hhandle))
  | mkfile path => exact hsame (Option.some.inj ((sysMkfile_refused hrefused).symm.trans hhandle))
  | rmfile path => exact hsame ((sysRmfile_refused hrefused).symm.trans (Option.some.inj hhandle))
  | openFile path =>
      cases hhandle
      exact fs.openFile_disk path.chars
  | closeFile fd => exact closeFile_fileDescTbl hhandle
  | writeFile fd str count mode => exact hsame (writeFile_refused hrefused hhandle).symm
  | readFile fd buf count =>
      obtain ⟨⟨fs₁, buf', len⟩, hread, rfl⟩ := Option.map_eq_some_iff.mp hhandle
      exact readFile_fileDescTbl hread
  | lseekFile fd offset => exact lseekFile_fileDescTbl hhandle
  | isEof fd =>
      obtain ⟨eof, -, hsameState⟩ := Option.map_eq_some_iff.mp hhandle
      exact hsame hsameState
  | cpfile src dst =>
      have hcopy := copyFile_denied (sysMkfile_refused hrefused.1) hrefused.2
      exact hsame (Option.some.inj (hcopy.symm.trans hhandle))
  | mvfile src dst =>
      have hmove := moveFile_denied (sysMkfile_refused hrefused.1) hrefused.2
      exact hsame (Option.some.inj (hmove.symm.trans hhandle))
  | chmod path newMode =>
      cases hhandle
      have hmissing : fs.dirIsExists path.chars = minusOne := hrefused
      exact hsame (by rw [sysChmod, if_pos hmissing])
  | chown path newUid =>
      cases hhandle
      have hmissing : fs.dirIsExists path.chars = minusOne := hrefused
      exact hsame (by rw [sysChown, if_pos hmissing])

theorem step_refused {req : Request} (hrefused : fs.Refused req) (hstep : fs.step req = some fs') :
    ∃ table, fs' = { fs with fileDescTbl := table } := by
  unfold step at hstep
  split at hstep
  next => exact handle_refused hrefused hstep
  next => cases hstep

/-- The other inodes keep their content. -/
structure Confined (fs : Server) (touched : Nat → Prop) (fs' : Server) : Prop where
  marked : fs'.Marked
  keepsSound : KeepsSound fs fs'
  content : ∀ ino, fs.InUse ino → fs'.InUse ino → ¬ touched ino → SameContent fs fs' ino

theorem Changes.confined (hchanges : Changes fs touched fs') : Confined fs touched fs' where
  marked := hchanges.marked
  keepsSound := hchanges.keepsSound
  content ino huse huse' hnot := (hchanges.spared ino huse huse' hnot).sameContent

/-- Storing an inode with other permissions changes no content at all. -/
theorem syncInode_confined (hmarked : fs.Marked) (hsound : fs.Sound owner)
    (hnumber : inode.inodeNo = (fs.ino2inode owner).inodeNo)
    (hsize : inode.size = (fs.ino2inode owner).size)
    (hsectors : inode.sectors = (fs.ino2inode owner).sectors) :
    Confined fs touched (fs.syncInode inode) where
  marked := (syncInode_updates hmarked hsound hnumber hsectors).marked hmarked
  keepsSound := (syncInode_updates hmarked hsound hnumber hsectors).keepsSound hmarked
  content _ino hino _ _ := syncInode_sameContent hmarked hsound hnumber hsize hsectors hino

/-- An orderly request keeps sound inodes so and changes no content but that of
the inodes it works on. -/
theorem handle_confined {req : Request} (hmarked : fs.Marked) (horderly : fs.Orderly req)
    (hhandle : fs.handle req = some fs') : Confined fs (fs.Touches req) fs' := by
  cases req with
  | mkdir path heap => exact (sysMkdir_changes hmarked horderly hhandle).confined
  | rmdir path =>
      cases hhandle
      exact (sysRmdir_changes hmarked horderly).confined
  | mkfile path => exact (sysMkfile_changes hmarked horderly hhandle).1.confined
  | rmfile path =>
      cases hhandle
      exact (sysRmfile_changes hmarked horderly).confined
  | openFile path =>
      cases hhandle
      obtain ⟨table, htable⟩ := fs.openFile_disk path.chars
      rw [htable]
      exact (fileDescTbl_changes hmarked table).confined
  | closeFile fd =>
      obtain ⟨table, rfl⟩ := closeFile_fileDescTbl hhandle
      exact (fileDescTbl_changes hmarked table).confined
  | writeFile fd str count mode => exact (writeFile_changes hmarked horderly hhandle).confined
  | readFile fd buf count =>
      obtain ⟨⟨fs₁, buf', len⟩, hread, rfl⟩ := Option.map_eq_some_iff.mp hhandle
      obtain ⟨table, htable⟩ := readFile_fileDescTbl hread
      dsimp only
      rw [htable]
      exact (fileDescTbl_changes hmarked table).confined
  | lseekFile fd offset =>
      obtain ⟨table, rfl⟩ := lseekFile_fileDescTbl hhandle
      exact (fileDescTbl_changes hmarked table).confined
  | isEof fd =>
      obtain ⟨eof, -, rfl⟩ := Option.map_eq_some_iff.mp hhandle
      exact (Changes.refl hmarked).confined
  | cpfile src dst => exact (copyFile_changes hmarked horderly hhandle).confined
  | mvfile src dst => exact (moveFile_changes hmarked horderly hhandle).confined
  | chmod path newMode =>
      cases hhandle
      rw [sysChmod]
      dsimp only
      split
      next => exact (Changes.refl hmarked).confined
      next hfound =>
        refine syncInode_confined hmarked (horderly hfound) ?_ ?_ ?_ <;> split <;> rfl
  | chown path newUid =>
      cases hhandle
      rw [sysChown]
      dsimp only
      split
      next => exact (Changes.refl hmarked).confined
      next hfound =>
        refine syncInode_confined hmarked (horderly hfound) ?_ ?_ ?_ <;> split <;> rfl

theorem step_confined {req : Request} (hmarked : fs.Marked) (horderly : fs.Orderly req)
    (hstep : fs.step req = some fs') : Confined fs (fs.Touches req) fs' := by
  unfold step at hstep
  split at hstep
  next => exact handle_confined hmarked horderly hstep
  next => cases hstep

end Shmily.Fs.Server
