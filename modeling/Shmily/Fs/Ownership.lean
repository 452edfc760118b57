import Shmily.Fs.SharedFile

/-! # Work on one inode

An operation on a file or a directory takes the inode into memory, writes to its
sectors, gets blocks from the bitmap and gives blocks back, and stores the inode at
the end. As long as all sectors in use are allocated and the inode owns its sectors
alone, such work leaves the other ones alone, and every inode that owned its sectors
alone does so afterwards.
-/

namespace Shmily.Fs.Server

open Foundation Lib

/-- The inode is in the table and its bit is set. -/
def InUse (fs : Server) (ino : Nat) : Prop :=
  fs.InTable ino ∧ fs.inodeBmap.verifyBit ino = true

instance (fs : Server) (ino : Nat) : Decidable (fs.InUse ino) :=
  inferInstanceAs (Decidable (_ ∧ _))

/-- The inodes in use have their own numbers and own their sectors, and no two of them
share one. Inode numbers are below the value for "not found". -/
structure Consistent (fs : Server) : Prop where
  layout : fs.Layout
  numbers : fs.sb.inodeTableSectors * 8 ≤ minusOne
  number : ∀ ino, fs.InUse ino → (fs.ino2inode ino).inodeNo = ino
  owned : ∀ ino, fs.InUse ino → fs.Owned (fs.ino2inode ino)
  disjoint : ∀ a b, fs.InUse a → fs.InUse b → a ≠ b → ∀ i j, (fs.ino2inode a).sectors i ≠ 0 →
    (fs.ino2inode a).sectors i ≠ (fs.ino2inode b).sectors j

/-- No inode in use but this one has the sector. -/
def Private (fs : Server) (owner lba : Nat) : Prop :=
  ∀ ino, fs.InUse ino → ino ≠ owner → ∀ i, (fs.ino2inode ino).sectors i ≠ 0 →
    (fs.ino2inode ino).sectors i ≠ lba

/-- The sectors of the inodes in use are allocated, whoever owns them. -/
structure Marked (fs : Server) : Prop where
  layout : fs.Layout
  numbers : fs.sb.inodeTableSectors * 8 ≤ minusOne
  occupied : ∀ ino, fs.InUse ino → ∀ i, (fs.ino2inode ino).sectors i ≠ 0 →
    fs.Occupied ((fs.ino2inode ino).sectors i)

/-- The inode is in use, has its own number and owns its sectors alone. -/
structure Sound (fs : Server) (ino : Nat) : Prop where
  inUse : fs.InUse ino
  number : (fs.ino2inode ino).inodeNo = ino
  owned : fs.Owned (fs.ino2inode ino)
  apart : ∀ i, fs.Private ino ((fs.ino2inode ino).sectors i)

/-- An inode that was sound is so afterwards if it is still in use, and so is a new one. -/
def KeepsSound (fs fs' : Server) : Prop :=
  ∀ ino, fs'.InUse ino → (fs.InUse ino → fs.Sound ino) → fs'.Sound ino

/-- The inode and the content of its sectors are as they were. -/
structure Spared (fs fs' : Server) (ino : Nat) : Prop where
  inode : fs'.ino2inode ino = fs.ino2inode ino
  data : ∀ i, (fs.ino2inode ino).sectors i ≠ 0 →
    fs'.disk ((fs.ino2inode ino).sectors i) = fs.disk ((fs.ino2inode ino).sectors i)

/-- What was done since `fs` concerns one inode only: the others are spared, and their
sectors are still in use. -/
structure Works (fs : Server) (owner : Nat) (fs' : Server) : Prop where
  sb : fs'.sb = fs.sb
  uid : fs'.uid = fs.uid
  inodeBmap : fs'.inodeBmap = fs.inodeBmap
  bytesLen : fs'.blockBmap.bytesLen = fs.blockBmap.bytesLen
  inodes : ∀ ino, fs.InTable ino → ino ≠ owner → fs'.ino2inode ino = fs.ino2inode ino
  data : ∀ ino, fs.InUse ino → ino ≠ owner → ∀ i, (fs.ino2inode ino).sectors i ≠ 0 →
    fs'.disk ((fs.ino2inode ino).sectors i) = fs.disk ((fs.ino2inode ino).sectors i)
  occupied : ∀ ino, fs.InUse ino → ino ≠ owner → ∀ i, (fs.ino2inode ino).sectors i ≠ 0 →
    fs'.Occupied ((fs.ino2inode ino).sectors i)

/-- Work on an inode that is held in memory, with the sectors it has by now. -/
structure Working (fs : Server) (owner : Nat) (fs' : Server) (inode : Inode) : Prop where
  works : Works fs owner fs'
  number : inode.inodeNo = owner
  owned : fs'.Owned inode
  apart : ∀ i, fs.Private owner (inode.sectors i)

variable {fs fs' fs'' : Server} {owner ino lba blockNo : Nat} {inode inode' : Inode}

theorem Consistent.marked (hcons : fs.Consistent) : fs.Marked where
  layout := hcons.layout
  numbers := hcons.numbers
  occupied ino huse := (hcons.owned ino huse).occupied

theorem Consistent.sound (hcons : fs.Consistent) (huse : fs.InUse ino) : fs.Sound ino where
  inUse := huse
  number := hcons.number ino huse
  owned := hcons.owned ino huse
  apart i other hother hne j hj := hcons.disjoint other ino hother huse hne j i hj

/-- Consistency is soundness of all inodes in use. -/
theorem Marked.consistent (hmarked : fs.Marked) (hsound : ∀ ino, fs.InUse ino → fs.Sound ino) :
    fs.Consistent where
  layout := hmarked.layout
  numbers := hmarked.numbers
  number ino huse := (hsound ino huse).number
  owned ino huse := (hsound ino huse).owned
  disjoint a b ha hb hab i j hi := (hsound b hb).apart j a ha hab i hi

/-- An inode with the record that it had is sound if it still owns its sectors alone. -/
theorem Sound.of_inode (hsound : fs.Sound ino) (hmarked : fs'.Marked) (huse : fs'.InUse ino)
    (hsame : fs'.ino2inode ino = fs.ino2inode ino)
    (hapart : ∀ i, fs'.Private ino ((fs.ino2inode ino).sectors i)) : fs'.Sound ino where
  inUse := huse
  number := by rw [hsame, hsound.number]
  owned := by
    refine ⟨hmarked.occupied ino huse, ?_⟩
    rw [hsame]
    exact hsound.owned.injective
  apart := by
    rw [hsame]
    exact hapart

theorem KeepsSound.consistent (hkeeps : KeepsSound fs fs') (hmarked : fs'.Marked)
    (hcons : fs.Consistent) : fs'.Consistent :=
  hmarked.consistent fun ino huse => hkeeps ino huse hcons.sound

theorem private_zero (fs : Server) (owner : Nat) : fs.Private owner 0 :=
  fun _ _ _ _ hne => hne

/-! ### The steps of such work -/

theorem Works.refl (hmarked : fs.Marked) (owner : Nat) : Works fs owner fs where
  sb := rfl
  uid := rfl
  inodeBmap := rfl
  bytesLen := rfl
  inodes _ _ _ := rfl
  data _ _ _ _ _ := rfl
  occupied ino huse _ := hmarked.occupied ino huse

theorem Works.layout (hworks : Works fs owner fs') (hlayout : fs.Layout) : fs'.Layout :=
  hlayout.congr hworks.sb hworks.bytesLen

theorem Works.inUse_iff (hworks : Works fs owner fs') : fs'.InUse ino ↔ fs.InUse ino := by
  rw [InUse, InUse, InTable, hworks.sb, hworks.inodeBmap, InTable]

theorem Works.spared (hworks : Works fs owner fs') (huse : fs.InUse ino) (hne : ino ≠ owner) :
    Spared fs fs' ino :=
  ⟨hworks.inodes ino huse.1 hne, hworks.data ino huse hne⟩

/-- A sector without a place in the inode table. -/
def OutsideTable (fs : Server) (lba : Nat) : Prop := lba = 0 ∨ fs.IsDataSector lba

theorem OutsideTable.ne_inodeSector (hout : fs.OutsideTable lba) (hlayout : fs.Layout)
    (hin : fs.InTable ino) : lba ≠ fs.inodeSector ino := by
  rcases hout with rfl | hdata
  · exact (inodeSector_ne_zero hlayout hin).symm
  · exact hdata.ne_inodeSector hlayout hin

theorem Owned.outsideTable (howned : fs.Owned inode) (i : Fin 9) :
    fs.OutsideTable (inode.sectors i) := by
  by_cases hzero : inode.sectors i = 0
  · exact .inl hzero
  · exact .inr (howned.occupied i hzero).isDataSector

/-- Writing to a sector that no other inode has. -/
theorem Works.writeDisk (hworks : Works fs owner fs') (hlayout : fs.Layout)
    (hprivate : fs.Private owner lba) (hout : fs'.OutsideTable lba) (buf : ByteArea) :
    Works fs owner (fs'.writeDisk lba buf) where
  sb := hworks.sb
  uid := hworks.uid
  inodeBmap := hworks.inodeBmap
  bytesLen := hworks.bytesLen
  inodes ino hin hne := by
    have hlayout' := hworks.layout hlayout
    have hsector := hout.ne_inodeSector hlayout' (hin.congr hworks.sb)
    rw [← hworks.inodes ino hin hne]
    exact ino2inode_congr rfl (writeDisk_disk_of_ne hsector.symm)
  data ino huse hne i hi := by
    rw [writeDisk_disk_of_ne (hprivate ino huse hne i hi)]
    exact hworks.data ino huse hne i hi
  occupied := hworks.occupied

/-- Storing the inode. -/
theorem Works.syncInode (hworks : Works fs owner fs') (hlayout : fs.Layout)
    (hin : fs.InTable owner) (hnumber : inode.inodeNo = owner) :
    Works fs owner (fs'.syncInode inode) where
  sb := hworks.sb
  uid := hworks.uid
  inodeBmap := hworks.inodeBmap
  bytesLen := hworks.bytesLen
  inodes ino hino hne := by
    have hlayout' := hworks.layout hlayout
    rw [← hworks.inodes ino hino hne]
    refine ino2inode_syncInode_of_ne hlayout' ?_ (hino.congr hworks.sb) (by rwa [hnumber])
    rw [hnumber]
    exact hin.congr hworks.sb
  data ino huse hne i hi := by
    have hlayout' := hworks.layout hlayout
    rw [← hworks.data ino huse hne i hi]
    refine syncInode_disk_of_ne ((hworks.occupied ino huse hne i hi).isDataSector.ne_inodeSector
      hlayout' ?_)
    rw [hnumber]
    exact hin.congr hworks.sb
  occupied := hworks.occupied

/-- A change of the block bitmap that clears no bit of another inode. -/
theorem Works.setBlockBmap (hworks : Works fs owner fs') {bmap : Bitmap}
    (hlen : bmap.bytesLen = fs'.blockBmap.bytesLen)
    (hbits : ∀ ino, fs.InUse ino → ino ≠ owner → ∀ i, (fs.ino2inode ino).sectors i ≠ 0 →
      Occupied { fs' with blockBmap := bmap } ((fs.ino2inode ino).sectors i)) :
    Works fs owner { fs' with blockBmap := bmap } where
  sb := hworks.sb
  uid := hworks.uid
  inodeBmap := hworks.inodeBmap
  bytesLen := hlen.trans hworks.bytesLen
  inodes := hworks.inodes
  data := hworks.data
  occupied := hbits

theorem Works.allocateBlock (hworks : Works fs owner fs')
    (halloc : fs'.allocateBlock = some (fs'', blockNo)) : Works fs owner fs'' := by
  obtain ⟨-, -, rfl⟩ := allocateBlock_spec halloc
  refine hworks.setBlockBmap rfl fun ino huse hne i hi => ?_
  exact (hworks.occupied ino huse hne i hi).mono rfl rfl fun _ => setBit_mono

/-- A block that was free belongs to no other inode. -/
theorem Works.private_blockLba (hworks : Works fs owner fs') (hlayout : fs.Layout)
    (halloc : fs'.allocateBlock = some (fs'', blockNo)) :
    fs.Private owner (fs''.blockLba blockNo) := by
  obtain ⟨hlt, hclear, rfl⟩ := allocateBlock_spec halloc
  intro ino huse hne i hi
  exact (blockLba_ne (hworks.layout hlayout) hlt hclear (hworks.occupied ino huse hne i hi)).symm

/-- Giving back a block that no other inode has. -/
theorem Works.freeBlock (hworks : Works fs owner fs') (hlayout : fs.Layout)
    (hprivate : fs.Private owner lba) (hlt : lba < 2 ^ 32) :
    Works fs owner (fs'.freeBlock (fs'.blockOf lba)) := by
  refine hworks.setBlockBmap rfl fun ino huse hne i hi => ?_
  have hother := hprivate ino huse hne i hi
  obtain ⟨hlow, hhigh, hset⟩ := hworks.occupied ino huse hne i hi
  have hdata := (hworks.layout hlayout).data
  refine ⟨hlow, hhigh, ?_⟩
  change (fs'.blockBmap.setBit _ false).verifyBit _ = true
  rw [Bitmap.verifyBit_setBit, if_neg ?_, hset]
  -- the block numbers of different sectors differ modulo 2 ^ 32
  change (lba + 2 ^ 32 - fs'.sb.dataStart) % 2 ^ 32 ≠ _
  change fs'.sb.dataStart ≤ _ at hlow
  change _ < fs'.sb.dataStart + fs'.blockBmap.bytesLen * 8 at hhigh
  change _ ≠ (fs.ino2inode ino).sectors i - fs'.sb.dataStart
  omega

theorem Works.syncBlockBitmap (hworks : Works fs owner fs') (hlayout : fs.Layout) :
    Works fs owner fs'.syncBlockBitmap where
  sb := hworks.sb
  uid := hworks.uid
  inodeBmap := hworks.inodeBmap
  bytesLen := hworks.bytesLen
  inodes ino hin hne := by
    rw [← hworks.inodes ino hin hne]
    exact ino2inode_syncBlockBitmap (hworks.layout hlayout) (hin.congr hworks.sb)
  data ino huse hne i hi := by
    have hlayout' := hworks.layout hlayout
    rw [← hworks.data ino huse hne i hi]
    exact syncBlockBitmap_disk hlayout'
      ((hworks.occupied ino huse hne i hi).isDataSector.table_le hlayout')
  occupied := hworks.occupied

theorem Works.setFile (hworks : Works fs owner fs') (fd : Nat) (file : Option OpenFile) :
    Works fs owner (fs'.setFile fd file) where
  sb := hworks.sb
  uid := hworks.uid
  inodeBmap := hworks.inodeBmap
  bytesLen := hworks.bytesLen
  inodes := hworks.inodes
  data := hworks.data
  occupied := hworks.occupied

/-! ### The inode in memory -/

theorem setSector_sectors (inode : Inode) (i j : Fin 9) (lba : Nat) :
    (inode.setSector i lba).sectors j = if j = i then lba else inode.sectors j :=
  Function.update_apply ..

theorem Working.start (hmarked : fs.Marked) (hsound : fs.Sound owner) :
    Working fs owner fs (fs.ino2inode owner) where
  works := .refl hmarked owner
  number := hsound.number
  owned := hsound.owned
  apart := hsound.apart

/-- Fields other than the number and the sectors do not matter. -/
theorem Working.setFields (hworking : Working fs owner fs' inode) (inode' : Inode)
    (hnumber : inode'.inodeNo = inode.inodeNo) (hsectors : inode'.sectors = inode.sectors) :
    Working fs owner fs' inode' where
  works := hworking.works
  number := hnumber.trans hworking.number
  owned := hworking.owned.congr rfl rfl hsectors
  apart := by
    rw [hsectors]
    exact hworking.apart

/-- The text goes to a sector of the inode, or to sector 0 where it has none. -/
theorem Working.writeDisk (hworking : Working fs owner fs' inode) (hlayout : fs.Layout) (i : Fin 9)
    (buf : ByteArea) : Working fs owner (fs'.writeDisk (inode.sectors i) buf) inode where
  works := hworking.works.writeDisk hlayout (hworking.apart i) (hworking.owned.outsideTable i) buf
  number := hworking.number
  owned := hworking.owned.congr rfl rfl rfl
  apart := hworking.apart

theorem Working.ino2inode_writeDisk (hworking : Working fs owner fs' inode) (hlayout : fs.Layout)
    (hin : fs.InTable owner) (i : Fin 9) (buf : ByteArea) :
    (fs'.writeDisk (inode.sectors i) buf).ino2inode owner = fs'.ino2inode owner := by
  have hsector := (hworking.owned.outsideTable i).ne_inodeSector (hworking.works.layout hlayout)
    (hin.congr hworking.works.sb)
  exact ino2inode_congr rfl (writeDisk_disk_of_ne hsector.symm)

theorem Working.syncInode (hworking : Working fs owner fs' inode) (hlayout : fs.Layout)
    (hin : fs.InTable owner) : Working fs owner (fs'.syncInode inode) inode where
  works := hworking.works.syncInode hlayout hin hworking.number
  number := hworking.number
  owned := hworking.owned.congr rfl rfl rfl
  apart := hworking.apart

theorem Working.syncBlockBitmap (hworking : Working fs owner fs' inode) (hlayout : fs.Layout) :
    Working fs owner fs'.syncBlockBitmap inode where
  works := hworking.works.syncBlockBitmap hlayout
  number := hworking.number
  owned := hworking.owned.congr rfl rfl rfl
  apart := hworking.apart

/-- The inode gets a new sector. -/
theorem Working.allocate (hworking : Working fs owner fs' inode) (hlayout : fs.Layout)
    (halloc : fs'.allocateBlock = some (fs'', blockNo)) (i : Fin 9) :
    Working fs owner fs'' (inode.setSector i (fs''.blockLba blockNo)) where
  works := hworking.works.allocateBlock halloc
  number := hworking.number
  owned := hworking.owned.allocate (hworking.works.layout hlayout) halloc i
  apart j := by
    rw [setSector_sectors]
    split
    next => exact hworking.works.private_blockLba hlayout halloc
    next => exact hworking.apart j

/-- A new block becomes a sector of the inode and is written. -/
theorem Working.allocate_writeDisk (hworking : Working fs owner fs' inode) (hlayout : fs.Layout)
    (halloc : fs'.allocateBlock = some (fs'', blockNo)) (i : Fin 9) (buf : ByteArea) :
    Working fs owner (fs''.writeDisk (fs''.blockLba blockNo) buf)
      (inode.setSector i (fs''.blockLba blockNo)) := by
  have hgrown := (hworking.allocate hlayout halloc i).writeDisk hlayout i buf
  rwa [setSector_sectors, if_pos rfl] at hgrown

/-- The inode gives a sector back. -/
theorem Working.release (hworking : Working fs owner fs' inode) (hlayout : fs.Layout) (i : Fin 9)
    (hne : inode.sectors i ≠ 0) :
    Working fs owner (fs'.freeBlock (fs'.blockOf (inode.sectors i))) (inode.setSector i 0) where
  works := hworking.works.freeBlock hlayout (hworking.apart i)
    (hworking.owned.sectors_lt (hworking.works.layout hlayout) i)
  number := hworking.number
  owned := hworking.owned.release (hworking.works.layout hlayout) i hne
  apart j := by
    rw [setSector_sectors]
    split
    next => exact private_zero fs owner
    next => exact hworking.apart j

/-! ### The end of such work -/

/-- The inode in memory is the one on the disk. -/
def Updates (fs : Server) (owner : Nat) (fs' : Server) : Prop :=
  Working fs owner fs' (fs'.ino2inode owner)

theorem Marked.owner_lt (hmarked : fs.Marked) (hin : fs.InTable ino) : ino < minusOne :=
  Nat.lt_of_lt_of_le hin hmarked.numbers

theorem Working.updates_of_eq (hworking : Working fs owner fs' inode)
    (hstored : fs'.ino2inode owner = inode) : Updates fs owner fs' := by
  rw [Updates, hstored]
  exact hworking

/-- A stored inode keeps its number and its sectors. -/
theorem Working.stored (hworking : Working fs owner fs' inode) (hmarked : fs.Marked)
    (hin : fs.InTable owner) :
    ((fs'.syncInode inode).ino2inode owner).inodeNo = inode.inodeNo ∧
      ((fs'.syncInode inode).ino2inode owner).sectors = inode.sectors := by
  have hself := fs'.ino2inode_syncInode_self inode
  rw [hworking.number] at hself
  have hlt := hmarked.owner_lt hin
  simp only [minusOne] at hlt
  rw [hself]
  constructor
  · change inode.inodeNo % 256 ^ 4 = inode.inodeNo
    rw [hworking.number]
    exact Nat.mod_eq_of_lt (by omega)
  · funext i
    exact Nat.mod_eq_of_lt (hworking.owned.sectors_lt (hworking.works.layout hmarked.layout) i)

theorem Working.updates_syncInode (hworking : Working fs owner fs' inode) (hmarked : fs.Marked)
    (hin : fs.InTable owner) : Updates fs owner (fs'.syncInode inode) := by
  obtain ⟨hnumber, hsectors⟩ := hworking.stored hmarked hin
  exact (hworking.syncInode hmarked.layout hin).setFields _ hnumber hsectors

theorem Updates.syncBlockBitmap (hupdates : Updates fs owner fs') (hmarked : fs.Marked)
    (hin : fs.InTable owner) : Updates fs owner fs'.syncBlockBitmap := by
  apply (Working.syncBlockBitmap hupdates hmarked.layout).updates_of_eq
  exact ino2inode_syncBlockBitmap (hupdates.works.layout hmarked.layout)
    (hin.congr hupdates.works.sb)

theorem Updates.setFile (hupdates : Updates fs owner fs') (fd : Nat) (file : Option OpenFile) :
    Updates fs owner (fs'.setFile fd file) where
  works := hupdates.works.setFile fd file
  number := hupdates.number
  owned := hupdates.owned.congr rfl rfl rfl
  apart := hupdates.apart

/-- Work on one inode uses allocated sectors only. -/
theorem Updates.marked (hupdates : Updates fs owner fs') (hmarked : fs.Marked) : fs'.Marked where
  layout := hupdates.works.layout hmarked.layout
  numbers := by
    rw [hupdates.works.sb]
    exact hmarked.numbers
  occupied ino huse i hne := by
    have huse' := hupdates.works.inUse_iff.mp huse
    by_cases hother : ino = owner
    · subst hother
      exact hupdates.owned.occupied i hne
    · rw [hupdates.works.inodes ino huse'.1 hother] at hne ⊢
      exact hupdates.works.occupied ino huse' hother i hne

/-- The inode that was worked on is sound. -/
theorem Updates.sound_self (hupdates : Updates fs owner fs') (huse : fs.InUse owner) :
    fs'.Sound owner where
  inUse := hupdates.works.inUse_iff.mpr huse
  number := hupdates.number
  owned := hupdates.owned
  apart i other hother hne j hj := by
    have hother' := hupdates.works.inUse_iff.mp hother
    rw [hupdates.works.inodes other hother'.1 hne] at hj ⊢
    exact hupdates.apart i other hother' hne j hj

/-- The sectors that a sound inode had belong to no other one after work on some inode. -/
theorem Updates.private_old (hupdates : Updates fs owner fs') (hsound : fs.Sound ino) (i : Fin 9) :
    fs'.Private ino ((fs.ino2inode ino).sectors i) := by
  intro other hother hne j hj
  have hotherUse := hupdates.works.inUse_iff.mp hother
  by_cases hotherOwner : other = owner
  · subst hotherOwner
    -- what the owner has now is apart from all other inodes
    intro heq
    rw [heq] at hj
    exact hupdates.apart j ino hsound.inUse (Ne.symm hne) i hj heq.symm
  · rw [hupdates.works.inodes other hotherUse.1 hotherOwner] at hj ⊢
    exact hsound.apart i other hotherUse hne j hj

/-- Sound inodes stay so. -/
theorem Updates.keepsSound (hupdates : Updates fs owner fs') (hmarked : fs.Marked) :
    KeepsSound fs fs' := by
  intro ino huse hsound
  have huse' := hupdates.works.inUse_iff.mp huse
  by_cases hother : ino = owner
  · subst hother
    exact hupdates.sound_self huse'
  · exact (hsound huse').of_inode (hupdates.marked hmarked) huse
      (hupdates.works.inodes ino huse'.1 hother) (hupdates.private_old (hsound huse'))

theorem Updates.sound (hupdates : Updates fs owner fs') (hmarked : fs.Marked)
    (hsound : fs.Sound ino) : fs'.Sound ino :=
  hupdates.keepsSound hmarked ino (hupdates.works.inUse_iff.mpr hsound.inUse) fun _ => hsound

/-! ### Directories -/

/-- The slot that the search has found lies in a sector of the directory. -/
def SlotOf (inode : Inode) (slot : FreeSlot) : Prop :=
  slot.sector = 0 ∨ ∃ i, inode.sectors i = slot.sector

theorem foldlM_option_invariant {α β : Type} {f : β → α → Option β} {list : List α} {init final : β}
    (hfold : list.foldlM f init = some final) (good : β → Prop) (hinit : good init)
    (hstep : ∀ before elem after, good before → f before elem = some after → good after) :
    good final := by
  induction list generalizing init with
  | nil =>
      rw [List.foldlM_nil] at hfold
      cases hfold
      exact hinit
  | cons elem rest ih =>
      rw [List.foldlM_cons, Option.bind_eq_bind] at hfold
      obtain ⟨next, hnext, hrest⟩ := Option.bind_eq_some_iff.mp hfold
      exact ih hrest (hstep init elem next hinit hnext)

theorem scanDir_slotOf {name : List Byte} {slot : FreeSlot}
    (hscan : fs.scanDir inode name = some slot) : SlotOf inode slot := by
  refine foldlM_option_invariant hscan (SlotOf inode) (.inl rfl) fun before i after hbefore hsector => ?_
  unfold scanSector at hsector
  split at hsector
  next =>
    cases hsector
    exact hbefore
  next =>
    refine foldlM_option_invariant hsector (SlotOf inode) hbefore fun slot j next hslot hentry => ?_
    unfold scanEntry at hentry
    split at hentry
    next =>
      cases hentry
      exact .inr ⟨i, rfl⟩
    next =>
      split at hentry
      next => cases hentry
      next =>
        cases hentry
        exact hslot

/-- A new entry is work on the directory. -/
theorem createDirEntry_updates (hmarked : fs.Marked) (hsound : fs.Sound owner) {child : DirEntry}
    (hcreate : fs.createDirEntry (fs.ino2inode owner) child = some fs') : Updates fs owner fs' := by
  have hstart := Working.start hmarked hsound
  unfold createDirEntry at hcreate
  split at hcreate
  next =>
    cases hcreate
    exact hstart
  next slot hscan =>
    split at hcreate
    next hsector =>
      -- the entry goes to a sector that the directory has
      cases hcreate
      obtain ⟨i, hi⟩ := (scanDir_slotOf hscan).resolve_left hsector
      rw [← hi]
      exact (hstart.writeDisk hmarked.layout i _).updates_of_eq
        (hstart.ino2inode_writeDisk hmarked.layout hsound.inUse.1 i _)
    next =>
      split at hcreate
      next =>
        cases hcreate
        exact hstart
      next i _ =>
        -- the directory gets another sector
        simp only [Option.bind_eq_bind, Option.bind_eq_some_iff, Prod.exists] at hcreate
        obtain ⟨fs₁, blockNo, halloc, hcreate⟩ := hcreate
        cases hcreate
        have hgrown := hstart.allocate_writeDisk hmarked.layout halloc i
          (child.store (fs₁.disk (fs₁.blockLba blockNo)) 0)
        exact (hgrown.updates_syncInode hmarked hsound.inUse.1).syncBlockBitmap hmarked hsound.inUse.1

/-- Entries are removed in a sector of the directory. -/
theorem removeInSector_updates (name : List Byte) (isFound : Bool) (i : Fin 9)
    (hworking : Working fs owner fs' inode) (hlayout : fs.Layout) (hin : fs.InTable owner)
    (hstored : fs'.ino2inode owner = inode) :
    Working fs owner (fs'.removeInSector (inode.sectors i) name isFound).fs inode ∧
      (fs'.removeInSector (inode.sectors i) name isFound).fs.ino2inode owner = inode := by
  rw [removeInSector]
  refine List.foldlRecOn (motive := fun scan : RemoveScan =>
    Working fs owner scan.fs inode ∧ scan.fs.ino2inode owner = inode) _ _ ⟨hworking, hstored⟩ ?_
  rintro scan ⟨hscan, hsame⟩ j -
  unfold removeEntry
  split
  next => exact ⟨hscan.writeDisk hlayout i _, (hscan.ino2inode_writeDisk hlayout hin i _).trans hsame⟩
  next =>
    split
    next => exact ⟨hscan, hsame⟩
    next => exact ⟨hscan, hsame⟩

theorem removeFrom_updates {name : List Byte} {isFound : Bool} {indices : List (Fin 9)}
    (hmarked : fs.Marked) (hin : fs.InTable owner) (hworking : Working fs owner fs' inode)
    (hstored : fs'.ino2inode owner = inode) :
    Updates fs owner (removeFrom inode name indices isFound fs') := by
  induction indices generalizing isFound fs' with
  | nil => exact hworking.updates_of_eq hstored
  | cons i rest ih =>
      unfold removeFrom
      split
      next => exact ih hworking hstored
      next hne =>
        obtain ⟨hscan, hsame⟩ := removeInSector_updates name isFound i hworking hmarked.layout hin
          hstored
        dsimp only
        split
        next =>
          -- the sector is empty now and is given back
          exact ((hscan.release hmarked.layout i hne).syncBlockBitmap hmarked.layout).updates_syncInode
            hmarked hin
        next => exact ih hscan hsame

/-- Removing an entry is work on the directory. -/
theorem removeDirEntry_updates (hmarked : fs.Marked) (hsound : fs.Sound owner) (name : List Byte) :
    Updates fs owner (fs.removeDirEntry (fs.ino2inode owner) name) :=
  removeFrom_updates hmarked hsound.inUse.1 (.start hmarked hsound) rfl

/-- The first sector of a new directory. -/
theorem initChildDir_updates {buf : ByteArea} {parentIno : Nat} (hmarked : fs.Marked)
    (hsound : fs.Sound owner) (hinit : fs.initChildDir buf parentIno owner = some fs') :
    Updates fs owner fs' := by
  simp only [initChildDir, Option.bind_eq_bind, Option.bind_eq_some_iff, Prod.exists] at hinit
  obtain ⟨fs₁, blockNo, halloc, hinit⟩ := hinit
  cases hinit
  have hgrown := (Working.start hmarked hsound).allocate_writeDisk hmarked.layout halloc 0
  exact ((hgrown _).updates_syncInode hmarked hsound.inUse.1).syncBlockBitmap hmarked hsound.inUse.1

/-! ### Files -/

theorem allocateSectors_working {indices : List Nat} (hworking : Working fs owner fs' inode)
    (hlayout : fs.Layout) (halloc : fs'.allocateSectors inode indices = some (fs'', inode')) :
    Working fs owner fs'' inode' := by
  induction indices generalizing fs' inode with
  | nil =>
      rw [allocateSectors, Option.some.injEq, Prod.mk.injEq] at halloc
      obtain ⟨rfl, rfl⟩ := halloc
      exact hworking
  | cons i rest ih =>
      simp only [allocateSectors, Option.bind_eq_bind, Option.bind_eq_some_iff] at halloc
      obtain ⟨sector, hat, halloc⟩ := halloc
      split at halloc
      next =>
        simp only [Option.bind_eq_some_iff, Prod.exists] at halloc
        obtain ⟨fs₁, blockNo, hblock, inode₁, hset, hrest⟩ := halloc
        simp only [Inode.setSectorAt, Option.dite_none_right_eq_some, Option.some.injEq] at hset
        obtain ⟨hi, rfl⟩ := hset
        exact ih (hworking.allocate hlayout hblock ⟨i, hi⟩) hrest
      next => exact ih hworking halloc

theorem writeAt_working {i : Nat} (hworking : Working fs owner fs' inode) (hlayout : fs.Layout)
    (hat : inode.sectorAt i = some lba) (buf : ByteArea) :
    Working fs owner (fs'.writeDisk lba buf) inode := by
  simp only [Inode.sectorAt, Option.dite_none_right_eq_some, Option.some.injEq] at hat
  obtain ⟨hi, rfl⟩ := hat
  exact hworking.writeDisk hlayout ⟨i, hi⟩ buf

theorem writeWhole_working {indices : List Nat} {str : ByteArea}
    (hworking : Working fs owner fs' inode) (hlayout : fs.Layout)
    (hwrite : fs'.writeWhole inode str indices = some fs'') : Working fs owner fs'' inode := by
  induction indices generalizing fs' with
  | nil =>
      rw [writeWhole, Option.some.injEq] at hwrite
      rwa [← hwrite]
  | cons i rest ih =>
      simp only [writeWhole, Option.bind_eq_bind, Option.bind_eq_some_iff] at hwrite
      obtain ⟨sector, hat, hrest⟩ := hwrite
      exact ih (writeAt_working hworking hlayout hat _) hrest

theorem writeData_working {str : ByteArea} {plan : WritePlan}
    (hworking : Working fs owner fs' inode) (hlayout : fs.Layout)
    (hwrite : fs'.writeData inode str plan = some fs'') : Working fs owner fs'' inode := by
  simp only [writeData, Option.bind_eq_bind, Option.bind_eq_some_iff] at hwrite
  obtain ⟨first, hfirst, fs₁, hwhole, hlast⟩ := hwrite
  have hbegun := writeWhole_working (writeAt_working hworking hlayout hfirst _) hlayout hwhole
  split at hlast
  next =>
    obtain ⟨last, hat, hresult⟩ := Option.bind_eq_some_iff.mp hlast
    rw [Option.some.injEq] at hresult
    rw [← hresult]
    exact writeAt_working hbegun hlayout hat _
  next =>
    rw [Option.some.injEq] at hlast
    rwa [← hlast]

theorem freeSurplus_working (hworking : Working fs owner fs' inode) (hlayout : fs.Layout)
    (indices : List (Fin 9)) (hasSurplus : Bool) :
    Working fs owner (fs'.freeSurplus inode indices hasSurplus).1
      (fs'.freeSurplus inode indices hasSurplus).2.1 := by
  induction indices generalizing fs' inode hasSurplus with
  | nil => exact hworking
  | cons i rest ih =>
      unfold freeSurplus
      split
      next => exact ih hworking hasSurplus
      next hne => exact ih (hworking.release hlayout i hne) true

theorem finishWrite_updates {fd : Nat} {file : OpenFile} {plan : WritePlan} {mode : Byte}
    (hworking : Working fs owner fs' inode) (hmarked : fs.Marked) (hin : fs.InTable owner) :
    Updates fs owner (fs'.finishWrite fd file inode plan mode) := by
  have hfreed := freeSurplus_working hworking hmarked.layout
    ((List.finRange 9).drop (plan.sectorCnts + 1).toNat) false
  rw [finishWrite]
  generalize fs'.freeSurplus inode ((List.finRange 9).drop (plan.sectorCnts + 1).toNat) false =
    freed at hfreed ⊢
  obtain ⟨fs₁, inode₁, hasSurplus⟩ := freed
  dsimp only at hfreed ⊢
  have hstored := (hfreed.setFields { inode₁ with
    size := if mode = fileAppend then (inode₁.size + plan.count) % 2 ^ 32 else plan.count }
    rfl rfl).updates_syncInode hmarked hin
  refine Updates.setFile ?_ fd _
  cases hasSurplus with
  | false => exact hstored
  | true => exact hstored.syncBlockBitmap hmarked hin

/-- A write through a descriptor is work on its inode, as long as the sectors of the copy
belong to no other one. -/
theorem writeFile_updates {fd count : Nat} {str : StringBuffer} {mode : Byte} {file : OpenFile}
    (hmarked : fs.Marked) (huse : fs.InUse owner) (hfd : fd < 64)
    (hopen : fs.fileDescTbl fd = some file)
    (hallowed : fs.checkInodePermission file.inode accessWrite = true)
    (hcopy : Working fs owner fs file.inode)
    (hwrite : fs.writeFile fd str count mode = some fs') : Updates fs owner fs' := by
  obtain ⟨fs₁, inode₁, fs₂, halloc, hdata, -, rfl⟩ :=
    (writeFile_eq_some_iff hfd hopen hallowed).mp hwrite
  have hworking := allocateSectors_working hcopy hmarked.layout halloc
  have hsynced := (hworking.syncInode hmarked.layout huse.1).syncBlockBitmap hmarked.layout
  exact finishWrite_updates (writeData_working hsynced hmarked.layout hdata) hmarked huse.1

/-- The copying loop gives new sectors to the target. -/
theorem copySectors_working {srcInode : Inode} {indices : List (Fin 9)}
    (hworking : Working fs owner fs' inode) (hlayout : fs.Layout)
    (hcopy : fs'.copySectors srcInode inode indices = some (fs'', inode')) :
    Working fs owner fs'' inode' := by
  induction indices generalizing fs' inode with
  | nil =>
      rw [copySectors, Option.some.injEq, Prod.mk.injEq] at hcopy
      obtain ⟨rfl, rfl⟩ := hcopy
      exact hworking
  | cons i rest ih =>
      unfold copySectors at hcopy
      split at hcopy
      next => exact ih hworking hcopy
      next =>
        simp only [Option.bind_eq_bind, Option.bind_eq_some_iff, Prod.exists] at hcopy
        obtain ⟨fs₁, blockNo, halloc, hrest⟩ := hcopy
        have hgrown := hworking.allocate_writeDisk hlayout halloc i (fs₁.disk (srcInode.sectors i))
        exact ih hgrown hrest

/-- Storing other fields of an inode. -/
theorem syncInode_updates (hmarked : fs.Marked) (hsound : fs.Sound owner)
    (hnumber : inode.inodeNo = (fs.ino2inode owner).inodeNo)
    (hsectors : inode.sectors = (fs.ino2inode owner).sectors) :
    Updates fs owner (fs.syncInode inode) :=
  ((Working.start hmarked hsound).setFields inode hnumber hsectors).updates_syncInode hmarked
    hsound.inUse.1

/-! ### New inodes, and inodes that are given back -/

/-- An inode that was not in use got a record without sectors. -/
structure Created (fs fs' : Server) (ino : Nat) : Prop where
  sb : fs'.sb = fs.sb
  uid : fs'.uid = fs.uid
  blockBmap : fs'.blockBmap = fs.blockBmap
  inTable : fs.InTable ino
  fresh : fs.inodeBmap.verifyBit ino = false
  inodeBmap : fs'.inodeBmap = fs.inodeBmap.setBit ino true
  inodes : ∀ other, fs.InTable other → other ≠ ino → fs'.ino2inode other = fs.ino2inode other
  data : ∀ lba, fs.IsDataSector lba → fs'.disk lba = fs.disk lba
  number : (fs'.ino2inode ino).inodeNo = ino
  sectors : (fs'.ino2inode ino).sectors = fun _ => 0

theorem createInode_created (hmarked : fs.Marked) (hcreate : fs.createInode = some (fs', inode))
    (hin : fs.InTable inode.inodeNo) :
    Created fs (fs'.syncInode inode).syncInodeBitmap inode.inodeNo := by
  obtain ⟨-, hfresh, rfl, hsectors⟩ := createInode_spec hcreate
  generalize hbmap : fs.inodeBmap.setBit inode.inodeNo true = bmap
  have hlayout : ({ fs with inodeBmap := bmap } : Server).Layout := hmarked.layout.congr rfl rfl
  have hlayout' : (({ fs with inodeBmap := bmap } : Server).syncInode inode).Layout :=
    hmarked.layout.congr rfl rfl
  have hself := ino2inode_syncInode_self { fs with inodeBmap := bmap } inode
  have hlt := hmarked.owner_lt hin
  simp only [minusOne] at hlt
  constructor
  case sb => rfl
  case uid => rfl
  case blockBmap => rfl
  case inTable => exact hin
  case fresh => exact hfresh
  case inodeBmap => exact hbmap.symm
  case inodes =>
    intro other hother hne
    rw [ino2inode_syncInodeBitmap hlayout' hother]
    exact ino2inode_syncInode_of_ne hlayout hin hother hne
  case data =>
    intro lba hdata
    rw [syncInodeBitmap_disk hlayout' (hdata.table_le hmarked.layout)]
    exact syncInode_disk_of_ne (hdata.ne_inodeSector hmarked.layout hin)
  case number =>
    rw [ino2inode_syncInodeBitmap hlayout' hin, hself]
    exact Nat.mod_eq_of_lt (by omega)
  case sectors =>
    rw [ino2inode_syncInodeBitmap hlayout' hin, hself, Inode.truncate, hsectors]
    rfl

theorem Created.inUse_iff (hcreated : Created fs fs' ino) {other : Nat} :
    fs'.InUse other ↔ fs.InUse other ∨ other = ino := by
  rw [InUse, InUse, InTable, hcreated.sb, hcreated.inodeBmap, Bitmap.verifyBit_setBit]
  constructor
  · rintro ⟨hin, hset⟩
    split at hset
    next heq => exact .inr heq.symm
    next => exact .inl ⟨hin, hset⟩
  · rintro (⟨hin, hset⟩ | rfl)
    · exact ⟨hin, by rw [hset, ite_self]⟩
    · exact ⟨hcreated.inTable, by rw [if_pos rfl]⟩

theorem Created.ne (hcreated : Created fs fs' ino) {other : Nat} (huse : fs.InUse other) :
    other ≠ ino := by
  rintro rfl
  cases huse.2.symm.trans hcreated.fresh

theorem Created.spared (hcreated : Created fs fs' ino) (hmarked : fs.Marked) {other : Nat}
    (huse : fs.InUse other) : Spared fs fs' other where
  inode := hcreated.inodes other huse.1 (hcreated.ne huse)
  data i hi := hcreated.data _ (hmarked.occupied other huse i hi).isDataSector

theorem Created.sectors_eq (hcreated : Created fs fs' ino) (i : Fin 9) :
    (fs'.ino2inode ino).sectors i = 0 := by
  rw [hcreated.sectors]

theorem Created.marked (hcreated : Created fs fs' ino) (hmarked : fs.Marked) : fs'.Marked where
  layout := hmarked.layout.congr hcreated.sb (by rw [hcreated.blockBmap])
  numbers := by
    rw [hcreated.sb]
    exact hmarked.numbers
  occupied other huse i hne := by
    rcases hcreated.inUse_iff.mp huse with hold | rfl
    · rw [(hcreated.spared hmarked hold).inode] at hne ⊢
      exact (hmarked.occupied other hold i hne).congr hcreated.sb hcreated.blockBmap
    · exact absurd (hcreated.sectors_eq i) hne

/-- The new inode is sound, and it takes no sector from a sound one. -/
theorem Created.keepsSound (hcreated : Created fs fs' ino) (hmarked : fs.Marked) :
    KeepsSound fs fs' := by
  intro other huse hsound
  rcases hcreated.inUse_iff.mp huse with hold | rfl
  · refine (hsound hold).of_inode (hcreated.marked hmarked) huse
      (hcreated.spared hmarked hold).inode fun i third hthird hne j hj => ?_
    rcases hcreated.inUse_iff.mp hthird with hthird | rfl
    · rw [(hcreated.spared hmarked hthird).inode] at hj ⊢
      exact (hsound hold).apart i third hthird hne j hj
    · exact absurd (hcreated.sectors_eq j) hj
  · constructor
    case inUse => exact huse
    case number => exact hcreated.number
    case owned =>
      exact ⟨fun i hne => absurd (hcreated.sectors_eq i) hne,
        fun i _ hne => absurd (hcreated.sectors_eq i) hne⟩
    case apart =>
      intro i
      rw [hcreated.sectors_eq]
      exact private_zero fs' other

theorem Created.sound (hcreated : Created fs fs' ino) (hmarked : fs.Marked) {other : Nat}
    (hsound : fs.Sound other) : fs'.Sound other :=
  hcreated.keepsSound hmarked other (hcreated.inUse_iff.mpr (.inl hsound.inUse)) fun _ => hsound

/-- The blocks of the inode are given back. -/
theorem freeSectors_works (hworks : Works fs owner fs') (hlayout : fs.Layout)
    (hprivate : ∀ i, fs.Private owner (inode.sectors i)) (hlt : ∀ i, inode.sectors i < 2 ^ 32)
    (indices : List (Fin 9)) : Works fs owner (fs'.freeSectors inode indices) := by
  induction indices generalizing fs' with
  | nil => exact hworks
  | cons i rest ih =>
      unfold freeSectors
      split
      next => exact ih hworks
      next => exact ih (hworks.freeBlock hlayout (hprivate i) (hlt i))

/-- Where fewer inodes are in use, fewer sectors have to be marked. -/
theorem Marked.mono (hmarked : fs.Marked) (hsb : fs'.sb = fs.sb)
    (hbmap : fs'.blockBmap = fs.blockBmap) (hinode : ∀ ino, fs'.InUse ino → fs.InUse ino ∧
      fs'.ino2inode ino = fs.ino2inode ino) : fs'.Marked where
  layout := hmarked.layout.congr hsb (by rw [hbmap])
  numbers := by
    rw [hsb]
    exact hmarked.numbers
  occupied ino huse i hne := by
    rw [(hinode ino huse).2] at hne ⊢
    exact (hmarked.occupied ino (hinode ino huse).1 i hne).congr hsb hbmap

/-- The inodes that are still in use own what they owned. -/
theorem keepsSound_of_inode (hmarked : fs'.Marked)
    (hinode : ∀ ino, fs'.InUse ino → fs.InUse ino ∧ fs'.ino2inode ino = fs.ino2inode ino) :
    KeepsSound fs fs' := by
  intro ino huse hsound
  obtain ⟨huse', hsame⟩ := hinode ino huse
  refine (hsound huse').of_inode hmarked huse hsame fun i other hother hne j hj => ?_
  rw [(hinode other hother).2] at hj ⊢
  exact (hsound huse').apart i other (hinode other hother).1 hne j hj

/-- Where fewer inodes are in use, less has to be consistent. -/
theorem Consistent.mono (hcons : fs.Consistent) (hsb : fs'.sb = fs.sb)
    (hbmap : fs'.blockBmap = fs.blockBmap) (hinode : ∀ ino, fs'.InUse ino → fs.InUse ino ∧
      fs'.ino2inode ino = fs.ino2inode ino) : fs'.Consistent :=
  have hmarked := hcons.marked.mono hsb hbmap hinode
  (keepsSound_of_inode hmarked hinode).consistent hmarked hcons

end Shmily.Fs.Server
