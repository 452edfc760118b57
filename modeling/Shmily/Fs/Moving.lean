import Shmily.Fs.AccessControl
import Shmily.Fs.Removal

/-! # Moving a file

`move_file` makes the target, hands the sectors of the source over to it, removes the
entry of the source and gives its inode back. Where the paths name different files that
have no other name, and the target can be made or is there, the content is found under the
new name and everything else where it was. A move that is denied changes nothing, if no
target is made.
-/

namespace Shmily.Fs.Server

open Foundation Lib

/-- Every path leads where it led, and every inode has the content it had. -/
structure Unmoved (fs fs' : Server) : Prop where
  paths : ∀ path ino, Names fs' path ino ↔ Names fs path ino
  content : ∀ ino, fs.InUse ino → SameContent fs fs' ino

/-- What has a name is in use. -/
def Closed (fs : Server) : Prop :=
  ∀ dir name, fs.InUse dir → IsName name →
    fs.find dir name = minusOne ∨ fs.InUse (fs.find dir name)

/-- `sys_mkfile` takes this inode, whether it then makes the entry or not. -/
def Takes (fs : Server) (path : List Byte) (ino : Nat) : Prop :=
  (∃ parent, fs.MakesIn path parent) ∧ fs.inodeBmap.bitmapScan 1 = some ino

/-- The inode has no other name, and it is not the root. -/
structure SoleName (fs : Server) (parent : Nat) (name : List Byte) (ino : Nat) : Prop where
  only : ∀ dir child, fs.Named dir → IsName child → fs.find dir child = ino →
    dir = parent ∧ child = name
  notRoot : ino ≠ fs.sb.rootInodeNo

/-- The path names this entry, and its directory is reached by such entries. -/
def Located (fs : Server) (via : Nat → List Byte → Prop) (path : List Byte) (parent : Nat)
    (name : List Byte) : Prop :=
  IsName name ∧ ∃ dir, splitPath2parts path = some (dir, name) ∧ NamesVia fs via dir parent

/-- The directory has an entry of this name for a file. -/
def FileEntry (fs : Server) (parent : Nat) (name : List Byte) (ino : Nat) : Prop :=
  ∃ slot ∈ dirSlots,
    fs.entryAt (fs.ino2inode parent) slot = some ⟨name, ino, DirEntryType.file.code⟩

/-- The target is there as a file with one name, or it will be made. -/
def TargetReady (fs : Server) (dst : List Byte) (parent : Nat) (name : List Byte) (ino : Nat) :
    Prop :=
  fs.Sound ino ∧ fs.find parent name = ino ∧ fs.SoleName parent name ino ∧
      fs.FileEntry parent name ino ∨
    fs.NewFile dst ino

variable {fs fs' fs₁ fs₂ : Server} {path src dst name child : List Byte}
  {ino dir parent source target : Nat} {type : DirEntryType}

/-! ### What is found -/

/-- The end of `move_file`, after the entry of the source was removed. -/
structure Finished (fs fs₂ fs' : Server) (source target : Nat) : Prop where
  marked : fs'.Marked
  sb : fs'.sb = fs₂.sb
  inUse_iff : ∀ ino, fs'.InUse ino ↔ fs₂.InUse ino ∧ ino ≠ source
  spared : ∀ ino, fs₂.InUse ino → ino ≠ source → ino ≠ target → Spared fs₂ fs' ino
  inode : fs'.ino2inode target = fs.movedInode source target
  data : ∀ lba, fs₂.IsDataSector lba → fs'.disk lba = fs₂.disk lba

theorem finished (hmarked : fs.Marked) (hsource : fs.Sound source) (htarget : fs.Sound target)
    (hself : parent ≠ source) (hother : source ≠ target) (hupdates : Updates fs parent fs₂) :
    Finished fs fs₂ (((fs₂.freeInode source).syncInode (fs.movedInode source target)).syncInodeBitmap)
      source target := by
  have hmarked₂ := hupdates.marked hmarked
  have hmarked₃ := (freeInode_changes hmarked₂ source).marked
  have hworking := movedInode_working hmarked hsource htarget hself hupdates
  have htarget₃ : (fs₂.freeInode source).InUse target :=
    freeInode_inUse_iff.mpr ⟨hupdates.works.inUse_iff.mpr htarget.inUse, Ne.symm hother⟩
  have hstored := hworking.updates_syncInode hmarked₃ htarget₃.1
  have hmarked₄ := hstored.marked hmarked₃
  have hsynced := syncInodeBitmap_changes hmarked₄
  have huse : ∀ ino, ((fs₂.freeInode source).syncInode (fs.movedInode source target)).InUse ino ↔
      fs₂.InUse ino ∧ ino ≠ source :=
    fun ino => hstored.works.inUse_iff.trans freeInode_inUse_iff
  constructor
  case marked => exact hsynced.marked
  case sb => rfl
  case inUse_iff => exact fun ino => syncInodeBitmap_inUse_iff.trans (huse ino)
  case spared =>
    intro ino hino hneSource hneTarget
    have huse₄ := (huse ino).mpr ⟨hino, hneSource⟩
    have hfirst := hstored.works.spared (freeInode_inUse_iff.mpr ⟨hino, hneSource⟩) hneTarget
    have hboth := hfirst.trans (hsynced.spared ino huse₄ huse₄ id)
    exact ⟨hboth.inode, hboth.data⟩
  case inode =>
    have hsize : (fs.ino2inode source).size < 2 ^ 32 :=
      congrArg Inode.size (fs.ino2inode_truncate source) ▸ Nat.mod_lt _ (by decide)
    rw [ino2inode_syncInodeBitmap hmarked₄.layout ((huse target).mpr (freeInode_inUse_iff.mp htarget₃)).1]
    exact hworking.stored_with hmarked₃ hsize
  case data =>
    intro lba hdata
    rw [syncInodeBitmap_disk hmarked₄.layout (hdata.table_le hmarked₂.layout)]
    refine syncInode_disk_of_ne (hdata.ne_inodeSector hmarked₂.layout ?_)
    rw [hworking.number]
    exact htarget₃.1

/-! ### Source and target -/

variable {old new : Nat × List Byte} {via : Nat → List Byte → Prop}

/-- The inodes with a path that a move does not exchange. -/
def Stays (fs : Server) (source target ino : Nat) : Prop :=
  fs.Named ino ∧ ino ≠ source ∧ ino ≠ target

theorem Stays.inUse (hstays : fs.Stays source target ino) : fs.InUse ino := hstays.1.inUse

/-- The target is found nowhere else, and it is not the root. -/
theorem TargetReady.other (hready : fs.TargetReady dst parent name target) :
    (∀ dir child, fs.Named dir → IsName child → fs.InUse (fs.find dir child) →
      (dir, child) ≠ (parent, name) → fs.find dir child ≠ target) ∧
    (fs.InUse fs.sb.rootInodeNo → fs.sb.rootInodeNo ≠ target) := by
  rcases hready with ⟨-, -, hsole, -⟩ | hnew
  · refine ⟨fun dir child hdir hchild _ hother heq => ?_, fun _ => Ne.symm hsole.notRoot⟩
    obtain ⟨rfl, rfl⟩ := hsole.only dir child hdir hchild heq
    exact hother rfl
  · -- a new inode was not in use
    have hfresh : ∀ {ino}, fs.InUse ino → ino ≠ target := by
      rintro ino huse rfl
      exact Bool.false_ne_true ((Bitmap.bitmapScan_one_spec hnew.next).2.symm.trans huse.2)
    exact ⟨fun _ _ _ _ huse _ => hfresh huse, hfresh⟩

theorem Located.stays {source target : Nat} (hlocated : fs.Located via path parent name)
    (hclosed : ClosedUnder fs via (fs.Stays source target)) : fs.Stays source target parent := by
  obtain ⟨-, dir, -, hnames⟩ := hlocated
  exact hnames.stays hclosed

theorem Unmoved.refl (fs : Server) : Unmoved fs fs :=
  ⟨fun _ _ => Iff.rfl, fun _ _ => ⟨rfl, rfl, fun _ _ => rfl⟩⟩

end Shmily.Fs.Server
