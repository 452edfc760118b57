import Shmily.Fs.Requests

/-! # Who may change what

The handlers ask for the permission to write before they change a directory or write
through a descriptor. Copying and moving do not ask it of a target that exists, and moving
does not ask it of the directory of the source. Where this makes no difference, the
content of files and the entries of directories are only changed with permission.
-/

namespace Shmily.Fs.Server

open Foundation Lib

/-- An entry of the directory is of this type and names this inode. -/
def HasEntry (fs : Server) (dir : Nat) (type : DirEntryType) (ino : Nat) : Prop :=
  ∃ slot ∈ dirSlots, ∃ name, fs.entryAt (fs.ino2inode dir) slot = some ⟨name, ino, type.code⟩

/-- The directories are the root and what a directory names as one. -/
inductive IsDirectory (fs : Server) : Nat → Prop
  | root : fs.InUse fs.sb.rootInodeNo → IsDirectory fs fs.sb.rootInodeNo
  | entry {dir ino : Nat} :
      IsDirectory fs dir → fs.HasEntry dir .dir ino → fs.InUse ino → IsDirectory fs ino

/-- The names of a directory with their inode numbers. -/
def entries (fs : Server) (ino : Nat) : Set (List Byte × Nat) :=
  { pair | ∃ slot ∈ dirSlots, ∃ entry, fs.entryAt (fs.ino2inode ino) slot = some entry ∧
    pair = (entry.name, entry.inodeNo) }

/-- Where a handler does not ask for the permission to write to an inode of this kind, the
user has it: on the inode of a descriptor whose copy grants it, on the target of a copy or
a move, and on the directory of what is moved. -/
def Guarded (fs : Server) (kind : Nat → Prop) : Request → Prop
  | .writeFile fd _ _ _ => ∀ ino, fs.WritesThrough fd ino → kind ino → fs.MayWrite ino
  | .cpfile src dst => ¬ fs.Denied accessRead dst.chars src.chars →
      kind (fs.dirIsExists dst.chars) → fs.MayWrite (fs.dirIsExists dst.chars)
  | .mvfile src dst => ¬ fs.Denied accessWrite dst.chars src.chars →
      (kind (fs.dirIsExists dst.chars) → fs.MayWrite (fs.dirIsExists dst.chars)) ∧
        ∀ parent, fs.parentIno src.chars = some parent → kind parent → fs.MayWrite parent
  | _ => True

variable {fs fs' : Server} {ino : Nat} {kind : Nat → Prop} {req : Request}

theorem IsDirectory.inUse (hdir : fs.IsDirectory ino) : fs.InUse ino := by
  cases hdir with
  | root huse => exact huse
  | entry _ _ huse => exact huse

/-- The entries lie in the sectors of the directory. -/
theorem SameContent.entries (hsame : SameContent fs fs' ino) : fs'.entries ino = fs.entries ino := by
  have hentry : fs'.entryAt (fs'.ino2inode ino) = fs.entryAt (fs.ino2inode ino) := by
    funext slot
    rw [entryAt, entryAt, hsame.sectors]
    split
    next => rfl
    next hne => rw [hsame.data slot.1 hne]
  rw [Server.entries, Server.entries, hentry]

/-- Every inode that a request touches was asked for the permission to write, or the user
has it anyway. -/
theorem Guarded.mayWrite (hguarded : fs.Guarded kind req) (htouched : fs.Touches req ino)
    (hkind : kind ino) : fs.MayWrite ino := by
  cases req with
  | mkdir | rmdir | mkfile => exact htouched.2.2
  | rmfile path => exact htouched.2.2
  | writeFile fd str count mode => exact hguarded ino htouched hkind
  | cpfile src dst =>
      rcases htouched with hmakes | ⟨hasked, rfl⟩
      · exact hmakes.2.2
      · exact hguarded hasked hkind
  | mvfile src dst =>
      rcases htouched with hmakes | ⟨hasked, rfl | hparent⟩
      · exact hmakes.2.2
      · exact (hguarded hasked).1 hkind
      · exact (hguarded hasked).2 ino hparent hkind
  | openFile | closeFile | readFile | lseekFile | isEof | chmod | chown => exact htouched.elim

/-- The request returns before it writes anything; or all sectors in use are allocated, it works
on sound inodes, and the user has the permission to write wherever the handler does not ask
for it. -/
def Permitted (fs : Server) (kind : Nat → Prop) (req : Request) : Prop :=
  fs.Refused req ∨ fs.Marked ∧ fs.Orderly req ∧ fs.Guarded kind req

/-- Without the permission to write nothing changes. -/
theorem Permitted.sameContent (hpermitted : fs.Permitted kind req) (hstep : fs.step req = some fs')
    (huse : fs.InUse ino) (huse' : fs'.InUse ino) (hkind : kind ino) (hdenied : ¬ fs.MayWrite ino) :
    SameContent fs fs' ino := by
  rcases hpermitted with hrefused | ⟨hmarked, horderly, hguarded⟩
  · obtain ⟨table, rfl⟩ := step_refused hrefused hstep
    exact ⟨rfl, rfl, fun _ _ => rfl⟩
  · refine (step_confined hmarked horderly hstep).content ino huse huse' fun htouched => ?_
    exact hdenied (hguarded.mayWrite htouched hkind)

/-- An inode with one sector and the permissions of a new file. -/
def plainInode (inodeNo uid size lba : Nat) : Inode where
  inodeNo := inodeNo
  size := size
  lastModifyTime := 0
  linkCnt := 0
  uid := uid
  gid := 0
  mode := defaultPrivilege
  sectors i := if i = 0 then lba else 0

/-- User 7 in a root directory of the superuser, with a file `a` of their own and a file
`b` of the superuser. -/
def treeServer : Server where
  sb := smallSuperBlock
  disk lba :=
    if lba = 4 then
      [plainInode 0 0 0 5, plainInode 1 7 3 6, plainInode 2 0 5 7].foldl
        (fun area inode => inode.store area (inodeOffset inode.inodeNo)) ByteArea.zeros
    else if lba = 5 then
      (DirEntry.mk [0x62] 2 .file).store
        ((DirEntry.mk [0x61] 1 .file).store ByteArea.zeros (entryOffset 0)) (entryOffset 1)
    else ByteArea.zeros
  blockBmap := { bytesLen := 2, base := fun byteIdx => if byteIdx = 0 then 7 else 0 }
  inodeBmap := { bytesLen := 1, base := fun _ => 7 }
  fileDescTbl := fun _ => none
  uid := 7
  now := 0

theorem treeServer_inUse : ∀ ino < 8, treeServer.InUse ino → ino < 3 := by decide

theorem treeServer_sectors : ∀ ino < 3, ∀ i,
    (treeServer.ino2inode ino).sectors i = if i = 0 then 5 + ino else 0 := by
  decide

theorem treeServer_consistent : treeServer.Consistent := by
  have hsectors : ∀ {ino i}, treeServer.InUse ino →
      (treeServer.ino2inode ino).sectors i = if i = 0 then 5 + ino else 0 := fun huse =>
    treeServer_sectors _ (treeServer_inUse _ huse.1 huse) _
  constructor
  case layout => constructor <;> decide
  case numbers => decide
  case number =>
    intro ino huse
    have hall : ∀ ino < 3, (treeServer.ino2inode ino).inodeNo = ino := by decide
    exact hall ino (treeServer_inUse ino huse.1 huse)
  case owned =>
    intro ino huse
    have hall : ∀ ino < 3, treeServer.Occupied (5 + ino) := by decide
    constructor
    · intro i hi
      rw [hsectors huse] at hi ⊢
      split at hi
      next h =>
        rw [if_pos h]
        exact hall ino (treeServer_inUse ino huse.1 huse)
      next => exact absurd rfl hi
    · intro i j hi heq
      rw [hsectors huse] at hi
      rw [hsectors huse, hsectors huse] at heq
      split at hi
      next h =>
        rw [if_pos h] at heq
        split at heq
        next h' => rw [h, h']
        next => omega
      next => exact absurd rfl hi
  case disjoint =>
    intro a b ha hb hab i j hi
    rw [hsectors ha] at hi ⊢
    rw [hsectors hb]
    split at hi
    next h =>
      rw [if_pos h]
      split <;> omega
    next => exact absurd rfl hi

end Shmily.Fs.Server
