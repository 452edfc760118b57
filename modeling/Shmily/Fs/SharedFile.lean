import Shmily.Foundation.Run
import Shmily.Fs.Append

/-! # Several descriptors on one file

Every descriptor has its own copy of the inode and `write_file` stores this copy as a
whole. A write through a copy that is not what the disk holds undoes what was done since
it was taken; as long as every write goes through a current copy, no update is lost.
-/

namespace Shmily.Fs

open Foundation Lib

/-- The calls on a file, and the notice that another user has logged in. -/
inductive FileCall where
  | append (fd : Nat) (str : StringBuffer)
  | chmod (path : CString) (newMode : Byte)
  | chown (path : CString) (newUid : Nat)
  | openFile (path : CString)
  | closeFile (fd : Nat)
  | curUser (uid : Nat)

/-- The server, with the content, mode and owner that the calls so far should have
given to the file. -/
structure FileRun where
  fs : Server
  text : List Byte
  mode : Nat
  uid : Nat

namespace Server

/-- An inode of the table with its own number, which owns its sectors and has all those
its size calls for. -/
structure FileSound (fs : Server) (ino : Nat) : Prop where
  layout : fs.Layout
  inTable : fs.InTable ino
  number : (fs.ino2inode ino).inodeNo = ino
  owned : fs.Owned (fs.ino2inode ino)
  allocated : ∀ i : Fin 9, i.val * 512 < (fs.ino2inode ino).size →
    (fs.ino2inode ino).sectors i ≠ 0

end Server

namespace FileRun

/-- Nothing has happened yet. -/
def start (fs : Server) (ino : Nat) : FileRun where
  fs := fs
  text := fs.content (fs.ino2inode ino)
  mode := (fs.ino2inode ino).mode
  uid := (fs.ino2inode ino).uid

/-- The file should have this inode, as far as permissions go. -/
def expected (run : FileRun) (ino : Nat) : Inode :=
  { run.fs.ino2inode ino with mode := run.mode, uid := run.uid }

/-- Who may change the mode and the owner. -/
def MayChange (run : FileRun) : Prop := run.fs.uid = 0 ∨ run.fs.uid = run.uid

instance (run : FileRun) : Decidable run.MayChange := inferInstanceAs (Decidable (_ ∨ _))

def step (ino : Nat) (run : FileRun) : FileCall → Option FileRun
  | .append fd str => do
      let fs ← run.fs.step (.writeFile fd str str.strlen fileAppend)
      let permitted := run.fs.checkInodePermission (run.expected ino) Server.accessWrite
      some { run with fs := fs, text := if permitted then run.text ++ str.chars else run.text }
  | .chmod path newMode => do
      let fs ← run.fs.step (.chmod path newMode)
      some { run with fs := fs, mode := if run.MayChange then newMode.toNat else run.mode }
  | .chown path newUid => do
      let fs ← run.fs.step (.chown path newUid)
      some { run with fs := fs, uid := if run.MayChange then newUid % 2 ^ 16 else run.uid }
  | .openFile path => do
      let fs ← run.fs.step (.openFile path)
      some { run with fs := fs }
  | .closeFile fd => do
      let fs ← run.fs.step (.closeFile fd)
      some { run with fs := fs }
  | .curUser uid => some { run with fs := { run.fs with uid := uid } }

/-- The calls are made on this file, the file stays below 512 bytes and there are blocks
for it. -/
def Targets (ino : Nat) (run : FileRun) : FileCall → Prop
  | .append fd str => fd < 64 ∧ run.text.length + str.strlen < 512 ∧
      ∃ file, run.fs.fileDescTbl fd = some file ∧ file.inode.inodeNo = ino ∧
        run.fs.EnoughBlocks file.inode str.strlen
  | .chmod path _ | .chown path _ =>
      componentsFit path.chars = true ∧ run.fs.dirIsExists path.chars = ino ∧ ino ≠ minusOne
  | .openFile path => componentsFit path.chars = true
  | .closeFile fd => fd < 64
  | .curUser _ => True

/-- A write goes through a descriptor whose copy of the inode is what the disk holds. -/
def Current (ino : Nat) (run : FileRun) : FileCall → Prop
  | .append fd _ => ∀ file, run.fs.fileDescTbl fd = some file →
      file.inode = run.fs.ino2inode ino
  | _ => True

def Admits (ino : Nat) (run : FileRun) (call : FileCall) : Prop :=
  run.Targets ino call ∧ run.Current ino call

/-- The file is what the calls should have made of it. -/
structure AsExpected (ino : Nat) (run : FileRun) : Prop where
  text : run.fs.content (run.fs.ino2inode ino) = run.text
  mode : (run.fs.ino2inode ino).mode = run.mode
  uid : (run.fs.ino2inode ino).uid = run.uid

/-- The file is as expected, and the next call returns. -/
def KeepsUpdates (ino : Nat) (admits : FileRun → FileCall → Prop) (run : FileRun) : Prop :=
  run.AsExpected ino ∧ ∀ call, admits run call → ∃ next, run.step ino call = some next

end FileRun

section

variable {fs fs' : Server} {ino fd : Nat} {run : FileRun} {inode : Inode} {str : StringBuffer}

theorem Server.length_content (fs : Server) (inode : Inode) :
    (fs.content inode).length = inode.size := by
  rw [Server.content, List.length_map, List.length_range]

/-- The sectors that an inode owns have 32-bit numbers. -/
theorem Server.Owned.sectors_lt (howned : fs.Owned inode) (hlayout : fs.Layout) (i : Fin 9) :
    inode.sectors i < 2 ^ 32 := by
  by_cases hzero : inode.sectors i = 0
  · rw [hzero]
    decide
  · have hhigh := (howned.occupied i hzero).2.1
    have hdata := hlayout.data
    omega

/-- An inode fits into its record if it fitted before some fields were changed. -/
theorem Inode.truncate_with {size uid mode : Nat} {sectors : Fin 9 → Nat}
    (hfits : inode.truncate = inode) (hsize : size % 256 ^ 4 = size) (huid : uid % 256 ^ 2 = uid)
    (hmode : mode % 256 ^ 4 = mode) (hsectors : ∀ i, sectors i % 256 ^ 4 = sectors i) :
    ({ inode with size := size, uid := uid, mode := mode, sectors := sectors } : Inode).truncate =
      { inode with size := size, uid := uid, mode := mode, sectors := sectors } := by
  ext
  case inodeNo => exact (congrArg Inode.inodeNo hfits :)
  case size => exact hsize
  case lastModifyTime => exact (congrArg Inode.lastModifyTime hfits :)
  case linkCnt => exact (congrArg Inode.linkCnt hfits :)
  case uid => exact huid
  case gid => exact (congrArg Inode.gid hfits :)
  case mode => exact hmode
  case sectors i => exact hsectors i

/-- Opening only changes the descriptor table. -/
theorem Server.openFile_disk (fs : Server) (path : List Byte) :
    ∃ table, (fs.openFile path).1 = { fs with fileDescTbl := table } := by
  rw [openFile]
  split
  next => exact ⟨fs.fileDescTbl, rfl⟩
  next =>
    dsimp only
    split
    next => exact ⟨fs.fileDescTbl, rfl⟩
    next =>
      split
      next => exact ⟨fs.fileDescTbl, rfl⟩
      next => exact ⟨_, rfl⟩

/-- Closing only changes the descriptor table. -/
theorem Server.closeFile_disk (fs : Server) (hfd : fd < 64) :
    ∃ table, fs.closeFile fd = some { fs with fileDescTbl := table } := by
  simp only [closeFile, fileAt, if_pos hfd, Option.bind_eq_bind, Option.bind_some]
  split
  next => exact ⟨fs.fileDescTbl, rfl⟩
  next => exact ⟨_, rfl⟩

/-- The bytes of a file lie in data sectors. -/
theorem Server.FileSound.isDataSector (hsound : fs.FileSound ino) {k : Nat}
    (hk : k < (fs.ino2inode ino).size) :
    fs.IsDataSector ((fs.ino2inode ino).sectors (Fin.ofNat 9 (k / 512))) := by
  refine (hsound.owned.occupied _ (hsound.allocated _ ?_)).isDataSector
  have hle : (Fin.ofNat 9 (k / 512)).val ≤ k / 512 := Nat.mod_le _ _
  omega

/-- A state with the same disk and block bitmap has the same file. -/
theorem Server.FileSound.congr (hsound : fs.FileSound ino) (hsb : fs'.sb = fs.sb)
    (hdisk : fs'.disk = fs.disk) (hbmap : fs'.blockBmap = fs.blockBmap) : fs'.FileSound ino := by
  have hinode : fs'.ino2inode ino = fs.ino2inode ino := ino2inode_congr hsb (by rw [hdisk])
  constructor
  case layout => exact hsound.layout.congr hsb (by rw [hbmap])
  case inTable => exact hsound.inTable.congr hsb
  case number => rw [hinode, hsound.number]
  case owned => exact hsound.owned.congr hsb hbmap (by rw [hinode])
  case allocated =>
    rw [hinode]
    exact hsound.allocated

/-- The inode is stored with another mode and owner. -/
theorem Server.FileSound.store (hsound : fs.FileSound ino) {mode uid : Nat}
    (huid : uid % 256 ^ 2 = uid) (hmode : mode % 256 ^ 4 = mode)
    (hinode : inode = { fs.ino2inode ino with uid := uid, mode := mode }) :
    (fs.syncInode inode).FileSound ino ∧ (fs.syncInode inode).ino2inode ino = inode ∧
      (fs.syncInode inode).content inode = fs.content (fs.ino2inode ino) := by
  have hfits := fs.ino2inode_truncate ino
  have hno : inode.inodeNo = ino := by
    rw [hinode]
    exact hsound.number
  have hstored : (fs.syncInode inode).ino2inode ino = inode := by
    have hself := fs.ino2inode_syncInode_self inode
    rw [hno] at hself
    rw [hself, hinode]
    exact Inode.truncate_with hfits (congrArg Inode.size hfits :) huid hmode
      fun i => congrArg (fun inode => Inode.sectors inode i) hfits
  have hsectors : inode.sectors = (fs.ino2inode ino).sectors := by rw [hinode]
  have hsize : inode.size = (fs.ino2inode ino).size := by rw [hinode]
  refine ⟨?_, hstored, ?_⟩
  · constructor
    case layout => exact hsound.layout.congr rfl rfl
    case inTable => exact hsound.inTable
    case number => rw [hstored, hno]
    case owned => exact hsound.owned.congr rfl rfl (by rw [hstored, hsectors])
    case allocated =>
      rw [hstored, hsectors, hsize]
      exact hsound.allocated
  · rw [content, content, hsize, hsectors]
    refine List.map_congr_left fun k hk => ?_
    have hdata := hsound.isDataSector (List.mem_range.mp hk)
    have hne := hdata.ne_inodeSector hsound.layout hsound.inTable
    rw [syncInode_disk_of_ne (by rwa [hno])]

/-- A descriptor whose copy is the inode on the disk is ready for an append. -/
theorem Server.FileSound.appendable {file : OpenFile} (hsound : fs.FileSound ino) (hfd : fd < 64)
    (hopen : fs.fileDescTbl fd = some file) (hinode : file.inode = fs.ino2inode ino)
    (hallowed : fs.checkInodePermission file.inode accessWrite = true) :
    Appendable fs fd file where
  layout := hsound.layout
  descriptor := hfd
  isOpen := hopen
  writable := hallowed
  inTable := by
    rw [hinode, hsound.number]
    exact hsound.inTable
  owned := by
    rw [hinode]
    exact hsound.owned
  allocated := by
    rw [hinode]
    exact hsound.allocated

/-- The copy that an append has stored is the inode on the disk, and the file is sound again. -/
theorem Server.FileSound.appended {file file' : OpenFile} (hsound : fs.FileSound ino)
    (hinode : file.inode = fs.ino2inode ino) (hsize : file.inode.size + str.strlen < 512)
    (happends : AppendsText fs fd file str fs' file') :
    fs'.ino2inode ino = file'.inode ∧ fs'.FileSound ino := by
  have hfits := fs.ino2inode_truncate ino
  have hstored : fs'.ino2inode ino = file'.inode := by
    have hself := happends.stored
    rw [hinode, hsound.number] at hself
    have hnewSize := happends.size
    rw [hself, happends.fields, hinode]
    refine Inode.truncate_with hfits ?_ (congrArg Inode.uid hfits :)
      (congrArg Inode.mode hfits :) fun i => ?_
    · exact Nat.mod_eq_of_lt (by omega)
    · exact Nat.mod_eq_of_lt (happends.ready.owned.sectors_lt happends.ready.layout i)
  refine ⟨hstored, ?_⟩
  constructor
  case layout => exact happends.ready.layout
  case inTable =>
    have hin := happends.ready.inTable
    rwa [happends.fields, hinode, hsound.number] at hin
  case number => rw [hstored, happends.fields, hinode, hsound.number]
  case owned =>
    rw [hstored]
    exact happends.ready.owned
  case allocated =>
    rw [hstored]
    exact happends.ready.allocated

namespace FileRun

/-- What holds in every state of a run. -/
structure Good (ino : Nat) (run : FileRun) : Prop where
  sound : run.fs.FileSound ino
  expected : run.AsExpected ino

/-- A call that does not touch the disk. -/
theorem Good.congr (hgood : run.Good ino) (hsb : fs'.sb = run.fs.sb)
    (hdisk : fs'.disk = run.fs.disk) (hbmap : fs'.blockBmap = run.fs.blockBmap) :
    ({ run with fs := fs' } : FileRun).Good ino := by
  have hinode : fs'.ino2inode ino = run.fs.ino2inode ino :=
    Server.ino2inode_congr hsb (by rw [hdisk])
  obtain ⟨hsound, htext, hmode, huid⟩ := hgood
  refine ⟨hsound.congr hsb hdisk hbmap, ?_, ?_, ?_⟩
  · change fs'.content (fs'.ino2inode ino) = _
    rw [hinode, Server.content, hdisk]
    exact htext
  · exact (congrArg Inode.mode hinode).trans hmode
  · exact (congrArg Inode.uid hinode).trans huid

theorem Good.append (hgood : run.Good ino) (hadmits : run.Admits ino (.append fd str)) :
    ∃ next, run.step ino (.append fd str) = some next ∧ next.Good ino := by
  obtain ⟨⟨hfd, hlen, file, hopen, -, henough⟩, hcurrent⟩ := hadmits
  have hinode : file.inode = run.fs.ino2inode ino := hcurrent file hopen
  obtain ⟨hsound, htext, hmode, huid⟩ := hgood
  have hpermission : run.fs.checkInodePermission (run.expected ino) Server.accessWrite =
      run.fs.checkInodePermission file.inode Server.accessWrite :=
    Server.checkInodePermission_congr rfl (by rw [hinode, huid]; rfl) (by rw [hinode, hmode]; rfl)
  cases hallowed : run.fs.checkInodePermission file.inode Server.accessWrite with
  | false =>
      refine ⟨run, ?_, ⟨hsound, htext, hmode, huid⟩⟩
      simp only [step, Server.step, Request.fits, Server.handle, if_true,
        Server.writeFile_denied hfd hopen hallowed, hpermission, hallowed, Option.bind_eq_bind,
        Option.bind_some, Bool.false_eq_true, if_false]
  | true =>
      have hready := hsound.appendable hfd hopen hinode hallowed
      have hsize : file.inode.size + str.strlen < 512 := by
        rw [hinode, ← run.fs.length_content, htext]
        exact hlen
      obtain ⟨fs', file', hresult, happends⟩ := hready.writeFile (.inl hsize.le) henough
      obtain ⟨hstored, hsound'⟩ := hsound.appended hinode hsize happends
      refine ⟨{ run with fs := fs', text := run.text ++ str.chars }, ?_, hsound', ?_⟩
      · simp only [step, Server.step, Request.fits, Server.handle, if_true, hresult, hpermission,
          hallowed, Option.bind_eq_bind, Option.bind_some]
      · constructor
        case text =>
          change fs'.content (fs'.ino2inode ino) = _
          rw [hstored, happends.content, hinode, htext]
        case mode =>
          change (fs'.ino2inode ino).mode = _
          rw [hstored, happends.fields, hinode]
          exact hmode
        case uid =>
          change (fs'.ino2inode ino).uid = _
          rw [hstored, happends.fields, hinode]
          exact huid

/-- The inode is stored with the mode and the owner that are expected next. -/
theorem Good.store (hgood : run.Good ino) {mode uid : Nat} (huid : uid % 256 ^ 2 = uid)
    (hmode : mode % 256 ^ 4 = mode)
    (hinode : inode = { run.fs.ino2inode ino with uid := uid, mode := mode }) :
    ({ run with fs := run.fs.syncInode inode, mode := mode, uid := uid } : FileRun).Good ino := by
  obtain ⟨hsound, htext, -, -⟩ := hgood
  obtain ⟨hsound', hstored, hcontent⟩ := hsound.store huid hmode hinode
  refine ⟨hsound', ?_, ?_, ?_⟩
  · change (run.fs.syncInode inode).content ((run.fs.syncInode inode).ino2inode ino) = _
    rw [hstored, hcontent, htext]
  · change ((run.fs.syncInode inode).ino2inode ino).mode = _
    rw [hstored, hinode]
  · change ((run.fs.syncInode inode).ino2inode ino).uid = _
    rw [hstored, hinode]

/-- `sys_chmod` and `sys_chown` ask the same question about the inode on the disk. -/
theorem Good.mayChange_iff (hgood : run.Good ino) :
    (run.fs.uid = 0 ∨ run.fs.uid = (run.fs.ino2inode ino).uid) ↔ run.MayChange := by
  rw [hgood.expected.uid, MayChange]

theorem Good.chmod {path : CString} {newMode : Byte} (hgood : run.Good ino)
    (htargets : run.Targets ino (.chmod path newMode)) :
    ∃ next, run.step ino (.chmod path newMode) = some next ∧ next.Good ino := by
  obtain ⟨hfits, hpath, hino⟩ := htargets
  have htruncate := run.fs.ino2inode_truncate ino
  have hbyte : newMode.toNat < 2 ^ 8 := newMode.isLt
  have hstep : run.step ino (.chmod path newMode) = some { run with
      fs := run.fs.sysChmod path.chars newMode,
      mode := if run.MayChange then newMode.toNat else run.mode } := by
    simp only [step, Server.step, Request.fits, hfits, if_true, Option.bind_eq_bind,
      Server.handle, Option.bind_some]
  refine ⟨_, hstep, ?_⟩
  simp only [Server.sysChmod, hpath, if_neg hino, hgood.mayChange_iff, ← hgood.expected.mode]
  have huid : run.uid % 256 ^ 2 = run.uid := by
    rw [← hgood.expected.uid]
    exact congrArg Inode.uid htruncate
  split
  · exact hgood.store huid (Nat.mod_eq_of_lt (by omega)) (by rw [← hgood.expected.uid])
  · exact hgood.store huid (congrArg Inode.mode htruncate :) (by rw [← hgood.expected.uid])

theorem Good.chown {path : CString} {newUid : Nat} (hgood : run.Good ino)
    (htargets : run.Targets ino (.chown path newUid)) :
    ∃ next, run.step ino (.chown path newUid) = some next ∧ next.Good ino := by
  obtain ⟨hfits, hpath, hino⟩ := htargets
  have htruncate := run.fs.ino2inode_truncate ino
  have hstep : run.step ino (.chown path newUid) = some { run with
      fs := run.fs.sysChown path.chars newUid,
      uid := if run.MayChange then newUid % 2 ^ 16 else run.uid } := by
    simp only [step, Server.step, Request.fits, hfits, if_true, Option.bind_eq_bind,
      Server.handle, Option.bind_some]
  refine ⟨_, hstep, ?_⟩
  simp only [Server.sysChown, hpath, if_neg hino, hgood.mayChange_iff, ← hgood.expected.uid]
  have hmode : run.mode % 256 ^ 4 = run.mode := by
    rw [← hgood.expected.mode]
    exact congrArg Inode.mode htruncate
  split
  · exact hgood.store (by omega) hmode (by rw [← hgood.expected.mode])
  · exact hgood.store (congrArg Inode.uid htruncate :) hmode (by rw [← hgood.expected.mode])

/-- One admitted call returns and keeps the file as expected. -/
theorem Good.step (hgood : run.Good ino) {call : FileCall} (hadmits : run.Admits ino call) :
    ∃ next, run.step ino call = some next ∧ next.Good ino := by
  cases call with
  | append fd str => exact hgood.append hadmits
  | chmod path newMode => exact hgood.chmod hadmits.1
  | chown path newUid => exact hgood.chown hadmits.1
  | openFile path =>
      have hfits : componentsFit path.chars = true := hadmits.1
      refine ⟨{ run with fs := (run.fs.openFile path.chars).1 }, ?_, ?_⟩
      · simp only [FileRun.step, Server.step, Request.fits, hfits, if_true, Server.handle,
          Option.bind_eq_bind, Option.bind_some]
      · obtain ⟨table, heq⟩ := run.fs.openFile_disk path.chars
        rw [heq]
        exact hgood.congr rfl rfl rfl
  | closeFile fd =>
      have hfd : fd < 64 := hadmits.1
      obtain ⟨table, heq⟩ := run.fs.closeFile_disk hfd
      refine ⟨{ run with fs := { run.fs with fileDescTbl := table } }, ?_, hgood.congr rfl rfl rfl⟩
      simp only [FileRun.step, Server.step, Request.fits, if_true, Server.handle, heq,
        Option.bind_eq_bind, Option.bind_some]
  | curUser uid => exact ⟨_, rfl, hgood.congr rfl rfl rfl⟩

/-- In every run whose writes go through current descriptors the file holds every text
in the order of the calls, and has the mode and the owner that were set last. -/
theorem keepsUpdates_of_current {calls : List FileCall} {final : FileRun}
    (hsound : fs.FileSound ino)
    (hrun : Run (FileRun.step ino) (FileRun.Admits ino) (FileRun.start fs ino) calls final) :
    final.KeepsUpdates ino (FileRun.Admits ino) := by
  have hgood : final.Good ino := by
    refine hrun.invariant (FileRun.Good ino) ⟨hsound, rfl, rfl, rfl⟩ ?_
    intro before call after hbefore hadmits hstep
    obtain ⟨next, hnext, hafter⟩ := hbefore.step hadmits
    cases hstep.symm.trans hnext
    exact hafter
  refine ⟨hgood.expected, fun call hadmits => ?_⟩
  obtain ⟨next, hnext, -⟩ := hgood.step hadmits
  exact ⟨next, hnext⟩

end FileRun

end

/-- An empty file with two descriptors. -/
def sharedServer : Server :=
  ({ Server.smallServer with
    fileDescTbl := fun fd => if fd < 2 then some Server.emptyFile else none } : Server).syncInode
      Server.emptyFile.inode

theorem sharedServer_ino2inode : sharedServer.ino2inode 1 = Server.emptyFile.inode := by
  apply (Server.ino2inode_syncInode_self _ Server.emptyFile.inode).trans
  ext <;> rfl

theorem sharedServer_fileSound : sharedServer.FileSound 1 := by
  constructor
  case layout => exact Server.smallServer_layout.congr rfl rfl
  case inTable => decide
  case number => rw [sharedServer_ino2inode]; rfl
  case owned => exact Server.emptyFile_owned.congr rfl rfl (by rw [sharedServer_ino2inode])
  case allocated =>
    rw [sharedServer_ino2inode]
    exact fun _ hlt => absurd hlt (Nat.not_lt_zero _)

theorem sharedServer_targets :
    (FileRun.start sharedServer 1).Targets 1 (.append 0 (Server.repeatedText 3)) := by
  refine ⟨by decide, ?_, Server.emptyFile, rfl, rfl, by decide⟩
  rw [FileRun.start, Server.length_content, sharedServer_ino2inode]
  decide

def Server.pathA : CString := ⟨[0x2f, 0x61], by decide⟩

/-- The empty file is `a` in the root directory. -/
def namedServer : Server where
  sb := Server.smallSuperBlock
  disk lba :=
    if lba = 4 then
      let root : Inode :=
        { Server.emptyFile.inode with
          inodeNo := 0
          sectors := fun i => if i = 0 then 5 else 0 }
      Server.emptyFile.inode.store (root.store ByteArea.zeros (Server.inodeOffset 0)) (Server.inodeOffset 1)
    else if lba = 5 then (DirEntry.mk [0x61] 1 .file).store ByteArea.zeros (entryOffset 0)
    else ByteArea.zeros
  blockBmap := { bytesLen := 2, base := fun byteIdx => if byteIdx = 0 then 1 else 0 }
  inodeBmap := { bytesLen := 1, base := fun _ => 3 }
  fileDescTbl := fun _ => none
  uid := 7
  now := 0

theorem namedServer_fileSound : namedServer.FileSound 1 := by
  have hsectors : ∀ i, (namedServer.ino2inode 1).sectors i = 0 := by decide
  constructor
  case layout => constructor <;> decide
  case inTable => decide
  case number => decide
  case owned => exact ⟨fun i hne => absurd (hsectors i) hne, fun i _ hne => absurd (hsectors i) hne⟩
  case allocated => decide

instance (ino : Nat) (run : FileRun) (call : FileCall) : Decidable (run.Targets ino call) :=
  match call with
  | .append fd _ => inferInstanceAs (Decidable (_ < _ ∧ _ < _ ∧
      ∃ file, file ∈ run.fs.fileDescTbl fd ∧ _ = _ ∧ Server.EnoughBlocks _ _ _))
  | .chmod _ _ | .chown _ _ => inferInstanceAs (Decidable (_ ∧ _ ∧ _))
  | .openFile _ => inferInstanceAs (Decidable (_ = _))
  | .closeFile _ => inferInstanceAs (Decidable (_ < _))
  | .curUser _ => inferInstanceAs (Decidable True)

instance (ino : Nat) (run : FileRun) (call : FileCall) : Decidable (run.Current ino call) :=
  match call with
  | .append fd _ => inferInstanceAs (Decidable (∀ file, file ∈ run.fs.fileDescTbl fd → _ = _))
  | .chmod _ _ | .chown _ _ | .openFile _ | .closeFile _ | .curUser _ => inferInstanceAs (Decidable True)

instance (ino : Nat) (run : FileRun) (call : FileCall) : Decidable (run.Admits ino call) :=
  inferInstanceAs (Decidable (_ ∧ _))

/-- The second descriptor is opened after the first one was written to; then others may write. -/
def twoWriters : List FileCall :=
  [.openFile Server.pathA, .append 0 (Server.repeatedText 3), .openFile Server.pathA,
    .append 1 (Server.repeatedText 3), .chmod Server.pathA 0x3f]

/-- Both descriptors append three characters, the second one to a copy with the first three. -/
theorem keepsUpdates_two_writers :
    ∃ final, Run (FileRun.step 1) (FileRun.Admits 1) (FileRun.start namedServer 1) twoWriters final ∧
      final.text.length = 6 ∧ final.mode = 0x3f ∧ final.KeepsUpdates 1 (FileRun.Admits 1) := by
  have hseen : (exec (FileRun.step 1) (FileRun.Admits 1) (FileRun.start namedServer 1)
      twoWriters).map (fun final => (final.text.length, final.mode)) = some (6, 0x3f) := by decide +kernel
  obtain ⟨final, hexec, hvalues⟩ := Option.map_eq_some_iff.mp hseen
  rw [Prod.mk.injEq] at hvalues
  have hrun := Run.of_exec _ _ _ _ hexec
  exact ⟨final, hrun, hvalues.1, hvalues.2, FileRun.keepsUpdates_of_current namedServer_fileSound hrun⟩

/-- Both descriptors append three characters, and the file holds three. -/
theorem second_writer_loses_update :
    ¬ ∀ (fs : Server) (ino : Nat) (calls : List FileCall) (final : FileRun), fs.FileSound ino →
      Run (FileRun.step ino) (FileRun.Targets ino) (FileRun.start fs ino) calls final →
      final.KeepsUpdates ino (FileRun.Targets ino) := by
  intro hall
  have hseen : ((FileRun.start sharedServer 1).step 1 (.append 0 (Server.repeatedText 3))).map
      (fun next => (next.text.length,
        (next.fs.fileDescTbl 1).map (fun file =>
          (file.inode.inodeNo, decide (next.fs.EnoughBlocks file.inode 3))),
        (next.step 1 (.append 1 (Server.repeatedText 3))).map fun last =>
          ((last.fs.ino2inode 1).size, last.text.length))) =
      some (3, some (1, true), some (3, 6)) := by decide
  obtain ⟨next, hnext, hvalues⟩ := Option.map_eq_some_iff.mp hseen
  simp only [Prod.mk.injEq] at hvalues
  obtain ⟨hlen, hopen, hlast⟩ := hvalues
  obtain ⟨file, hfile, hinode⟩ := Option.map_eq_some_iff.mp hopen
  obtain ⟨last, hstep, hsizes⟩ := Option.map_eq_some_iff.mp hlast
  rw [Prod.mk.injEq] at hinode hsizes
  have htargets : next.Targets 1 (.append 1 (Server.repeatedText 3)) := by
    refine ⟨by decide, ?_, file, hfile, hinode.1, of_decide_eq_true hinode.2⟩
    rw [hlen]
    decide
  have hrun : Run (FileRun.step 1) (FileRun.Targets 1) _ _ last :=
    (Run.nil.snoc sharedServer_targets hnext).snoc htargets hstep
  have htext := (hall sharedServer 1 _ last sharedServer_fileSound hrun).1.text
  have hlength := congrArg List.length htext
  rw [Server.length_content, hsizes.1, hsizes.2] at hlength
  cases hlength

end Shmily.Fs
