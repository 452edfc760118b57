import Shmily.Fs.Append
import Shmily.Fs.Format

/-! # Starting the file system server

At its start the server formats every partition without a file system and mounts one
of them. The loop over the primary partitions compares the magic with a text that
formatting never writes, so it formats them again at every start; the loop over the
logical ones recognises what it finds.
-/

namespace Shmily.Fs

open Foundation Lib

/-- `struct disk`. -/
structure PartitionTable where
  primary : Fin 4 → Partition
  logic : Fin 8 → Partition

/-- The magic that the loop over the primary partitions looks for. -/
def primaryMagic : List Byte := [0x68, 0x6d, 0x69, 0x6c, 0x79]

/-- The name of the partition that is mounted. -/
def mountedName : List Byte := [0x73, 0x64, 0x61, 0x30]

/-- The disk and what was written to it so far. -/
structure BootState where
  disk : Nat → ByteArea
  writes : List DiskWrite

namespace BootState

/-- `partition_install_fs` on a disk. -/
def install (boot : BootState) (part : Partition) (heap : ByteArea) : BootState where
  disk := (part.installFs heap).foldl DiskWrite.apply boot.disk
  writes := boot.writes ++ part.installFs heap

/-- The loop body of `init_fs`: a partition without the magic is formatted. -/
def check (boot : BootState) (part : Partition) (heap : ByteArea) (expected : List Byte) :
    BootState :=
  if part.sectorCnt = 0 then boot
  else if !strcmp (boot.disk ((part.startLba + 1) % 2 ^ 32)) 0 expected then boot.install part heap
  else boot

/-- The loop body for a primary partition; the extended one is left out. -/
def checkPrimary (boot : BootState) (part : Partition) (heap : ByteArea) : BootState :=
  if part.type = .extend then boot else boot.check part heap primaryMagic

/-- The loop body for a logical partition. -/
def checkLogic (boot : BootState) (part : Partition) (heap : ByteArea) : BootState :=
  boot.check part heap magic

end BootState

namespace PartitionTable

/-- The loop of `init_fs` over the primary partitions. The heap gives the content of the
memory that each call of `partition_install_fs` works with. -/
def checkPrimaries (table : PartitionTable) (heap : Nat → ByteArea) (boot : BootState)
    (indices : List (Fin 4)) : BootState :=
  indices.foldl (fun boot i => boot.checkPrimary (table.primary i) (heap i)) boot

/-- The loop of `init_fs` over the logical partitions. -/
def checkLogics (table : PartitionTable) (heap : Nat → ByteArea) (boot : BootState)
    (indices : List (Fin 4)) : BootState :=
  indices.foldl (fun boot (i : Fin 4) =>
    boot.checkLogic (table.logic (i.castLE (by decide))) (heap (4 + i))) boot

/-- The loops of `init_fs`. -/
def initFs (table : PartitionTable) (heap : Nat → ByteArea) (disk : Nat → ByteArea) : BootState :=
  table.checkLogics heap (table.checkPrimaries heap ⟨disk, []⟩ (List.finRange 4)) (List.finRange 4)

/-- The partition that `mount_partition` chooses: the last one of that name among the
primary and the first four logical ones. -/
def mounted (table : PartitionTable) : Option Partition :=
  ((List.finRange 4).map table.primary ++
    (List.finRange 4).map fun i => table.logic (i.castLE (by decide))).reverse.find?
      fun part => part.name = mountedName

/-- Every partition that can hold a file system has the superblock that formatting wrote. -/
def Formatted (table : PartitionTable) (disk : Nat → ByteArea) : Prop :=
  (∀ i, (table.primary i).sectorCnt ≠ 0 → (table.primary i).type ≠ .extend →
    (table.primary i).Formatted disk) ∧
  ∀ i, (table.logic i).sectorCnt ≠ 0 → (table.logic i).Formatted disk

end PartitionTable

/-- Every path leads to the same inode, with the same content. -/
def Server.SameFiles (fs fs' : Server) : Prop :=
  ∀ path, fs'.dirIsExists path = fs.dirIsExists path ∧
    fs'.ino2inode (fs'.dirIsExists path) = fs.ino2inode (fs.dirIsExists path) ∧
    fs'.content (fs'.ino2inode (fs'.dirIsExists path)) =
      fs.content (fs.ino2inode (fs.dirIsExists path))

/-- A restart writes nothing and finds the files as they were. -/
def PartitionTable.RestartKeeps (table : PartitionTable) (heap : Nat → ByteArea) (fs : Server) :
    Prop :=
  (table.initFs heap fs.disk).writes = [] ∧
    ∀ part, table.mounted = some part → fs.sb = loadSuperBlock (fs.disk ((part.startLba + 1) % 2 ^ 32)) →
      fs.SameFiles (part.mount (table.initFs heap fs.disk).disk)

variable {boot : BootState} {part : Partition} {heap : ByteArea} {table : PartitionTable}
  {disk : Nat → ByteArea}

/-! ### The magic -/

theorem strcmp_congr {area other : ByteArea} {offset : Nat} {str : List Byte}
    (hsame : ∀ k, offset ≤ k → k ≤ offset + str.length → area k = other k) :
    strcmp area offset str = strcmp other offset str := by
  induction str generalizing offset with
  | nil => rw [strcmp, strcmp, hsame offset le_rfl (by simp)]
  | cons c str ih =>
      rw [strcmp, strcmp, hsame offset le_rfl (Nat.le_add_right _ _), ih]
      intro k hlow hhigh
      exact hsame k (by omega) (by simp only [List.length_cons]; omega)

/-- The superblock starts with the magic. -/
theorem storeSuperBlock_magic (part : Partition) {k : Nat} (hk : k < 7) :
    storeSuperBlock part k = storeBytes ByteArea.zeros magic k := by
  rw [storeSuperBlock]
  repeat rw [ByteArea.putLE_of_not (by omega)]

theorem Partition.Formatted.strcmp_eq (hformatted : part.Formatted disk) {str : List Byte}
    (hlen : str.length < 7) :
    strcmp (disk ((part.startLba + 1) % 2 ^ 32)) 0 str =
      strcmp (storeBytes ByteArea.zeros magic) 0 str := by
  refine strcmp_congr fun k _ hk => ?_
  rw [hformatted k (by simp only [sectorSize]; omega), storeSuperBlock_magic part (by omega)]

/-! ### The loops -/

namespace BootState

/-- What was written stays written. -/
theorem check_writes (boot : BootState) (part : Partition) (heap : ByteArea)
    (expected : List Byte) : boot.writes <+: (boot.check part heap expected).writes := by
  unfold check
  split
  next => exact List.prefix_rfl
  next =>
    split
    next => exact List.prefix_append _ _
    next => exact List.prefix_rfl

theorem checkPrimary_writes (boot : BootState) (part : Partition) (heap : ByteArea) :
    boot.writes <+: (boot.checkPrimary part heap).writes := by
  unfold checkPrimary
  split
  next => exact List.prefix_rfl
  next => exact check_writes ..

/-- A logical partition with a file system is left alone. -/
theorem checkLogic_of_formatted
    (hformatted : part.sectorCnt ≠ 0 → part.Formatted boot.disk) :
    boot.checkLogic part heap = boot := by
  rw [checkLogic, check]
  split
  next => rfl
  next hcnt =>
    have hmagic : strcmp (storeBytes ByteArea.zeros magic) 0 magic = true := by decide
    rw [(hformatted hcnt).strcmp_eq (by decide), hmagic]
    rfl

/-- A primary partition with a file system is formatted again. -/
theorem checkPrimary_of_formatted (hcnt : part.sectorCnt ≠ 0) (htype : part.type ≠ .extend)
    (hformatted : part.Formatted boot.disk) :
    boot.checkPrimary part heap = boot.install part heap := by
  have hmagic : strcmp (storeBytes ByteArea.zeros magic) 0 primaryMagic = false := by decide
  rw [checkPrimary, if_neg htype, check, if_neg hcnt, hformatted.strcmp_eq (by decide), hmagic]
  rfl

theorem checkPrimary_of_skipped (hskipped : part.sectorCnt = 0 ∨ part.type = .extend) :
    boot.checkPrimary part heap = boot := by
  rw [checkPrimary, check]
  split
  next => rfl
  next htype => rw [if_pos (hskipped.resolve_right htype)]

end BootState

namespace PartitionTable

theorem foldl_writes {α : Type} {step : BootState → α → BootState}
    (hstep : ∀ boot a, boot.writes <+: (step boot a).writes) (list : List α) (boot : BootState) :
    boot.writes <+: (list.foldl step boot).writes := by
  induction list generalizing boot with
  | nil => exact List.prefix_rfl
  | cons a list ih => exact (hstep boot a).trans (ih (step boot a))

theorem foldl_eq_self {α : Type} {step : BootState → α → BootState} {list : List α}
    (hstep : ∀ a ∈ list, step boot a = boot) : list.foldl step boot = boot := by
  induction list with
  | nil => rfl
  | cons a list ih =>
      rw [List.foldl_cons, hstep a List.mem_cons_self]
      exact ih fun b hb => hstep b (List.mem_cons_of_mem a hb)

theorem checkLogics_writes (table : PartitionTable) (heap : Nat → ByteArea) (boot : BootState)
    (indices : List (Fin 4)) : boot.writes <+: (table.checkLogics heap boot indices).writes :=
  foldl_writes (fun boot _ => boot.check_writes _ _ magic) indices boot

/-- The first primary partition with a file system is formatted again. -/
theorem primary_writes (heap : Nat → ByteArea) {list : List (Fin 4)} {i : Fin 4} (hmem : i ∈ list)
    (hcnt : (table.primary i).sectorCnt ≠ 0) (htype : (table.primary i).type ≠ .extend)
    (hformatted : table.Formatted boot.disk) :
    (table.checkPrimaries heap boot list).writes ≠ [] := by
  induction list with
  | nil => cases hmem
  | cons j list ih =>
      rw [checkPrimaries, List.foldl_cons]
      by_cases hskipped : (table.primary j).sectorCnt = 0 ∨ (table.primary j).type = .extend
      · rw [BootState.checkPrimary_of_skipped hskipped]
        refine ih ((List.mem_cons.mp hmem).resolve_left ?_)
        rintro rfl
        exact hskipped.elim hcnt htype
      · obtain ⟨hcntj, htypej⟩ := not_or.mp hskipped
        have hgrown := foldl_writes
          (fun boot i => boot.checkPrimary_writes (table.primary i) (heap i)) list
          (boot.checkPrimary (table.primary j) (heap j))
        rw [BootState.checkPrimary_of_formatted hcntj htypej (hformatted.1 j hcntj htypej)] at hgrown ⊢
        intro hnone
        rw [hnone] at hgrown
        have hempty := List.prefix_nil.mp hgrown
        simp [BootState.install, Partition.installFs] at hempty

/-- A primary partition with a file system makes the start write to the disk. -/
theorem initFs_writes (heap : Nat → ByteArea) {i : Fin 4}
    (hcnt : (table.primary i).sectorCnt ≠ 0) (htype : (table.primary i).type ≠ .extend)
    (hformatted : table.Formatted disk) : (table.initFs heap disk).writes ≠ [] := by
  intro hnone
  have hprimary : (table.checkPrimaries heap ⟨disk, []⟩ (List.finRange 4)).writes ≠ [] :=
    primary_writes heap (List.mem_finRange i) hcnt htype hformatted
  have hgrown : (table.checkPrimaries heap ⟨disk, []⟩ (List.finRange 4)).writes <+:
      (table.initFs heap disk).writes := checkLogics_writes ..
  rw [hnone] at hgrown
  exact hprimary (List.prefix_nil.mp hgrown)

/-- Without a primary partition that has a file system nothing is written. -/
theorem initFs_of_skipped (heap : Nat → ByteArea)
    (hskipped : ∀ i, (table.primary i).sectorCnt = 0 ∨ (table.primary i).type = .extend)
    (hformatted : table.Formatted disk) :
    table.initFs heap disk = { disk := disk, writes := [] } := by
  have hprimary : table.checkPrimaries heap ⟨disk, []⟩ (List.finRange 4) = ⟨disk, []⟩ :=
    foldl_eq_self fun i _ => BootState.checkPrimary_of_skipped (hskipped i)
  rw [initFs, hprimary]
  exact foldl_eq_self fun i _ => BootState.checkLogic_of_formatted (hformatted.2 _)

end PartitionTable

/-! ### Restarts -/

theorem Server.findDirEntry_congr {fs fs' : Server} (hdisk : fs'.disk = fs.disk) (inode : Inode)
    (child : List Byte) : fs'.findDirEntry inode child = fs.findDirEntry inode child := by
  rw [findDirEntry, hdisk, findDirEntry]

theorem Server.walk_congr {fs fs' : Server} (hdisk : fs'.disk = fs.disk) (hsb : fs'.sb = fs.sb)
    (fuel ino : Nat) (path : List Byte) : fs'.walk fuel ino path = fs.walk fuel ino path := by
  induction fuel generalizing ino path with
  | zero => rfl
  | succ fuel ih =>
      have hinode : fs'.ino2inode ino = fs.ino2inode ino := ino2inode_congr hsb (by rw [hdisk])
      simp only [walk, hinode, findDirEntry_congr hdisk, ih]

/-- Resolution and contents depend on the disk and on the superblock only. -/
theorem Server.sameFiles_of_eq {fs fs' : Server} (hdisk : fs'.disk = fs.disk)
    (hsb : fs'.sb = fs.sb) : fs.SameFiles fs' := by
  intro path
  have hexists : fs'.dirIsExists path = fs.dirIsExists path := by
    rw [dirIsExists, hsb, walk_congr hdisk hsb, dirIsExists]
  have hinode : ∀ ino, fs'.ino2inode ino = fs.ino2inode ino := fun ino =>
    ino2inode_congr hsb (by rw [hdisk])
  refine ⟨hexists, ?_, ?_⟩
  · rw [hexists, hinode]
  · rw [hexists, hinode, content, hdisk, content]

/-- A restart keeps the files exactly when no primary partition has a file system. -/
theorem restart_keeps_files {heap : Nat → ByteArea} {fs : Server}
    (hformatted : table.Formatted fs.disk) :
    table.RestartKeeps heap fs ↔
      ∀ i, (table.primary i).sectorCnt = 0 ∨ (table.primary i).type = .extend := by
  constructor
  · rintro ⟨hwrites, -⟩ i
    by_contra hinstalled
    obtain ⟨hcnt, htype⟩ := not_or.mp hinstalled
    exact PartitionTable.initFs_writes heap hcnt htype hformatted hwrites
  · intro hskipped
    have hboot := PartitionTable.initFs_of_skipped heap hskipped hformatted
    refine ⟨by rw [hboot], fun part hmounted hsb => ?_⟩
    rw [hboot]
    exact Server.sameFiles_of_eq rfl hsb.symm

/-- An entry of the partition table that is not used. -/
def unusedPartition : Partition where
  name := []
  sectorCnt := 0
  startLba := 0
  type := .primary

/-- A table with one partition, primary or logical. -/
def singleTable (part : Partition) (isPrimary : Bool) : PartitionTable where
  primary i := if isPrimary ∧ i = 0 then part else unusedPartition
  logic i := if !isPrimary ∧ i = 0 then part else unusedPartition

theorem singleTable_formatted (part : Partition) (isPrimary : Bool) :
    (singleTable part isPrimary).Formatted (Partition.formattedDisk part) := by
  constructor
  · intro i hcnt _
    simp only [singleTable] at hcnt ⊢
    split at hcnt
    next hi =>
      rw [if_pos hi]
      exact Partition.formattedDisk_formatted part
    next => exact absurd rfl hcnt
  · intro i hcnt
    simp only [singleTable] at hcnt ⊢
    split at hcnt
    next hi =>
      rw [if_pos hi]
      exact Partition.formattedDisk_formatted part
    next => exact absurd rfl hcnt

/-- A server on the formatted disk of a partition. -/
def formattedServer (part : Partition) : Server := part.mount (Partition.formattedDisk part)

/-- A disk with a logical partition is left alone. -/
theorem restart_keeps_files_logic :
    (singleTable Partition.largePartition false).RestartKeeps (fun _ => ByteArea.zeros)
      (formattedServer Partition.largePartition) :=
  (restart_keeps_files (singleTable_formatted _ _)).mpr fun i => by
    revert i
    decide

/-- A primary partition that was formatted before is formatted again. -/
theorem restart_formats_primary :
    (singleTable Partition.largePartition true).Formatted
        (formattedServer Partition.largePartition).disk ∧
      ¬ (singleTable Partition.largePartition true).RestartKeeps (fun _ => ByteArea.zeros)
        (formattedServer Partition.largePartition) := by
  refine ⟨singleTable_formatted _ _, fun hkeeps => ?_⟩
  have hcnt : ((singleTable Partition.largePartition true).primary 0).sectorCnt ≠ 0 := by decide
  have htype : ((singleTable Partition.largePartition true).primary 0).type ≠ .extend := by decide
  exact PartitionTable.initFs_writes _ hcnt htype (singleTable_formatted _ _) hkeeps.1

end Shmily.Fs
