import Mathlib.Logic.Function.Basic
import Shmily.Foundation.ByteArea
import Shmily.Foundation.Loop

/-! # The partitions of a disk

`traverse_disk_partition` enters the partitions of the table in the first sector into
`struct disk`. In an extended partition `process_disk_ebr` follows the extended boot records:
the first entry of each is a logical partition, and the second leads to the next record. The
loop ends at an entry of size zero; nothing else bounds the index into `logic`.
-/

namespace Shmily.Dr

open Foundation

/-- What `read_sector` delivers for each LBA. -/
abbrev Sectors := BitVec 32 → ByteArea

/-- `partition_table_entry_mbr`, without the fields that are not looked at. -/
structure PartitionTableEntryMbr where
  sysSignature : BitVec 8
  sectorNrBefore : BitVec 32
  sectorNrIn : BitVec 32
  deriving DecidableEq, Repr

/-- `partition_table_mbr`; it has four entries. -/
abbrev PartitionTableMbr := Nat → PartitionTableEntryMbr

/-- The packed structure at an offset. -/
def PartitionTableEntryMbr.load (area : ByteArea) (offset : Nat) : PartitionTableEntryMbr where
  sysSignature := area (offset + 4)
  sectorNrBefore := BitVec.ofNat 32 (area.getLE 4 (offset + 8))
  sectorNrIn := BitVec.ofNat 32 (area.getLE 4 (offset + 12))

/-- `get_partition_table`. -/
def getPartitionTable (sectors : Sectors) (lba : BitVec 32) : PartitionTableMbr := fun i =>
  .load (sectors lba) (0x1be + 16 * i)

/-- `enum partition_type`. -/
inductive PartitionType
  | primary
  | extend
  | logic
  deriving DecidableEq, Repr

/-- `struct partition`, as far as the partition tables fill it in. -/
structure Partition where
  name : String
  sectorCnt : BitVec 32
  startLba : BitVec 32
  type : PartitionType
  deriving DecidableEq, Repr

/-- The arrays of `struct disk`; each has four elements. -/
structure Disk where
  primary : Nat → Partition
  logic : Nat → Partition

/-- The length of `primary` and of `logic`. -/
def partitionCnt : Nat := 4

namespace Disk

/-- `disk->primary[i] = part`, which must be an element of the array. -/
def setPrimary (disk : Disk) (i : Nat) (part : Partition) : Option Disk :=
  if i < partitionCnt then some { disk with primary := Function.update disk.primary i part }
  else none

/-- `disk->logic[i] = part`, which must be an element of the array. -/
def setLogic (disk : Disk) (i : Nat) (part : Partition) : Option Disk :=
  if i < partitionCnt then some { disk with logic := Function.update disk.logic i part }
  else none

end Disk

/-- The local variables of `process_disk_ebr`, and the disk. -/
structure EbrScan where
  logicIdx : Nat
  extendOffset : BitVec 32
  ebrTbl : PartitionTableMbr
  disk : Disk

/-- What a boot record with the given offset says about the logical partition. -/
def logicPartition (logicIdx : Nat) (extendOffset : BitVec 32) (entry : PartitionTableEntryMbr) :
    Partition where
  name := "sda" ++ toString (logicIdx + 5)
  sectorCnt := entry.sectorNrIn
  startLba := entry.sectorNrBefore + extendOffset
  type := .logic

/-- The loop in `process_disk_ebr`. A partition behind the array ends it with nothing. -/
def ebrTurn (sectors : Sectors) (scan : EbrScan) : EbrScan ⊕ Option Disk :=
  if (scan.ebrTbl 0).sectorNrIn = 0 then .inr (some scan.disk)
  else
    let part := logicPartition scan.logicIdx scan.extendOffset (scan.ebrTbl 0)
    match scan.disk.setLogic scan.logicIdx part with
    | none => .inr none
    | some disk =>
        let ebrOffset := (scan.ebrTbl 1).sectorNrBefore + scan.extendOffset
        if (scan.ebrTbl 1).sectorNrIn = 0 then .inr (some disk)
        else .inl {
          logicIdx := scan.logicIdx + 1
          extendOffset := ebrOffset
          ebrTbl := getPartitionTable sectors ebrOffset
          disk := disk }

/-- `process_disk_ebr`, with fuel for its loop. -/
def processDiskEbr (sectors : Sectors) (fuel : Nat) (entry : PartitionTableEntryMbr)
    (disk : Disk) : Option Disk :=
  (loop (ebrTurn sectors) fuel {
    logicIdx := 0
    extendOffset := entry.sectorNrBefore
    ebrTbl := getPartitionTable sectors entry.sectorNrBefore
    disk := disk }).join

/-- The body of the loop in `traverse_disk_partition`. -/
def traverseEntry (sectors : Sectors) (fuel : Nat) (mbrTbl : PartitionTableMbr) (disk : Disk)
    (i : Nat) : Option Disk :=
  let entry := mbrTbl i
  if entry.sectorNrIn = 0 then some disk
  else
    let part := { disk.primary i with
      name := "sda" ++ toString i
      startLba := entry.sectorNrBefore
      sectorCnt := entry.sectorNrIn }
    (disk.setPrimary i part).bind fun disk =>
      if entry.sysSignature = 5 then
        (processDiskEbr sectors fuel entry disk).bind fun disk =>
          disk.setPrimary i { disk.primary i with type := .extend }
      else disk.setPrimary i { disk.primary i with type := .primary }

/-- `traverse_disk_partition`. -/
def traverseDiskPartition (sectors : Sectors) (fuel : Nat) (disk : Disk) : Option Disk :=
  (List.range 4).foldlM (traverseEntry sectors fuel (getPartitionTable sectors 0)) disk

/-! ### The chain of records that the code follows -/

namespace Sectors

/-- The number of sectors of the logical partition in a boot record. -/
def partSize (sectors : Sectors) (lba : BitVec 32) : BitVec 32 :=
  (getPartitionTable sectors lba 0).sectorNrIn

/-- The number of sectors in the entry that leads to the next record; zero in the last one. -/
def linkSize (sectors : Sectors) (lba : BitVec 32) : BitVec 32 :=
  (getPartitionTable sectors lba 1).sectorNrIn

/-- Where the next record is, relative to some place. -/
def link (sectors : Sectors) (lba : BitVec 32) : BitVec 32 :=
  (getPartitionTable sectors lba 1).sectorNrBefore

/-- Where the code looks for the records: each link is added to the place of its record. -/
def visited (sectors : Sectors) (start : BitVec 32) : Nat → BitVec 32
  | 0 => start
  | n + 1 => sectors.link (visited sectors start n) + visited sectors start n

/-- The chain that the code follows may end after `n` partitions. -/
def Stops (sectors : Sectors) (start : BitVec 32) : Nat → Prop
  | 0 => sectors.partSize start = 0
  | n + 1 => sectors.linkSize (sectors.visited start n) = 0 ∨
      sectors.partSize (sectors.visited start (n + 1)) = 0

/-- The code finds `n` partitions in the chain. -/
def HasLength (sectors : Sectors) (start : BitVec 32) (n : Nat) : Prop :=
  sectors.Stops start n ∧ ∀ m < n, ¬ sectors.Stops start m

variable {sectors : Sectors} {start : BitVec 32} {n fuel : Nat}

theorem partSize_ne_zero (hstops : ¬ sectors.Stops start n) :
    sectors.partSize (sectors.visited start n) ≠ 0 := by
  cases n with
  | zero => exact hstops
  | succ n => exact (not_or.mp hstops).2

theorem linkSize_ne_zero (hstops : ¬ sectors.Stops start (n + 1)) :
    sectors.linkSize (sectors.visited start n) ≠ 0 := (not_or.mp hstops).1

/-- A chain that ends has a length. -/
theorem exists_hasLength {bound : Nat} (hstops : ∃ n ≤ bound, sectors.Stops start n) :
    ∃ n ≤ bound, sectors.HasLength start n := by
  classical
  obtain ⟨n, hn, hstop⟩ := hstops
  have hexists : ∃ n, sectors.Stops start n := ⟨n, hstop⟩
  have hle : Nat.find hexists ≤ bound := (Nat.find_min' hexists hstop).trans hn
  exact ⟨Nat.find hexists, hle, Nat.find_spec hexists, fun m hm => Nat.find_min hexists hm⟩

end Sectors

/-! ### What the loop does -/

/-- The disk after the first `n` records were entered. -/
def Disk.recorded (disk : Disk) (sectors : Sectors) (start : BitVec 32) (n : Nat) : Disk :=
  { disk with
    logic := fun i =>
      if i < n then
        logicPartition i (sectors.visited start i)
          (getPartitionTable sectors (sectors.visited start i) 0)
      else disk.logic i }

/-- The scan when `n` records were entered, and the next one was read. -/
def EbrScan.after (disk : Disk) (sectors : Sectors) (start : BitVec 32) (n : Nat) : EbrScan where
  logicIdx := n
  extendOffset := sectors.visited start n
  ebrTbl := getPartitionTable sectors (sectors.visited start n)
  disk := disk.recorded sectors start n

variable {sectors : Sectors} {start : BitVec 32} {n fuel : Nat}

theorem Disk.setLogic_recorded (disk : Disk) (sectors : Sectors) (start : BitVec 32)
    (hn : n < partitionCnt) :
    (disk.recorded sectors start n).setLogic n (logicPartition n (sectors.visited start n)
      (getPartitionTable sectors (sectors.visited start n) 0)) =
    some (disk.recorded sectors start (n + 1)) := by
  rw [setLogic, if_pos hn]
  refine congrArg (fun logic => some { disk with logic := logic }) ?_
  funext i
  rcases Nat.lt_trichotomy i n with hlt | rfl | hgt
  · rw [Function.update_of_ne (Nat.ne_of_lt hlt)]
    simp only [recorded, if_pos hlt, if_pos (Nat.lt_succ_of_lt hlt)]
  · rw [Function.update_self, if_pos (Nat.lt_succ_self i)]
  · rw [Function.update_of_ne (Nat.ne_of_gt hgt)]
    simp only [recorded, if_neg (Nat.not_lt_of_gt hgt), if_neg (Nat.not_lt.mpr hgt)]

section Turns

variable (disk : Disk)

theorem ebrTurn_empty (hpart : sectors.partSize (sectors.visited start n) = 0) :
    ebrTurn sectors (.after disk sectors start n) =
      .inr (some (disk.recorded sectors start n)) := if_pos hpart

theorem ebrTurn_last (hn : n < partitionCnt)
    (hpart : sectors.partSize (sectors.visited start n) ≠ 0)
    (hlink : sectors.linkSize (sectors.visited start n) = 0) :
    ebrTurn sectors (.after disk sectors start n) =
      .inr (some (disk.recorded sectors start (n + 1))) := by
  rw [ebrTurn]
  dsimp only [EbrScan.after]
  rw [disk.setLogic_recorded sectors start hn]
  exact (if_neg hpart).trans (if_pos hlink)

theorem ebrTurn_next (hn : n < partitionCnt)
    (hpart : sectors.partSize (sectors.visited start n) ≠ 0)
    (hlink : sectors.linkSize (sectors.visited start n) ≠ 0) :
    ebrTurn sectors (.after disk sectors start n) = .inl (.after disk sectors start (n + 1)) := by
  rw [ebrTurn]
  dsimp only [EbrScan.after]
  rw [disk.setLogic_recorded sectors start hn]
  exact (if_neg hpart).trans (if_neg hlink)

theorem ebrTurn_outside (hn : partitionCnt ≤ n)
    (hpart : sectors.partSize (sectors.visited start n) ≠ 0) :
    ebrTurn sectors (.after disk sectors start n) = .inr none := by
  rw [ebrTurn]
  dsimp only [EbrScan.after]
  rw [Disk.setLogic, if_neg (Nat.not_lt.mpr hn)]
  exact if_neg hpart

/-- As long as the chain does not end, every turn goes to the next record. -/
theorem loop_after (hn : n ≤ partitionCnt)
    (hgoes : ∀ m < n, ¬ sectors.Stops start m ∧ ¬ sectors.Stops start (m + 1)) (fuel : Nat) :
    loop (ebrTurn sectors) (fuel + n) (.after disk sectors start 0) =
      loop (ebrTurn sectors) fuel (.after disk sectors start n) := by
  induction n generalizing fuel with
  | zero => rfl
  | succ n ih =>
      obtain ⟨hhere, hnext⟩ := hgoes n (Nat.lt_succ_self n)
      have hturn := ebrTurn_next disk hn (Sectors.partSize_ne_zero hhere)
        (Sectors.linkSize_ne_zero hnext)
      have hbefore := ih (Nat.le_of_succ_le hn) (fun m hm => hgoes m (Nat.lt_succ_of_lt hm))
        (fuel + 1)
      rw [Nat.add_right_comm] at hbefore
      exact hbefore.trans (loop_inl hturn fuel)

/-- A chain of at most four records is entered into the array. -/
theorem loop_of_hasLength (hlength : sectors.HasLength start n) (hn : n ≤ partitionCnt)
    (hfuel : n < fuel) :
    loop (ebrTurn sectors) fuel (.after disk sectors start 0) =
      some (some (disk.recorded sectors start n)) := by
  obtain ⟨more, rfl⟩ := Nat.exists_eq_add_of_lt hfuel
  obtain ⟨hstop, hbefore⟩ := hlength
  cases n with
  | zero =>
      have hpart : sectors.partSize (sectors.visited start 0) = 0 := hstop
      exact loop_inr (ebrTurn_empty disk hpart) _
  | succ n =>
      have hhere := hbefore n (Nat.lt_succ_self n)
      have hpart := Sectors.partSize_ne_zero hhere
      have hgoes : ∀ m < n, ¬ sectors.Stops start m ∧ ¬ sectors.Stops start (m + 1) :=
        fun m hm => ⟨hbefore m (Nat.lt_succ_of_lt hm), hbefore (m + 1) (Nat.succ_lt_succ hm)⟩
      have hturns := loop_after disk (Nat.le_of_succ_le hn) hgoes (more + 2)
      rw [show n + 1 + more + 1 = more + 2 + n by omega, hturns]
      by_cases hlink : sectors.linkSize (sectors.visited start n) = 0
      · exact loop_inr (ebrTurn_last disk hn hpart hlink) _
      · have hend := hstop.resolve_left hlink
        rw [loop_inl (ebrTurn_next disk hn hpart hlink)]
        exact loop_inr (ebrTurn_empty disk hend) _

/-- A longer chain ends behind the array. -/
theorem leaves_of_not_stops (hstops : ∀ m ≤ partitionCnt, ¬ sectors.Stops start m) :
    Leaves (ebrTurn sectors) (.after disk sectors start 0) none := by
  have hgoes : ∀ m < partitionCnt, ¬ sectors.Stops start m ∧ ¬ sectors.Stops start (m + 1) :=
    fun m hm => ⟨hstops m (Nat.le_of_lt hm), hstops (m + 1) hm⟩
  have hpart := Sectors.partSize_ne_zero (hstops partitionCnt (Nat.le_refl _))
  refine ⟨1 + partitionCnt, ?_⟩
  rw [loop_after disk (Nat.le_refl _) hgoes 1]
  exact loop_inr (ebrTurn_outside disk (Nat.le_refl _) hpart) 0

end Turns

theorem processDiskEbr_eq (sectors : Sectors) (fuel : Nat) (entry : PartitionTableEntryMbr)
    (disk : Disk) :
    processDiskEbr sectors fuel entry disk = (loop (ebrTurn sectors) fuel
      (.after disk sectors entry.sectorNrBefore 0)).join := rfl

theorem processDiskEbr_of_hasLength {entry : PartitionTableEntryMbr} (disk : Disk)
    (hlength : sectors.HasLength entry.sectorNrBefore n) (hn : n ≤ partitionCnt)
    (hfuel : n < fuel) :
    processDiskEbr sectors fuel entry disk =
      some (disk.recorded sectors entry.sectorNrBefore n) := by
  rw [processDiskEbr_eq, loop_of_hasLength disk hlength hn hfuel]
  rfl

/-- Only a chain of at most four records is processed. -/
theorem hasLength_of_processDiskEbr {entry : PartitionTableEntryMbr} {disk after : Disk}
    (hprocess : processDiskEbr sectors fuel entry disk = some after) :
    ∃ n ≤ partitionCnt, sectors.HasLength entry.sectorNrBefore n := by
  refine Sectors.exists_hasLength (Classical.by_contradiction fun hnone => ?_)
  have hstops : ∀ m ≤ partitionCnt, ¬ sectors.Stops entry.sectorNrBefore m :=
    fun m hm hstop => hnone ⟨m, hm, hstop⟩
  rw [processDiskEbr_eq] at hprocess
  have hloop := Option.join_eq_some_iff.mp hprocess
  cases Leaves.unique ⟨fuel, hloop⟩ (leaves_of_not_stops disk hstops)

/-- A sector with the given bytes, and zeros elsewhere. -/
def sectorOf (bytes : List (Nat × BitVec 8)) : ByteArea := fun k => (bytes.lookup k).getD 0

end Shmily.Dr
