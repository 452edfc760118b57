import Shmily.Dr.Disk

/-! # The scan of the partitions on any disk

The table in the first sector can have up to four extended partitions, with chains of records
that are as long as the disk makes them, or come back to a record they have already been to.
Every turn of the loop enters a partition, so a chain that does not end in time is left only
behind the array.
-/

namespace Shmily.Dr

open Foundation

/-- Each extended partition in the table has a chain that ends after at most four logical
partitions, where the code follows it. -/
def Sectors.ChainsFit (sectors : Sectors) : Prop :=
  ∀ i < 4, (getPartitionTable sectors 0 i).sectorNrIn ≠ 0 →
    (getPartitionTable sectors 0 i).sysSignature = 5 →
      ∃ n ≤ partitionCnt, sectors.Stops (getPartitionTable sectors 0 i).sectorNrBefore n

variable {sectors : Sectors} {fuel i : Nat} {mbrTbl : PartitionTableMbr} {disk after : Disk}

theorem traverseEntry_unused (hunused : (mbrTbl i).sectorNrIn = 0) :
    traverseEntry sectors fuel mbrTbl disk i = some disk := if_pos hunused

theorem exists_setPrimary (disk : Disk) (part : Partition) (hi : i < partitionCnt) :
    ∃ after, disk.setPrimary i part = some after := ⟨_, if_pos hi⟩

/-- An entry in use is entered into the array, and then its chain if it is extended. -/
theorem traverseEntry_used (sectors : Sectors) (fuel : Nat) (disk : Disk) (hi : i < partitionCnt)
    (hused : (mbrTbl i).sectorNrIn ≠ 0) :
    ∃ entered : Disk, traverseEntry sectors fuel mbrTbl disk i =
      if (mbrTbl i).sysSignature = 5 then
        (processDiskEbr sectors fuel (mbrTbl i) entered).bind fun after =>
          after.setPrimary i { after.primary i with type := .extend }
      else entered.setPrimary i { entered.primary i with type := .primary } := by
  obtain ⟨entered, hentered⟩ := exists_setPrimary disk { disk.primary i with
    name := "sda" ++ toString i
    startLba := (mbrTbl i).sectorNrBefore
    sectorCnt := (mbrTbl i).sectorNrIn } hi
  refine ⟨entered, ?_⟩
  rw [traverseEntry]
  dsimp only
  rw [if_neg hused, hentered]
  rfl

theorem exists_traverseEntry (disk : Disk) (hi : i < partitionCnt)
    (hfits : (mbrTbl i).sectorNrIn ≠ 0 → (mbrTbl i).sysSignature = 5 →
      ∃ n ≤ partitionCnt, sectors.Stops (mbrTbl i).sectorNrBefore n) :
    ∃ after, traverseEntry sectors (partitionCnt + 1) mbrTbl disk i = some after := by
  by_cases hunused : (mbrTbl i).sectorNrIn = 0
  · exact ⟨disk, traverseEntry_unused hunused⟩
  · obtain ⟨entered, hentered⟩ := traverseEntry_used sectors (partitionCnt + 1) disk hi hunused
    rw [hentered]
    by_cases hextended : (mbrTbl i).sysSignature = 5
    · obtain ⟨n, hn, hlength⟩ := Sectors.exists_hasLength (hfits hunused hextended)
      rw [if_pos hextended,
        processDiskEbr_of_hasLength entered hlength hn (Nat.lt_succ_of_le hn)]
      exact exists_setPrimary _ _ hi
    · rw [if_neg hextended]
      exact exists_setPrimary _ _ hi

theorem stops_of_traverseEntry (hi : i < partitionCnt)
    (hentry : traverseEntry sectors fuel mbrTbl disk i = some after)
    (hused : (mbrTbl i).sectorNrIn ≠ 0) (hextended : (mbrTbl i).sysSignature = 5) :
    ∃ n ≤ partitionCnt, sectors.Stops (mbrTbl i).sectorNrBefore n := by
  obtain ⟨entered, hentered⟩ := traverseEntry_used sectors fuel disk hi hused
  rw [hentered, if_pos hextended] at hentry
  obtain ⟨processed, hprocess, -⟩ := Option.bind_eq_some_iff.mp hentry
  obtain ⟨n, hn, hlength⟩ := hasLength_of_processDiskEbr hprocess
  exact ⟨n, hn, hlength.1⟩

/-- The scan ends, and stays within `primary` and `logic`, if and only if the chains of the
extended partitions end in time. -/
theorem traverseDiskPartition_ends_iff (sectors : Sectors) (disk : Disk) :
    (∃ fuel after, traverseDiskPartition sectors fuel disk = some after) ↔ sectors.ChainsFit := by
  constructor
  · rintro ⟨fuel, after, htraverse⟩ i hi hused hextended
    obtain ⟨before, next, hentry⟩ := exists_body_of_foldlM htraverse (List.mem_range.mpr hi)
    exact stops_of_traverseEntry hi hentry hused hextended
  · intro hfits
    obtain ⟨after, hafter⟩ := exists_foldlM (List.range 4) disk fun before i hi =>
      exists_traverseEntry before (List.mem_range.mp hi) (hfits i (List.mem_range.mp hi))
    exact ⟨partitionCnt + 1, after, hafter⟩

/-- A disk with an extended partition whose only record leads back to itself. -/
def cyclicDisk : Sectors := fun lba =>
  if lba = 0 then sectorOf [(0x1c2, 5), (0x1c6, 1), (0x1ca, 100)]
  else if lba = 1 then sectorOf [(0x1c6, 1), (0x1ca, 10), (0x1da, 10)]
  else .zeros

theorem visited_cyclicDisk (n : Nat) : cyclicDisk.visited 1 n = 1 := by
  induction n with
  | zero => rfl
  | succ n ih =>
      rw [Sectors.visited, ih]
      decide

/-- The fifth turn writes behind `logic`. -/
theorem cyclic_chain_overruns :
    ¬ ∀ (sectors : Sectors) (disk : Disk),
      ∃ fuel after, traverseDiskPartition sectors fuel disk = some after := by
  intro hall
  let part : Partition := ⟨"", 0, 0, .primary⟩
  obtain ⟨fuel, after, htraverse⟩ := hall cyclicDisk ⟨fun _ => part, fun _ => part⟩
  obtain ⟨before, next, hentry⟩ := exists_body_of_foldlM htraverse
    (List.mem_range.mpr (by decide : 0 < 4))
  obtain ⟨n, -, hstops⟩ := stops_of_traverseEntry (by decide) hentry (by decide) (by decide)
  have hstart : (getPartitionTable cyclicDisk 0 0).sectorNrBefore = 1 := by decide
  rw [hstart] at hstops
  cases n with
  | zero =>
      have hempty : cyclicDisk.partSize 1 = 0 := hstops
      exact absurd hempty (by decide)
  | succ n =>
      rw [Sectors.Stops, visited_cyclicDisk, visited_cyclicDisk] at hstops
      exact absurd hstops (by decide)

end Shmily.Dr
