import Shmily.Dr.Disk

/-! # Where the logical partitions are

In the chain of extended boot records the logical partition of a record is counted from the
record, and the link to the next record from the start of the extended partition. The code
counts both from the record. The two agree in the first record, which is at the start, so that
the second one is found too.
-/

namespace Shmily.Dr

open Foundation

namespace Sectors

/-- Where the records are: each link is added to the start of the extended partition. -/
def standard (sectors : Sectors) (start : BitVec 32) : Nat → BitVec 32
  | 0 => start
  | n + 1 => start + sectors.link (standard sectors start n)

/-- The start and the number of sectors of the logical partition in a record. -/
def extent (sectors : Sectors) (lba : BitVec 32) : BitVec 32 × BitVec 32 :=
  ((getPartitionTable sectors lba 0).sectorNrBefore + lba, sectors.partSize lba)

/-- An extended partition holds a chain of `k` logical partitions, at most four. -/
structure StandardChain (sectors : Sectors) (start : BitVec 32) (k : Nat) : Prop where
  pos : 1 ≤ k
  le_four : k ≤ 4
  present : ∀ i < k, sectors.partSize (sectors.standard start i) ≠ 0
  linked : ∀ i, i + 1 < k → sectors.linkSize (sectors.standard start i) ≠ 0
  last : ∀ i, i + 1 = k → sectors.linkSize (sectors.standard start i) = 0

/-- From the third record on, the sectors that the code looks at describe the partitions of the
chain, and go on and end as the chain does. -/
structure LooksAlike (sectors : Sectors) (start : BitVec 32) (k : Nat) : Prop where
  extent_eq : ∀ i, 2 ≤ i → i < k →
    sectors.extent (sectors.visited start i) = sectors.extent (sectors.standard start i)
  goes_on : ∀ i, 2 ≤ i → i + 1 < k → sectors.linkSize (sectors.visited start i) ≠ 0
  stops : 2 < k → sectors.Stops start k

end Sectors

/-- `process_disk_ebr` returns, with the partitions of the chain in the first `k` elements of
`logic` and the others as they were. -/
def FindsPartitions (sectors : Sectors) (entry : PartitionTableEntryMbr) (k : Nat)
    (disk : Disk) : Prop :=
  ∃ fuel after, processDiskEbr sectors fuel entry disk = some after ∧
    (∀ i < k, ((after.logic i).startLba, (after.logic i).sectorCnt) =
      sectors.extent (sectors.standard entry.sectorNrBefore i)) ∧
    ∀ i, k ≤ i → after.logic i = disk.logic i

namespace Sectors

variable {sectors : Sectors} {start : BitVec 32} {i k n : Nat}

/-! ### The two chains -/

theorem visited_eq_standard (hi : i < 2) :
    sectors.visited start i = sectors.standard start i := by
  match i, hi with
  | 0, _ => rfl
  | 1, _ => exact BitVec.add_comm _ _

/-- With at most two records there is nothing to look at. -/
theorem LooksAlike.of_le_two (hk : k ≤ 2) : sectors.LooksAlike start k where
  extent_eq _ hi hik := absurd (hi.trans_lt hik) (Nat.not_lt.mpr hk)
  goes_on _ hi hik := absurd (hi.trans_lt (Nat.lt_of_succ_lt hik)) (Nat.not_lt.mpr hk)
  stops hlonger := absurd hlonger (Nat.not_lt.mpr hk)

theorem LooksAlike.extent_visited (halike : sectors.LooksAlike start k) (hi : i < k) :
    sectors.extent (sectors.visited start i) = sectors.extent (sectors.standard start i) := by
  rcases Nat.lt_or_ge i 2 with hfirst | hlater
  · rw [visited_eq_standard hfirst]
  · exact halike.extent_eq i hlater hi

namespace StandardChain

variable (hchain : sectors.StandardChain start k)
include hchain

theorem stops_of_le_two (hk : k ≤ 2) : sectors.Stops start k := by
  cases k with
  | zero => exact absurd hchain.pos (Nat.not_succ_le_zero 0)
  | succ i =>
      have hlast := hchain.last i rfl
      rw [← visited_eq_standard hk] at hlast
      exact .inl hlast

theorem linkSize_visited (halike : sectors.LooksAlike start k) (hi : i + 1 < k) :
    sectors.linkSize (sectors.visited start i) ≠ 0 := by
  rcases Nat.lt_or_ge i 2 with hfirst | hlater
  · rw [visited_eq_standard hfirst]
    exact hchain.linked i hi
  · exact halike.goes_on i hlater hi

theorem partSize_visited (halike : sectors.LooksAlike start k) (hi : i < k) :
    sectors.partSize (sectors.visited start i) ≠ 0 := by
  have hsize : sectors.partSize (sectors.visited start i) =
      sectors.partSize (sectors.standard start i) :=
    congrArg Prod.snd (halike.extent_visited hi)
  rw [hsize]
  exact hchain.present i hi

/-- The sectors look like the chain if and only if the code finds as many partitions, with the
same extents. -/
theorem looksAlike_iff : sectors.LooksAlike start k ↔ sectors.HasLength start k ∧
    ∀ i < k, sectors.extent (sectors.visited start i) =
      sectors.extent (sectors.standard start i) := by
  constructor
  · intro halike
    refine ⟨⟨?_, ?_⟩, fun i hi => halike.extent_visited hi⟩
    · rcases Nat.lt_or_ge 2 k with hlonger | hk
      · exact halike.stops hlonger
      · exact hchain.stops_of_le_two hk
    · intro m hm hstops
      cases m with
      | zero => exact hchain.partSize_visited halike hm hstops
      | succ m =>
          rcases hstops with hlink | hpart
          · exact hchain.linkSize_visited halike hm hlink
          · exact hchain.partSize_visited halike hm hpart
  · rintro ⟨⟨hstops, hbefore⟩, hextents⟩
    exact {
      extent_eq := fun i _ hi => hextents i hi
      goes_on := fun i _ hi => linkSize_ne_zero (hbefore (i + 1) hi)
      stops := fun _ => hstops }

end StandardChain

end Sectors

/-! ### What `process_disk_ebr` finds -/

/-- `struct disk` before anything was entered. -/
def Disk.cleared : Disk where
  primary _ := ⟨"", 0, 0, .primary⟩
  logic _ := ⟨"", 0, 0, .primary⟩

variable {sectors : Sectors} {entry : PartitionTableEntryMbr} {i k n fuel : Nat}
  {disk after : Disk}

/-- The result does not depend on the fuel. -/
theorem recorded_of_processDiskEbr
    (hprocess : processDiskEbr sectors fuel entry disk = some after) :
    ∃ n, sectors.HasLength entry.sectorNrBefore n ∧
      after = disk.recorded sectors entry.sectorNrBefore n := by
  obtain ⟨n, hn, hlength⟩ := hasLength_of_processDiskEbr hprocess
  rw [processDiskEbr_eq] at hprocess
  have hloop := Option.join_eq_some_iff.mp hprocess
  have hresult := loop_of_hasLength disk hlength hn (Nat.lt_succ_self n)
  have hsame := Leaves.unique ⟨fuel, hloop⟩ ⟨n + 1, hresult⟩
  exact ⟨n, hlength, Option.some.inj hsame⟩

theorem recorded_logic_of_lt (disk : Disk) (sectors : Sectors) (start : BitVec 32) (hi : i < n) :
    (((disk.recorded sectors start n).logic i).startLba,
      ((disk.recorded sectors start n).logic i).sectorCnt) =
    sectors.extent (sectors.visited start i) := by
  simp only [Disk.recorded, if_pos hi]
  rfl

theorem recorded_logic_of_le (hi : n ≤ i) (start : BitVec 32) :
    (disk.recorded sectors start n).logic i = disk.logic i := if_neg (Nat.not_lt.mpr hi)

theorem findsPartitions_of_hasLength (disk : Disk) (hk : k ≤ 4)
    (hlength : sectors.HasLength entry.sectorNrBefore k)
    (hextents : ∀ i < k, sectors.extent (sectors.visited entry.sectorNrBefore i) =
      sectors.extent (sectors.standard entry.sectorNrBefore i)) :
    FindsPartitions sectors entry k disk := by
  refine ⟨k + 1, _, processDiskEbr_of_hasLength disk hlength hk (Nat.lt_succ_self k), ?_, ?_⟩
  · intro i hi
    rw [recorded_logic_of_lt _ _ _ hi]
    exact hextents i hi
  · exact fun i hi => recorded_logic_of_le hi _

/-- On a cleared disk a partition that was entered can be told from one that was not. -/
theorem hasLength_of_findsPartitions
    (hchain : sectors.StandardChain entry.sectorNrBefore k)
    (hfinds : FindsPartitions sectors entry k .cleared) :
    sectors.HasLength entry.sectorNrBefore k ∧
      ∀ i < k, sectors.extent (sectors.visited entry.sectorNrBefore i) =
        sectors.extent (sectors.standard entry.sectorNrBefore i) := by
  obtain ⟨fuel, after, hprocess, hfound, hothers⟩ := hfinds
  obtain ⟨n, hlength, rfl⟩ := recorded_of_processDiskEbr hprocess
  rcases Nat.lt_trichotomy n k with hlt | rfl | hgt
  · -- the partition that is missing would have no sectors
    have hmissing := hfound n hlt
    rw [recorded_logic_of_le (Nat.le_refl n)] at hmissing
    exact absurd (congrArg Prod.snd hmissing).symm (hchain.present n hlt)
  · refine ⟨hlength, fun i hi => ?_⟩
    rw [← hfound i hi, recorded_logic_of_lt _ _ _ hi]
  · -- the partition that is too many has some
    have hentered := recorded_logic_of_lt .cleared sectors entry.sectorNrBefore hgt
    rw [hothers k (Nat.le_refl k)] at hentered
    exact absurd (congrArg Prod.snd hentered).symm
      (Sectors.partSize_ne_zero (hlength.2 k hgt))

/-- The partitions of a chain are found, whatever was in `struct disk` before, if and only if
the sectors that the code looks at from the third record on look like those of the chain. -/
theorem findsPartitions_iff (hchain : sectors.StandardChain entry.sectorNrBefore k) :
    (∀ disk, FindsPartitions sectors entry k disk) ↔
      sectors.LooksAlike entry.sectorNrBefore k := by
  rw [hchain.looksAlike_iff]
  constructor
  · exact fun hfinds => hasLength_of_findsPartitions hchain (hfinds .cleared)
  · rintro ⟨hlength, hextents⟩ disk
    exact findsPartitions_of_hasLength disk hchain.le_four hlength hextents

/-- The entry of an extended partition that starts in sector 64. -/
def extendedEntry : PartitionTableEntryMbr := ⟨5, 64, 100⟩

/-- A chain of two. -/
def twoRecords : Sectors := fun lba =>
  if lba = 64 then sectorOf [(0x1c6, 1), (0x1ca, 10), (0x1d6, 32), (0x1da, 20)]
  else if lba = 96 then sectorOf [(0x1c6, 1), (0x1ca, 20)]
  else .zeros

theorem twoRecords_standardChain : twoRecords.StandardChain 64 2 where
  pos := by decide
  le_four := by decide
  present := by decide
  linked i hi := by
    obtain rfl : i = 0 := Nat.lt_one_iff.mp (Nat.lt_of_succ_lt_succ hi)
    decide
  last i hi := by
    obtain rfl : i = 1 := Nat.succ.inj hi
    decide

/-- Both partitions of the chain of two are found. -/
theorem findsPartitions_two : FindsPartitions twoRecords extendedEntry 2 .cleared :=
  (findsPartitions_iff twoRecords_standardChain).mpr (.of_le_two (Nat.le_refl 2)) .cleared

/-- Three records, 32 and then 64 sectors behind the start of the extended partition. -/
def threeRecords : Sectors := fun lba =>
  if lba = 64 then sectorOf [(0x1c6, 1), (0x1ca, 10), (0x1d6, 32), (0x1da, 20)]
  else if lba = 96 then sectorOf [(0x1c6, 1), (0x1ca, 20), (0x1d6, 64), (0x1da, 30)]
  else if lba = 128 then sectorOf [(0x1c6, 1), (0x1ca, 30)]
  else .zeros

theorem threeRecords_standardChain : threeRecords.StandardChain 64 3 where
  pos := by decide
  le_four := by decide
  present := by decide
  linked i hi := by
    have hall : ∀ j < 2, threeRecords.linkSize (threeRecords.standard 64 j) ≠ 0 := by decide
    exact hall i (Nat.lt_of_succ_lt_succ hi)
  last i hi := by
    obtain rfl : i = 2 := Nat.succ.inj hi
    decide

/-- The link of the second record is 64, and the code looks for the third one 64 sectors behind
the second, where there is none. -/
theorem third_partition_missed :
    ¬ ∀ (sectors : Sectors) (entry : PartitionTableEntryMbr) (k : Nat),
      sectors.StandardChain entry.sectorNrBefore k →
        ∀ disk, FindsPartitions sectors entry k disk := by
  intro hall
  have hfinds := hall threeRecords extendedEntry 3 threeRecords_standardChain .cleared
  obtain ⟨-, hextents⟩ := hasLength_of_findsPartitions threeRecords_standardChain hfinds
  exact absurd (hextents 2 (by decide)) (by decide)

end Shmily.Dr
