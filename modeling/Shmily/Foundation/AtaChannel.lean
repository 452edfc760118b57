import Shmily.Foundation.ByteBlock

/-! # A disk channel that is served word by word

Two drives on one channel, as a program sees them that moves every word of a sector through
the data register. A command starts the transfer of some sectors, and the drive asks for
attention once for each of them: before it is read, and after it was written. The drives
answer at once, so the registers show what the last access has led to.
-/

namespace Shmily.Foundation

namespace ByteArea

/-- A number that is read is stored as the bytes it was read from. -/
theorem putLE_getLE (area source : ByteArea) (width offset start : Nat) :
    area.putLE width offset (source.getLE width start) = area.copyIn offset source start width := by
  have hdigit : ∀ (width start i : Nat), i < width →
      BitVec.ofNat 8 (source.getLE width start / 256 ^ i) = source (start + i) := by
    intro width
    induction width with
    | zero => exact fun _ i hi => absurd hi (Nat.not_lt_zero i)
    | succ width ih =>
        intro start i hi
        rw [getLE]
        cases i with
        | zero =>
            apply BitVec.eq_of_toNat_eq
            change ((source start).toNat + 2 ^ 8 * source.getLE width (start + 1)) / 1 % 2 ^ 8 = _
            rw [Nat.div_one, Nat.add_mul_mod_self_left, Nat.mod_eq_of_lt (source start).isLt]
            rfl
        | succ i =>
            have hbyte : (source start).toNat / 256 = 0 := Nat.div_eq_of_lt (source start).isLt
            rw [Nat.pow_succ', ← Nat.div_div_eq_div_mul, Nat.add_mul_div_left _ _ (by decide),
              hbyte, Nat.zero_add, ih _ _ (Nat.lt_of_succ_lt_succ hi), Nat.add_assoc,
              Nat.add_comm 1 i]
  funext k
  rw [putLE, copyIn]
  split
  next hk => exact hdigit _ _ _ (by omega)
  next => rfl

end ByteArea

/-- A transfer of sectors, as far as it has come. -/
structure SectorTransfer where
  write : Bool
  /-- The sector under way. -/
  sector : Nat
  /-- How many sectors there still are, with this one. -/
  left : Nat
  /-- How many words of the sector have passed. -/
  word : Nat

/-- Two drives, the registers that a command takes its arguments from, the transfer under
way, and whether a drive asks for attention. -/
structure AtaChannel where
  drives : Bool → Nat → ByteArea
  sectorCount : BitVec 8
  lbaLow : BitVec 8
  lbaMid : BitVec 8
  lbaHigh : BitVec 8
  device : BitVec 8
  transfer : Option SectorTransfer
  intr : Bool

/-- The words of a sector. -/
def sectorWords : Nat := 256

/-- The bytes of a sector. -/
def sectorBytes : Nat := 512

/-- The bytes of the sectors of a drive from one of them on. -/
def sectorsFrom (drive : Nat → ByteArea) (sector : Nat) : ByteArea := fun k =>
  drive (sector + k / sectorBytes) (k % sectorBytes)

/-- Some sectors are replaced by bytes of an area. -/
def putSectors (drive : Nat → ByteArea) (sector cnt : Nat) (area : ByteArea) (start : Nat) :
    Nat → ByteArea := fun k =>
  if sector ≤ k ∧ k < sector + cnt then
    (drive k).copyIn 0 area (start + (k - sector) * sectorBytes) sectorBytes
  else drive k

namespace SectorTransfer

/-- What is left to be done behind a word. -/
def advance (transfer : SectorTransfer) : Option SectorTransfer :=
  if transfer.word + 1 < sectorWords then some { transfer with word := transfer.word + 1 }
  else if transfer.left ≤ 1 then none
  else some ⟨transfer.write, transfer.sector + 1, transfer.left - 1, 0⟩

/-- Whether the drive asks for attention behind a word. -/
def interrupts (transfer : SectorTransfer) : Bool :=
  transfer.word + 1 = sectorWords && (transfer.write || decide (1 < transfer.left))

end SectorTransfer

namespace AtaChannel

/-- Which of the drives is selected. -/
def slave (channel : AtaChannel) : Bool := channel.device.getLsbD 4

/-- The sector that is selected. -/
def lba (channel : AtaChannel) : Nat :=
  channel.lbaLow.toNat + 2 ^ 8 * channel.lbaMid.toNat + 2 ^ 16 * channel.lbaHigh.toNat +
    2 ^ 24 * (channel.device.toNat % 16)

/-- The number of sectors that is selected. -/
def count (channel : AtaChannel) : Nat :=
  if channel.sectorCount = 0 then 256 else channel.sectorCount.toNat

/-- The command to read or to write sectors. -/
def start (channel : AtaChannel) (write : Bool) : AtaChannel :=
  { channel with transfer := some ⟨write, channel.lba, channel.count, 0⟩, intr := !write }

theorem start_slave (channel : AtaChannel) (write : Bool) :
    (channel.start write).slave = channel.slave := rfl

/-- The status register: a drive is ready, and may ask for data to be moved. -/
def status (channel : AtaChannel) : BitVec 8 := if channel.transfer.isSome then 0x58 else 0x50

/-- A word passes. -/
def pass (channel : AtaChannel) (transfer : SectorTransfer) : AtaChannel :=
  { channel with transfer := transfer.advance, intr := channel.intr || transfer.interrupts }

/-- Read the data register. -/
def readWord (channel : AtaChannel) : Option (Nat × AtaChannel) :=
  match channel.transfer with
  | some transfer =>
      if transfer.write then none
      else some
        ((channel.drives channel.slave transfer.sector).getLE 2 (2 * transfer.word),
          channel.pass transfer)
  | none => none

/-- A sector of the selected drive is changed. -/
def onSector (channel : AtaChannel) (sector : Nat) (change : ByteArea → ByteArea) : AtaChannel :=
  { channel with
    drives := Function.update channel.drives channel.slave
      (Function.update (channel.drives channel.slave) sector
        (change (channel.drives channel.slave sector))) }

/-- Write the data register. -/
def writeWord (channel : AtaChannel) (value : Nat) : Option AtaChannel :=
  match channel.transfer with
  | some transfer =>
      if transfer.write then
        let channel := channel.onSector transfer.sector (·.putLE 2 (2 * transfer.word) value)
        some (channel.pass transfer)
      else none
  | none => none

/-- Read words to an address. -/
def readWords : Nat → Nat → AtaChannel × ByteArea → Option (AtaChannel × ByteArea)
  | 0, _, state => some state
  | cnt + 1, addr, (channel, mem) => do
      let (value, channel) ← channel.readWord
      readWords cnt (addr + 2) (channel, mem.putLE 2 addr value)

/-- Write words from an address. -/
def writeWords (mem : ByteArea) : Nat → Nat → AtaChannel → Option AtaChannel
  | 0, _, channel => some channel
  | cnt + 1, addr, channel => do
      let channel ← channel.writeWord (mem.getLE 2 addr)
      writeWords mem cnt (addr + 2) channel

variable {channel : AtaChannel} {mem : ByteArea} {sector left word cnt addr start : Nat}

/-- The transfer behind a whole sector. -/
def nextSector (write : Bool) (sector left : Nat) : Option SectorTransfer :=
  if left ≤ 1 then none else some ⟨write, sector + 1, left - 1, 0⟩

theorem pass_inside (channel : AtaChannel) {transfer : SectorTransfer}
    (hword : transfer.word + 1 < sectorWords) :
    channel.pass transfer =
      { channel with transfer := some { transfer with word := transfer.word + 1 } } := by
  rw [pass, SectorTransfer.advance, if_pos hword, SectorTransfer.interrupts,
    decide_eq_false (Nat.ne_of_lt hword), Bool.false_and, Bool.or_false]

theorem pass_last (channel : AtaChannel) {transfer : SectorTransfer}
    (hword : transfer.word + 1 = sectorWords) :
    channel.pass transfer =
      { channel with
        transfer := nextSector transfer.write transfer.sector transfer.left
        intr := channel.intr || (transfer.write || decide (1 < transfer.left)) } := by
  rw [pass, SectorTransfer.advance, if_neg (Nat.not_lt_of_le hword.ge), SectorTransfer.interrupts,
    decide_eq_true hword, Bool.true_and, nextSector]

theorem readWords_succ (htransfer : channel.transfer = some ⟨false, sector, left, word⟩) :
    readWords (cnt + 1) addr (channel, mem) =
      readWords cnt (addr + 2) (channel.pass ⟨false, sector, left, word⟩,
        mem.copyIn addr (channel.drives channel.slave sector) (2 * word) 2) := by
  rw [readWords, readWord, htransfer, ← ByteArea.putLE_getLE]
  rfl

theorem writeWords_succ (htransfer : channel.transfer = some ⟨true, sector, left, word⟩) :
    writeWords mem (cnt + 1) addr channel =
      writeWords mem cnt (addr + 2)
        ((channel.onSector sector (·.copyIn (2 * word) mem addr 2)).pass
          ⟨true, sector, left, word⟩) := by
  simp only [← ByteArea.putLE_getLE]
  rw [writeWords, writeWord, htransfer]
  rfl

/-- The rest of a sector is read. -/
theorem readWords_rest (htransfer : channel.transfer = some ⟨false, sector, left, word⟩)
    (hword : word + (cnt + 1) = sectorWords) :
    readWords (cnt + 1) addr (channel, mem) =
      some ({ channel with
          transfer := nextSector false sector left
          intr := channel.intr || decide (1 < left) },
        mem.copyIn addr (channel.drives channel.slave sector) (2 * word) (2 * (cnt + 1))) := by
  induction cnt generalizing channel mem addr word with
  | zero =>
      rw [readWords_succ htransfer, pass_last channel hword]
      rfl
  | succ cnt ih =>
      have hinside : word + 1 < sectorWords := by omega
      have hrest : word + 1 + (cnt + 1) = sectorWords := by omega
      have hsize : 2 * (cnt + 1 + 1) = 2 + 2 * (cnt + 1) := Nat.add_comm _ 2
      rw [readWords_succ htransfer, pass_inside channel hinside, ih rfl hrest, hsize]
      exact congrArg (fun mem => some (_, mem)) (ByteArea.copyIn_copyIn mem addr _ (2 * word) 2 _)

/-- Two changes of a sector are one. -/
theorem onSector_onSector (channel : AtaChannel) (sector : Nat)
    (first second : ByteArea → ByteArea) :
    (channel.onSector sector first).onSector sector second =
      channel.onSector sector (second ∘ first) := by
  simp only [onSector, slave, Function.update_self, Function.update_idem, Function.comp_apply]

/-- The rest of a sector is written. -/
theorem writeWords_rest (htransfer : channel.transfer = some ⟨true, sector, left, word⟩)
    (hword : word + (cnt + 1) = sectorWords) :
    writeWords mem (cnt + 1) addr channel =
      some { channel.onSector sector (·.copyIn (2 * word) mem addr (2 * (cnt + 1))) with
        transfer := nextSector true sector left
        intr := true } := by
  induction cnt generalizing channel addr word with
  | zero =>
      rw [writeWords_succ htransfer, pass_last _ hword, Bool.true_or, Bool.or_true]
      rfl
  | succ cnt ih =>
      have hinside : word + 1 < sectorWords := by omega
      have hrest : word + 1 + (cnt + 1) = sectorWords := by omega
      have hsize : 2 * (cnt + 1 + 1) = 2 + 2 * (cnt + 1) := Nat.add_comm _ 2
      have hmerge (area : ByteArea) : (area.copyIn (2 * word) mem addr 2).copyIn
          (2 * (word + 1)) mem (addr + 2) (2 * (cnt + 1)) =
          area.copyIn (2 * word) mem addr (2 * (cnt + 1 + 1)) := by
        rw [hsize]
        exact ByteArea.copyIn_copyIn area (2 * word) mem addr 2 _
      rw [writeWords_succ htransfer, pass_inside _ hinside, ih rfl hrest]
      simp only [← hmerge]
      have hdrives := congrArg drives (onSector_onSector channel sector
        (·.copyIn (2 * word) mem addr 2) (·.copyIn (2 * (word + 1)) mem (addr + 2) (2 * (cnt + 1))))
      exact congrArg (fun drives => some { channel with
        drives := drives
        transfer := nextSector true sector left
        intr := true }) hdrives

/-! ## Whole sectors -/

/-- A sector is read. -/
theorem readWords_sector (htransfer : channel.transfer = some ⟨false, sector, left, 0⟩) :
    readWords sectorWords addr (channel, mem) =
      some ({ channel with
          transfer := nextSector false sector left
          intr := channel.intr || decide (1 < left) },
        mem.copyIn addr (channel.drives channel.slave sector) 0 sectorBytes) :=
  readWords_rest htransfer rfl

/-- A sector is written. -/
theorem writeWords_sector (htransfer : channel.transfer = some ⟨true, sector, left, 0⟩) :
    writeWords mem sectorWords addr channel =
      some { channel.onSector sector (·.copyIn 0 mem addr sectorBytes) with
        transfer := nextSector true sector left
        intr := true } :=
  writeWords_rest htransfer rfl

end AtaChannel

variable {drive : Nat → ByteArea} {mem : ByteArea} {sector cnt addr start : Nat}

/-- The bytes of one more sector. -/
theorem copyIn_sectorsFrom :
    (mem.copyIn addr (sectorsFrom drive sector) 0 (cnt * sectorBytes)).copyIn
        (addr + cnt * sectorBytes) (drive (sector + cnt)) 0 sectorBytes =
      mem.copyIn addr (sectorsFrom drive sector) 0 ((cnt + 1) * sectorBytes) := by
  rw [Nat.succ_mul, ← ByteArea.copyIn_copyIn]
  refine ByteArea.copyIn_congr fun i hi => ?_
  have hwidth : 0 < sectorBytes := by decide
  rw [sectorsFrom, Nat.zero_add, Nat.zero_add, Nat.add_comm _ i, Nat.add_mul_div_right _ _ hwidth,
    Nat.add_mul_mod_self_right, Nat.div_eq_of_lt hi, Nat.mod_eq_of_lt hi, Nat.zero_add]

theorem putSectors_zero : putSectors drive sector 0 mem start = drive := by
  funext k
  exact if_neg fun hk => absurd hk.2 (Nat.not_lt.mpr hk.1)

/-- One more sector is written. -/
theorem putSectors_succ :
    Function.update (putSectors drive sector cnt mem start) (sector + cnt)
        ((putSectors drive sector cnt mem start (sector + cnt)).copyIn 0 mem
          (start + cnt * sectorBytes) sectorBytes) =
      putSectors drive sector (cnt + 1) mem start := by
  have hbehind : putSectors drive sector cnt mem start (sector + cnt) = drive (sector + cnt) :=
    if_neg fun hk => Nat.lt_irrefl _ hk.2
  funext k
  rw [hbehind, Function.update_apply, putSectors, putSectors]
  by_cases hk : k = sector + cnt
  · subst hk
    rw [if_pos rfl, if_pos (by omega), Nat.add_sub_cancel_left]
  · rw [if_neg hk]
    exact if_congr (by omega) rfl rfl

end Shmily.Foundation
