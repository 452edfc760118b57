import Shmily.Foundation.AtaChannel
import Shmily.Foundation.Run

/-! # The sectors behind the ports

`read_sector` and `write_sector` put the number of the first sector into the registers of
the channel, start a command, and move each sector through the data register once its
interrupt has come. Where `wait_disk` means to look at the busy bit of the status, it reads
another port; while that one does not show zero, all requests are served.
-/

namespace Shmily.Dr

open Foundation

/-- The channel of the disks, what port 0x80 shows, and the memory. -/
structure DiskPorts where
  channel : AtaChannel
  post : BitVec 8
  mem : ByteArea

/-! ## The registers -/

@[match_pattern] def sectCntReg : Nat := 0x1f2
@[match_pattern] def lbaLReg : Nat := 0x1f3
@[match_pattern] def lbaMReg : Nat := 0x1f4
@[match_pattern] def lbaHReg : Nat := 0x1f5
@[match_pattern] def devReg : Nat := 0x1f6

/-- `status_reg` to read, and `cmd_reg` to write. -/
@[match_pattern] def statusReg : Nat := 0x1f7

/-- `hd::read`. -/
def readCommand : BitVec 8 := 0x20

/-- `hd::write`. -/
def writeCommand : BitVec 8 := 0x30

def statBusy : Nat := 0x80
def statReady : BitVec 8 := 0x08
def devMbs : BitVec 8 := 0xa0
def devLba : BitVec 8 := 0x40
def devDev : BitVec 8 := 0x10

namespace DiskPorts

/-- `outb`. -/
def outb (ports : DiskPorts) (port : Nat) (data : BitVec 8) : DiskPorts :=
  let channel := ports.channel
  { ports with
    channel :=
      match port with
      | sectCntReg => { channel with sectorCount := data }
      | lbaLReg => { channel with lbaLow := data }
      | lbaMReg => { channel with lbaMid := data }
      | lbaHReg => { channel with lbaHigh := data }
      | devReg => { channel with device := data }
      | statusReg =>
          if data = readCommand then channel.start false
          else if data = writeCommand then channel.start true
          else channel
      | _ => channel }

/-- `inb`. -/
def inb (ports : DiskPorts) : Nat → BitVec 8
  | statusReg => ports.channel.status
  | 0x80 => ports.post
  | _ => 0

/-- `insw` from the data register. -/
def insw (ports : DiskPorts) (addr cnt : Nat) : Option DiskPorts :=
  (AtaChannel.readWords cnt addr (ports.channel, ports.mem)).map fun state =>
    { ports with channel := state.1, mem := state.2 }

/-- `outsw` to the data register. -/
def outsw (ports : DiskPorts) (addr cnt : Nat) : Option DiskPorts :=
  (AtaChannel.writeWords ports.mem cnt addr ports.channel).map fun channel =>
    { ports with channel := channel }

/-! ## The driver -/

/-- `choose_disk`. -/
def chooseDisk (ports : DiskPorts) (isSlave : Bool) : DiskPorts :=
  ports.outb devReg (if isSlave then devMbs ||| devLba ||| devDev else devMbs ||| devLba)

/-- `choose_sector`. -/
def chooseSector (ports : DiskPorts) (isSlave : Bool) (lba cnt : BitVec 32) : DiskPorts :=
  let ports := ports.outb sectCntReg (cnt.setWidth 8)
  let ports := ports.outb lbaLReg (lba.setWidth 8)
  let ports := ports.outb lbaMReg ((lba >>> 8).setWidth 8)
  let ports := ports.outb lbaHReg ((lba >>> 16).setWidth 8)
  let regCon := devMbs ||| devLba ||| (lba >>> 24).setWidth 8
  ports.outb devReg (if isSlave then regCon ||| devDev else regCon)

/-- `disk_handler` reads the status register, so the drive no longer asks. -/
def acknowledge (ports : DiskPorts) : DiskPorts :=
  { ports with channel := { ports.channel with intr := false } }

/-- `receive(INTERRUPT)` returns once the message of `disk_handler` has come. -/
def receiveIntr (ports : DiskPorts) : Option DiskPorts :=
  if ports.channel.intr then some ports.acknowledge else none

/-- The loop of `wait_disk`, which first takes one from its counter. It masks the number of the
status register and not what it reads. The message to the kernel has no type: `answered` says
whether the kernel replies. -/
def waitFor (answered : Bool) (ports : DiskPorts) : Nat → Option Bool
  | 0 | 1 => some false
  | maxWaitSeconds + 2 =>
      if ports.inb (statusReg &&& statBusy) ≠ 0 then
        some (ports.inb statusReg &&& statReady ≠ 0)
      else if answered then waitFor answered ports (maxWaitSeconds + 1)
      else none

/-- `wait_disk`. -/
def waitDisk (answered : Bool) (ports : DiskPorts) : Option Bool := ports.waitFor answered 30

/-- The loop of `_read_sector`. -/
def readLoop (answered : Bool) (buf : Nat) : Nat → Nat → DiskPorts → Option DiskPorts
  | 0, _, ports => some ports
  | left + 1, i, ports => do
      let ports ← ports.receiveIntr
      if ← ports.waitDisk answered then
        let ports ← ports.insw (buf + i * 512) (512 / 2)
        readLoop answered buf left (i + 1) ports
      else return ports

/-- `_read_sector`. -/
def readSector (answered : Bool) (ports : DiskPorts) (isSlave : Bool) (lba : BitVec 32)
    (buf : Nat) (cnt : BitVec 32) : Option DiskPorts :=
  let ports := (ports.chooseDisk isSlave).chooseSector isSlave lba cnt
  readLoop answered buf cnt.toNat 0 (ports.outb statusReg readCommand)

/-- The loop of `_write_sector`. -/
def writeLoop (buf : Nat) : Nat → Nat → DiskPorts → Option DiskPorts
  | 0, _, ports => some ports
  | left + 1, i, ports => do
      let ports ← ports.outsw (buf + i * 512) (512 / 2)
      let ports ← ports.receiveIntr
      writeLoop buf left (i + 1) ports

/-- `_write_sector`. -/
def writeSector (answered : Bool) (ports : DiskPorts) (isSlave : Bool) (lba : BitVec 32)
    (buf : Nat) (cnt : BitVec 32) : Option DiskPorts := do
  let ports := (ports.chooseDisk isSlave).chooseSector isSlave lba cnt
  let ports := ports.outb statusReg writeCommand
  if ← ports.waitDisk answered then writeLoop buf cnt.toNat 0 ports else return ports

end DiskPorts

/-- `READ` or `WRITE` as the driver's process receives it. -/
structure SectorRequest where
  write : Bool
  isSlave : Bool
  lba : BitVec 32
  cnt : BitVec 32
  buf : Nat

namespace SectorRequest

/-- `read_sector` and `write_sector`. -/
def serve (answered : Bool) (ports : DiskPorts) (request : SectorRequest) : Option DiskPorts :=
  if request.write then
    ports.writeSector answered request.isSlave request.lba request.buf request.cnt
  else ports.readSector answered request.isSlave request.lba request.buf request.cnt

/-- The drive that a request reaches: bit 28 of the number is the one that selects it. -/
def drive (request : SectorRequest) : Bool := request.isSlave || request.lba.getLsbD 28

/-- The first sector that a request reaches. -/
def sector (request : SectorRequest) : Nat := request.lba.toNat % 2 ^ 28

/-- The register for the number of sectors takes one to 256 of them. -/
def Fits (request : SectorRequest) : Prop := 0 < request.cnt.toNat ∧ request.cnt.toNat ≤ 256

/-- What a request is for: sectors are copied to memory, or replaced by bytes of it. -/
def perform (request : SectorRequest) (drives : Bool → Nat → ByteArea) (mem : ByteArea) :
    (Bool → Nat → ByteArea) × ByteArea :=
  if request.write then
    (Function.update drives request.drive (putSectors (drives request.drive) request.sector
      request.cnt.toNat mem request.buf), mem)
  else
    (drives, mem.copyIn request.buf (sectorsFrom (drives request.drive) request.sector) 0
      (request.cnt.toNat * sectorBytes))

end SectorRequest

namespace DiskPorts

variable {answered : Bool} {ports : DiskPorts} {isSlave : Bool} {lba cnt : BitVec 32}
  {sector left i buf : Nat}

/-- No transfer is under way. -/
structure Idle (ports : DiskPorts) : Prop where
  transfer : ports.channel.transfer = none
  intr : ports.channel.intr = false

/-! ## What the registers select -/

theorem chooseSector_device (ports : DiskPorts) (isSlave : Bool) (lba cnt : BitVec 32) :
    (ports.chooseSector isSlave lba cnt).channel.device =
      if isSlave then devMbs ||| devLba ||| (lba >>> 24).setWidth 8 ||| devDev
      else devMbs ||| devLba ||| (lba >>> 24).setWidth 8 := rfl

theorem chooseSector_slave (ports : DiskPorts) (isSlave : Bool) (lba cnt : BitVec 32) :
    (ports.chooseSector isSlave lba cnt).channel.slave = (isSlave || lba.getLsbD 28) := by
  rw [AtaChannel.slave, chooseSector_device]
  cases isSlave <;> simp [devMbs, devLba, devDev]

theorem low_or (first second : BitVec 8) :
    (first ||| second).toNat % 2 ^ 4 = first.toNat % 2 ^ 4 ||| second.toNat % 2 ^ 4 := by
  rw [BitVec.toNat_or, Nat.or_mod_two_pow]

theorem chooseSector_lba (ports : DiskPorts) (isSlave : Bool) (lba cnt : BitVec 32) :
    (ports.chooseSector isSlave lba cnt).channel.lba = lba.toNat % 2 ^ 28 := by
  have hbyte (place : Nat) :
      ((lba >>> place).setWidth 8).toNat = lba.toNat / 2 ^ place % 2 ^ 8 := by
    rw [BitVec.toNat_setWidth, BitVec.toNat_ushiftRight, Nat.shiftRight_eq_div_pow]
  have hlow : (ports.chooseSector isSlave lba cnt).channel.lbaLow.toNat = lba.toNat % 2 ^ 8 :=
    BitVec.toNat_setWidth 8 lba
  have hmid : (ports.chooseSector isSlave lba cnt).channel.lbaMid.toNat =
      lba.toNat / 2 ^ 8 % 2 ^ 8 := hbyte 8
  have hhigh : (ports.chooseSector isSlave lba cnt).channel.lbaHigh.toNat =
      lba.toNat / 2 ^ 16 % 2 ^ 8 := hbyte 16
  have hdevice : (ports.chooseSector isSlave lba cnt).channel.device.toNat % 2 ^ 4 =
      lba.toNat / 2 ^ 24 % 2 ^ 8 % 2 ^ 4 := by
    have hmbs : (devMbs ||| devLba).toNat % 2 ^ 4 = 0 := by decide
    have hdev : devDev.toNat % 2 ^ 4 = 0 := by decide
    rw [chooseSector_device]
    cases isSlave
    case false => rw [if_neg Bool.false_ne_true, low_or, hmbs, Nat.zero_or, hbyte]
    case true => rw [if_pos rfl, low_or, low_or, hmbs, hdev, Nat.zero_or, Nat.or_zero, hbyte]
  rw [AtaChannel.lba, hlow, hmid, hhigh]
  omega

theorem chooseSector_count (ports : DiskPorts) (isSlave : Bool) (lba : BitVec 32)
    (hpos : 0 < cnt.toNat) (hle : cnt.toNat ≤ 256) :
    (ports.chooseSector isSlave lba cnt).channel.count = cnt.toNat := by
  have hbyte : (cnt.setWidth 8).toNat = cnt.toNat % 2 ^ 8 := BitVec.toNat_setWidth 8 cnt
  change (if cnt.setWidth 8 = 0 then 256 else (cnt.setWidth 8).toNat) = cnt.toNat
  split
  next hzero =>
    rw [hzero] at hbyte
    change 0 = _ at hbyte
    omega
  next hne =>
    have hne : (cnt.setWidth 8).toNat ≠ 0 := fun h => hne (BitVec.eq_of_toNat_eq h)
    omega

/-! ## The loops over the sectors -/

theorem waitDisk_ready (hpost : ports.post ≠ 0) (htransfer : ports.channel.transfer.isSome) :
    ports.waitDisk answered = some true := by
  have hstatus : ports.inb statusReg &&& statReady ≠ 0 := by
    change ports.channel.status &&& statReady ≠ 0
    rw [AtaChannel.status, if_pos htransfer]
    decide
  have hbusy : ports.inb (statusReg &&& statBusy) ≠ 0 := hpost
  rw [waitDisk, waitFor, if_pos hbusy, decide_eq_true hstatus]

/-- A sector is read, and attention is asked for if there is another one. -/
theorem insw_sector {addr : Nat}
    (htransfer : ports.channel.transfer = some ⟨false, sector, left + 1, 0⟩) :
    ports.insw addr (512 / 2) =
      some { ports with
        channel := { ports.channel with
          transfer := AtaChannel.nextSector false sector (left + 1)
          intr := ports.channel.intr || decide (1 < left + 1) }
        mem := ports.mem.copyIn addr (ports.channel.drives ports.channel.slave sector) 0
          sectorBytes } := by
  have hread : AtaChannel.readWords sectorWords addr (ports.channel, ports.mem) = _ :=
    AtaChannel.readWords_sector htransfer
  rw [insw]
  exact congrArg _ hread

/-- A sector is written, and attention is asked for. -/
theorem outsw_sector {addr : Nat}
    (htransfer : ports.channel.transfer = some ⟨true, sector, left + 1, 0⟩) :
    ports.outsw addr (512 / 2) =
      some { ports with
        channel := { ports.channel.onSector sector (·.copyIn 0 ports.mem addr sectorBytes) with
          transfer := AtaChannel.nextSector true sector (left + 1)
          intr := true } } := by
  have hwrite : AtaChannel.writeWords ports.mem sectorWords addr ports.channel = _ :=
    AtaChannel.writeWords_sector htransfer
  rw [outsw]
  exact congrArg _ hwrite

/-- One turn of the loop of `_read_sector`. -/
theorem readLoop_turn (hpost : ports.post ≠ 0) {mem : ByteArea} {drive : Nat → ByteArea}
    (hdrive : ports.channel.drives ports.channel.slave = drive)
    (htransfer : ports.channel.transfer = some ⟨false, sector + i, left + 1, 0⟩)
    (hintr : ports.channel.intr = true)
    (hmem : ports.mem = mem.copyIn buf (sectorsFrom drive sector) 0 (i * sectorBytes)) :
    readLoop answered buf (left + 1) i ports =
      readLoop answered buf left (i + 1)
        { ports with
          channel := { ports.channel with
            transfer := AtaChannel.nextSector false (sector + i) (left + 1)
            intr := decide (1 < left + 1) }
          mem := mem.copyIn buf (sectorsFrom drive sector) 0 ((i + 1) * sectorBytes) } := by
  have hacked : ports.acknowledge.channel.transfer = some ⟨false, sector + i, left + 1, 0⟩ :=
    htransfer
  have hwait : ports.acknowledge.waitDisk answered = some true :=
    waitDisk_ready hpost (by rw [hacked]; rfl)
  rw [readLoop, receiveIntr, if_pos hintr]
  dsimp only [Option.bind_eq_bind, Option.bind_some]
  rw [hwait]
  dsimp only [Option.bind_some]
  rw [if_pos rfl, insw_sector hacked, ← copyIn_sectorsFrom, ← hmem, ← hdrive]
  rfl

/-- The loop of `_read_sector` from the sector `i` on. -/
theorem readLoop_eq (hpost : ports.post ≠ 0) {mem : ByteArea} {drive : Nat → ByteArea}
    (hdrive : ports.channel.drives ports.channel.slave = drive)
    (htransfer : ports.channel.transfer = some ⟨false, sector + i, left + 1, 0⟩)
    (hintr : ports.channel.intr = true)
    (hmem : ports.mem = mem.copyIn buf (sectorsFrom drive sector) 0 (i * sectorBytes)) :
    readLoop answered buf (left + 1) i ports =
      some { ports with
        channel := { ports.channel with transfer := none, intr := false }
        mem := mem.copyIn buf (sectorsFrom drive sector) 0 ((i + (left + 1)) * sectorBytes) } := by
  induction left generalizing ports i with
  | zero =>
      rw [readLoop_turn hpost hdrive htransfer hintr hmem]
      rfl
  | succ left ih =>
      have hcount : i + (left + 1 + 1) = i + 1 + (left + 1) := by omega
      rw [readLoop_turn hpost hdrive htransfer hintr hmem, hcount]
      apply ih
      · exact hpost
      · exact hdrive
      · rfl
      · rfl
      · rfl

/-- One turn of the loop of `_write_sector`. -/
theorem writeLoop_turn {drives : Bool → Nat → ByteArea} {drive : Nat → ByteArea}
    (hdrives : ports.channel.drives = Function.update drives ports.channel.slave
      (putSectors drive sector i ports.mem buf))
    (htransfer : ports.channel.transfer = some ⟨true, sector + i, left + 1, 0⟩) :
    writeLoop buf (left + 1) i ports =
      writeLoop buf left (i + 1)
        { ports with
          channel := { ports.channel with
            drives := Function.update drives ports.channel.slave
              (putSectors drive sector (i + 1) ports.mem buf)
            transfer := AtaChannel.nextSector true (sector + i) (left + 1)
            intr := false } } := by
  have hput : (ports.channel.onSector (sector + i)
      (·.copyIn 0 ports.mem (buf + i * 512) sectorBytes)).drives =
      Function.update drives ports.channel.slave
        (putSectors drive sector (i + 1) ports.mem buf) := by
    rw [AtaChannel.onSector, hdrives, Function.update_self, Function.update_idem,
      ← putSectors_succ]
    rfl
  rw [writeLoop, outsw_sector htransfer, ← hput]
  rfl

/-- The loop of `_write_sector` from the sector `i` on. -/
theorem writeLoop_eq {drives : Bool → Nat → ByteArea} {drive : Nat → ByteArea}
    (hdrives : ports.channel.drives = Function.update drives ports.channel.slave
      (putSectors drive sector i ports.mem buf))
    (htransfer : ports.channel.transfer = some ⟨true, sector + i, left + 1, 0⟩) :
    writeLoop buf (left + 1) i ports =
      some { ports with
        channel := { ports.channel with
          drives := Function.update drives ports.channel.slave
            (putSectors drive sector (i + (left + 1)) ports.mem buf)
          transfer := none
          intr := false } } := by
  induction left generalizing ports i with
  | zero =>
      rw [writeLoop_turn hdrives htransfer]
      rfl
  | succ left ih =>
      have hcount : i + (left + 1 + 1) = i + 1 + (left + 1) := by omega
      rw [writeLoop_turn hdrives htransfer, hcount]
      apply ih
      · rfl
      · rfl

end DiskPorts

namespace SectorRequest

variable {answered : Bool} {ports : DiskPorts}

/-- The ports when the command has been given. -/
def started (request : SectorRequest) (ports : DiskPorts) : DiskPorts :=
  let chosen := (ports.chooseDisk request.isSlave).chooseSector request.isSlave request.lba
    request.cnt
  { chosen with channel := chosen.channel.start request.write }

theorem started_slave (request : SectorRequest) (ports : DiskPorts) :
    (request.started ports).channel.slave = request.drive := by
  rw [started, AtaChannel.start_slave, DiskPorts.chooseSector_slave, drive]

theorem started_transfer (request : SectorRequest) (ports : DiskPorts) (hfits : request.Fits) :
    (request.started ports).channel.transfer =
      some ⟨request.write, request.sector, request.cnt.toNat, 0⟩ := by
  rw [started, AtaChannel.start, DiskPorts.chooseSector_lba,
    DiskPorts.chooseSector_count _ _ _ hfits.1 hfits.2, sector]

theorem serve_read {request : SectorRequest} (hwrite : request.write = false) :
    request.serve answered ports =
      DiskPorts.readLoop answered request.buf request.cnt.toNat 0 (request.started ports) := by
  rw [serve, hwrite, if_neg Bool.false_ne_true, DiskPorts.readSector, started, hwrite]
  rfl

theorem serve_write {request : SectorRequest} (hwrite : request.write = true) :
    request.serve answered ports =
      ((request.started ports).waitDisk answered).bind fun ready =>
        if ready then
          DiskPorts.writeLoop request.buf request.cnt.toNat 0 (request.started ports)
        else some (request.started ports) := by
  rw [serve, if_pos hwrite, DiskPorts.writeSector, started, hwrite]
  rfl

/-- A request is performed: the drives and the memory are what it makes of them, and the channel
is idle again. -/
theorem serve_performs (request : SectorRequest) (hfits : request.Fits) (hpost : ports.post ≠ 0) :
    ∃ next, request.serve answered ports = some next ∧ next.Idle ∧ next.post = ports.post ∧
      (next.channel.drives, next.mem) = request.perform ports.channel.drives ports.mem := by
  have htransfer := request.started_transfer ports hfits
  have hslave := request.started_slave ports
  have hposted : (request.started ports).post ≠ 0 := hpost
  have hdrives : (request.started ports).channel.drives = ports.channel.drives := rfl
  have hmem : (request.started ports).mem = ports.mem := rfl
  obtain ⟨left, hcnt⟩ : ∃ left, request.cnt.toNat = left + 1 :=
    ⟨request.cnt.toNat - 1, (Nat.sub_add_cancel hfits.1).symm⟩
  rw [perform, hcnt]
  rw [hcnt] at htransfer
  cases hwrite : request.write with
  | false =>
      rw [hwrite] at htransfer
      have hintr : (request.started ports).channel.intr = true := by
        rw [started, AtaChannel.start, hwrite]
        rfl
      rw [serve_read hwrite, hcnt, DiskPorts.readLoop_eq hposted rfl htransfer hintr
        (ByteArea.copyIn_zero _ _ _ _).symm, hslave, hdrives, hmem, Nat.zero_add]
      exact ⟨_, rfl, ⟨rfl, rfl⟩, rfl, rfl⟩
  | true =>
      rw [hwrite] at htransfer
      have hready : (request.started ports).waitDisk answered = some true :=
        DiskPorts.waitDisk_ready hposted (by rw [htransfer]; rfl)
      have hnone : (request.started ports).channel.drives =
          Function.update ports.channel.drives (request.started ports).channel.slave
            (putSectors (ports.channel.drives request.drive) request.sector 0
              (request.started ports).mem request.buf) := by
        rw [putSectors_zero, hslave, Function.update_eq_self]
        rfl
      rw [serve_write hwrite, hready, Option.bind_some, if_pos rfl, hcnt,
        DiskPorts.writeLoop_eq hnone htransfer, hslave, hmem, Nat.zero_add]
      exact ⟨_, rfl, ⟨rfl, rfl⟩, rfl, rfl⟩

/-- While port 0x80 shows zero, `wait_disk` sends the kernel a message that it does not reply to. -/
theorem serve_waits (request : SectorRequest) (hfits : request.Fits) (hpost : ports.post = 0) :
    request.serve false ports = none := by
  have hwait (waiting : DiskPorts) (hzero : waiting.post = 0) : waiting.waitDisk false = none := by
    have hbusy : waiting.inb (statusReg &&& statBusy) = 0 := hzero
    rw [DiskPorts.waitDisk, DiskPorts.waitFor, if_neg (not_not.mpr hbusy),
      if_neg Bool.false_ne_true]
  have hposted : (request.started ports).post = 0 := hpost
  obtain ⟨left, hcnt⟩ : ∃ left, request.cnt.toNat = left + 1 :=
    ⟨request.cnt.toNat - 1, (Nat.sub_add_cancel hfits.1).symm⟩
  cases hwrite : request.write with
  | false =>
      have hintr : (request.started ports).channel.intr = true := by
        rw [started, AtaChannel.start, hwrite]
        rfl
      rw [serve_read hwrite, hcnt, DiskPorts.readLoop, DiskPorts.receiveIntr, if_pos hintr]
      dsimp only [Option.bind_eq_bind, Option.bind_some]
      rw [hwait (request.started ports).acknowledge hposted]
      rfl
  | true => rw [serve_write hwrite, hwait _ hposted, Option.bind_none]

end SectorRequest

end Shmily.Dr
