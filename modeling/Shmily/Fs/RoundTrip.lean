import Shmily.Fs.WriteFile

/-! # Reading back what was written

`write_file` and `read_file` cut a transfer into a first, a whole and a last part.
Both move their pointer behind the first part and then add the index of the
sector once more, so only the first sector is transferred to its place.
-/

namespace Shmily.Fs.Server

open Foundation Lib

/-- `write_file` in mode `COVER`, `lseek_file` to the start, and `read_file`. -/
def writeSeekRead (fs : Server) (fd : Nat) (str : StringBuffer) (count : Nat) (buf : ByteArea) :
    Option (ByteArea × Nat) := do
  let fs ← fs.writeFile fd str count fileCover
  let fs ← fs.lseekFile fd 0
  (fs.readFile fd buf count).map Prod.snd

/-- The text is read back completely, whatever the buffer held before. -/
def RoundTrips (fs : Server) (fd : Nat) (str : StringBuffer) (count : Nat) : Prop :=
  ∀ buf, ∃ buf', fs.writeSeekRead fd str count buf = some (buf', count) ∧
    ∀ k < count, buf' k = str.bytes k

variable {fs fs' : Server} {fd count : Nat} {file : OpenFile} {str : StringBuffer}
  {buf buf' : ByteArea}

/-! ### Texts of one sector -/

/-- The arithmetic of `write_file` for a text that replaces the content. -/
def coverPlan (count : Nat) : WritePlan where
  count := count
  startSector := 0
  startPos := 0
  sectorCnts := (count / sectorSize : Nat)
  lastSectorBytes := count % sectorSize

theorem writePlan_cover (size count : Nat) :
    writePlan size count count fileCover = coverPlan count := by
  simp [writePlan, fileCover, fileAppend, coverPlan]

/-- A read that stays in the sector of its offset. -/
theorem readData_within (fs : Server) (inode : Inode) {offset : Nat} (hstart : offset / 512 < 9)
    (hwithin : offset % 512 + count ≤ 512) (buf : ByteArea) :
    fs.readData { offset := offset, inode := inode } buf count =
      some (buf.copyIn 0 (fs.disk (inode.sectors (Fin.ofNat 9 (offset / 512)))) (offset % 512)
        count) := by
  have hat : inode.sectorAt (offset / sectorSize) =
      some (inode.sectors (Fin.ofNat 9 (offset / 512))) := by
    have hindex : Fin.ofNat 9 (offset / 512) = ⟨offset / 512, hstart⟩ :=
      Fin.ext (Nat.mod_eq_of_lt hstart)
    rw [hindex]
    exact dif_pos hstart
  have hnot : ¬ count > 512 := by omega
  have hfits : ¬ offset % sectorSize + count > sectorSize := by
    simp only [sectorSize]
    omega
  have hnone : indices (offset / sectorSize + 1) (0 : Nat) = [] := by
    rw [indices, Int.toNat_natCast, Nat.zero_sub]
    rfl
  simp only [readData, if_neg hnot, hat, Option.bind_eq_bind, Option.bind_some, if_neg hfits, hnone]
  rfl

/-- At most one sector is read from the first sector. -/
theorem readData_short (fs : Server) (inode : Inode) (buf : ByteArea) (hle : count ≤ 512) :
    fs.readData { offset := 0, inode := inode } buf count =
      some (buf.copyIn 0 (fs.disk (inode.sectors 0)) 0 count) :=
  fs.readData_within inode (by decide) (by omega) buf

theorem checkInodePermission_congr {inode inode' : Inode} {op : Byte} (huid : fs'.uid = fs.uid)
    (howner : inode'.uid = inode.uid) (hmode : inode'.mode = inode.mode) :
    fs'.checkInodePermission inode' op = fs.checkInodePermission inode op := by
  rw [checkInodePermission, huid, howner, hmode, checkInodePermission]

/-- At most one sector is read back from a file that has just this size. -/
theorem seekRead_short {inode : Inode} (hfd : fd < 64)
    (hopen : fs.fileDescTbl fd = some { file with inode := inode })
    (hread : fs.checkInodePermission inode accessRead = true) (hsize : inode.size = count)
    (hle : count ≤ 512) (buf : ByteArea) :
    (fs.lseekFile fd 0).bind (fun fs => (fs.readFile fd buf count).map Prod.snd) =
      some (buf.copyIn 0 (fs.disk (inode.sectors 0)) 0 count, count) := by
  have hseek : fs.lseekFile fd 0 = some (fs.setFile fd (some { offset := 0, inode := inode })) := by
    simp only [lseekFile, fileAt, if_pos hfd, hopen, Option.bind_eq_bind, Option.bind_some,
      gt_iff_lt, Nat.not_lt_zero, if_false]
  have hset : (fs.setFile fd (some { offset := 0, inode := inode })).fileDescTbl fd =
      some { offset := 0, inode := inode } := Function.update_self ..
  have hread' : (fs.setFile fd (some { offset := 0, inode := inode })).checkInodePermission inode
      accessRead = true := hread
  rw [hseek, Option.bind_some, readFile]
  simp only [fileAt, if_pos hfd, hset, hread', hsize, Option.bind_eq_bind, Option.bind_some,
    Bool.not_true, Bool.false_eq_true, if_false, gt_iff_lt, Nat.lt_irrefl,
    readData_short _ inode buf hle, Option.map_some]
  rfl

/-! ### Longer texts -/

theorem readWhole_of_lt {inode : Inode} {start k : Nat} {indices : List Nat}
    (hread : fs.readWhole inode buf start indices = some buf')
    (hbefore : ∀ i ∈ indices, k < start + i * 512) : buf' k = buf k := by
  induction indices generalizing buf with
  | nil =>
      rw [readWhole, Option.some.injEq] at hread
      rw [hread]
  | cons i rest ih =>
      simp only [readWhole, Option.bind_eq_bind, Option.bind_eq_some_iff] at hread
      obtain ⟨lba, -, hrest⟩ := hread
      have hi : k < start + i * 512 := hbefore i List.mem_cons_self
      rw [ih hrest fun j hj => hbefore j (List.mem_cons_of_mem i hj)]
      exact ByteArea.copyIn_of_not (by omega)

/-- A longer read starts in the first sector, and leaves the buffer alone where its first
part ends. -/
theorem readData_gap {inode : Inode} {offset : Nat}
    (hread : fs.readData { offset := offset, inode := inode } buf count = some buf')
    (hlong : 512 < count) (hlt : offset < 2 ^ 32) :
    offset ≤ 512 ∧ buf' (512 - offset) = buf (512 - offset) := by
  simp only [readData, gt_iff_lt, if_pos hlong, Option.bind_eq_bind, Option.bind_eq_some_iff,
    Option.ite_none_left_eq_some] at hread
  obtain ⟨lba, -, hfits, buf₁, hwhole, last, -, hlast⟩ := hread
  simp only [sectorSize] at hfits hwhole hlast
  have hoff : offset ≤ 512 := by omega
  have hfirst : (512 + 2 ^ 32 - offset) % 2 ^ 32 = 512 - offset := by omega
  simp only [hfirst] at hwhole hlast
  have hmiddle := readWhole_of_lt (k := 512 - offset) hwhole fun i hi => by
    simp only [indices, List.mem_range'_1] at hi
    omega
  rw [Option.some.injEq] at hlast
  refine ⟨hoff, ?_⟩
  rw [← hlast, ByteArea.copyIn_of_not (by omega), hmiddle]
  exact ByteArea.copyIn_of_not (by omega)

/-- A read that returns the length it was asked for has copied this length. -/
theorem readFile_eq_some {buf : ByteArea} (hfd : fd < 64) (hopen : fs.fileDescTbl fd = some file)
    (hcount : count ≠ minusOne) (hread : fs.readFile fd buf count = some (fs', buf', count)) :
    fs.readData file buf count = some buf' := by
  simp only [readFile, fileAt, if_pos hfd, hopen, Option.bind_eq_bind, Option.bind_some] at hread
  split at hread
  next =>
    rw [Option.some.injEq, Prod.mk.injEq, Prod.mk.injEq] at hread
    exact absurd hread.2.2.symm hcount
  next =>
    obtain ⟨buf₁, hdata, hresult⟩ := Option.bind_eq_some_iff.mp hread
    rw [Option.some.injEq, Prod.mk.injEq, Prod.mk.injEq] at hresult
    obtain ⟨-, rfl, hlen⟩ := hresult
    rwa [hlen] at hdata

theorem lseekFile_zero (hseek : fs.lseekFile fd 0 = some fs') :
    fd < 64 ∧ ∃ inode, fs'.fileDescTbl fd = some { offset := 0, inode := inode } := by
  simp only [lseekFile, fileAt, Option.bind_eq_bind, Option.bind_eq_some_iff,
    Option.ite_none_right_eq_some] at hseek
  obtain ⟨entry, ⟨hfd, -⟩, hseek⟩ := hseek
  cases entry with
  | none => cases hseek
  | some file =>
      refine ⟨hfd, file.inode, ?_⟩
      rw [Option.some.injEq] at hseek
      rw [← hseek, if_neg (by omega)]
      exact Function.update_self ..

/-- No text longer than a sector is read back into every buffer. -/
theorem not_roundTrips (hlong : 512 < count) (hlt : count < 9 * 512) :
    ¬ RoundTrips fs fd str count := by
  intro htrips
  obtain ⟨buf', hresult, hsame⟩ := htrips fun _ => str.bytes 512 + 1
  simp only [writeSeekRead, Option.bind_eq_bind, Option.bind_eq_some_iff,
    Option.map_eq_some_iff] at hresult
  obtain ⟨fs₁, -, fs₂, hseek, ⟨fs₃, buf₃, len⟩, hread, hlast⟩ := hresult
  cases hlast
  obtain ⟨hfd, inode, hopen⟩ := lseekFile_zero hseek
  have hcount : count ≠ minusOne := by
    simp only [minusOne]
    omega
  obtain ⟨-, hgap⟩ := readData_gap (readFile_eq_some hfd hopen hcount hread) hlong (by decide)
  rw [Nat.sub_zero, hsame 512 hlong] at hgap
  have hne : ∀ byte : Byte, byte ≠ byte + 1 := by decide
  exact hne _ hgap

/-- A text is written and read back through a descriptor exactly when it is not longer
than a sector. -/
theorem write_read_round_trip (hlayout : fs.Layout) (hfd : fd < 64)
    (hopen : fs.fileDescTbl fd = some file)
    (hwrite : fs.checkInodePermission file.inode accessWrite = true)
    (hread : fs.checkInodePermission file.inode accessRead = true)
    (hin : fs.InTable file.inode.inodeNo)
    (howned : fs.Owned file.inode) (hlt : count < 9 * 512) (hlen : str.strlen = count)
    (hfree : missing file.inode (List.range (count / sectorSize + 1)) ≤ fs.blockBmap.clearCount) :
    RoundTrips fs fd str count ↔ count ≤ 512 := by
  refine ⟨fun htrips => Nat.not_lt.mp fun hlong => not_roundTrips hlong hlt htrips, ?_⟩
  intro hle buf
  subst hlen
  have hcnts : str.strlen / sectorSize ≤ 1 := by
    simp only [sectorSize]
    omega
  have hindices : indices 0 ((str.strlen / sectorSize : Nat) + 1) =
      List.range (str.strlen / sectorSize + 1) := by
    rw [indices, List.range_eq_range']
    congr 1
  have hstart : (coverPlan str.strlen).startSector < 9 := Nat.zero_lt_succ 8
  obtain ⟨fs₁, inode₁, fs', halloc, hresult, hwrote⟩ := exists_writeFile_first hlayout hfd hopen
    hwrite hin howned (writePlan_cover file.inode.size str.strlen) hle (Int.natCast_nonneg _)
    (Int.ofNat_le.mpr hcnts) hstart (hindices ▸ hfree)
  have hfields := (allocateSectors_spec halloc).fields
  have hsector : fs.IsDataSector (inode₁.sectors 0) := by
    refine (allocateSectors_spec halloc).isDataSector hlayout
      (fun hne => (howned.occupied 0 hne).isDataSector)
      (allocateSectors_ne_zero (i := 0) hlayout halloc ?_ (Nat.zero_lt_succ 8))
    rw [coverPlan, hindices]
    exact List.mem_range.mpr (Nat.zero_lt_succ _)
  -- the descriptor has the inode that was stored, and the first sector has the text
  have hopen' : fs'.fileDescTbl fd =
      some { file with inode := finalInode inode₁ (coverPlan str.strlen) fileCover } := by
    rw [hwrote.fileDescTbl]
    exact Function.update_self ..
  have hread' : fs'.checkInodePermission (finalInode inode₁ (coverPlan str.strlen) fileCover)
      accessRead = true := by
    rw [← hread]
    exact checkInodePermission_congr hwrote.uid (by rw [hfields]; rfl) (by rw [hfields]; rfl)
  have hfirst : (finalInode inode₁ (coverPlan str.strlen) fileCover).sectors 0 =
      inode₁.sectors 0 := by
    have hpos : (0 : Fin 9).val < ((coverPlan str.strlen).sectorCnts + 1).toNat := by
      simp only [coverPlan, sectorSize, Fin.val_zero]
      omega
    rw [finalInode_sectors, if_pos hpos]
  have hback := seekRead_short hfd hopen' hread' (show _ = str.strlen from rfl) hle buf
  rw [hfirst] at hback
  refine ⟨buf.copyIn 0 (fs'.disk (inode₁.sectors 0)) 0 str.strlen, ?_, fun k hk => ?_⟩
  · rw [writeSeekRead, hresult]
    exact hback
  · have hbyte : fs'.disk (inode₁.sectors 0) (0 + k) = str.bytes k := hwrote.new_byte hsector hk
    rw [ByteArea.copyIn_at (Nat.zero_le k) (by omega), Nat.sub_zero]
    exact hbyte

/-- A small partition: one sector for each bitmap and for the inode table. -/
def smallSuperBlock : SuperBlock where
  blockBitmapLba := 2
  blockBitmapSectors := 1
  inodeBitmapLba := 3
  inodeBitmapSectors := 1
  inodeTableLba := 4
  inodeTableSectors := 1
  dataStart := 5
  rootInodeNo := 0

/-- An empty file of the current user. -/
def emptyFile : OpenFile where
  offset := 0
  inode :=
    { inodeNo := 1
      size := 0
      lastModifyTime := 0
      linkCnt := 0
      uid := 7
      gid := 0
      mode := defaultPrivilege
      sectors := fun _ => 0 }

/-- A server with free blocks and one open file. -/
def smallServer : Server where
  sb := smallSuperBlock
  disk := fun _ => ByteArea.zeros
  blockBmap := { bytesLen := 2, base := fun _ => 0 }
  inodeBmap := { bytesLen := 1, base := fun _ => 3 }
  fileDescTbl := fun fd => if fd = 0 then some emptyFile else none
  uid := 7
  now := 0

theorem smallServer_layout : smallServer.Layout := by
  constructor <;> decide

theorem emptyFile_owned : smallServer.Owned emptyFile.inode :=
  ⟨fun _ hne => absurd rfl hne, fun _ _ hne => absurd rfl hne⟩

/-- A text that repeats one character. -/
def repeatedText (strlen : Nat) : StringBuffer where
  bytes k := if k < strlen then 0x61 else 0
  strlen := strlen
  nulFree := by
    intro i hi
    simp only [if_pos hi]
    decide
  terminated := if_neg (Nat.lt_irrefl strlen)

/-- A whole sector is read back, with every condition met. -/
theorem write_read_round_trip_sector :
    smallServer.fileDescTbl 0 = some emptyFile ∧
      RoundTrips smallServer 0 (repeatedText 512) 512 :=
  ⟨rfl, (write_read_round_trip smallServer_layout (by decide) rfl (by decide) (by decide)
    (by decide) emptyFile_owned (by decide) rfl (by decide)).mpr (by decide)⟩

/-- One character more is lost, although the descriptor and the free blocks allow it. -/
theorem longer_text_not_read_back :
    smallServer.fileDescTbl 0 = some emptyFile ∧
      smallServer.checkInodePermission emptyFile.inode accessWrite = true ∧
      smallServer.checkInodePermission emptyFile.inode accessRead = true ∧
      (repeatedText 513).strlen = 513 ∧ 9 ≤ smallServer.blockBmap.clearCount ∧
      ¬ RoundTrips smallServer 0 (repeatedText 513) 513 :=
  ⟨rfl, by decide, by decide, rfl, by decide, not_roundTrips (by decide) (by decide)⟩

end Shmily.Fs.Server
