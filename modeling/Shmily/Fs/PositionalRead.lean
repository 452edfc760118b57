import Shmily.Fs.Append

/-! # Reading at an offset

`read_file` limits the count by the size of the file, whatever the offset is, and takes a
count of at most one sector from the sector of the offset, whatever that sector still holds.
A read is right if neither makes a difference.
-/

namespace Shmily.Fs.Server

open Foundation Lib

/-- `lseek_file`, then `read_file`. -/
def seekRead (fs : Server) (fd offset : Nat) (buf : ByteArea) (count : Nat) :
    Option (Server × ByteArea × Nat) := do
  let fs ← fs.lseekFile fd offset
  fs.readFile fd buf count

/-- The number of bytes that there are from the offset on. -/
def available (inode : Inode) (offset count : Nat) : Nat := min count (inode.size - offset)

/-- The read returns the number of bytes that there are, stores these bytes and no others,
and moves on behind them. -/
def ReadsAt (fs : Server) (fd : Nat) (file : OpenFile) (offset count : Nat) : Prop :=
  ∀ buf, ∃ fs' buf',
    fs.seekRead fd offset buf count = some (fs', buf', available file.inode offset count) ∧
    (∀ k < available file.inode offset count,
      (fs.content file.inode)[offset + k]? = some (buf' k)) ∧
    (∀ k, available file.inode offset count ≤ k → buf' k = buf k) ∧
    fs'.fileDescTbl fd = some { file with offset := offset + available file.inode offset count }

variable {fs fs' : Server} {fd offset count : Nat} {file : OpenFile} {inode : Inode}
  {buf buf' : ByteArea}

@[simp] theorem content_length : (fs.content inode).length = inode.size := by
  rw [content, List.length_map, List.length_range]

theorem content_getElem? {k : Nat} (hk : k < inode.size) :
    (fs.content inode)[k]? =
      some (fs.disk (inode.sectors (Fin.ofNat 9 (k / 512))) (k % 512)) := by
  rw [content, List.getElem?_map, List.getElem?_range hk, Option.map_some]

/-- A first part that goes beyond its sector is read from behind the buffer. -/
theorem readData_beyond (hshort : count ≤ 512) (hbeyond : 512 < offset % 512 + count) :
    fs.readData { offset := offset, inode := inode } buf count = none := by
  have hnot : ¬ count > 512 := by omega
  have hover : offset % sectorSize + count > sectorSize := by
    simp only [sectorSize]
    omega
  simp only [readData, if_neg hnot, if_pos hover, Option.bind_eq_bind, Option.bind_eq_none_iff,
    implies_true]

theorem lseekFile_eq (hfd : fd < 64) (hopen : fs.fileDescTbl fd = some file)
    (hoff : offset ≤ file.inode.size) :
    fs.lseekFile fd offset = some (fs.setFile fd (some { file with offset := offset })) := by
  simp only [lseekFile, fileAt, if_pos hfd, hopen, Option.bind_eq_bind, Option.bind_some, gt_iff_lt,
    if_neg (Nat.not_lt.mpr hoff)]

theorem seekRead_eq (hfd : fd < 64) (hopen : fs.fileDescTbl fd = some file)
    (hoff : offset ≤ file.inode.size) :
    fs.seekRead fd offset buf count =
      (fs.setFile fd (some { file with offset := offset })).readFile fd buf count := by
  rw [seekRead, lseekFile_eq hfd hopen hoff, Option.bind_eq_bind, Option.bind_some]

theorem readFile_refused (hfd : fd < 64) (hopen : fs.fileDescTbl fd = some file)
    (hread : fs.checkInodePermission file.inode accessRead = false) :
    fs.readFile fd buf count = some (fs, buf, minusOne) := by
  simp only [readFile, fileAt, if_pos hfd, hopen, hread, Option.bind_eq_bind, Option.bind_some,
    Bool.not_false, if_true]

theorem readFile_allowed (hfd : fd < 64) (hopen : fs.fileDescTbl fd = some file)
    (hread : fs.checkInodePermission file.inode accessRead = true) :
    fs.readFile fd buf count =
      (fs.readData file buf (min count file.inode.size)).map fun buf =>
        (fs.setFile fd (some
          { file with offset := (file.offset + min count file.inode.size) % 2 ^ 32 }),
          buf, min count file.inode.size) := by
  have hmin : (if count > file.inode.size then file.inode.size else count) =
      min count file.inode.size := by
    split <;> omega
  simp only [readFile, fileAt, if_pos hfd, hopen, hread, Option.bind_eq_bind, Option.bind_some,
    Bool.not_true, Bool.false_eq_true, if_false, hmin]
  cases fs.readData file buf (min count file.inode.size) <;> rfl

/-- A read that stays in the sector of its offset copies the bytes from there. -/
theorem readFile_within (count : Nat) (buf : ByteArea) (hfd : fd < 64)
    (hopen : fs.fileDescTbl fd = some file)
    (hread : fs.checkInodePermission file.inode accessRead = true)
    (hsize : file.inode.size < 9 * 512) (hoff : file.offset ≤ file.inode.size)
    (hwithin : file.offset % 512 + min count file.inode.size ≤ 512) :
    ∃ fs' buf', fs.readFile fd buf count = some (fs', buf', min count file.inode.size) ∧
      fs' = fs.setFile fd (some { file with offset := file.offset + min count file.inode.size }) ∧
      (∀ k < min count file.inode.size, file.offset + k < file.inode.size →
        (fs.content file.inode)[file.offset + k]? = some (buf' k)) ∧
      ∀ k, min count file.inode.size ≤ k → buf' k = buf k := by
  have hstart : file.offset / 512 < 9 := by omega
  have hdata := fs.readData_within file.inode hstart hwithin buf
  have hnext : (file.offset + min count file.inode.size) % 2 ^ 32 =
      file.offset + min count file.inode.size := Nat.mod_eq_of_lt (by omega)
  rw [readFile_allowed hfd hopen hread, hdata, Option.map_some, hnext]
  refine ⟨_, _, rfl, rfl, fun k hk hin => ?_, fun k hk => ByteArea.copyIn_of_not (by omega)⟩
  have hplace : (file.offset + k) / 512 = file.offset / 512 ∧
      (file.offset + k) % 512 = file.offset % 512 + k := by omega
  rw [content_getElem? hin, hplace.1, hplace.2, ByteArea.copyIn_at (Nat.zero_le k) (by omega),
    Nat.sub_zero]

/-- What a read that is right shows about its offset and its count. -/
theorem ReadsAt.within (hfd : fd < 64) (hopen : fs.fileDescTbl fd = some file)
    (hsize : file.inode.size < 9 * 512) (hoff : offset ≤ file.inode.size)
    (hreads : fs.ReadsAt fd file offset count) :
    fs.checkInodePermission file.inode accessRead = true ∧
      (offset = 0 ∨ count ≤ file.inode.size - offset) ∧
      offset % 512 + min count file.inode.size ≤ 512 := by
  have hopen' : (fs.setFile fd (some { file with offset := offset })).fileDescTbl fd =
      some { file with offset := offset } := Function.update_self ..
  simp only [ReadsAt, seekRead_eq hfd hopen hoff] at hreads
  cases hread : fs.checkInodePermission file.inode accessRead with
  | false =>
      obtain ⟨fs', buf', hresult, -⟩ := hreads ByteArea.zeros
      rw [readFile_refused hfd hopen' hread] at hresult
      simp only [Option.some.injEq, Prod.mk.injEq, minusOne, available] at hresult
      omega
  | true =>
      simp only [readFile_allowed hfd hopen' hread, Option.map_eq_some_iff, Prod.mk.injEq]
        at hreads
      have hlen : min count file.inode.size = available file.inode offset count := by
        obtain ⟨fs', buf', ⟨buf₁, -, -, -, hlen⟩, -⟩ := hreads ByteArea.zeros
        exact hlen
      refine ⟨rfl, ?_, ?_⟩
      · rw [available] at hlen
        omega
      · by_contra hbeyond
        rcases Nat.lt_or_ge 512 (min count file.inode.size) with hlong | hshort
        · -- the byte where the first part ends is not stored
          obtain ⟨fs', buf', ⟨buf₁, hdata, -, rfl, -⟩, hbytes, -⟩ := hreads fun _ =>
            fs.disk (file.inode.sectors (Fin.ofNat 9 ((offset + (512 - offset)) / 512)))
              ((offset + (512 - offset)) % 512) + 1
          obtain ⟨hfirst, hgap⟩ := readData_gap hdata hlong (by omega)
          have hbyte := hbytes (512 - offset) (by omega)
          rw [content_getElem? (by omega), hgap, Option.some.injEq] at hbyte
          have hne : ∀ byte : Byte, byte ≠ byte + 1 := by decide
          exact hne _ hbyte
        · obtain ⟨fs', buf', ⟨buf₁, hdata, -⟩, -⟩ := hreads ByteArea.zeros
          rw [readData_beyond hshort (Nat.not_le.mp hbeyond)] at hdata
          cases hdata

/-- A read at an offset is right if and only if it is allowed, the file has that many bytes
from the offset on (or is read from its start), and they lie in one sector. -/
theorem readsAt_iff (hfd : fd < 64) (hopen : fs.fileDescTbl fd = some file)
    (hsize : file.inode.size < 9 * 512) (hoff : offset ≤ file.inode.size) :
    fs.ReadsAt fd file offset count ↔
      fs.checkInodePermission file.inode accessRead = true ∧
      (offset = 0 ∨ count ≤ file.inode.size - offset) ∧
      offset % 512 + min count file.inode.size ≤ 512 := by
  refine ⟨ReadsAt.within hfd hopen hsize hoff, ?_⟩
  rintro ⟨hread, hcount, hwithin⟩ buf
  have hlen : available file.inode offset count = min count file.inode.size := by
    rw [available]
    omega
  have hopen' : (fs.setFile fd (some { file with offset := offset })).fileDescTbl fd =
      some { file with offset := offset } := Function.update_self ..
  obtain ⟨fs', buf', hresult, rfl, hbytes, hrest⟩ :=
    readFile_within count buf hfd hopen' hread hsize hoff hwithin
  rw [← seekRead_eq hfd hopen hoff] at hresult
  rw [hlen]
  refine ⟨_, buf', hresult, fun k hk => hbytes k hk ?_, hrest, Function.update_self ..⟩
  change offset + k < file.inode.size
  omega

/-- A file of 600 bytes in two sectors. -/
def twoSectorFile : OpenFile :=
  { emptyFile with
    inode := { emptyFile.inode with size := 600, sectors := fun i => if i < 2 then 5 + i else 0 } }

def twoSectorServer : Server :=
  { smallServer with fileDescTbl := fun fd => if fd = 0 then some twoSectorFile else none }

/-- Fifty bytes of the second sector. -/
theorem readsAt_second_sector : twoSectorServer.ReadsAt 0 twoSectorFile 520 50 :=
  (readsAt_iff (by decide) rfl (by decide) (by decide)).mpr
    ⟨by decide, by decide, by decide⟩

/-- The file has 80 bytes from offset 520 on, and 100 are read. -/
theorem read_behind_end :
    ¬ ∀ (fs : Server) (fd : Nat) (file : OpenFile) (offset count : Nat), fd < 64 →
      fs.fileDescTbl fd = some file → file.inode.size < 9 * 512 →
      (∀ i : Fin 9, i.val * 512 < file.inode.size → file.inode.sectors i ≠ 0) →
      fs.checkInodePermission file.inode accessRead = true → offset ≤ file.inode.size →
      fs.ReadsAt fd file offset count := by
  intro hall
  obtain ⟨fs', buf', hresult, -⟩ := hall twoSectorServer 0 twoSectorFile 520 100 (by decide) rfl
    (by decide) (by decide) (by decide) (by decide) ByteArea.zeros
  have hlen : (twoSectorServer.seekRead 0 520 ByteArea.zeros 100).map (fun read => read.2.2) =
      some 100 := by decide
  rw [hresult] at hlen
  have hsame : available twoSectorFile.inode 520 100 = 100 := Option.some.inj hlen
  exact absurd hsame (by decide)

end Shmily.Fs.Server
