import Mathlib.Data.List.GetD
import Shmily.Foundation.ByteBlock
import Shmily.Foundation.Loop
import Shmily.Foundation.Placements

/-! # From the built modules to memory

`tools/build_img.cc` writes the modules into one image, behind a table of their offsets;
the makefile copies the image onto the boot disk. At boot `kernel/init.s` reads it into
memory and copies each module's segments to the addresses they are linked at. These may
be inside the image that was read, as long as that part of it is not needed any more.
The stack of the loader is not part of the memory here.
-/

namespace Shmily.Kernel

open Foundation

/-! ## Building the image -/

/-- The image file while it is written. -/
structure ImageFile where
  content : List (BitVec 8)
  pos : Nat

namespace ImageFile

/-- `write`. -/
def write (image : ImageFile) (buf : List (BitVec 8)) : ImageFile where
  content := image.content.take image.pos ++ (buf ++ image.content.drop (image.pos + buf.length))
  pos := image.pos + buf.length

/-- The loop that copies a module, 256 bytes at a time. -/
def copyPieces : Nat → ImageFile → List (BitVec 8) → ImageFile
  | 0, image, _ => image
  | fuel + 1, image, rest =>
      match rest.take 256 with
      | [] => image
      | byte :: buf => copyPieces fuel (image.write (byte :: buf)) (rest.drop 256)

def copyModule (image : ImageFile) (file : List (BitVec 8)) : ImageFile :=
  copyPieces (file.length + 1) image file

/-- The file when these bytes have been written over the old ones. -/
def written (old bytes : List (BitVec 8)) : ImageFile where
  content := bytes ++ old.drop bytes.length
  pos := bytes.length

variable {old bytes : List (BitVec 8)}

theorem written_write (buf : List (BitVec 8)) :
    (written old bytes).write buf = written old (bytes ++ buf) := by
  simp only [write, written, List.take_left, List.length_append, List.append_assoc]
  rw [← List.drop_drop, List.drop_left, List.drop_drop]

theorem written_copyPieces (fuel : Nat) (rest : List (BitVec 8)) (hfuel : rest.length < fuel) :
    copyPieces fuel (written old bytes) rest = written old (bytes ++ rest) := by
  induction fuel generalizing bytes rest with
  | zero => exact absurd hfuel (Nat.not_lt_zero _)
  | succ fuel ih =>
      rw [copyPieces]
      split
      next hnone =>
        have hrest : rest = [] := (List.take_eq_nil_iff.mp hnone).resolve_left (by decide)
        rw [hrest, List.append_nil]
      next byte buf hbuf =>
        have hlt : (rest.drop 256).length < fuel := by
          have hlen := congrArg List.length hbuf
          rw [List.length_take, List.length_cons] at hlen
          rw [List.length_drop]
          omega
        rw [← hbuf, written_write, ih _ hlt, List.append_assoc, List.take_append_drop]

/-- The pieces of a module make the module. -/
theorem written_copyModule (file : List (BitVec 8)) :
    (written old bytes).copyModule file = written old (bytes ++ file) :=
  written_copyPieces _ _ (Nat.lt_succ_self _)

end ImageFile

/-- `m_table`, and how many entries `p_mtable` has passed. -/
structure ModuleTable where
  area : ByteArea
  entries : Nat

/-- `install_module_table`. -/
def installModuleTable (table : ModuleTable) (offset : Nat) : ModuleTable where
  area := table.area.putLE 4 (4 * table.entries) (64 + offset)
  entries := table.entries + 1

/-- `main` of `build_img.cc`; the image file is opened as an earlier build left it. -/
def buildImage (old kernel mm fs dr net terminal : List (BitVec 8)) : List (BitVec 8) :=
  let table : ModuleTable := ⟨.zeros, 0⟩
  let table := installModuleTable table 0
  let table := installModuleTable table (0 + kernel.length)
  let table := installModuleTable table (0 + kernel.length + mm.length)
  let table := installModuleTable table (0 + kernel.length + mm.length + fs.length)
  let table := installModuleTable table (0 + kernel.length + mm.length + fs.length + dr.length)
  let table := installModuleTable table
    (0 + kernel.length + mm.length + fs.length + dr.length + net.length)
  let image : ImageFile := ⟨old, 0⟩
  let image := image.write (table.area.bytes 0 64)
  let image := image.copyModule kernel
  let image := image.copyModule mm
  let image := image.copyModule fs
  let image := image.copyModule dr
  let image := image.copyModule net
  let image := image.copyModule terminal
  image.content

/-- Install modules one behind the other. -/
def installAll : ModuleTable → Nat → List (List (BitVec 8)) → ModuleTable
  | table, _, [] => table
  | table, offset, file :: rest =>
      installAll (installModuleTable table offset) (offset + file.length) rest

/-- The table for some modules. -/
def moduleTable (files : List (List (BitVec 8))) : List (BitVec 8) :=
  (installAll ⟨.zeros, 0⟩ 0 files).area.bytes 0 64

/-- The image is the table and the modules, and what an earlier build left behind them. -/
theorem buildImage_eq (old kernel mm fs dr net terminal : List (BitVec 8)) :
    ∃ rest, buildImage old kernel mm fs dr net terminal =
      moduleTable [kernel, mm, fs, dr, net, terminal] ++
        ([kernel, mm, fs, dr, net, terminal].flatten ++ rest) := by
  have himage : buildImage old kernel mm fs dr net terminal =
      (ImageFile.written old (moduleTable [kernel, mm, fs, dr, net, terminal] ++
        [kernel, mm, fs, dr, net, terminal].flatten)).content := by
    change ((ImageFile.written old []).write (moduleTable [kernel, mm, fs, dr, net, terminal])
      |>.copyModule kernel |>.copyModule mm |>.copyModule fs |>.copyModule dr |>.copyModule net
      |>.copyModule terminal).content = _
    simp only [ImageFile.written_write, ImageFile.written_copyModule, List.nil_append,
      List.flatten_cons, List.flatten_nil, List.append_nil, List.append_assoc]
  exact ⟨_, himage.trans (List.append_assoc _ _ _)⟩

/-- The bytes of a file. -/
def areaOf (file : List (BitVec 8)) : ByteArea := fun k => file.getD k 0

/-- `dd bs=512 count=500 seek=5 conv=notrunc`, from the image to the boot disk. -/
def installKernel (disk : ByteArea) (image : List (BitVec 8)) : ByteArea :=
  disk.copyIn (5 * 512) (areaOf image) 0 (min image.length (500 * 512))

/-! ## The loader -/

/-- `mem_cpy`; `rep movsb` goes upwards, byte by byte. -/
def memCpy : ByteArea → Nat → Nat → Nat → ByteArea
  | mem, _, _, 0 => mem
  | mem, edi, esi, ecx + 1 =>
      memCpy (Function.update mem edi (mem esi)) ((edi + 1) % 2 ^ 32) ((esi + 1) % 2 ^ 32) ecx

/-- `read_a_sector`; the ports take 28 bits of the sector's number. -/
def readASector (disk mem : ByteArea) (eax ebx : Nat) : ByteArea :=
  mem.copyIn ebx disk (512 * (eax % 2 ^ 28)) 512

/-- `read_disk`. -/
def readDisk (disk : ByteArea) : ByteArea → Nat → Nat → Nat → ByteArea
  | mem, _, _, 0 => mem
  | mem, eax, ebx, ecx + 1 =>
      readDisk disk (readASector disk mem eax ebx) (eax + 1) (ebx + 0x200) ecx

def modulesTablBase : Nat := 0x8000

def initCcBaseAddr : Nat := 0x52000

/-- `prot_start`, up to `.load_modules_head`. -/
def protStart (disk mem : ByteArea) : ByteArea :=
  let mem := readDisk disk mem 5 initCcBaseAddr 255
  let mem := readDisk disk mem (5 + 255) (130560 + initCcBaseAddr) (500 - 255)
  memCpy mem modulesTablBase initCcBaseAddr 64

/-- One turn of `.each_segment`; only the lowest byte of the type is looked at. -/
def loadSegment (mem : ByteArea) (edi ebx : Nat) : ByteArea :=
  if mem ebx = 0 then mem
  else memCpy mem (mem.getLE 4 (ebx + 8)) ((mem.getLE 4 (ebx + 4) + edi) % 2 ^ 32)
    (mem.getLE 4 (ebx + 16))

/-- `add bx, dx`, which leaves the upper half of `ebx` alone. -/
def addBx (ebx dx : Nat) : Nat := ebx / 2 ^ 16 * 2 ^ 16 + (ebx % 2 ^ 16 + dx) % 2 ^ 16

/-- The loop `.each_segment`. -/
def eachSegment (edi dx : Nat) : ByteArea → Nat → Nat → ByteArea
  | mem, _, 0 => mem
  | mem, ebx, ecx + 1 => eachSegment edi dx (loadSegment mem edi ebx) (addBx ebx dx) ecx

/-- `load_elf32_init`; `loop` counts down before it looks at `ecx`. -/
def loadElf32Init (mem : ByteArea) (edi : Nat) : ByteArea :=
  let dx := mem.getLE 2 (edi + 42)
  let ebx := (mem.getLE 4 (edi + 28) + edi) % 2 ^ 32
  let cx := mem.getLE 2 (edi + 44)
  eachSegment edi dx mem ebx (if cx = 0 then 2 ^ 32 else cx)

/-- One turn of `.load_modules`, on memory and `ecx`. -/
def loadModules (state : ByteArea × Nat) : (ByteArea × Nat) ⊕ ByteArea :=
  let edi := state.1.getLE 4 (modulesTablBase + state.2 * 4)
  if edi = 0 then .inr state.1
  else .inl (loadElf32Init state.1 ((edi + initCcBaseAddr) % 2 ^ 32), state.2 + 1)

/-- `init.s` jumps to the kernel with this memory. -/
def Boots (disk mem final : ByteArea) : Prop := Leaves loadModules (protStart disk mem, 0) final

/-! ## What an ELF file says -/

/-- `elf_program_header`, the fields that the loader reads. -/
structure ProgramHeader where
  type : Nat
  offset : Nat
  vaddr : Nat
  fileSize : Nat
deriving DecidableEq

def programHeaderAt (file : ByteArea) (pos : Nat) : ProgramHeader where
  type := file.getLE 4 pos
  offset := file.getLE 4 (pos + 4)
  vaddr := file.getLE 4 (pos + 8)
  fileSize := file.getLE 4 (pos + 16)

/-- Where the program headers of a file are. -/
def headerOffset (file : ByteArea) (i : Nat) : Nat := file.getLE 4 28 + i * file.getLE 2 42

/-- The program headers of a file. -/
def programHeaders (file : ByteArea) : List ProgramHeader :=
  (List.range (file.getLE 2 44)).map fun i => programHeaderAt file (headerOffset file i)

/-- The segment is not `PT_NULL`, as far as the loader looks. -/
def ProgramHeader.Used (header : ProgramHeader) : Prop := header.type % 256 ≠ 0

instance : DecidablePred ProgramHeader.Used := fun header =>
  inferInstanceAs (Decidable (header.type % 256 ≠ 0))

/-- Where a segment belongs. -/
def ProgramHeader.placement (file : ByteArea) (header : ProgramHeader) : Placement where
  address := header.vaddr
  source := file
  start := header.offset
  size := header.fileSize

/-- The segments of a file. -/
def segments (file : ByteArea) : List Placement :=
  ((programHeaders file).filter fun header => header.Used).map (ProgramHeader.placement file)

/-- The end of the table of modules; the loader itself and its stack are below it. -/
def loaderEnd : Nat := modulesTablBase + 64

/-- The segment is inside the file, and belongs neither where the loader is nor where,
between two addresses, modules are that are still needed. -/
def Fits (file : List (BitVec 8)) (base stop : Nat) (segment : Placement) : Prop :=
  (segment.size = 0 ∨ segment.start + segment.size ≤ file.length) ∧
    segment.Within loaderEnd (2 ^ 32) ∧ segment.Outside base stop

instance (file : List (BitVec 8)) (base stop : Nat) : DecidablePred (Fits file base stop) :=
  fun _ => inferInstanceAs (Decidable (_ ∧ _))

/-- A module that can be loaded from an address, while the memory up to another one
still holds modules: it has a program header, its headers are inside the file, `add bx, dx`
never carries, and all segments fit. -/
structure Loadable (file : List (BitVec 8)) (base stop : Nat) : Prop where
  header : 46 ≤ file.length
  phnum_ne : (areaOf file).getLE 2 44 ≠ 0
  inside : ∀ i < (areaOf file).getLE 2 44, headerOffset (areaOf file) i + 20 ≤ file.length
  carry : ∀ i < (areaOf file).getLE 2 44,
    (base + (areaOf file).getLE 4 28) % 2 ^ 16 + i * (areaOf file).getLE 2 42 < 2 ^ 16
  fits : ∀ segment ∈ segments (areaOf file), Fits file base stop segment

/-! ## One module -/

/-- The bytes are in memory, from an address on. -/
def HoldsAt (mem : ByteArea) (addr : Nat) (bytes : List (BitVec 8)) : Prop :=
  ∀ i < bytes.length, mem (addr + i) = areaOf bytes i

variable {mem : ByteArea} {file : List (BitVec 8)} {addr base stop : Nat}

theorem memCpy_apart {edi esi ecx : Nat} (hdst : edi + ecx ≤ 2 ^ 32) (hsrc : esi + ecx ≤ 2 ^ 32)
    (hapart : edi + ecx ≤ esi ∨ esi + ecx ≤ edi) :
    memCpy mem edi esi ecx = mem.copyIn edi mem esi ecx := by
  induction ecx generalizing mem edi esi with
  | zero => exact (ByteArea.copyIn_zero _ _ _ _).symm
  | succ ecx ih =>
      funext k
      rw [memCpy]
      rcases Nat.eq_zero_or_pos ecx with rfl | hpos
      · rw [memCpy]
        by_cases hk : k = edi
        · subst hk
          rw [Function.update_self, ByteArea.copyIn_at (Nat.le_refl k) (by omega), Nat.sub_self,
            Nat.add_zero]
        · rw [Function.update_of_ne hk, ByteArea.copyIn_of_not (by omega)]
      · rw [Nat.mod_eq_of_lt (by omega), Nat.mod_eq_of_lt (by omega),
          ih (by omega) (by omega) (by omega)]
        by_cases hrest : edi + 1 ≤ k ∧ k < edi + 1 + ecx
        · rw [ByteArea.copyIn_at hrest.1 hrest.2, ByteArea.copyIn_at (by omega) (by omega),
            Function.update_of_ne (by omega)]
          congr 1
          omega
        · rw [ByteArea.copyIn_of_not hrest]
          by_cases hk : k = edi
          · subst hk
            rw [Function.update_self, ByteArea.copyIn_at (Nat.le_refl k) (by omega), Nat.sub_self,
              Nat.add_zero]
          · rw [Function.update_of_ne hk, ByteArea.copyIn_of_not (by omega)]

theorem readDisk_eq (disk : ByteArea) {eax ebx ecx : Nat} (hlba : eax + ecx ≤ 2 ^ 28) :
    readDisk disk mem eax ebx ecx = mem.copyIn ebx disk (512 * eax) (512 * ecx) := by
  induction ecx generalizing mem eax ebx with
  | zero => exact (ByteArea.copyIn_zero _ _ _ _).symm
  | succ ecx ih =>
      rw [readDisk, ih (by omega), readASector, Nat.mod_eq_of_lt (by omega), Nat.mul_succ,
        Nat.mul_succ, Nat.add_comm (512 * ecx)]
      exact ByteArea.copyIn_copyIn _ _ _ _ _ _

theorem HoldsAt.getLE (hholds : HoldsAt mem base file) {width offset : Nat}
    (hinside : offset + width ≤ file.length) :
    mem.getLE width (base + offset) = (areaOf file).getLE width offset := by
  rw [← ByteArea.getLE_part]
  exact ByteArea.getLE_congr fun i hi => hholds (offset + i) (by omega)

/-- A module is still there when nothing was placed on it. -/
theorem HoldsAt.congr (hholds : HoldsAt mem base file) {other : ByteArea}
    (hsame : ∀ k, base ≤ k → k < base + file.length → other k = mem k) :
    HoldsAt other base file := fun i hi =>
  (hsame _ (Nat.le_add_right _ _) (Nat.add_lt_add_left hi _)).trans (hholds i hi)

/-- The segments with numbers from `i` on. -/
def segmentsFrom (file : ByteArea) (i n : Nat) : List Placement :=
  (((List.range' i n).map fun i => programHeaderAt file (headerOffset file i)).filter
    fun header => header.Used).map (ProgramHeader.placement file)

theorem segmentsFrom_zero (file : ByteArea) :
    segmentsFrom file 0 (file.getLE 2 44) = segments file := by
  rw [segmentsFrom, segments, programHeaders, List.range_eq_range']

theorem segmentsFrom_used {file : ByteArea} {i : Nat}
    (hused : (programHeaderAt file (headerOffset file i)).Used) (n : Nat) :
    segmentsFrom file i (n + 1) =
      (programHeaderAt file (headerOffset file i)).placement file ::
        segmentsFrom file (i + 1) n := by
  rw [segmentsFrom, List.range'_succ, List.map_cons, List.filter_cons_of_pos (by simpa using hused),
    List.map_cons, segmentsFrom]

theorem segmentsFrom_unused {file : ByteArea} {i : Nat}
    (hunused : ¬ (programHeaderAt file (headerOffset file i)).Used) (n : Nat) :
    segmentsFrom file i (n + 1) = segmentsFrom file (i + 1) n := by
  rw [segmentsFrom, List.range'_succ, List.map_cons,
    List.filter_cons_of_neg (by simpa using hunused), segmentsFrom]

/-- The type's lowest byte tells whether the segment is used. -/
theorem used_iff (file : ByteArea) (pos : Nat) :
    (programHeaderAt file pos).Used ↔ file pos ≠ 0 := by
  have hbyte : (programHeaderAt file pos).type % 256 = (file pos).toNat := by
    rw [programHeaderAt, ByteArea.getLE, Nat.add_mul_mod_self_left]
    exact Nat.mod_eq_of_lt (file pos).isLt
  rw [ProgramHeader.Used, hbyte]
  exact not_congr ⟨fun hzero => BitVec.eq_of_toNat_eq hzero, fun hzero => by rw [hzero]; rfl⟩

/-- One segment is copied to where it belongs. -/
theorem loadSegment_used (hholds : HoldsAt mem base file) (hstop : base + file.length ≤ stop)
    (hmax : stop ≤ 2 ^ 32) {pos : Nat} (hinside : pos + 20 ≤ file.length)
    (hused : (programHeaderAt (areaOf file) pos).Used)
    (hfits : Fits file base stop ((programHeaderAt (areaOf file) pos).placement (areaOf file))) :
    loadSegment mem base (base + pos) =
      ((programHeaderAt (areaOf file) pos).placement (areaOf file)).place mem := by
  have htype : mem (base + pos) ≠ 0 := by
    rw [hholds pos (by omega)]
    exact (used_iff _ _).mp hused
  rw [loadSegment, if_neg htype, Nat.add_assoc, hholds.getLE (by omega), Nat.add_assoc,
    hholds.getLE (by omega), Nat.add_assoc, hholds.getLE (by omega)]
  obtain ⟨hcontent, habove, hapart⟩ := hfits
  simp only [ProgramHeader.placement, programHeaderAt] at hcontent habove hapart
  simp only [Placement.place, ProgramHeader.placement, programHeaderAt]
  generalize (areaOf file).getLE 4 (pos + 4) = offset at *
  generalize (areaOf file).getLE 4 (pos + 8) = vaddr at *
  generalize (areaOf file).getLE 4 (pos + 16) = size at *
  rcases Nat.eq_zero_or_pos size with rfl | hpos
  · exact (ByteArea.copyIn_zero _ _ _ _).symm
  · have hinFile := hcontent.resolve_left hpos.ne'
    have hhigh := (habove.resolve_left hpos.ne').2
    have hfree := hapart.resolve_left hpos.ne'
    dsimp only at hhigh hfree
    rw [Nat.mod_eq_of_lt (by omega), memCpy_apart hhigh (by omega) (by omega)]
    refine ByteArea.copyIn_congr fun i hi => ?_
    rw [Nat.add_comm offset base, Nat.add_assoc]
    exact hholds _ (by omega)

/-- An unused segment is passed over. -/
theorem loadSegment_unused (hholds : HoldsAt mem base file) {pos : Nat}
    (hinside : pos + 20 ≤ file.length) (hunused : ¬ (programHeaderAt (areaOf file) pos).Used) :
    loadSegment mem base (base + pos) = mem := by
  rw [used_iff, not_not] at hunused
  rw [loadSegment, if_pos ((hholds pos (by omega)).trans hunused)]

/-- No segment of a module is placed on the module. -/
theorem HoldsAt.place {segment : Placement} (hholds : HoldsAt mem base file)
    (hstop : base + file.length ≤ stop) (hfits : Fits file base stop segment) :
    HoldsAt (segment.place mem) base file :=
  hholds.congr fun _ hlow hhigh =>
    Placement.place_of_not (hfits.2.2.not_covers hlow (hhigh.trans_le hstop))

theorem mem_segments {file : ByteArea} {i : Nat} (hi : i < file.getLE 2 44)
    (hused : (programHeaderAt file (headerOffset file i)).Used) :
    (programHeaderAt file (headerOffset file i)).placement file ∈ segments file :=
  List.mem_map_of_mem (List.mem_filter.mpr
    ⟨List.mem_map_of_mem (List.mem_range.mpr hi), decide_eq_true hused⟩)

namespace Loadable

variable {i n : Nat}

/-- `add bx, dx` goes on to the next header. -/
theorem addBx_header (hloadable : Loadable file base stop)
    (hi : i + 1 < (areaOf file).getLE 2 44) :
    addBx (base + headerOffset (areaOf file) i) ((areaOf file).getLE 2 42) =
      base + headerOffset (areaOf file) (i + 1) := by
  have hcarry := hloadable.carry (i + 1) hi
  simp only [addBx, headerOffset, Nat.add_mul, Nat.one_mul] at hcarry ⊢
  generalize i * (areaOf file).getLE 2 42 = before at hcarry ⊢
  generalize (areaOf file).getLE 2 42 = size at hcarry ⊢
  generalize (areaOf file).getLE 4 28 = offset at hcarry ⊢
  omega

theorem eachSegment_eq (hloadable : Loadable file base stop)
    (hstop : base + file.length ≤ stop) (hmax : stop ≤ 2 ^ 32)
    (hn : i + n ≤ (areaOf file).getLE 2 44) {ebx : Nat}
    (hebx : n ≠ 0 → ebx = base + headerOffset (areaOf file) i) (hholds : HoldsAt mem base file) :
    eachSegment base ((areaOf file).getLE 2 42) mem ebx n =
      Placement.placeAll mem (segmentsFrom (areaOf file) i n) := by
  induction n generalizing mem i ebx with
  | zero => rfl
  | succ n ih =>
      obtain rfl := hebx (Nat.succ_ne_zero n)
      have hnext : n ≠ 0 → addBx (base + headerOffset (areaOf file) i) ((areaOf file).getLE 2 42) =
          base + headerOffset (areaOf file) (i + 1) :=
        fun hne => hloadable.addBx_header (by omega)
      have hinside := hloadable.inside i (by omega)
      rw [eachSegment]
      by_cases hused : (programHeaderAt (areaOf file) (headerOffset (areaOf file) i)).Used
      · have hfits := hloadable.fits _ (mem_segments (by omega) hused)
        rw [loadSegment_used hholds hstop hmax hinside hused hfits, segmentsFrom_used hused]
        exact ih (by omega) hnext (hholds.place hstop hfits)
      · rw [loadSegment_unused hholds hinside hused, segmentsFrom_unused hused]
        exact ih (by omega) hnext hholds

/-- A module's segments are copied to where they belong, in order. -/
theorem loadElf32Init_eq (hloadable : Loadable file base stop)
    (hstop : base + file.length ≤ stop) (hmax : stop ≤ 2 ^ 32) (hholds : HoldsAt mem base file) :
    loadElf32Init mem base = Placement.placeAll mem (segments (areaOf file)) := by
  have hheader := hloadable.header
  have hfirst := hloadable.inside 0 (Nat.pos_of_ne_zero hloadable.phnum_ne)
  rw [headerOffset, Nat.zero_mul, Nat.add_zero] at hfirst
  rw [loadElf32Init, hholds.getLE (by omega), hholds.getLE (by omega), hholds.getLE (by omega),
    if_neg hloadable.phnum_ne, Nat.mod_eq_of_lt (by omega), ← segmentsFrom_zero]
  refine hloadable.eachSegment_eq hstop hmax (Nat.zero_add _).le (fun _ => ?_) hholds
  rw [headerOffset, Nat.zero_mul, Nat.add_zero, Nat.add_comm]

end Loadable

/-! ## All modules -/

/-- The table holds the offsets of the modules, from an entry on, and a zero behind them. -/
def Lists (area : ByteArea) (table : Nat) : Nat → Nat → List (List (BitVec 8)) → Prop
  | entry, _, [] => area.getLE 4 (table + entry * 4) = 0
  | entry, offset, file :: rest =>
      area.getLE 4 (table + entry * 4) = 64 + offset ∧
        Lists area table (entry + 1) (offset + file.length) rest

/-- Modules one behind the other can be loaded in turn. -/
def AllLoadable (stop : Nat) : Nat → List (List (BitVec 8)) → Prop
  | _, [] => True
  | base, file :: rest => Loadable file base stop ∧ AllLoadable stop (base + file.length) rest

/-- The segments of all modules. -/
def allSegments (files : List (List (BitVec 8))) : List Placement :=
  files.flatMap fun file => segments (areaOf file)

variable {files : List (List (BitVec 8))}

theorem Lists.congr {area other : ByteArea} {table table' entry offset : Nat}
    (hlists : Lists area table entry offset files)
    (hsame : ∀ k < (entry + files.length + 1) * 4, other (table' + k) = area (table + k)) :
    Lists other table' entry offset files := by
  have hentry : other.getLE 4 (table' + entry * 4) = area.getLE 4 (table + entry * 4) := by
    rw [← ByteArea.getLE_part, ← ByteArea.getLE_part]
    exact ByteArea.getLE_congr fun i hi => hsame _ (by omega)
  induction files generalizing entry offset with
  | nil => exact hentry.trans hlists
  | cons file rest ih =>
      refine ⟨hentry.trans hlists.1, ih hlists.2 (fun k hk => hsame k ?_) ?_⟩
      · rw [List.length_cons]
        omega
      · rw [← ByteArea.getLE_part, ← ByteArea.getLE_part]
        refine ByteArea.getLE_congr fun i hi => hsame _ ?_
        rw [List.length_cons]
        omega

theorem areaOf_append_left {first second : List (BitVec 8)} {k : Nat} (hk : k < first.length) :
    areaOf (first ++ second) k = areaOf first k := by
  rw [areaOf, areaOf, List.getD_append _ _ _ _ hk]

theorem areaOf_append_right (first second : List (BitVec 8)) (k : Nat) :
    areaOf (first ++ second) (first.length + k) = areaOf second k := by
  rw [areaOf, areaOf, List.getD_append_right _ _ _ _ (Nat.le_add_right _ _),
    Nat.add_sub_cancel_left]

theorem holdsAt_append {first second : List (BitVec 8)}
    (hholds : HoldsAt mem base (first ++ second)) :
    HoldsAt mem base first ∧ HoldsAt mem (base + first.length) second := by
  refine ⟨fun i hi => ?_, fun i hi => ?_⟩
  · rw [hholds i (by rw [List.length_append]; omega), areaOf_append_left hi]
  · rw [Nat.add_assoc, hholds _ (by rw [List.length_append]; omega), areaOf_append_right]

/-- The loop over the table loads one module after another. -/
theorem leaves_loadModules {entry offset : Nat}
    (hlists : Lists mem modulesTablBase entry offset files) (hfew : entry + files.length < 16)
    (hloadable : AllLoadable stop (64 + offset + initCcBaseAddr) files)
    (hholds : HoldsAt mem (64 + offset + initCcBaseAddr) files.flatten)
    (hstop : 64 + offset + initCcBaseAddr + files.flatten.length ≤ stop) (hmax : stop ≤ 2 ^ 32) :
    Leaves loadModules (mem, entry) (Placement.placeAll mem (allSegments files)) := by
  induction files generalizing mem entry offset with
  | nil => exact leaves_inr (if_pos hlists)
  | cons file rest ih =>
      obtain ⟨hentry, hlater⟩ := hlists
      obtain ⟨hfirst, hrest⟩ := hloadable
      rw [List.flatten_cons] at hholds hstop
      rw [List.length_append] at hstop
      rw [List.length_cons] at hfew
      obtain ⟨hfile, hbehind⟩ := holdsAt_append hholds
      have hbase : (64 + offset + initCcBaseAddr) % 2 ^ 32 = 64 + offset + initCcBaseAddr := by
        have hheader := hfirst.header
        exact Nat.mod_eq_of_lt (by omega)
      have hturn : loadModules (mem, entry) =
          .inl (Placement.placeAll mem (segments (areaOf file)), entry + 1) := by
        rw [loadModules]
        dsimp only
        rw [hentry, if_neg (by omega), hbase, hfirst.loadElf32Init_eq (by omega) hmax hfile]
      have hnext : 64 + offset + initCcBaseAddr + file.length =
          64 + (offset + file.length) + initCcBaseAddr := by omega
      rw [hnext] at hrest hbehind
      rw [leaves_inl hturn, allSegments, List.flatMap_cons, Placement.placeAll_append]
      refine ih (hlater.congr fun k hk => ?_) (by omega) hrest
        (hbehind.congr fun k hlow hhigh => ?_) (by omega)
      · refine Placement.placeAll_of_not fun segment hmem hcovers => ?_
        have habove := ((hfirst.fits segment hmem).2.1.bounds hcovers).1
        rw [loaderEnd] at habove
        omega
      · exact Placement.placeAll_of_not fun segment hmem =>
          (hfirst.fits segment hmem).2.2.not_covers (by omega) (by omega)

/-! ## From the image to memory -/

@[simp]
theorem installModuleTable_entries (table : ModuleTable) (offset : Nat) :
    (installModuleTable table offset).entries = table.entries + 1 := rfl

@[simp]
theorem installModuleTable_area (table : ModuleTable) (offset : Nat) :
    (installModuleTable table offset).area =
      table.area.putLE 4 (4 * table.entries) (64 + offset) := rfl

/-- Only the entries of the modules are written. -/
theorem installAll_area (table : ModuleTable) (offset : Nat) {k : Nat}
    (hk : k < 4 * table.entries) : (installAll table offset files).area k = table.area k := by
  induction files generalizing table offset with
  | nil => rfl
  | cons file rest ih =>
      have hnext : k < 4 * (installModuleTable table offset).entries := by
        rw [installModuleTable_entries]
        omega
      rw [installAll, ih _ _ hnext]
      exact ByteArea.putLE_of_not (by omega)

theorem installAll_lists (table : ModuleTable) {offset : Nat}
    (hoffset : 64 + offset + files.flatten.length < 2 ^ 32)
    (hzero : ∀ k, 4 * table.entries ≤ k → table.area k = 0) :
    Lists (installAll table offset files).area 0 table.entries offset files := by
  induction files generalizing table offset with
  | nil => exact ByteArea.getLE_eq_zero_iff.mpr fun i _ => hzero _ (by omega)
  | cons file rest ih =>
      rw [List.flatten_cons, List.length_append] at hoffset
      refine ⟨?_, ih (installModuleTable table offset) (by omega) fun k hk => ?_⟩
      · have hentry : 0 + table.entries * 4 = 4 * table.entries := by omega
        have hkept : ∀ i < 4, (installAll (installModuleTable table offset)
            (offset + file.length) rest).area (4 * table.entries + i) =
            (installModuleTable table offset).area (4 * table.entries + i) := by
          refine fun i hi => installAll_area _ _ ?_
          rw [installModuleTable_entries]
          omega
        rw [installAll, hentry, ByteArea.getLE_congr hkept, installModuleTable_area,
          ByteArea.getLE_putLE_self]
        exact Nat.mod_eq_of_lt (by omega)
      · rw [installModuleTable_entries] at hk
        rw [installModuleTable_area, ByteArea.putLE_of_not (by omega)]
        exact hzero k (by omega)

/-- The image and its first bytes, the table, are read into memory. -/
theorem protStart_eq (disk mem : ByteArea) :
    protStart disk mem = (mem.copyIn initCcBaseAddr disk (512 * 5) (512 * 500)).copyIn
      modulesTablBase disk (512 * 5) 64 := by
  have hread : readDisk disk (readDisk disk mem 5 initCcBaseAddr 255) (5 + 255)
      (130560 + initCcBaseAddr) (500 - 255) =
      mem.copyIn initCcBaseAddr disk (512 * 5) (512 * 500) := by
    rw [readDisk_eq disk (by decide), readDisk_eq disk (by decide)]
    exact mem.copyIn_copyIn initCcBaseAddr disk (512 * 5) (512 * 255) (512 * 245)
  unfold protStart
  dsimp only
  rw [hread, memCpy_apart (by decide) (by decide) (by decide)]
  refine ByteArea.copyIn_congr fun i hi => ?_
  rw [ByteArea.copyIn_at (Nat.le_add_right _ _) (by omega), Nat.add_sub_cancel_left]

/-- Modules that fit into what is read of the image, and can be loaded one after another to
addresses that are apart from each other. -/
structure Bootable (files : List (List (BitVec 8))) : Prop where
  size : 64 + files.flatten.length ≤ 500 * 512
  loadable : AllLoadable (64 + initCcBaseAddr + files.flatten.length) (64 + initCcBaseAddr) files
  apart : (allSegments files).Pairwise Placement.Apart

theorem length_moduleTable (files : List (List (BitVec 8))) : (moduleTable files).length = 64 :=
  ByteArea.length_bytes _ _ _

theorem areaOf_bytes (area : ByteArea) (offset : Nat) {n k : Nat} (hk : k < n) :
    areaOf (area.bytes offset n) k = area (offset + k) := by
  induction n generalizing offset k with
  | zero => exact absurd hk (Nat.not_lt_zero k)
  | succ n ih =>
      cases k with
      | zero => rfl
      | succ k =>
          rw [ByteArea.bytes, areaOf, List.getD_cons_succ]
          have hoffset : offset + 1 + k = offset + (k + 1) := by omega
          exact (ih (offset + 1) (Nat.lt_of_succ_lt_succ hk)).trans (congrArg area hoffset)

/-- What was installed is read back. -/
theorem installKernel_image (disk : ByteArea) {image : List (BitVec 8)} {k : Nat}
    (hlen : k < image.length) (hk : k < 500 * 512) :
    installKernel disk image (512 * 5 + k) = areaOf image k := by
  have hfrom : 0 + (512 * 5 + k - 5 * 512) = k := by omega
  rw [installKernel, ByteArea.copyIn_at (by omega) (by omega), hfrom]

section Image

variable {rest : List (BitVec 8)} {disk : ByteArea}

theorem protStart_lists (hsize : 64 + files.flatten.length ≤ 500 * 512)
    (hfew : files.length < 16) :
    Lists (protStart (installKernel disk (moduleTable files ++ (files.flatten ++ rest))) mem)
      modulesTablBase 0 0 files := by
  have htable : Lists (installAll ⟨.zeros, 0⟩ 0 files).area 0 0 0 files :=
    installAll_lists ⟨.zeros, 0⟩ (by omega) fun _ _ => rfl
  refine htable.congr fun k hk => ?_
  have hlt : k < 64 := by omega
  have hlen := length_moduleTable files
  rw [protStart_eq, ByteArea.copyIn_at (Nat.le_add_right _ _) (by omega), Nat.add_sub_cancel_left,
    installKernel_image disk (by rw [List.length_append]; omega) (by omega),
    areaOf_append_left (by omega), moduleTable, areaOf_bytes _ _ hlt]

theorem protStart_holdsAt (hsize : 64 + files.flatten.length ≤ 500 * 512) :
    HoldsAt (protStart (installKernel disk (moduleTable files ++ (files.flatten ++ rest))) mem)
      (64 + initCcBaseAddr) files.flatten := by
  intro i hi
  have hlen := length_moduleTable files
  have himage : 64 + i < (moduleTable files ++ (files.flatten ++ rest)).length := by
    rw [List.length_append, List.length_append]
    omega
  have hat : 64 + initCcBaseAddr + i = initCcBaseAddr + (64 + i) := by omega
  rw [protStart_eq, ByteArea.copyIn_of_not (by rw [initCcBaseAddr, modulesTablBase]; omega), hat,
    ByteArea.copyIn_at (Nat.le_add_right _ _) (by omega), Nat.add_sub_cancel_left,
    installKernel_image disk himage (by omega)]
  conv => lhs; rw [← hlen]
  rw [areaOf_append_right, areaOf_append_left hi]

/-- The loader copies the segments of all modules to where they belong. -/
theorem Bootable.boots (hbootable : Bootable files) (hfew : files.length < 16) :
    Boots (installKernel disk (moduleTable files ++ (files.flatten ++ rest))) mem
      (Placement.placeAll (protStart (installKernel disk
        (moduleTable files ++ (files.flatten ++ rest))) mem) (allSegments files)) := by
  have hsize := hbootable.size
  have hmax : 64 + initCcBaseAddr + files.flatten.length ≤ 2 ^ 32 := by
    rw [initCcBaseAddr]
    omega
  exact leaves_loadModules (protStart_lists hsize hfew) (by omega) hbootable.loadable
    (protStart_holdsAt hsize) (Nat.le_refl _) hmax

end Image

/-- Whatever an earlier build left in the image, on the disk and in memory: the loader ends, every
segment of every module is where it belongs, and above the loader nothing else is changed but
the place the image is read to. -/
theorem boot_loads_modules (old kernel mm fs dr net terminal : List (BitVec 8))
    (disk mem : ByteArea) (hbootable : Bootable [kernel, mm, fs, dr, net, terminal]) :
    ∃ final, Boots (installKernel disk (buildImage old kernel mm fs dr net terminal)) mem final ∧
      (∀ file ∈ [kernel, mm, fs, dr, net, terminal],
        ∀ header ∈ programHeaders (areaOf file), header.Used → ∀ i < header.fileSize,
          final (header.vaddr + i) = areaOf file (header.offset + i)) ∧
      ∀ k, loaderEnd ≤ k → ¬ (initCcBaseAddr ≤ k ∧ k < initCcBaseAddr + 500 * 512) →
        (∀ segment ∈ allSegments [kernel, mm, fs, dr, net, terminal], ¬ segment.Covers k) →
        final k = mem k := by
  obtain ⟨rest, himage⟩ := buildImage_eq old kernel mm fs dr net terminal
  rw [himage]
  refine ⟨_, hbootable.boots (by simp), fun file hfile header hheader hused i hi => ?_,
    fun k hlow hbuffer hout => ?_⟩
  · have hmem : header.placement (areaOf file) ∈
        allSegments [kernel, mm, fs, dr, net, terminal] :=
      List.mem_flatMap.mpr ⟨file, hfile, List.mem_map_of_mem
        (List.mem_filter.mpr ⟨hheader, decide_eq_true hused⟩)⟩
    exact Placement.placeAll_at hbootable.apart hmem hi
  · rw [loaderEnd] at hlow
    rw [Placement.placeAll_of_not hout, protStart_eq, ByteArea.copyIn_of_not (by omega),
      ByteArea.copyIn_of_not (by omega)]

instance (file : List (BitVec 8)) (base stop : Nat) : Decidable (Loadable file base stop) :=
  decidable_of_iff (46 ≤ file.length ∧ (areaOf file).getLE 2 44 ≠ 0 ∧
      (∀ i < (areaOf file).getLE 2 44, headerOffset (areaOf file) i + 20 ≤ file.length) ∧
      (∀ i < (areaOf file).getLE 2 44,
        (base + (areaOf file).getLE 4 28) % 2 ^ 16 + i * (areaOf file).getLE 2 42 < 2 ^ 16) ∧
      ∀ segment ∈ segments (areaOf file), Fits file base stop segment)
    ⟨fun ⟨header, phnum_ne, inside, carry, fits⟩ => ⟨header, phnum_ne, inside, carry, fits⟩,
      fun ⟨header, phnum_ne, inside, carry, fits⟩ => ⟨header, phnum_ne, inside, carry, fits⟩⟩

instance decidableAllLoadable (stop base : Nat) (files : List (List (BitVec 8))) :
    Decidable (AllLoadable stop base files) :=
  match files with
  | [] => inferInstanceAs (Decidable True)
  | file :: rest =>
      have := decidableAllLoadable stop (base + file.length) rest
      inferInstanceAs (Decidable (_ ∧ _))

/-- A module of one segment with one byte, linked at a multiple of 64 KiB. -/
def smallModule (page byte : BitVec 8) : List (BitVec 8) :=
  List.replicate 28 0 ++ [46, 0, 0, 0] ++ List.replicate 10 0 ++ [32, 0, 1, 0] ++
    [1, 0, 0, 0, 66, 0, 0, 0, 0, 0, page, 0, 0, 0, 0, 0, 1, 0, 0, 0, byte]

theorem boot_loads_modules_small :
    ∃ final, Boots (installKernel .zeros (buildImage [] (smallModule 1 0x6b) (smallModule 2 0x6d)
        (smallModule 3 0x66) (smallModule 4 0x64) (smallModule 5 0x6e) (smallModule 6 0x74)))
        .zeros final ∧ final 0x60000 = 0x74 := by
  have hbootable : Bootable [smallModule 1 0x6b, smallModule 2 0x6d, smallModule 3 0x66,
      smallModule 4 0x64, smallModule 5 0x6e, smallModule 6 0x74] :=
    ⟨by decide +kernel, by decide +kernel, by decide +kernel⟩
  obtain ⟨final, hboots, hsegments, -⟩ :=
    boot_loads_modules [] _ _ _ _ _ _ .zeros .zeros hbootable
  exact ⟨final, hboots, hsegments (smallModule 6 0x74) (by decide +kernel)
    ⟨1, 66, 0x60000, 1⟩ (by decide +kernel) (by decide) 0 (by decide)⟩

end Shmily.Kernel
