import Shmily.Fs.Append

/-! # The sectors that a write reaches

`write_file` takes its disk addresses from the slots of the inode. A slot that the
allocating loop has not filled is zero, and the write then goes to sector 0 of the
disk. A call whose slots are all in use keeps to the sectors of its file, the
sector of its inode and the block bitmap.
-/

namespace Shmily.Fs.Server

open Foundation Lib

/-- The sector indices that the text is written to. -/
def WritesTo (plan : WritePlan) (i : Nat) : Prop :=
  i = plan.startSector ∨ plan.startSector + 1 ≤ i ∧ (i : Int) < plan.sectorCnts - 1 ∨
    sectorSize - plan.startPos < plan.count ∧
      i = max (plan.startSector + 1) (plan.sectorCnts - 1).toNat

/-- The arguments of a call. -/
structure WriteCall where
  str : StringBuffer
  count : Nat
  mode : Byte

/-- The arithmetic of the call on a file. -/
def WriteCall.plan (call : WriteCall) (inode : Inode) : WritePlan :=
  writePlan inode.size call.str.strlen call.count call.mode

/-- The size that the call gives the file. -/
def WriteCall.size (call : WriteCall) (inode : Inode) : Nat :=
  if call.mode = fileAppend then inode.size + (call.plan inode).count else (call.plan inode).count

def write (fs : Server) (fd : Nat) (call : WriteCall) : Option Server :=
  fs.writeFile fd call.str call.count call.mode

/-- The size stays in nine sectors, and there are free blocks for the missing ones. -/
def HasRoom (fs : Server) (inode : Inode) (call : WriteCall) : Prop :=
  call.size inode < 9 * 512 ∧
    missing inode (indices (call.plan inode).startSector ((call.plan inode).sectorCnts + 1)) ≤
      fs.blockBmap.clearCount

/-- Every slot that the text is written to is in use, or is filled by the call. -/
def SlotsFilled (inode : Inode) (plan : WritePlan) : Prop :=
  ∀ i : Fin 9, WritesTo plan i → inode.sectors i ≠ 0 ∨ (i.val : Int) ≤ plan.sectorCnts

/-- A call changes the sectors of its file, which it had before or which were free, the
sector of its inode, and the block bitmap. -/
def KeepsInside (fs : Server) (fd : Nat) (fs' : Server) : Prop :=
  ∀ file, fs.fileDescTbl fd = some file → ∀ lba, fs'.disk lba ≠ fs.disk lba →
    lba = fs.inodeSector file.inode.inodeNo ∨ fs.InBlockBitmap lba ∨
      lba ≠ 0 ∧ ((∃ i, lba = file.inode.sectors i) ∨
        ¬ fs.Occupied lba ∧ ∃ file', fs'.fileDescTbl fd = some file' ∧ ∃ i, lba = file'.inode.sectors i)

/-- Each call returns and keeps inside its file. -/
def WritesInside (fs : Server) (fd : Nat) : List WriteCall → Prop
  | [] => True
  | call :: rest =>
      ∃ fs', fs.write fd call = some fs' ∧ fs.KeepsInside fd fs' ∧ fs'.WritesInside fd rest

/-- Each call has room, and fills its slots when it appends. -/
def CallsFillSlots (fs : Server) (fd : Nat) : List WriteCall → Prop
  | [] => True
  | call :: rest =>
      (∀ file, fs.fileDescTbl fd = some file → fs.HasRoom file.inode call ∧
        (call.mode = fileAppend → SlotsFilled file.inode (call.plan file.inode))) ∧
      ∀ fs', fs.write fd call = some fs' → fs'.CallsFillSlots fd rest

variable {fs fs' : Server} {fd lba : Nat} {file : OpenFile} {inode inode' : Inode}
  {plan : WritePlan} {mode : Byte}

theorem sectorAt_eq_some {i : Nat} (hat : inode.sectorAt i = some lba) :
    ∃ hi : i < 9, inode.sectors ⟨i, hi⟩ = lba := by
  simpa only [Inode.sectorAt, Option.dite_none_right_eq_some, Option.some.injEq] using hat

/-- A write of whole sectors changes the disk at these sectors. -/
theorem writeWhole_spec {str : ByteArea} {indices : List Nat}
    (hwrite : fs.writeWhole inode str indices = some fs') :
    fs' = { fs with disk := fs'.disk } ∧
      ∀ lba, (∀ i ∈ indices, inode.sectorAt i ≠ some lba) → fs'.disk lba = fs.disk lba := by
  induction indices generalizing fs with
  | nil =>
      rw [writeWhole, Option.some.injEq] at hwrite
      exact ⟨by rw [hwrite], fun _ _ => by rw [hwrite]⟩
  | cons i rest ih =>
      simp only [writeWhole, Option.bind_eq_bind, Option.bind_eq_some_iff] at hwrite
      obtain ⟨sector, hat, hrest⟩ := hwrite
      obtain ⟨hserver, hframe⟩ := ih hrest
      refine ⟨hserver, fun lba hnot => ?_⟩
      rw [hframe lba fun j hj => hnot j (List.mem_cons_of_mem i hj)]
      refine writeDisk_disk_of_ne fun heq => hnot i List.mem_cons_self ?_
      rw [hat, heq]

/-- The part that writes the text changes the disk at the sectors it writes to. -/
theorem writeData_spec {str : ByteArea} (hwrite : fs.writeData inode str plan = some fs') :
    fs' = { fs with disk := fs'.disk } ∧
      ∀ lba, (∀ i, WritesTo plan i → inode.sectorAt i ≠ some lba) → fs'.disk lba = fs.disk lba := by
  simp only [writeData, Option.bind_eq_bind, Option.bind_eq_some_iff] at hwrite
  obtain ⟨first, hfirst, fs₁, hwhole, hlast⟩ := hwrite
  obtain ⟨hserver₁, hframe₁⟩ := writeWhole_spec hwhole
  have hkept : ∀ lba, (∀ i, WritesTo plan i → inode.sectorAt i ≠ some lba) →
      fs₁.disk lba = fs.disk lba := by
    intro lba hnot
    rw [hframe₁ lba fun i hi => hnot i (.inr (.inl ?_))]
    · exact writeDisk_disk_of_ne fun heq => hnot _ (.inl rfl) (by rw [hfirst, heq])
    · simp only [indices, List.mem_range'_1] at hi
      omega
  split at hlast
  next hmore =>
    obtain ⟨last, hat, hresult⟩ := Option.bind_eq_some_iff.mp hlast
    rw [Option.some.injEq] at hresult
    refine ⟨?_, fun lba hnot => ?_⟩
    · rw [← hresult, hserver₁]
      rfl
    · rw [← hresult, ← hkept lba hnot]
      exact writeDisk_disk_of_ne fun heq => hnot _ (.inr (.inr ⟨hmore, rfl⟩)) (by rw [hat, heq])
  next =>
    rw [Option.some.injEq] at hlast
    subst hlast
    refine ⟨?_, hkept⟩
    rw [hserver₁]
    rfl

/-! ### Calls that return -/

theorem exists_bind_eq_some {α β : Type} {x : Option α} {f : α → Option β}
    (hx : ∃ a, x = some a) (hf : ∀ a, ∃ b, f a = some b) : ∃ b, x.bind f = some b := by
  obtain ⟨a, rfl⟩ := hx
  exact hf a

theorem exists_sectorAt {i : Nat} (hi : i < 9) : ∃ lba, inode.sectorAt i = some lba :=
  ⟨_, dif_pos hi⟩

theorem exists_writeWhole {indices : List Nat} (hlt : ∀ i ∈ indices, i < 9) (str : ByteArea) :
    ∃ fs', fs.writeWhole inode str indices = some fs' := by
  induction indices generalizing fs with
  | nil => exact ⟨fs, rfl⟩
  | cons i rest ih =>
      exact exists_bind_eq_some (exists_sectorAt (hlt i List.mem_cons_self)) fun lba =>
        ih fun j hj => hlt j (List.mem_cons_of_mem i hj)

/-- The text can be written when all its sectors have a slot. -/
theorem exists_writeData (hlt : ∀ i, WritesTo plan i → i < 9) (str : ByteArea) :
    ∃ fs', fs.writeData inode str plan = some fs' := by
  refine exists_bind_eq_some (exists_sectorAt (hlt _ (.inl rfl))) fun lba =>
    exists_bind_eq_some (exists_writeWhole (fun i hi => hlt i (.inr (.inl ?_))) _) fun fs₁ => ?_
  · simp only [indices, List.mem_range'_1] at hi
    omega
  · split
    next hmore =>
      exact exists_bind_eq_some (exists_sectorAt (hlt _ (.inr (.inr ⟨hmore, rfl⟩)))) fun last =>
        ⟨_, rfl⟩
    next => exact ⟨_, rfl⟩

/-- All indices of a call are slots of the inode when the size stays in nine sectors. -/
theorem plan_bounds {call : WriteCall} (hsize : call.size inode < 9 * 512) :
    0 ≤ (call.plan inode).sectorCnts ∧ (call.plan inode).sectorCnts ≤ 8 ∧
      ∀ i, WritesTo (call.plan inode) i → i < 9 := by
  simp only [WriteCall.size, WriteCall.plan] at hsize ⊢
  rcases eq_or_ne call.mode fileAppend with hmode | hmode
  · simp only [hmode, writePlan, if_true, WritesTo, sectorSize] at hsize ⊢
    rw [Nat.mod_eq_of_lt (by omega)]
    refine ⟨by omega, by omega, fun i hi => by omega⟩
  · simp only [hmode, writePlan, if_false, WritesTo, sectorSize] at hsize ⊢
    refine ⟨by omega, by omega, fun i hi => by omega⟩

/-- A call for which there is room returns. -/
theorem exists_write {call : WriteCall} (hfd : fd < 64)
    (hroom : ∀ file, fs.fileDescTbl fd = some file → fs.HasRoom file.inode call) :
    ∃ fs', fs.write fd call = some fs' := by
  cases hopen : fs.fileDescTbl fd with
  | none => exact ⟨fs, writeFile_closed hfd hopen⟩
  | some file =>
      cases hwrite : fs.checkInodePermission file.inode accessWrite with
      | false => exact ⟨fs, writeFile_denied hfd hopen hwrite⟩
      | true =>
          obtain ⟨hsize, hfree⟩ := hroom file hopen
          obtain ⟨hlow, hhigh, hslots⟩ := plan_bounds hsize
          have hindices : ∀ i ∈ indices (call.plan file.inode).startSector
              ((call.plan file.inode).sectorCnts + 1), i < 9 := by
            intro i hi
            simp only [indices, List.mem_range'_1] at hi
            omega
          obtain ⟨fs₁, inode₁, halloc⟩ := exists_allocateSectors List.nodup_range' hindices hfree
          obtain ⟨fs₂, hdata⟩ := exists_writeData hslots call.str.bytes
          exact ⟨_, (writeFile_eq_some_iff hfd hopen hwrite).mpr
            ⟨fs₁, inode₁, fs₂, halloc, hdata, Int.le_add_one hlow, rfl⟩⟩

/-! ### The sectors of a call -/

theorem WritesTo.startSector_le {i : Nat} (hwrites : WritesTo plan i) : plan.startSector ≤ i := by
  simp only [WritesTo] at hwrites
  omega

/-- The sectors of the text are recorded in the inode, before the call or by it. -/
theorem recorded_of_writesTo {fs₁ : Server} {inode₁ : Inode} {i : Nat} (hlayout : fs.Layout)
    (mode : Byte)
    (halloc : fs.allocateSectors inode (indices plan.startSector (plan.sectorCnts + 1)) =
      some (fs₁, inode₁))
    (hslots : SlotsFilled inode plan) (hwrites : WritesTo plan i)
    (hat : inode₁.sectorAt i = some lba) :
    lba ≠ 0 ∧ ((∃ j, lba = inode.sectors j) ∨
      ¬ fs.Occupied lba ∧ ∃ j, lba = (finalInode inode₁ plan mode).sectors j) := by
  have hspec := allocateSectors_spec halloc
  obtain ⟨hi, rfl⟩ := sectorAt_eq_some hat
  have hmem : (i : Int) ≤ plan.sectorCnts → i ∈ indices plan.startSector (plan.sectorCnts + 1) := by
    intro hle
    have hstart := hwrites.startSector_le
    simp only [indices, List.mem_range'_1]
    omega
  have hne : inode₁.sectors ⟨i, hi⟩ ≠ 0 := by
    by_cases hzero : inode.sectors ⟨i, hi⟩ = 0
    · have hle := (hslots ⟨i, hi⟩ hwrites).resolve_left (not_not_intro hzero)
      exact allocateSectors_ne_zero hlayout halloc (hmem hle) hi
    · rwa [hspec.sectors_of_ne_zero hzero]
  refine ⟨hne, ?_⟩
  rcases hspec.sectors ⟨i, hi⟩ with hsame | ⟨hzero, bit, hbit, hclear, hnew⟩
  · exact .inl ⟨_, hsame⟩
  · -- a sector that is new was free, and the end of the call keeps it
    have hle : (i : Int) ≤ plan.sectorCnts :=
      (hslots ⟨i, hi⟩ hwrites).resolve_left (not_not_intro hzero)
    refine .inr ⟨fun hoccupied => ?_, ⟨i, hi⟩, ?_⟩
    · exact blockLba_ne hlayout hbit hclear hoccupied hnew.symm
    · rw [finalInode_sectors, if_pos (by simp only; omega)]

/-- A permitted call whose slots are filled keeps inside its file. -/
theorem write_keepsInside {call : WriteCall} (hlayout : fs.Layout) (hfd : fd < 64)
    (hopen : fs.fileDescTbl fd = some file)
    (hslots : SlotsFilled file.inode (call.plan file.inode))
    (hwrite : fs.checkInodePermission file.inode accessWrite = true)
    (hresult : fs.write fd call = some fs') :
    fs'.sb = fs.sb ∧ fs'.blockBmap.bytesLen = fs.blockBmap.bytesLen ∧ fs.KeepsInside fd fs' := by
  obtain ⟨fs₁, inode₁, fs₂, halloc, hdata, -, rfl⟩ :=
    (writeFile_eq_some_iff hfd hopen hwrite).mp hresult
  change fs.allocateSectors file.inode (indices (call.plan file.inode).startSector
    ((call.plan file.inode).sectorCnts + 1)) = some (fs₁, inode₁) at halloc
  have hspec := allocateSectors_spec halloc
  have hserver : fs₂ = { (fs₁.syncInode inode₁).syncBlockBitmap with disk := fs₂.disk } :=
    (writeData_spec hdata).1
  have hsb : fs₂.sb = fs.sb := by
    rw [hserver, ← hspec.sb]
    rfl
  refine ⟨by rw [finishWrite_sb, hsb], ?_, ?_⟩
  · rw [finishWrite_bytesLen, hserver, ← hspec.bytesLen]
    rfl
  intro file₀ hopen₀ lba hchanged
  obtain rfl : file = file₀ := Option.some.inj (hopen.symm.trans hopen₀)
  by_cases hinode : lba = fs.inodeSector file.inode.inodeNo
  · exact .inl hinode
  by_cases hbitmap : fs.InBlockBitmap lba
  · exact .inr (.inl hbitmap)
  refine .inr (.inr ?_)
  -- the two stores of the inode and of the bitmap do not reach the sector
  have hsector : ∀ server : Server, server.sb = fs.sb → lba ≠ server.inodeSector inode₁.inodeNo := by
    intro server hserverSb
    rwa [inodeSector, hserverSb, hspec.inodeNo]
  have hnotBitmap : ∀ server : Server, server.sb = fs.sb → ¬ server.InBlockBitmap lba := by
    intro server hserverSb
    rwa [InBlockBitmap, hserverSb]
  rw [finishWrite_disk (hsector fs₂ hsb) (hnotBitmap fs₂ hsb)] at hchanged
  have hmid : (fs₁.syncInode inode₁).syncBlockBitmap.disk lba = fs.disk lba := by
    rw [syncBlockBitmap_disk_of_not (hnotBitmap (fs₁.syncInode inode₁) hspec.sb),
      syncInode_disk_of_ne (hsector fs₁ hspec.sb), hspec.disk]
  obtain ⟨i, hwrites, hat⟩ : ∃ i, WritesTo (call.plan file.inode) i ∧
      inode₁.sectorAt i = some lba := by
    by_contra hnone
    have hframe := (writeData_spec hdata).2 lba fun i hwrites hat => hnone ⟨i, hwrites, hat⟩
    exact hchanged (hframe.trans hmid)
  obtain ⟨hne, hbefore | ⟨hfree, hafter⟩⟩ :=
    recorded_of_writesTo hlayout call.mode halloc hslots hwrites hat
  · exact ⟨hne, .inl hbefore⟩
  · refine ⟨hne, .inr ⟨hfree, { file with
      inode := finalInode inode₁ (call.plan file.inode) call.mode }, ?_, hafter⟩⟩
    rw [finishWrite_fileDescTbl]
    exact Function.update_self ..

/-- A call that replaces the content allocates all the slots it writes to. -/
theorem slotsFilled_of_cover {call : WriteCall} (hmode : call.mode ≠ fileAppend) :
    SlotsFilled inode (call.plan inode) := by
  intro i hwrites
  simp only [WriteCall.plan, writePlan, if_neg hmode, WritesTo, sectorSize] at hwrites ⊢
  omega

/-- A call that changes nothing keeps inside its file. -/
theorem keepsInside_self (fs : Server) (fd : Nat) : fs.KeepsInside fd fs :=
  fun _ _ _ hchanged => absurd rfl hchanged

/-- In a sequence of calls in any mix of modes, each call returns and keeps inside its
file, as long as those that append fill their slots. -/
theorem writes_stay_inside {calls : List WriteCall} (hlayout : fs.Layout) (hfd : fd < 64)
    (hcalls : fs.CallsFillSlots fd calls) : fs.WritesInside fd calls := by
  induction calls generalizing fs with
  | nil => trivial
  | cons call rest ih =>
      obtain ⟨hfirst, hrest⟩ := hcalls
      obtain ⟨fs', hresult⟩ := exists_write hfd fun file hopen => (hfirst file hopen).1
      have hstep : fs'.sb = fs.sb ∧ fs'.blockBmap.bytesLen = fs.blockBmap.bytesLen ∧
          fs.KeepsInside fd fs' := by
        cases hopen : fs.fileDescTbl fd with
        | none =>
            rw [write, writeFile_closed hfd hopen, Option.some.injEq] at hresult
            rw [← hresult]
            exact ⟨rfl, rfl, keepsInside_self fs fd⟩
        | some file =>
            cases hwrite : fs.checkInodePermission file.inode accessWrite with
            | false =>
                rw [write, writeFile_denied hfd hopen hwrite, Option.some.injEq] at hresult
                rw [← hresult]
                exact ⟨rfl, rfl, keepsInside_self fs fd⟩
            | true =>
                have hslots : SlotsFilled file.inode (call.plan file.inode) := by
                  by_cases hmode : call.mode = fileAppend
                  · exact (hfirst file hopen).2 hmode
                  · exact slotsFilled_of_cover hmode
                exact write_keepsInside hlayout hfd hopen hslots hwrite hresult
      obtain ⟨hsb, hlen, hinside⟩ := hstep
      exact ⟨fs', hresult, hinside, ih (hlayout.congr hsb hlen) (hrest fs' hresult)⟩

/-- A call with a text of one repeated character. -/
def repeatedCall (strlen : Nat) (mode : Byte) : WriteCall :=
  { str := repeatedText strlen, count := strlen, mode := mode }

instance (fs : Server) (inode : Inode) (call : WriteCall) : Decidable (fs.HasRoom inode call) :=
  inferInstanceAs (Decidable (_ ∧ _))

instance (plan : WritePlan) (i : Nat) : Decidable (WritesTo plan i) :=
  inferInstanceAs (Decidable (_ ∨ _ ∧ _ ∨ _ ∧ _))

instance (inode : Inode) (plan : WritePlan) : Decidable (SlotsFilled inode plan) :=
  inferInstanceAs (Decidable (∀ i : Fin 9, WritesTo plan i → _ ∨ _))

/-- The content is replaced by two sectors of text, and ten bytes are appended to them. -/
theorem writes_stay_inside_two_sectors :
    smallServer.WritesInside 0 [repeatedCall 1000 fileCover, repeatedCall 10 fileAppend] := by
  have hsecond : ((smallServer.write 0 (repeatedCall 1000 fileCover)).bind fun fs₁ =>
      (fs₁.fileDescTbl 0).map fun file => decide (fs₁.HasRoom file.inode (repeatedCall 10 fileAppend) ∧
        SlotsFilled file.inode ((repeatedCall 10 fileAppend).plan file.inode))) = some true := by
    decide
  refine writes_stay_inside smallServer_layout (by decide) ⟨fun file hopen => ?_, fun fs₁ hfirst => ?_⟩
  · obtain rfl : emptyFile = file := Option.some.inj hopen
    exact ⟨by decide, fun hmode => absurd hmode (by decide)⟩
  · rw [hfirst, Option.bind_some] at hsecond
    refine ⟨fun file hopen => ?_, fun _ _ => trivial⟩
    rw [hopen, Option.map_some, Option.some.injEq, decide_eq_true_eq] at hsecond
    exact ⟨hsecond.1, fun _ => hsecond.2⟩

/-- Two sectors are filled and a byte is appended: it goes to sector 0 of the disk. -/
theorem append_writes_sector_zero :
    9 ≤ smallServer.blockBmap.clearCount ∧ ∃ fs₁ fs₂ fs₃,
      smallServer.write 0 (repeatedCall 512 fileAppend) = some fs₁ ∧
      fs₁.write 0 (repeatedCall 512 fileAppend) = some fs₂ ∧
      fs₂.write 0 (repeatedCall 1 fileAppend) = some fs₃ ∧ ¬ fs₂.KeepsInside 0 fs₃ := by
  have hseen : ((smallServer.write 0 (repeatedCall 512 fileAppend)).bind fun fs₁ =>
      (fs₁.write 0 (repeatedCall 512 fileAppend)).bind fun fs₂ =>
      (fs₂.write 0 (repeatedCall 1 fileAppend)).map fun fs₃ =>
        (fs₂.disk 0 0, fs₃.disk 0 0, fs₂.sb.blockBitmapLba,
          (fs₂.fileDescTbl 0).map fun file => fs₂.inodeSector file.inode.inodeNo)) =
      some (0, 0x61, 2, some 4) := by decide
  obtain ⟨fs₁, hfirst, hseen⟩ := Option.bind_eq_some_iff.mp hseen
  obtain ⟨fs₂, hsecond, hseen⟩ := Option.bind_eq_some_iff.mp hseen
  obtain ⟨fs₃, hthird, hseen⟩ := Option.map_eq_some_iff.mp hseen
  simp only [Prod.mk.injEq, Option.map_eq_some_iff] at hseen
  obtain ⟨hbefore, hafter, hbitmap, file, hopen, hsector⟩ := hseen
  refine ⟨by decide, fs₁, fs₂, fs₃, hfirst, hsecond, hthird, fun hinside => ?_⟩
  have hchanged : fs₃.disk 0 ≠ fs₂.disk 0 := by
    intro hsame
    rw [hsame, hbefore] at hafter
    exact absurd hafter (by decide)
  rcases hinside file hopen 0 hchanged with hzero | hzero | hzero
  · rw [hsector] at hzero
    cases hzero
  · rw [InBlockBitmap, hbitmap] at hzero
    omega
  · exact hzero.1 rfl

end Shmily.Fs.Server
