import Shmily.Fs.RoundTrip

/-! # Appending to a file

In mode `APPEND` the number of sectors is counted from the sector where the write
starts, but the loops that allocate and give back sectors use it as an index into
the file. A call that stays in the first sector, or fills the second one, is not
affected; a sequence of such calls leaves the concatenation of its texts.
-/

namespace Shmily.Fs

open Foundation Lib

/-- The characters of a text. -/
def StringBuffer.chars (str : StringBuffer) : List Byte := (List.range str.strlen).map str.bytes

namespace Server

/-- The bytes of a file: byte `k` lies in sector `k / 512`, at place `k % 512`. -/
def content (fs : Server) (inode : Inode) : List Byte :=
  (List.range inode.size).map fun k => fs.disk (inode.sectors (Fin.ofNat 9 (k / 512))) (k % 512)

/-- A sequence of calls of `write_file` in mode `APPEND` through one descriptor. -/
def appendAll (fs : Server) (fd : Nat) : List StringBuffer → Option Server
  | [] => some fs
  | str :: rest => do
      let fs ← fs.writeFile fd str str.strlen fileAppend
      fs.appendAll fd rest

/-- The file behind the descriptor holds just these texts, and has all its sectors. -/
def Appended (fs : Server) (fd : Nat) (strs : List StringBuffer) : Prop :=
  ∃ file, fs.fileDescTbl fd = some file ∧
    file.inode.size = (strs.map StringBuffer.strlen).sum ∧
    (∀ i : Fin 9, i.val * 512 < file.inode.size → file.inode.sectors i ≠ 0) ∧
    fs.content file.inode = strs.flatMap StringBuffer.chars

/-- The call stays in the first sector, or fills the second one. -/
def StaysInSector (size len : Nat) : Prop := size + len ≤ 512 ∨ size = 512 ∧ len = 512

/-- The arithmetic of `write_file` for a text that is appended. -/
def appendPlan (size count : Nat) : WritePlan where
  count := count
  startSector := size / sectorSize
  startPos := size % sectorSize
  sectorCnts := ((size + count) / sectorSize : Nat) - (size / sectorSize : Nat)
  lastSectorBytes := (size + count) % sectorSize

theorem writePlan_append {size count : Nat} (hlt : size + count < 2 ^ 32) :
    writePlan size count count fileAppend = appendPlan size count := by
  simp only [writePlan, Nat.lt_irrefl, if_false, if_true, Nat.mod_eq_of_lt hlt, appendPlan]

/-- There are free blocks for the sectors that the call allocates. -/
def EnoughBlocks (fs : Server) (inode : Inode) (len : Nat) : Prop :=
  missing inode (indices (appendPlan inode.size len).startSector
    ((appendPlan inode.size len).sectorCnts + 1)) ≤ fs.blockBmap.clearCount

instance (fs : Server) (inode : Inode) (len : Nat) : Decidable (fs.EnoughBlocks inode len) :=
  inferInstanceAs (Decidable (_ ≤ _))

/-- Every call finds free blocks and keeps to its sector. -/
def CallsStayInSector (fs : Server) (fd : Nat) : List StringBuffer → Prop
  | [] => True
  | str :: rest =>
      (∀ file, fs.fileDescTbl fd = some file →
        StaysInSector file.inode.size str.strlen ∧ fs.EnoughBlocks file.inode str.strlen) ∧
      ∀ fs', fs.writeFile fd str str.strlen fileAppend = some fs' → fs'.CallsStayInSector fd rest

/-- What a call needs and leaves: a writable descriptor on an inode of the table that
owns its sectors and has all those its size calls for. -/
structure Appendable (fs : Server) (fd : Nat) (file : OpenFile) : Prop where
  layout : fs.Layout
  descriptor : fd < 64
  isOpen : fs.fileDescTbl fd = some file
  writable : fs.checkInodePermission file.inode accessWrite = true
  inTable : fs.InTable file.inode.inodeNo
  owned : fs.Owned file.inode
  allocated : ∀ i : Fin 9, i.val * 512 < file.inode.size → file.inode.sectors i ≠ 0

variable {fs fs' : Server} {fd len : Nat} {file : OpenFile} {str : StringBuffer}

/-- The bytes after a call in terms of the bytes before it. -/
theorem content_append {inode inode' : Inode} (hsize : inode'.size = inode.size + str.strlen)
    (hold : ∀ k < inode.size,
      fs'.disk (inode'.sectors (Fin.ofNat 9 (k / 512))) (k % 512) =
        fs.disk (inode.sectors (Fin.ofNat 9 (k / 512))) (k % 512))
    (hnew : ∀ j < str.strlen, fs'.disk (inode'.sectors (Fin.ofNat 9 ((inode.size + j) / 512)))
      ((inode.size + j) % 512) = str.bytes j) :
    fs'.content inode' = fs.content inode ++ str.chars := by
  rw [content, hsize, List.range_add, List.map_append, List.map_map]
  congr 1
  · exact List.map_congr_left fun k hk => hold k (List.mem_range.mp hk)
  · exact List.map_congr_left fun j hj => hnew j (List.mem_range.mp hj)

/-- The plan of a call that stays in its sector: it starts there, ends there, and its
allocating loop reaches every sector that the new size calls for. -/
theorem appendPlan_spec {size : Nat} (hstays : StaysInSector size len) :
    (appendPlan size len).startSector < 9 ∧
      len ≤ sectorSize - (appendPlan size len).startPos ∧
      0 ≤ (appendPlan size len).sectorCnts ∧ (appendPlan size len).sectorCnts ≤ 1 ∧
      ∀ i, i * 512 < size + len → i ≤ (appendPlan size len).sectorCnts ∧
        (i * 512 < size ∨ (appendPlan size len).startSector ≤ i) := by
  simp only [StaysInSector] at hstays
  simp only [appendPlan, sectorSize]
  refine ⟨by omega, by omega, by omega, by omega, fun i hi => ?_⟩
  omega

/-- What a call that appends its text leaves. -/
structure AppendsText (fs : Server) (fd : Nat) (file : OpenFile) (str : StringBuffer)
    (fs' : Server) (file' : OpenFile) : Prop where
  ready : Appendable fs' fd file'
  size : file'.inode.size = file.inode.size + str.strlen
  content : fs'.content file'.inode = fs.content file.inode ++ str.chars
  fields : file'.inode =
    { file.inode with size := file'.inode.size, sectors := file'.inode.sectors }
  uid : fs'.uid = fs.uid
  stored : fs'.ino2inode file.inode.inodeNo = file'.inode.truncate

/-- One call appends its text. -/
theorem Appendable.writeFile (hready : Appendable fs fd file)
    (hstays : StaysInSector file.inode.size str.strlen)
    (henough : fs.EnoughBlocks file.inode str.strlen) :
    ∃ fs' file', fs.writeFile fd str str.strlen fileAppend = some fs' ∧
      AppendsText fs fd file str fs' file' := by
  obtain ⟨hlayout, hfd, hopen, hwrite, hin, howned, hallocated⟩ := hready
  have hlt : file.inode.size + str.strlen < 2 ^ 32 := by
    simp only [StaysInSector] at hstays
    omega
  obtain ⟨hstart, hcount, hlow, hhigh, hcover⟩ := appendPlan_spec hstays
  obtain ⟨fs₁, inode₁, fs', halloc, hresult, hwrote⟩ := exists_writeFile_first hlayout hfd hopen
    hwrite hin howned (writePlan_append hlt) hcount hlow hhigh hstart henough
  have hspec := allocateSectors_spec halloc
  have howned₁ := allocateSectors_owned hlayout halloc howned
  generalize hplan : appendPlan file.inode.size str.strlen = plan at *
  have hplanCount : plan.count = str.strlen := by rw [← hplan]; rfl
  have hplanStart : plan.startSector = file.inode.size / 512 := by rw [← hplan]; rfl
  have hplanPos : plan.startPos = file.inode.size % 512 := by rw [← hplan]; rfl
  -- the sectors that the new size calls for
  have hfinal : ∀ i : Fin 9, i.val * 512 < file.inode.size + str.strlen →
      (finalInode inode₁ plan fileAppend).sectors i = inode₁.sectors i ∧ inode₁.sectors i ≠ 0 := by
    intro i hi
    obtain ⟨hle, hbefore⟩ := hcover i hi
    refine ⟨?_, ?_⟩
    · rw [finalInode_sectors, if_pos (by omega)]
    · rcases hbefore with hbefore | hfrom
      · rw [hspec.sectors_of_ne_zero (hallocated i hbefore)]
        exact hallocated i hbefore
      · refine allocateSectors_ne_zero hlayout halloc ?_ i.isLt
        simp only [indices, List.mem_range'_1]
        omega
  have hsize : (finalInode inode₁ plan fileAppend).size = file.inode.size + str.strlen := by
    have hold : inode₁.size = file.inode.size := by rw [hspec.fields]
    change (inode₁.size + plan.count) % 2 ^ 32 = _
    rw [hold, hplanCount, Nat.mod_eq_of_lt hlt]
  refine ⟨fs', { file with inode := finalInode inode₁ plan fileAppend }, hresult, ?_, hsize, ?_, ?_,
    hwrote.uid, hwrote.inode⟩
  · constructor
    case layout => exact hlayout.congr hwrote.sb hwrote.bytesLen
    case descriptor => exact hfd
    case isOpen =>
      rw [hwrote.fileDescTbl]
      exact Function.update_self ..
    case writable =>
      rw [← hwrite]
      exact checkInodePermission_congr hwrote.uid (by rw [hspec.fields]; rfl)
        (by rw [hspec.fields]; rfl)
    case inTable =>
      have hino : (finalInode inode₁ plan fileAppend).inodeNo = file.inode.inodeNo := hspec.inodeNo
      rw [hino]
      exact hin.congr hwrote.sb
    case owned => exact hwrote.owned
    case allocated =>
      intro i hi
      rw [hsize] at hi
      rw [(hfinal i hi).1]
      exact (hfinal i hi).2
  · refine content_append hsize (fun k hk => ?_) (fun j hj => ?_)
    · have hval : (Fin.ofNat 9 (k / 512)).val = k / 512 := Nat.mod_eq_of_lt (by omega)
      have hbelow : (Fin.ofNat 9 (k / 512)).val * 512 < file.inode.size := by
        rw [hval]
        omega
      have hne := hallocated _ hbelow
      rw [(hfinal _ (Nat.lt_add_right _ hbelow)).1]
      apply hwrote.old_byte howned howned₁ (hspec.sectors_of_ne_zero hne) hne
      intro heq
      have hdiv : k / 512 = file.inode.size / 512 := by rw [← hval, heq, ← hplanStart]
      omega
    · have hplace : (file.inode.size + j) / 512 = plan.startSector ∧
          (file.inode.size + j) % 512 = plan.startPos + j := by
        simp only [sectorSize] at hcount
        omega
      have hindex : Fin.ofNat 9 ((file.inode.size + j) / 512) = ⟨plan.startSector, hstart⟩ := by
        ext
        rw [hplace.1]
        exact Nat.mod_eq_of_lt hstart
      have hbelow : plan.startSector * 512 < file.inode.size + str.strlen := by omega
      obtain ⟨hsame, hne⟩ := hfinal ⟨plan.startSector, hstart⟩ hbelow
      have hdata := hspec.isDataSector hlayout
        (fun h => (howned.occupied _ h).isDataSector) hne
      rw [hindex, hsame, hplace.2]
      exact hwrote.new_byte hdata (hplanCount ▸ hj)
  · rw [hspec.fields]
    rfl

/-- A sequence of calls appends its texts. -/
theorem Appendable.appendAll {strs : List StringBuffer} (hready : Appendable fs fd file)
    (hcalls : fs.CallsStayInSector fd strs) :
    ∃ fs' file', fs.appendAll fd strs = some fs' ∧ Appendable fs' fd file' ∧
      file'.inode.size = file.inode.size + (strs.map StringBuffer.strlen).sum ∧
      fs'.content file'.inode = fs.content file.inode ++ strs.flatMap StringBuffer.chars := by
  induction strs generalizing fs file with
  | nil => exact ⟨fs, file, rfl, hready, by simp, by simp⟩
  | cons str rest ih =>
      obtain ⟨hfirst, hrest⟩ := hcalls
      obtain ⟨hstays, henough⟩ := hfirst file hready.isOpen
      obtain ⟨fs₁, file₁, hresult, hfirst⟩ := hready.writeFile hstays henough
      obtain ⟨fs₂, file₂, hrun, hready₂, hsize₂, hcontent₂⟩ := ih hfirst.ready (hrest fs₁ hresult)
      refine ⟨fs₂, file₂, ?_, hready₂, ?_, ?_⟩
      · rw [Server.appendAll, hresult]
        exact hrun
      · rw [hsize₂, hfirst.size, List.map_cons, List.sum_cons, Nat.add_assoc]
      · rw [hcontent₂, hfirst.content, List.flatMap_cons, List.append_assoc]

theorem CallsStayInSector.of_append {done rest : List StringBuffer}
    (hcalls : fs.CallsStayInSector fd (done ++ rest)) : fs.CallsStayInSector fd done := by
  induction done generalizing fs with
  | nil => trivial
  | cons str done ih => exact ⟨hcalls.1, fun fs' hresult => ih (hcalls.2 fs' hresult)⟩

/-- As long as every call stays in its sector, the file holds after each call the texts
written so far. -/
theorem appends_concatenate {strs : List StringBuffer} (hready : Appendable fs fd file)
    (hempty : file.inode.size = 0) (hcalls : fs.CallsStayInSector fd strs) :
    ∀ done, done <+: strs → ∃ fs', fs.appendAll fd done = some fs' ∧ fs'.Appended fd done := by
  rintro done ⟨rest, rfl⟩
  obtain ⟨fs', file', hrun, hready', hsize, hcontent⟩ := hready.appendAll hcalls.of_append
  refine ⟨fs', hrun, file', hready'.isOpen, ?_, hready'.allocated, ?_⟩
  · rw [hsize, hempty, Nat.zero_add]
  · have hnone : fs.content file.inode = [] := by rw [content, hempty]; rfl
    rw [hcontent, hnone, List.nil_append]

theorem smallServer_appendable : Appendable smallServer 0 emptyFile where
  layout := smallServer_layout
  descriptor := by decide
  isOpen := rfl
  writable := by decide
  inTable := by decide
  owned := emptyFile_owned
  allocated := fun _ hlt => absurd hlt (Nat.not_lt_zero _)

/-- Two calls that fill the first sector. -/
theorem appends_concatenate_two :
    ∃ fs', smallServer.appendAll 0 [repeatedText 500, repeatedText 12] = some fs' ∧
      fs'.Appended 0 [repeatedText 500, repeatedText 12] := by
  have hseen : (smallServer.writeFile 0 (repeatedText 500) 500 fileAppend).map (fun fs =>
      (fs.fileDescTbl 0).map fun file =>
        (file.inode.size, decide (fs.EnoughBlocks file.inode 12))) = some (some (500, true)) := by
    decide
  have hcalls : smallServer.CallsStayInSector 0 [repeatedText 500, repeatedText 12] := by
    refine ⟨fun file hopen => ?_, fun fs' hresult => ⟨fun file hopen => ?_, fun _ _ => trivial⟩⟩
    · obtain rfl : emptyFile = file := Option.some.inj hopen
      exact ⟨.inl (by decide), by decide⟩
    · have hresult' : smallServer.writeFile 0 (repeatedText 500) 500 fileAppend = some fs' := hresult
      rw [hresult', Option.map_some, hopen, Option.map_some, Option.some.injEq, Option.some.injEq,
        Prod.mk.injEq] at hseen
      obtain ⟨hsize, henough⟩ := hseen
      refine ⟨.inl ?_, of_decide_eq_true henough⟩
      rw [hsize]
      decide
  exact appends_concatenate smallServer_appendable rfl hcalls _ List.prefix_rfl

/-- A sector is filled and one more byte is appended: the second sector is given back,
although the file reaches into it. -/
theorem append_drops_sector :
    Appendable smallServer 0 emptyFile ∧ 9 ≤ smallServer.blockBmap.clearCount ∧
      ∃ fs', smallServer.appendAll 0 [repeatedText 512, repeatedText 1] = some fs' ∧
        ¬ fs'.Appended 0 [repeatedText 512, repeatedText 1] := by
  have hseen : (smallServer.appendAll 0 [repeatedText 512, repeatedText 1]).map (fun fs =>
      (fs.fileDescTbl 0).map fun file => (file.inode.size, file.inode.sectors 1)) =
      some (some (513, 0)) := by decide
  obtain ⟨fs', hrun, hseen⟩ := Option.map_eq_some_iff.mp hseen
  refine ⟨smallServer_appendable, by decide, fs', hrun, ?_⟩
  rintro ⟨file, hopen, -, hallocated, -⟩
  rw [hopen, Option.map_some, Option.some.injEq, Prod.mk.injEq] at hseen
  refine hallocated 1 ?_ hseen.2
  rw [hseen.1]
  decide

end Server

end Shmily.Fs
