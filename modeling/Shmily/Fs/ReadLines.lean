import Shmily.Fs.PositionalRead
import Shmily.Fs.SharedFile
import Shmily.Lib.Readline

/-! # Reading a file line by line

`readline` asks the server for one byte at a time. Such a read never leaves its sector, so
an open file is read like a file of the byte store, and the lines are those of its content.
-/

namespace Shmily.Fs

open Foundation Lib

namespace Server

/-- `read` to a place in an array of the caller. -/
def readInto (fs : Server) (fd : Nat) (buf : List Byte) (pos count : Nat) :
    Option (Server × List Byte × Nat) := do
  let (fs, area, len) ← fs.readFile fd (fun k => buf.getD (pos + k) 0) count
  if pos + count ≤ buf.length then
    some (fs, buf.take pos ++ (List.range (buf.length - pos)).map area, len)
  else none

/-- The loop of `readline`, at most so many times; `pos` is where `buf` points to. The
result of `read` is not looked at. -/
def readlineFrom (fd : Nat) : Nat → Server → List Byte → Nat → Option (Server × List Byte)
  | 0, _, _, _ => none
  | fuel + 1, fs, buf, pos => do
      if ← fs.isEof fd then some (fs, buf)
      else
        let (fs, buf, _) ← fs.readInto fd buf pos 1
        let char ← buf[pos]?
        if char = newline then do
          let buf ← putChar buf (pos + 1) 0
          some (fs, buf)
        else readlineFrom fd fuel fs buf (pos + 1)

/-- `readline`. Each turn needs an element of the array. -/
def readline (fs : Server) (fd : Nat) (buf : List Byte) : Option (Server × List Byte) :=
  readlineFrom fd (buf.length + 1) fs buf 0

/-- The loop of a reader, at most so many times: until `eof`, a line into an array of zeros. -/
def readLines (fd size : Nat) : Nat → Server → Option (Server × List (List Byte))
  | 0, _ => none
  | fuel + 1, fs => do
      if ← fs.isEof fd then some (fs, [])
      else
        let (fs, buf) ← fs.readline fd (List.replicate size 0)
        let line ← stringAt buf 0
        let (fs, lines) ← readLines fd size fuel fs
        some (fs, line :: lines)

end Server

/-- A line ends in its only newline. -/
def IsLine (line : List Byte) : Prop := ∃ chars, newline ∉ chars ∧ line = chars ++ [newline]

/-- The content is cut into lines; only the last may be without its newline. -/
structure CutIntoLines (content : List Byte) (lines : List (List Byte)) : Prop where
  flatten : lines.flatten = content
  complete : ∀ line ∈ lines.dropLast, IsLine line
  last : ∀ line, lines.getLast? = some line → IsLine line ∨ newline ∉ line

/-- Every line of the content, and a zero behind it, fits into so many bytes. -/
def LongEnough (size : Nat) (content : List Byte) : Prop :=
  ∀ line, line <:+: content → newline ∉ line.dropLast → line.length < size

/-- The open file has the content of a file of the store, and is read from the same place. -/
structure Represents {Path : Type} (fs : Server) (fd : Nat) (file : OpenFile)
    (store : FileStore Path) (handle : Foundation.OpenFile Path) : Prop where
  descriptor : fd < 64
  isOpen : fs.fileDescTbl fd = some file
  readable : fs.checkInodePermission file.inode Server.accessRead = true
  short : file.inode.size < 9 * 512
  within : file.offset ≤ file.inode.size
  content : store.content handle.path = fs.content file.inode
  offset : handle.offset = file.offset

namespace Represents

open Server

variable {Path : Type} {fs : Server} {fd fuel pos : Nat} {file : OpenFile}
  {store : FileStore Path} {handle after : Foundation.OpenFile Path} {byte : Byte}
  {buf buf' rest : List Byte}

theorem unread (hrep : Represents fs fd file store handle) :
    store.unread handle = (fs.content file.inode).drop file.offset := by
  rw [FileStore.unread, hrep.content, hrep.offset]

theorem isEof (hrep : Represents fs fd file store handle) :
    fs.isEof fd = some (store.isEof handle) := by
  have hend : decide (file.inode.size ≤ file.offset) = store.isEof handle := by
    rw [Bool.eq_iff_iff, FileStore.isEof_iff, decide_eq_true_iff, hrep.unread,
      List.drop_eq_nil_iff, content_length]
  simp only [Server.isEof, fileAt, if_pos hrep.descriptor, hrep.isOpen, Option.bind_eq_bind,
    Option.bind_some, hend]

/-- One byte is read, and the rest of the memory stays as it is. -/
theorem readFile_one (hrep : Represents fs fd file store handle)
    (hunread : store.unread handle = byte :: rest) (area : ByteArea) :
    ∃ fs' area', fs.readFile fd area 1 = some (fs', area', 1) ∧ area' 0 = byte ∧
      (∀ k, 1 ≤ k → area' k = area k) ∧
      Represents fs' fd { file with offset := file.offset + 1 } store
        { handle with offset := handle.offset + 1 } := by
  rw [hrep.unread] at hunread
  have hbyte : (fs.content file.inode)[file.offset]? = some byte := by
    rw [← List.head?_drop, hunread, List.head?_cons]
  have hlt : file.offset < file.inode.size := by
    rw [← content_length]
    exact (List.getElem?_eq_some_iff.mp hbyte).1
  have hone : min 1 file.inode.size = 1 := by omega
  obtain ⟨fs', area', hresult, rfl, hcopied, hkept⟩ := readFile_within 1 area hrep.descriptor
    hrep.isOpen hrep.readable hrep.short hrep.within (by omega)
  rw [hone] at hresult hcopied hkept
  have hfirst := hcopied 0 Nat.one_pos hlt
  rw [Nat.add_zero, hbyte, Option.some.injEq] at hfirst
  refine ⟨_, area', hresult, hfirst.symm, hkept, ?_⟩
  exact
    { descriptor := hrep.descriptor
      isOpen := Function.update_self ..
      readable := hrep.readable
      short := hrep.short
      within := hlt
      content := hrep.content
      offset := congrArg (· + 1) hrep.offset }

/-- One byte is read into an array. -/
theorem readInto_one (hrep : Represents fs fd file store handle)
    (hunread : store.unread handle = byte :: rest) (hstored : memcpy buf pos [byte] 1 = some buf') :
    ∃ fs', fs.readInto fd buf pos 1 = some (fs', buf', 1) ∧
      Represents fs' fd { file with offset := file.offset + 1 } store
        { handle with offset := handle.offset + 1 } := by
  obtain ⟨fs', area', hresult, hbyte, hkept, hnext⟩ :=
    hrep.readFile_one hunread fun k => buf.getD (pos + k) 0
  refine ⟨fs', ?_, hnext⟩
  rw [memcpy] at hstored
  split at hstored
  next hbounds =>
    obtain ⟨hpos, -⟩ := hbounds
    obtain ⟨room, hroom⟩ : ∃ room, buf.length - pos = room + 1 :=
      Nat.exists_eq_add_of_le' (by omega)
    have hrest : (List.range room).map (fun k => area' (k + 1)) = buf.drop (pos + 1) := by
      apply List.ext_getElem
      · rw [List.length_map, List.length_range, List.length_drop]
        omega
      · intro k hk hk'
        rw [List.length_drop] at hk'
        have hplace : pos + (k + 1) = pos + 1 + k := by omega
        rw [List.getElem_map, List.getElem_range, hkept (k + 1) (Nat.le_add_left 1 k), hplace,
          List.getElem_drop]
        exact (List.getElem_eq_getD 0).symm
    have harea : (List.range (buf.length - pos)).map area' = byte :: buf.drop (pos + 1) := by
      rw [hroom, List.range_succ_eq_map, List.map_cons, List.map_map, hbyte]
      exact congrArg (byte :: ·) hrest
    rw [Option.some.injEq] at hstored
    simp only [readInto, hresult, Option.bind_eq_bind, Option.bind_some, if_pos hpos, harea,
      ← hstored, List.take_succ_cons, List.take_zero, List.append_assoc, List.singleton_append]
  next => cases hstored

/-- What `readline` does with a file of the store it does with the open file. -/
theorem readlineFrom (hrep : Represents fs fd file store handle)
    (hread : Lib.readlineFrom store fuel handle buf pos = some (after, buf')) :
    ∃ fs' file', Server.readlineFrom fd fuel fs buf pos = some (fs', buf') ∧
      Represents fs' fd file' store after ∧ fs'.content file'.inode = fs.content file.inode := by
  induction fuel generalizing fs file handle buf pos with
  | zero => cases hread
  | succ fuel ih =>
      rw [Lib.readlineFrom] at hread
      rw [Server.readlineFrom, hrep.isEof]
      cases hunread : store.unread handle with
      | nil =>
          have hend := FileStore.isEof_iff.mpr hunread
          rw [if_pos hend] at hread
          cases hread
          rw [hend]
          exact ⟨fs, file, rfl, hrep, rfl⟩
      | cons byte rest =>
          have hmore : store.isEof handle = false := by
            rw [FileStore.isEof, hunread]
            rfl
          rw [hmore, if_neg (by decide), (FileStore.read_one hunread).1] at hread
          obtain ⟨buf₁, hstored, hread⟩ := Option.bind_eq_some_iff.mp hread
          obtain ⟨char, hchar, hread⟩ := Option.bind_eq_some_iff.mp hread
          obtain ⟨fs₁, hinto, hnext⟩ := hrep.readInto_one hunread hstored
          have hsame : fs₁.content file.inode = fs.content file.inode :=
            hnext.content.symm.trans hrep.content
          simp only [hmore, Option.bind_eq_bind, Option.bind_some, Bool.false_eq_true, if_false,
            hinto, hchar]
          split at hread
          next hnewline =>
            obtain ⟨buf₂, hput, hread⟩ := Option.bind_eq_some_iff.mp hread
            cases hread
            rw [if_pos hnewline, hput]
            exact ⟨fs₁, _, rfl, hnext, hsame⟩
          next hother =>
            rw [if_neg hother]
            obtain ⟨fs', file', hresult, hrep', hcontent⟩ := ih hnext hread
            exact ⟨fs', file', hresult, hrep', hcontent.trans hsame⟩

/-- The next line ends in a newline. -/
theorem readline_line {line : List Byte} {size : Nat} (hrep : Represents fs fd file store handle)
    (hunread : store.unread handle = line ++ newline :: rest) (hline : newline ∉ line)
    (hnul : 0 ∉ line) (hsize : line.length + 1 < size) :
    ∃ fs' file' after buf', fs.readline fd (List.replicate size 0) = some (fs', buf') ∧
      stringAt buf' 0 = some (line ++ [newline]) ∧ Represents fs' fd file' store after ∧
      store.unread after = rest ∧ fs'.content file'.inode = fs.content file.inode := by
  have hroom : line.length + 2 ≤ (List.replicate size (0 : Byte)).length := by
    rw [List.length_replicate]
    omega
  obtain ⟨after, hafter, -, hrest⟩ := readlineFrom_line handle [] hunread hline hroom
    (show line.length < (List.replicate size (0 : Byte)).length + 1 by omega)
  obtain ⟨fs', file', hresult, hrep', hcontent⟩ := hrep.readlineFrom hafter
  have hstring : 0 ∉ line ++ [newline] :=
    List.not_mem_append hnul (mt List.mem_singleton.mp (by decide))
  refine ⟨fs', file', after, _, hresult, ?_, hrep', hrest, hcontent⟩
  rw [List.nil_append, List.append_cons]
  exact stringAt_zero _ hstring

/-- The file ends without a newline. -/
theorem readline_last {line : List Byte} {size : Nat} (hrep : Represents fs fd file store handle)
    (hunread : store.unread handle = line) (hline : newline ∉ line) (hnul : 0 ∉ line)
    (hsize : line.length < size) :
    ∃ fs' file' after buf', fs.readline fd (List.replicate size 0) = some (fs', buf') ∧
      stringAt buf' 0 = some line ∧ Represents fs' fd file' store after ∧
      store.unread after = [] := by
  have hroom : line.length ≤ (List.replicate size (0 : Byte)).length := by
    rw [List.length_replicate]
    omega
  obtain ⟨after, hafter, -, hrest⟩ := readlineFrom_last handle [] hunread hline hroom
    (show line.length < (List.replicate size (0 : Byte)).length + 1 by omega)
  obtain ⟨fs', file', hresult, hrep', -⟩ := hrep.readlineFrom hafter
  refine ⟨fs', file', after, _, hresult, ?_, hrep', hrest⟩
  obtain ⟨room, hzeros⟩ := Nat.exists_eq_add_of_lt hsize
  rw [List.nil_append, List.drop_replicate, hzeros, Nat.add_assoc, Nat.add_sub_cancel_left,
    List.replicate_succ]
  exact stringAt_zero _ hnul

end Represents

section

variable {content line rest : List Byte} {lines : List (List Byte)} {size : Nat}

theorem CutIntoLines.nil : CutIntoLines [] [] where
  flatten := rfl
  complete _ hmem := absurd hmem List.not_mem_nil
  last _ hlast := by cases hlast

/-- A last line without a newline. -/
theorem CutIntoLines.single (hline : newline ∉ line) : CutIntoLines line [line] where
  flatten := List.append_nil line
  complete _ hmem := absurd hmem List.not_mem_nil
  last _ hlast := by
    cases hlast
    exact .inr hline

theorem CutIntoLines.cons (hline : IsLine line) (hcut : CutIntoLines rest lines) :
    CutIntoLines (line ++ rest) (line :: lines) := by
  constructor
  case flatten => rw [List.flatten_cons, hcut.flatten]
  case complete =>
    intro other hmem
    cases lines with
    | nil => cases hmem
    | cons second lines =>
        rw [List.dropLast_cons_cons] at hmem
        rcases List.mem_cons.mp hmem with rfl | hrest
        · exact hline
        · exact hcut.complete other hrest
  case last =>
    intro other hlast
    cases lines with
    | nil =>
        cases hlast
        exact .inl hline
    | cons second lines =>
        rw [List.getLast?_cons_cons] at hlast
        exact hcut.last other hlast

theorem LongEnough.suffix (hlong : LongEnough size content) (hsuffix : rest <:+ content) :
    LongEnough size rest :=
  fun line hinside hline => hlong line (hinside.trans hsuffix.isInfix) hline

/-- A line of the content, with its newline. -/
theorem LongEnough.whole (hlong : LongEnough size (line ++ newline :: rest))
    (hline : newline ∉ line) : line.length + 1 < size := by
  have hshort := hlong (line ++ [newline]) ⟨[], rest, by simp⟩ (by rwa [List.dropLast_concat])
  rwa [List.length_append] at hshort

theorem LongEnough.last (hlong : LongEnough size line) (hline : newline ∉ line) :
    line.length < size :=
  hlong line List.infix_rfl fun hmem => hline (List.mem_of_mem_dropLast hmem)

end

namespace Server

variable {fs fs' : Server} {fd size : Nat} {file : OpenFile}

/-- What is left of the file is read line by line. -/
theorem readLines_represents {Path : Type} {store : FileStore Path}
    {handle : Foundation.OpenFile Path} (hrep : Represents fs fd file store handle)
    (hnul : 0 ∉ store.unread handle) (hlong : LongEnough size (store.unread handle)) :
    ∃ fs' lines, CutIntoLines (store.unread handle) lines ∧
      ∀ fuel, (store.unread handle).length < fuel →
        readLines fd size fuel fs = some (fs', lines) := by
  -- each turn reads at least one byte
  generalize hlen : (store.unread handle).length = len
  induction len using Nat.strong_induction_on generalizing fs file handle with
  | _ len ih =>
      cases hunread : store.unread handle with
      | nil =>
          refine ⟨fs, [], .nil, fun fuel hfuel => ?_⟩
          obtain ⟨fuel, rfl⟩ := Nat.exists_eq_add_of_le' (Nat.one_le_of_lt hfuel)
          rw [readLines, hrep.isEof, FileStore.isEof_iff.mpr hunread]
          rfl
      | cons byte more =>
          have hmore : store.isEof handle = false := by
            rw [FileStore.isEof, hunread]
            rfl
          rw [hunread] at hnul hlong hlen
          by_cases hnewline : newline ∈ byte :: more
          · obtain ⟨line, rest, hsplit, hline⟩ := List.eq_append_cons_of_mem hnewline
            rw [hsplit] at hnul hlong hlen hunread ⊢
            have hnul' : 0 ∉ line := fun hmem => hnul (List.mem_append_left _ hmem)
            obtain ⟨fs₁, file₁, after, buf, hread, hstring, hrep₁, hrest, -⟩ :=
              hrep.readline_line hunread hline hnul' (hlong.whole hline)
            have hsuffix : rest <:+ line ++ newline :: rest := ⟨line ++ [newline], by simp⟩
            have hshort : rest.length < len := by
              rw [← hlen, List.length_append, List.length_cons]
              omega
            rw [← hrest] at hnul hlong hsuffix hshort
            obtain ⟨fs', lines, hcut, hlines⟩ := ih _ hshort hrep₁
              (fun hmem => hnul (hsuffix.subset hmem)) (hlong.suffix hsuffix) rfl
            refine ⟨fs', (line ++ [newline]) :: lines, ?_, fun fuel hfuel => ?_⟩
            · rw [List.append_cons, ← hrest]
              exact .cons ⟨line, hline, rfl⟩ hcut
            · obtain ⟨fuel, rfl⟩ :=
                Nat.exists_eq_add_of_le' (Nat.one_le_of_lt hfuel)
              have hnext := hlines fuel (by omega)
              simp only [readLines, hrep.isEof, hmore, Option.bind_eq_bind, Option.bind_some,
                Bool.false_eq_true, if_false, hread, hstring, hnext]
          · obtain ⟨fs₁, file₁, after, buf, hread, hstring, hrep₁, hrest⟩ :=
              hrep.readline_last hunread hnewline hnul (hlong.last hnewline)
            have hend : fs₁.isEof fd = some true := by
              rw [hrep₁.isEof, FileStore.isEof_iff.mpr hrest]
            refine ⟨fs₁, [byte :: more], .single hnewline, fun fuel hfuel => ?_⟩
            obtain ⟨fuel, rfl⟩ :=
              Nat.exists_eq_add_of_le' (Nat.one_le_of_lt hfuel)
            obtain ⟨fuel, rfl⟩ : ∃ left, fuel = left + 1 := by
              rw [List.length_cons] at hlen
              exact Nat.exists_eq_add_of_le' (by omega)
            simp only [readLines, hrep.isEof, hmore, Option.bind_eq_bind, Option.bind_some,
              Bool.false_eq_true, if_false, hread, hstring, hend, if_true]

/-- Reading lines from the start of a file to its end yields its content, cut behind each
newline. -/
theorem readLines_cut (hfd : fd < 64) (hopen : fs.fileDescTbl fd = some file)
    (hread : fs.checkInodePermission file.inode accessRead = true)
    (hsize : file.inode.size < 9 * 512) (hoff : file.offset = 0)
    (hnul : 0 ∉ fs.content file.inode) (hlong : LongEnough size (fs.content file.inode)) :
    ∃ fs' lines, CutIntoLines (fs.content file.inode) lines ∧
      ∀ fuel, (fs.content file.inode).length < fuel →
        readLines fd size fuel fs = some (fs', lines) := by
  -- a store that has just this file
  let store : FileStore Unit := ⟨fun _ => some (fs.content file.inode)⟩
  have hrep : Represents fs fd file store ⟨(), 0⟩ :=
    { descriptor := hfd
      isOpen := hopen
      readable := hread
      short := hsize
      within := by rw [hoff]; exact Nat.zero_le _
      content := rfl
      offset := hoff.symm }
  exact readLines_represents hrep hnul hlong

/-- `open_file` hands out descriptors of files that may be read, at their start. -/
theorem openFile_readable {path : List Byte} (hfound : (fs.openFile path).2 ≠ minusOne) :
    (fs.openFile path).2 < 64 ∧
      ∃ file, (fs.openFile path).1.fileDescTbl (fs.openFile path).2 = some file ∧ file.offset = 0 ∧
        (fs.openFile path).1.checkInodePermission file.inode accessRead = true := by
  unfold openFile at hfound ⊢
  dsimp only at hfound ⊢
  split at hfound
  next => exact absurd rfl hfound
  next hino =>
    rw [if_neg hino]
    split at hfound
    next => exact absurd rfl hfound
    next hread =>
      rw [if_neg hread]
      split at hfound
      next => exact absurd rfl hfound
      next slot hslot =>
        rw [Bool.not_eq_true, Bool.not_eq_false'] at hread
        have hlt : slot < 64 := List.mem_range.mp (List.mem_of_find?_eq_some hslot)
        exact ⟨hlt, _, Function.update_self .., rfl, hread⟩

/-- The file `a` has two lines, the second without a newline. -/
def twoLinesServer : Server :=
  (namedServer.syncInode
    { emptyFile.inode with size := 3, sectors := fun i => if i = 0 then 6 else 0 }).writeDisk 6
      fun k => [ofChar 'a', newline, ofChar 'b'].getD k 0

/-- The file is opened, and the two lines are read into an array of four characters. -/
theorem readLines_cut_two :
    ∃ fs' lines, CutIntoLines [ofChar 'a', newline, ofChar 'b'] lines ∧ ∀ fuel, 3 < fuel →
      readLines (twoLinesServer.openFile pathA.chars).2 4 fuel
        (twoLinesServer.openFile pathA.chars).1 = some (fs', lines) := by
  have hfound : (twoLinesServer.openFile pathA.chars).2 ≠ minusOne := by decide +kernel
  have hseen : ((twoLinesServer.openFile pathA.chars).1.fileDescTbl
      (twoLinesServer.openFile pathA.chars).2).map (fun file =>
        (file.inode.size, (twoLinesServer.openFile pathA.chars).1.content file.inode)) =
      some (3, [ofChar 'a', newline, ofChar 'b']) := by decide +kernel
  obtain ⟨hfd, file, hopen, hoff, hread⟩ := openFile_readable hfound
  rw [hopen, Option.map_some, Option.some.injEq, Prod.mk.injEq] at hseen
  obtain ⟨hsize, hcontent⟩ := hseen
  have hlines := @readLines_cut _ _ 4 _ hfd hopen hread (by rw [hsize]; decide) hoff
    (by rw [hcontent]; decide) fun _ hinside _ =>
      Nat.lt_succ_of_le (hinside.length_le.trans (by rw [hcontent]; decide))
  rw [hcontent] at hlines
  exact hlines

end Server

end Shmily.Fs
