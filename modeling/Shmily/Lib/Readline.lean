import Shmily.Foundation.FileStore
import Shmily.Lib.Strings

/-! # Reading lines

`readline` reads byte by byte up to a newline, which it keeps, and stores a terminating
zero behind it. A last line without a newline gets no zero.
-/

namespace Shmily.Lib

open Foundation

def newline : Byte := ofChar '\n'

variable {Path : Type}

/-- The loop of `readline`, at most so many times; `pos` is where `buf` points to. -/
def readlineFrom (store : FileStore Path) : Nat → OpenFile Path → List Byte → Nat →
    Option (OpenFile Path × List Byte)
  | 0, _, _, _ => none
  | fuel + 1, file, buf, pos =>
      if store.isEof file then some (file, buf)
      else do
        let (bytes, file) := store.read file 1
        let buf ← memcpy buf pos bytes bytes.length
        let char ← buf[pos]?
        if char = newline then do
          let buf ← putChar buf (pos + 1) 0
          some (file, buf)
        else readlineFrom store fuel file buf (pos + 1)

/-- `readline`. Every byte that is read counts. -/
def readline (store : FileStore Path) (file : OpenFile Path) (buf : List Byte) :
    Option (OpenFile Path × List Byte) :=
  readlineFrom store ((store.unread file).length + 1) file buf 0

variable {store : FileStore Path} {file : OpenFile Path} {line rest : List Byte}

/-- One byte is read into the array. -/
theorem readlineFrom_succ {fuel : Nat} {byte old : Byte} {pre room : List Byte}
    (hunread : store.unread file = byte :: rest) :
    readlineFrom store (fuel + 1) file (pre ++ old :: room) pre.length =
      if byte = newline then
        (putChar (pre ++ byte :: room) (pre.length + 1) 0).bind fun buf =>
          some ({ file with offset := file.offset + 1 }, buf)
      else readlineFrom store fuel { file with offset := file.offset + 1 } (pre ++ byte :: room)
        (pre.length + 1) := by
  have hmore : store.isEof file = false := by
    rw [FileStore.isEof, hunread]
    rfl
  have hstored : memcpy (pre ++ old :: room) pre.length [byte] 1 = some (pre ++ byte :: room) :=
    memcpy_append pre [old] room rfl
  have hchar : (pre ++ byte :: room)[pre.length]? = some byte := by simp
  rw [readlineFrom, if_neg (by rw [hmore]; decide), (FileStore.read_one hunread).1]
  simp only [List.length_singleton, Option.bind_eq_bind, hstored, Option.bind_some, hchar]

/-- Characters before a newline are read into the array one after the other. -/
theorem readlineFrom_chars (fuel : Nat) (file : OpenFile Path) (pre : List Byte) {room : List Byte}
    (hunread : store.unread file = line ++ rest) (hline : newline ∉ line)
    (hroom : line.length ≤ room.length) :
    ∃ after, readlineFrom store (fuel + line.length) file (pre ++ room) pre.length =
        readlineFrom store fuel after (pre ++ line ++ room.drop line.length) (pre ++ line).length ∧
      after.path = file.path ∧ store.unread after = rest := by
  induction line generalizing file pre room with
  | nil => exact ⟨file, by rw [List.append_nil]; rfl, rfl, hunread⟩
  | cons char line ih =>
      obtain ⟨hchar, hrest⟩ := not_or.mp (mt List.mem_cons.mpr hline)
      obtain ⟨old, room, rfl⟩ :=
        List.exists_cons_of_length_pos (Nat.lt_of_lt_of_le (Nat.succ_pos _) hroom)
      obtain ⟨after, hafter, hpath, hunread'⟩ := ih { file with offset := file.offset + 1 }
        (pre ++ [char]) (FileStore.read_one hunread).2 hrest (Nat.le_of_succ_le_succ hroom)
      refine ⟨after, ?_, hpath, hunread'⟩
      rw [List.length_cons, ← Nat.add_assoc, readlineFrom_succ hunread, if_neg (Ne.symm hchar)]
      simp only [List.append_assoc, List.singleton_append, List.length_append, List.length_cons,
        List.length_nil, Nat.zero_add, List.drop_succ_cons] at hafter ⊢
      exact hafter

theorem readlineFrom_line {fuel : Nat} (file : OpenFile Path) (pre : List Byte) {room : List Byte}
    (hunread : store.unread file = line ++ newline :: rest) (hline : newline ∉ line)
    (hroom : line.length + 2 ≤ room.length) (hfuel : line.length < fuel) :
    ∃ after, readlineFrom store fuel file (pre ++ room) pre.length =
        some (after, pre ++ (line ++ newline :: 0 :: room.drop (line.length + 2))) ∧
      after.path = file.path ∧ store.unread after = rest := by
  obtain ⟨fuel, rfl⟩ : ∃ more, fuel = more + 1 + line.length := ⟨fuel - line.length - 1, by omega⟩
  obtain ⟨chars, first, second, room, rfl, hchars⟩ : ∃ chars first second room',
      room = chars ++ first :: second :: room' ∧ chars.length = line.length := by
    refine ⟨room.take line.length, room[line.length], room[line.length + 1],
      room.drop (line.length + 2), ?_, by rw [List.length_take]; omega⟩
    rw [List.getElem_cons_drop, List.getElem_cons_drop, List.take_append_drop]
  obtain ⟨before, hbefore, hpath, hunread'⟩ := readlineFrom_chars (fuel + 1) file pre hunread hline
    (show line.length ≤ (chars ++ first :: second :: room).length by omega)
  -- the terminating zero goes behind the newline
  have hzero : putChar (pre ++ line ++ newline :: second :: room) ((pre ++ line).length + 1) 0 =
      some (pre ++ line ++ newline :: 0 :: room) := by
    have hput := putChar_append (pre ++ line ++ [newline]) room second 0
    rwa [List.append_assoc, List.append_assoc _ [newline], List.length_append] at hput
  refine ⟨{ before with offset := before.offset + 1 }, ?_, hpath,
    (FileStore.read_one hunread').2⟩
  have hdrop : (chars ++ first :: second :: room).drop (line.length + 2) = room := by
    rw [← hchars, List.drop_append]
    simp
  rw [hdrop, hbefore, ← hchars, List.drop_left, readlineFrom_succ hunread', if_pos rfl, hzero,
    Option.bind_some, List.append_assoc]

/-- The end of the file is read like a line, and nothing is stored behind it. -/
theorem readlineFrom_last {fuel : Nat} (file : OpenFile Path) (pre : List Byte) {room : List Byte}
    (hunread : store.unread file = line) (hline : newline ∉ line)
    (hroom : line.length ≤ room.length) (hfuel : line.length < fuel) :
    ∃ after, readlineFrom store fuel file (pre ++ room) pre.length =
        some (after, pre ++ line ++ room.drop line.length) ∧
      after.path = file.path ∧ store.unread after = [] := by
  obtain ⟨fuel, rfl⟩ : ∃ more, fuel = more + 1 + line.length := ⟨fuel - line.length - 1, by omega⟩
  rw [← List.append_nil line] at hunread
  obtain ⟨after, hafter, hpath, hunread'⟩ :=
    readlineFrom_chars (fuel + 1) file pre hunread hline hroom
  refine ⟨after, ?_, hpath, hunread'⟩
  rw [hafter, readlineFrom, if_pos (FileStore.isEof_iff.mpr hunread')]

/-- A line is read into an array that has room for it and two more characters. -/
theorem readline_line {buf : List Byte} (hunread : store.unread file = line ++ newline :: rest)
    (hline : newline ∉ line) (hroom : line.length + 2 ≤ buf.length) :
    ∃ after, readline store file buf =
        some (after, line ++ newline :: 0 :: buf.drop (line.length + 2)) ∧
      after.path = file.path ∧ store.unread after = rest := by
  have hfuel : line.length < (store.unread file).length + 1 := by
    rw [hunread, List.length_append]
    exact Nat.lt_succ_of_le (Nat.le_add_right _ _)
  exact readlineFrom_line file [] hunread hline hroom hfuel

end Shmily.Lib
