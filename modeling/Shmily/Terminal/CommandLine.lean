import Mathlib.Data.List.GetD
import Shmily.Foundation.ByteArea
import Shmily.Foundation.Fields
import Shmily.Lib.Strings

/-! # Cutting the command line into words

The object of the terminal lies in the memory of the process, member behind member: the
line of 128 bytes, its index right behind it, and then the nine pointers of `argv` and
`argc`. `format_input` ends a string at each space of the line and then looks for the
starts of words. The loop that skips zeros has no bound of its own, so behind a space at
the end of the line it goes on until it finds the index, and takes it for a word.
-/

namespace Shmily

open Foundation Lib

/-- The object of class `Terminal`, where it lies in the memory. -/
@[ext]
structure Terminal where
  this : Nat
  mem : ByteArea
  /-- The object has 340 bytes, and a pointer four. -/
  inside : this + 340 ≤ 2 ^ 32

namespace Terminal

/-- `' '`. -/
def space : Byte := ofChar ' '

/-- An element of `line` that `format_input` reads or stores to. -/
inductive LineAccess where
  | read (i : Nat)
  | write (i : Nat)
  deriving DecidableEq, Repr

/-- The index of the element. -/
def LineAccess.index : LineAccess → Nat
  | read i | write i => i

/-- Store one byte. -/
def store (ter : Terminal) (addr : Nat) (byte : Byte) : Terminal :=
  { ter with mem := Function.update ter.mem addr byte }

/-- `&line[i]`. -/
def lineAddr (ter : Terminal) (i : Nat) : Nat := ter.this + 164 + i

def line (ter : Terminal) (i : Nat) : Byte := ter.mem (ter.lineAddr i)

def lineIdx (ter : Terminal) : Byte := ter.mem (ter.this + 292)

/-- `&argv[j]`. -/
def argvAddr (ter : Terminal) (j : Nat) : Nat := ter.this + 300 + 4 * j

def argv (ter : Terminal) (j : Nat) : Nat := ter.mem.getLE 4 (ter.argvAddr j)

def argc (ter : Terminal) : Byte := ter.mem (ter.this + 336)

def setArgc (ter : Terminal) (argc : Byte) : Terminal := ter.store (ter.this + 336) argc

/-- The loop of `format_input` that ends a string at each space. The first argument counts
the bytes from `line[i]` to the end of the object; there is no result behind it. -/
def cutSpaces : Nat → Nat → Terminal → Option (Terminal × List LineAccess)
  | 0, _, _ => none
  | left + 1, i, ter =>
      if ter.line i = 0 then some (ter, [.read i])
      else if ter.line i = space then do
        let (ter, accesses) ← cutSpaces left (i + 1) (ter.store (ter.lineAddr i) 0)
        some (ter, .read i :: .write i :: accesses)
      else do
        let (ter, accesses) ← cutSpaces left (i + 1) ter
        some (ter, .read i :: accesses)

/-- `while (0 == this->line[i++])` and `i--`. -/
def skipZeros (ter : Terminal) : Nat → Nat → Option (Nat × List LineAccess)
  | 0, _ => none
  | left + 1, i =>
      if ter.line i = 0 then do
        let (j, accesses) ← skipZeros ter left (i + 1)
        some (j, .read i :: accesses)
      else some (i, [.read i])

/-- `this->argv[this->argc++] = &(this->line[i])`. -/
def pushArg (ter : Terminal) (i : Nat) : Terminal :=
  let counted := ter.setArgc (ter.argc + 1)
  { counted with mem := counted.mem.putLE 4 (ter.argvAddr ter.argc.toNat) (ter.lineAddr i) }

/-- The loop of `format_input` over the words, at most so many times. -/
def scanWords : Nat → Nat → Bool → Terminal → Option (Terminal × List LineAccess)
  | 0, _, _, _ => none
  | left + 1, i, isHead, ter =>
      if i < ter.lineIdx.toNat then do
        let (j, reads) ← ter.skipZeros (176 - i) i
        let ter := if isHead || i ≠ j then ter.pushArg j else ter
        let (ter, accesses) ← scanWords left (j + 1) false ter
        some (ter, reads ++ accesses)
      else some (ter, [])

/-- `format_input`. The index of the line is a byte. -/
def formatInput (ter : Terminal) : Option (Terminal × List LineAccess) := do
  let (ter, cut) ← cutSpaces 176 0 ter
  let (ter, scanned) ← scanWords 256 0 true ter
  some (ter.setArgc (ter.argc - 1), cut ++ scanned)

/-- A line was typed into the zeroed buffer. -/
structure Holds (ter : Terminal) (text : List Byte) : Prop where
  length : text.length < 128
  chars : ∀ i < 128, ter.line i = text.getD i 0
  lineIdx : ter.lineIdx.toNat = text.length

/-- The string that a pointer points to. -/
structure Denotes (ter : Terminal) (pointer : Nat) (str : List Byte) : Prop where
  nulFree : 0 ∉ str
  chars : ∀ k < str.length, str[k]? = some (ter.mem (pointer + k))
  terminated : ter.mem (pointer + str.length) = 0

variable {ter after : Terminal} {text : List Byte} {i j addr left : Nat}

/-! ### What is stored where -/

@[simp] theorem store_this (byte : Byte) : (ter.store addr byte).this = ter.this := rfl

@[simp] theorem pushArg_this : (ter.pushArg i).this = ter.this := rfl

theorem store_mem_of_ne {other : Nat} {byte : Byte} (hne : other ≠ addr) :
    (ter.store addr byte).mem other = ter.mem other := Function.update_of_ne hne _ _

/-- The line and its index lie before the pointers. -/
theorem pushArg_mem_of_lt (haddr : addr < ter.this + 300) :
    (ter.pushArg i).mem addr = ter.mem addr := by
  rw [pushArg]
  dsimp only
  rw [ByteArea.putLE_of_not (by simp only [argvAddr]; omega)]
  exact store_mem_of_ne (by omega)

theorem pushArg_line (hi : i < 136) : (ter.pushArg j).line i = ter.line i :=
  pushArg_mem_of_lt (by simp only [lineAddr, pushArg_this]; omega)

theorem pushArg_lineIdx : (ter.pushArg j).lineIdx = ter.lineIdx :=
  pushArg_mem_of_lt (by simp only [pushArg_this]; omega)

theorem lineAddr_lt (ter : Terminal) (hi : i < 176) : ter.lineAddr i < 2 ^ 32 := by
  have hinside := ter.inside
  rw [lineAddr]
  omega

/-! ### The first loop -/

/-- The spaces among some elements of the line, ended as strings. -/
def cutRange (ter : Terminal) (i cnt : Nat) : Terminal :=
  { ter with mem := fun addr =>
      if ter.lineAddr i ≤ addr ∧ addr < ter.lineAddr (i + cnt) ∧ ter.mem addr = space then 0
      else ter.mem addr }

theorem cutRange_zero : ter.cutRange i 0 = ter := by
  refine Terminal.ext rfl (funext fun addr => if_neg fun h => ?_)
  exact absurd (Nat.lt_of_le_of_lt h.1 h.2.1) (Nat.lt_irrefl _)

/-- The first element and then the others. -/
theorem cutRange_succ (cnt : Nat) :
    (if ter.line i = space then ter.store (ter.lineAddr i) 0 else ter).cutRange (i + 1) cnt =
      ter.cutRange i (cnt + 1) := by
  have hrange : ∀ addr, ter.lineAddr i ≤ addr ∧ addr < ter.lineAddr (i + (cnt + 1)) ↔
      addr = ter.lineAddr i ∨
        ter.lineAddr (i + 1) ≤ addr ∧ addr < ter.lineAddr (i + 1 + cnt) := by
    intro addr
    simp only [lineAddr]
    omega
  have hbehind : ¬ ter.lineAddr (i + 1) ≤ ter.lineAddr i := by
    simp only [lineAddr]
    omega
  split
  next hspace =>
    refine Terminal.ext rfl (funext fun addr => ?_)
    simp only [cutRange, ← and_assoc, hrange addr]
    by_cases haddr : addr = ter.lineAddr i
    · subst haddr
      rw [if_neg (fun h => hbehind h.1.1), if_pos ⟨.inl rfl, hspace⟩]
      exact Function.update_self _ _ _
    · simp only [store_mem_of_ne haddr, haddr, false_or]
      rfl
  next hspace =>
    refine Terminal.ext rfl (funext fun addr => ?_)
    simp only [cutRange, ← and_assoc, hrange addr]
    by_cases haddr : addr = ter.lineAddr i
    · subst haddr
      rw [if_neg (fun h => hbehind h.1.1), if_neg (fun h => hspace h.2)]
    · simp only [haddr, false_or]

/-- The loop goes up to the first zero and stores to no element behind it. -/
theorem cutSpaces_eq (cnt more : Nat) (ter : Terminal) (hchars : ∀ k < cnt, ter.line (i + k) ≠ 0)
    (hend : ter.line (i + cnt) = 0) :
    ∃ accesses, cutSpaces (cnt + 1 + more) i ter = some (ter.cutRange i cnt, accesses) ∧
      ∀ access ∈ accesses, access.index ≤ i + cnt := by
  induction cnt generalizing i ter with
  | zero =>
      refine ⟨[.read i], ?_, fun access hmem => ?_⟩
      · rw [Nat.zero_add, Nat.add_comm, cutSpaces, if_pos (show ter.line i = 0 from hend),
          cutRange_zero]
      · rw [List.mem_singleton.mp hmem]
        exact Nat.le_refl i
  | succ cnt ih =>
      have hchar : ter.line i ≠ 0 := hchars 0 (Nat.succ_pos _)
      have hlater : ∀ k, (if ter.line i = space then ter.store (ter.lineAddr i) 0 else ter).line
          (i + 1 + k) = ter.line (i + (k + 1)) := by
        intro k
        rw [Nat.add_assoc, Nat.add_comm 1 k]
        split
        next => exact store_mem_of_ne (by simp only [lineAddr, store_this]; omega)
        next => rfl
      obtain ⟨accesses, hcut, hbound⟩ := ih (i := i + 1) _
        (fun k hk => (hlater k).symm ▸ hchars (k + 1) (Nat.succ_lt_succ hk))
        ((hlater cnt).trans hend)
      rw [cutRange_succ] at hcut
      have hfuel : cnt + 1 + 1 + more = cnt + 1 + more + 1 := Nat.add_right_comm _ 1 more
      have hbound' : ∀ access ∈ accesses, access.index ≤ i + (cnt + 1) := fun access hmem =>
        Nat.add_right_comm i 1 cnt ▸ hbound access hmem
      rw [hfuel, cutSpaces, if_neg hchar]
      by_cases hspace : ter.line i = space
      · rw [if_pos hspace] at hcut
        refine ⟨.read i :: .write i :: accesses, ?_, ?_⟩
        · rw [if_pos hspace, hcut]
          rfl
        · simp only [List.forall_mem_cons, LineAccess.index]
          exact ⟨Nat.le_add_right _ _, Nat.le_add_right _ _, hbound'⟩
      · rw [if_neg hspace] at hcut
        refine ⟨.read i :: accesses, ?_, ?_⟩
        · rw [if_neg hspace, hcut]
          rfl
        · simp only [List.forall_mem_cons, LineAccess.index]
          exact ⟨Nat.le_add_right _ _, hbound'⟩

/-! ### The second loop -/

theorem skipZeros_zero (hzero : ter.line i = 0) :
    ter.skipZeros (left + 1) i =
      (ter.skipZeros left (i + 1)).map fun result => (result.1, .read i :: result.2) := by
  rw [skipZeros, if_pos hzero]
  cases ter.skipZeros left (i + 1) <;> rfl

theorem skipZeros_char (hchar : ter.line i ≠ 0) :
    ter.skipZeros (left + 1) i = some (i, [.read i]) := by
  rw [skipZeros, if_neg hchar]

/-- Zeros up to some other element. -/
theorem skipZeros_run (cnt : Nat) (hzeros : ∀ k < cnt, ter.line (i + k) = 0)
    (hchar : ter.line (i + cnt) ≠ 0) :
    ter.skipZeros (cnt + 1 + left) i =
      some (i + cnt, (List.range' i (cnt + 1)).map .read) := by
  induction cnt generalizing i with
  | zero =>
      rw [Nat.zero_add, Nat.add_comm, skipZeros_char (show ter.line i ≠ 0 from hchar)]
      rfl
  | succ cnt ih =>
      have hlater := ih (i := i + 1)
        (fun k hk => by
          rw [Nat.add_right_comm]
          exact hzeros (k + 1) (Nat.succ_lt_succ hk))
        (by rwa [Nat.add_right_comm])
      have hfirst : ter.line i = 0 := hzeros 0 (Nat.succ_pos _)
      rw [Nat.add_right_comm _ 1 left, skipZeros_zero hfirst, hlater, Nat.add_right_comm i 1 cnt]
      rfl

theorem le_of_skipZeros {result : Nat × List LineAccess}
    (hskip : ter.skipZeros left i = some result) : i ≤ result.1 := by
  induction left generalizing i result with
  | zero => cases hskip
  | succ left ih =>
      by_cases hzero : ter.line i = 0
      · rw [skipZeros_zero hzero, Option.map_eq_some_iff] at hskip
        obtain ⟨later, hlater, rfl⟩ := hskip
        have hle := ih hlater
        exact Nat.le_of_succ_le hle
      · rw [skipZeros_char hzero, Option.some.injEq] at hskip
        rw [← hskip]

/-- One turn of the loop. -/
theorem scanWords_succ {isHead : Bool} {reads accesses : List LineAccess} {last : Terminal}
    (hi : i < ter.lineIdx.toNat) (hskip : ter.skipZeros (176 - i) i = some (j, reads))
    (hscan : scanWords left (j + 1) false (if isHead || i ≠ j then ter.pushArg j else ter) =
      some (last, accesses)) :
    scanWords (left + 1) i isHead ter = some (last, reads ++ accesses) := by
  rw [scanWords, if_pos hi, hskip]
  simp only [Option.bind_eq_bind, Option.bind_some, hscan]

/-- What the pass takes for words: where words start, and the index of the line if the line
ends in a space. -/
def marks (i : Nat) (isHead : Bool) (chars : List Byte) : List Nat :=
  Fields.starts 0 i isHead chars ++ if chars.getLast? = some 0 then [128] else []

/-- What is left of the line in which the spaces are zeros. -/
structure Remains (ter : Terminal) (i : Nat) (rest : List Byte) : Prop where
  chars : ∀ k < rest.length, rest[k]? = some (ter.line (i + k))
  lineIdx : ter.lineIdx.toNat = i + rest.length
  inLine : i + rest.length < 128
  zeros : ∀ k, i + rest.length ≤ k → k < 128 → ter.line k = 0

variable {char : Byte} {rest : List Byte}

theorem Remains.tail (hrem : ter.Remains i (char :: rest)) : ter.Remains (i + 1) rest where
  chars k hk := by
    have hchar := hrem.chars (k + 1) (Nat.succ_lt_succ hk)
    rwa [List.getElem?_cons_succ, Nat.add_comm k 1, ← Nat.add_assoc] at hchar
  lineIdx := by rw [hrem.lineIdx, List.length_cons, Nat.add_comm rest.length 1, Nat.add_assoc]
  inLine := by
    have hin := hrem.inLine
    rw [List.length_cons] at hin
    omega
  zeros k hlow hhigh := hrem.zeros k (by rw [List.length_cons]; omega) hhigh

theorem Remains.head (hrem : ter.Remains i (char :: rest)) :
    ter.line i = char ∧ i < ter.lineIdx.toNat ∧ i < 128 := by
  have hchar := hrem.chars 0 (Nat.succ_pos _)
  have hidx := hrem.lineIdx
  have hin := hrem.inLine
  rw [List.length_cons] at hidx hin
  rw [List.getElem?_cons_zero, Option.some.injEq] at hchar
  exact ⟨hchar.symm, by omega, by omega⟩

theorem Remains.pushArg (hrem : ter.Remains i rest) : (ter.pushArg j).Remains i rest where
  chars k hk := by
    have hin := hrem.inLine
    rw [pushArg_line (by omega)]
    exact hrem.chars k hk
  lineIdx := by rw [pushArg_lineIdx, hrem.lineIdx]
  inLine := hrem.inLine
  zeros k hlow hhigh := by
    rw [pushArg_line (by omega)]
    exact hrem.zeros k hlow hhigh

/-- The index lies right behind the line. -/
theorem line_lineIdx (ter : Terminal) : ter.line 128 = ter.lineIdx := rfl

/-- Behind a last space the index of the line is found. -/
theorem Remains.index (hrem : ter.Remains i [0]) :
    ∃ reads, ter.skipZeros (176 - i) i = some (128, reads) ∧ .read 128 ∈ reads ∧
      ∀ access ∈ reads, ∃ k ≤ 128, access = .read k := by
  obtain ⟨hzero, hidx, hi⟩ := hrem.head
  have hzeros : ∀ k < 128 - i, ter.line (i + k) = 0 := by
    intro k hk
    rcases Nat.eq_zero_or_pos k with rfl | hpos
    · exact hzero
    · exact hrem.zeros (i + k) (Nat.add_le_add_left hpos i) (by omega)
  have hfound : ter.line (i + (128 - i)) ≠ 0 := by
    rw [Nat.add_sub_cancel' hi.le, line_lineIdx]
    intro hnone
    rw [hnone] at hidx
    exact absurd hidx (Nat.not_lt_zero i)
  have hskip : ter.skipZeros (128 - i + 1 + 47) i =
      some (i + (128 - i), (List.range' i (128 - i + 1)).map .read) :=
    skipZeros_run (128 - i) hzeros hfound
  rw [Nat.add_sub_cancel' hi.le, show 128 - i + 1 + 47 = 176 - i by omega] at hskip
  refine ⟨_, hskip, ?_, ?_⟩
  · refine List.mem_map_of_mem (List.mem_range'_1.mpr ?_)
    omega
  · intro access hmem
    obtain ⟨k, hk, rfl⟩ := List.mem_map.mp hmem
    exact ⟨k, by have hk' := List.mem_range'_1.mp hk; omega, rfl⟩

/-- A zero of the line that is not its last element makes what follows a head. -/
theorem scanWords_zero {isHead : Bool} {last : Terminal} {accesses : List LineAccess}
    (hrem : ter.Remains i (0 :: char :: rest))
    (hscan : scanWords (left + 1) (i + 1) true ter = some (last, accesses)) :
    scanWords (left + 1) i isHead ter = some (last, .read i :: accesses) := by
  obtain ⟨hzero, hidx, hi⟩ := hrem.head
  rw [scanWords, if_pos hrem.tail.head.2.1] at hscan
  obtain ⟨⟨j, reads⟩, hskip, hscan⟩ := Option.bind_eq_some_iff.mp hscan
  obtain ⟨⟨last', later⟩, hlater, hresult⟩ := Option.bind_eq_some_iff.mp hscan
  obtain ⟨rfl, rfl⟩ := Prod.mk.inj (Option.some.inj hresult)
  have hle := le_of_skipZeros hskip
  have hhead : (isHead || decide (i ≠ j)) = true := by
    have hne : i ≠ j := by
      dsimp only at hle
      omega
    rw [decide_eq_true hne, Bool.or_true]
  have hskip' : ter.skipZeros (176 - i) i = some (j, .read i :: reads) := by
    rw [show 176 - i = 176 - (i + 1) + 1 by omega, skipZeros_zero hzero, hskip]
    rfl
  refine scanWords_succ hidx hskip' ?_
  rw [Bool.true_or, if_pos rfl] at hlater
  rw [hhead, if_pos rfl]
  exact hlater

theorem marks_zero (isHead : Bool) :
    marks i isHead (0 :: char :: rest) = marks (i + 1) true (char :: rest) := by
  rw [marks, Fields.starts, if_pos rfl, List.getLast?_cons_cons]
  rfl

theorem getLast?_cons_zero (hchar : char ≠ 0) :
    (char :: rest).getLast? = some 0 ↔ rest.getLast? = some 0 := by
  cases rest with
  | nil => simpa using hchar
  | cons next rest => rw [List.getLast?_cons_cons]

theorem marks_char (isHead : Bool) (hchar : char ≠ 0) :
    marks i isHead (char :: rest) =
      if isHead then i :: marks (i + 1) false rest else marks (i + 1) false rest := by
  simp only [marks, getLast?_cons_zero hchar]
  rw [Fields.starts, if_neg hchar]
  split
  next => rfl
  next => rfl

/-- The pass pushes what it takes for words, and only reads. -/
theorem scanWords_eq (isHead : Bool) (hrem : ter.Remains i rest) (hturns : rest.length < left) :
    ∃ accesses, scanWords left i isHead ter =
        some ((marks i isHead rest).foldl pushArg ter, accesses) ∧
      (∀ access ∈ accesses, ∃ k ≤ 128, access = .read k) ∧
      (.read 128 ∈ accesses ↔ rest.getLast? = some 0) := by
  obtain ⟨left, rfl⟩ := Nat.exists_eq_succ_of_ne_zero (Nat.ne_of_gt (Nat.zero_lt_of_lt hturns))
  induction rest generalizing i isHead ter left with
  | nil =>
      have hend : ¬ i < ter.lineIdx.toNat := by
        rw [hrem.lineIdx]
        exact Nat.lt_irrefl i
      exact ⟨[], by rw [scanWords, if_neg hend]; rfl, by simp, by simp⟩
  | cons char rest ih =>
      obtain ⟨hline, hidx, hi⟩ := hrem.head
      by_cases hchar : char = 0
      · subst hchar
        cases rest with
        | nil =>
            -- the pass leaves the line, and ends when it has found its index
            obtain ⟨reads, hskip, hfound, hreads⟩ := hrem.index
            obtain ⟨left, rfl⟩ := Nat.exists_eq_add_of_le' (Nat.le_of_lt_succ hturns)
            have hhead : (isHead || decide (i ≠ 128)) = true := by
              rw [decide_eq_true (Nat.ne_of_lt hi), Bool.or_true]
            have hend : ¬ 128 + 1 < (ter.pushArg 128).lineIdx.toNat := by
              rw [pushArg_lineIdx, hrem.lineIdx, List.length_singleton]
              omega
            refine ⟨reads ++ [], scanWords_succ hidx hskip ?_, ?_, ?_⟩
            · rw [hhead, if_pos rfl]
              exact by rw [List.length_singleton, scanWords, if_neg hend]; rfl
            · rwa [List.append_nil]
            · exact iff_of_true (List.mem_append_left _ hfound) rfl
        | cons next rest =>
            obtain ⟨accesses, hscan, hreads, hlast⟩ :=
              ih true hrem.tail left (Nat.lt_of_succ_lt hturns)
            rw [marks_zero]
            refine ⟨_, scanWords_zero hrem hscan, ?_, ?_⟩
            · rw [List.forall_mem_cons]
              exact ⟨⟨i, hi.le, rfl⟩, hreads⟩
            · rw [List.mem_cons, hlast, List.getLast?_cons_cons]
              refine or_iff_right fun heq => ?_
              exact absurd (LineAccess.read.inj heq) (Nat.ne_of_gt hi)
      · have hskip : ter.skipZeros (176 - i) i = some (i, [.read i]) := by
          rw [show 176 - i = 175 - i + 1 by omega, skipZeros_char (hline ▸ hchar)]
        have hhead : (isHead || decide (i ≠ i)) = isHead := by simp
        obtain ⟨left, rfl⟩ := Nat.exists_eq_add_of_le' (Nat.le_of_lt_succ hturns)
        have hlater : ∃ accesses, scanWords (left + (char :: rest).length) (i + 1) false
              (if isHead then ter.pushArg i else ter) =
            some ((marks i isHead (char :: rest)).foldl Terminal.pushArg ter, accesses) ∧
            (∀ access ∈ accesses, ∃ k ≤ 128, access = .read k) ∧
            (.read 128 ∈ accesses ↔ rest.getLast? = some 0) := by
          have hfuel : rest.length < (left + rest.length) + 1 := Nat.lt_succ_of_le (by omega)
          rw [marks_char isHead hchar]
          cases isHead with
          | true => exact ih false hrem.tail.pushArg (left + rest.length) hfuel
          | false => exact ih false hrem.tail (left + rest.length) hfuel
        obtain ⟨accesses, hscan, hreads, hlast⟩ := hlater
        refine ⟨_, scanWords_succ hidx hskip (by rw [hhead]; exact hscan), ?_, ?_⟩
        · rw [List.singleton_append, List.forall_mem_cons]
          exact ⟨⟨i, hi.le, rfl⟩, hreads⟩
        · rw [List.singleton_append, List.mem_cons, hlast, getLast?_cons_zero hchar]
          refine or_iff_right fun heq => ?_
          exact absurd (LineAccess.read.inj heq) (Nat.ne_of_gt hi)

/-! ### The whole function -/

/-- The line with its spaces ended as strings. -/
def cut (text : List Byte) : List Byte := text.map fun char => if char = space then 0 else char

theorem Holds.line_ne_zero (hholds : ter.Holds text) (hnul : 0 ∉ text) {k : Nat}
    (hk : k < text.length) : ter.line k ≠ 0 := by
  rw [hholds.chars k (hk.trans hholds.length), List.getD_eq_getElem _ _ hk]
  exact fun heq => hnul (heq ▸ List.getElem_mem hk)

theorem cutRange_line (hi : i < text.length) :
    (ter.cutRange 0 text.length).line i = if ter.line i = space then 0 else ter.line i := by
  have hlow : ter.lineAddr 0 ≤ ter.lineAddr i := by
    simp only [lineAddr]
    omega
  have hhigh : ter.lineAddr i < ter.lineAddr (0 + text.length) := by
    simp only [lineAddr]
    omega
  change (if ter.lineAddr 0 ≤ ter.lineAddr i ∧ ter.lineAddr i < ter.lineAddr (0 + text.length) ∧
    ter.line i = space then 0 else ter.line i) = _
  simp only [hlow, hhigh, true_and]

theorem cutRange_mem_of_not {cnt : Nat}
    (hout : ¬ (ter.lineAddr i ≤ addr ∧ addr < ter.lineAddr (i + cnt))) :
    (ter.cutRange i cnt).mem addr = ter.mem addr := if_neg fun h => hout ⟨h.1, h.2.1⟩

/-- The first loop leaves the line with its spaces ended. -/
theorem Holds.remains (hholds : ter.Holds text) :
    (ter.cutRange 0 text.length).Remains 0 (cut text) where
  chars k hk := by
    rw [cut, List.length_map] at hk
    rw [Nat.zero_add, cutRange_line hk, hholds.chars k (hk.trans hholds.length),
      List.getD_eq_getElem _ _ hk, cut, List.getElem?_map, List.getElem?_eq_getElem hk]
    rfl
  lineIdx := by
    have hlen := hholds.length
    have hidx : (ter.cutRange 0 text.length).lineIdx = ter.lineIdx :=
      cutRange_mem_of_not (by simp only [lineAddr, cutRange]; omega)
    rw [hidx, hholds.lineIdx, cut, List.length_map, Nat.zero_add]
  inLine := by
    rw [cut, List.length_map, Nat.zero_add]
    exact hholds.length
  zeros k hlow hhigh := by
    rw [cut, List.length_map, Nat.zero_add] at hlow
    have hmem : (ter.cutRange 0 text.length).line k = ter.line k :=
      cutRange_mem_of_not (by simp only [lineAddr, cutRange]; omega)
    rw [hmem, hholds.chars k hhigh, List.getD_eq_default _ _ hlow]

/-- The places that `format_input` puts into `argv`. -/
def places (text : List Byte) : List Nat :=
  Fields.starts space 0 true text ++ if text.getLast? = some space then [128] else []

theorem cut_eq_zero_iff (hnul : 0 ∉ text) :
    ∀ char ∈ text, (if char = space then 0 else char) = 0 ↔ char = space := by
  intro char hmem
  rw [ite_eq_left_iff]
  exact ⟨fun himp => by_contra fun hne => hnul (himp hne ▸ hmem), fun heq hne => absurd heq hne⟩

theorem cut_getLast? (hnul : 0 ∉ text) :
    (cut text).getLast? = some 0 ↔ text.getLast? = some space := by
  rw [cut, List.getLast?_map, Option.map_eq_some_iff]
  constructor
  · rintro ⟨char, hchar, heq⟩
    rwa [(cut_eq_zero_iff hnul char (List.mem_of_getLast? hchar)).mp heq] at hchar
  · exact fun hspace => ⟨space, hspace, if_pos rfl⟩

theorem marks_cut (hnul : 0 ∉ text) : marks 0 true (cut text) = places text := by
  simp only [marks, places, cut_getLast? hnul]
  rw [cut, Fields.starts_map _ (cut_eq_zero_iff hnul)]

/-- `format_input` ends a string at each space and pushes the places, and leaves the line
just if its last character is a space. -/
theorem formatInput_eq (hholds : ter.Holds text) (hnul : 0 ∉ text) :
    ∃ accesses, ter.formatInput =
        some (((places text).foldl pushArg (ter.cutRange 0 text.length)).setArgc
          (((places text).foldl pushArg (ter.cutRange 0 text.length)).argc - 1), accesses) ∧
      (∀ k, .write k ∈ accesses → k < 128) ∧
      ((∀ k, .read k ∈ accesses → k < 128) ↔ text.getLast? ≠ some space) := by
  have hlen := hholds.length
  have hend : ter.line (0 + text.length) = 0 := by
    rw [Nat.zero_add, hholds.chars _ hlen, List.getD_eq_default _ _ (Nat.le_refl _)]
  obtain ⟨first, hcut, hfirst⟩ := cutSpaces_eq (i := 0) text.length (175 - text.length) ter
    (fun k hk => by rw [Nat.zero_add]; exact hholds.line_ne_zero hnul hk) hend
  have hturns : (cut text).length < 256 := by
    rw [cut, List.length_map]
    omega
  obtain ⟨second, hscan, hreads, hlast⟩ := scanWords_eq true hholds.remains hturns
  rw [show text.length + 1 + (175 - text.length) = 176 by omega] at hcut
  rw [marks_cut hnul] at hscan
  have hbound : ∀ access ∈ first, access.index < 128 := fun access hmem =>
    Nat.lt_of_le_of_lt (hfirst access hmem) (by omega)
  refine ⟨first ++ second, ?_, fun k hmem => ?_, ?_⟩
  · rw [formatInput, hcut]
    simp only [Option.bind_eq_bind, Option.bind_some, hscan]
  · rcases List.mem_append.mp hmem with hcutting | hscanning
    · exact hbound _ hcutting
    · obtain ⟨k', -, heq⟩ := hreads _ hscanning
      cases heq
  · rw [ne_eq, ← cut_getLast? hnul, ← hlast]
    constructor
    · intro hall hread
      exact absurd (hall 128 (List.mem_append_right _ hread)) (Nat.lt_irrefl _)
    · intro hnot k hmem
      rcases List.mem_append.mp hmem with hcutting | hscanning
      · exact hbound _ hcutting
      · obtain ⟨k', hle, heq⟩ := hreads _ hscanning
        obtain rfl := LineAccess.read.inj heq
        refine Nat.lt_of_le_of_ne hle fun h => hnot ?_
        rwa [← h]

/-! ### The pointers -/

theorem setArgc_argv (argc : Byte) (hj : j < 9) : (ter.setArgc argc).argv j = ter.argv j :=
  ByteArea.getLE_congr fun k hk =>
    store_mem_of_ne (by simp only [argvAddr, setArgc, store_this]; omega)

theorem setArgc_argc (argc : Byte) : (ter.setArgc argc).argc = argc := Function.update_self _ _ _

theorem setArgc_mem_of_ne (argc : Byte) (haddr : addr ≠ ter.this + 336) :
    (ter.setArgc argc).mem addr = ter.mem addr := store_mem_of_ne haddr

theorem pushArg_argc (hargc : ter.argc.toNat < 9) : (ter.pushArg i).argc = ter.argc + 1 := by
  have hout : ¬ (ter.argvAddr ter.argc.toNat ≤ ter.this + 336 ∧
      ter.this + 336 < ter.argvAddr ter.argc.toNat + 4) := by
    simp only [argvAddr]
    omega
  exact (ByteArea.putLE_of_not hout).trans (setArgc_argc _)

/-- The first free pointer is set, and the others are kept. -/
theorem pushArg_argv (hi : i < 176) (hj : j < 9) :
    (ter.pushArg i).argv j = if j = ter.argc.toNat then ter.lineAddr i else ter.argv j := by
  change ByteArea.getLE (ByteArea.putLE _ 4 (ter.argvAddr ter.argc.toNat) (ter.lineAddr i)) 4
    (ter.argvAddr j) = _
  split
  next heq =>
    rw [heq, ByteArea.getLE_putLE_self]
    exact Nat.mod_eq_of_lt (ter.lineAddr_lt hi)
  next hne =>
    rw [ByteArea.getLE_putLE_of_disjoint (by simp only [argvAddr]; omega)]
    exact setArgc_argv _ hj

/-- The line and its index are kept. -/
theorem foldl_pushArg_mem (marks : List Nat) (ter : Terminal) :
    (marks.foldl pushArg ter).this = ter.this ∧
      ∀ addr < ter.this + 300, (marks.foldl pushArg ter).mem addr = ter.mem addr := by
  induction marks generalizing ter with
  | nil => exact ⟨rfl, fun _ _ => rfl⟩
  | cons mark marks ih =>
      obtain ⟨hthis, hmem⟩ := ih (ter.pushArg mark)
      exact ⟨hthis, fun addr haddr => (hmem addr haddr).trans (pushArg_mem_of_lt haddr)⟩

/-- As many pointers as there is room for. -/
theorem foldl_pushArg (marks : List Nat) (ter : Terminal)
    (hmarks : ∀ mark ∈ marks, mark < 176) (hroom : ter.argc.toNat + marks.length ≤ 9) :
    (∀ j < 9, (marks.foldl pushArg ter).argv j =
        if j < ter.argc.toNat then ter.argv j
        else (marks[j - ter.argc.toNat]?.map ter.lineAddr).getD (ter.argv j)) ∧
      (marks.foldl pushArg ter).argc.toNat = ter.argc.toNat + marks.length := by
  induction marks generalizing ter with
  | nil =>
      refine ⟨fun j _ => ?_, rfl⟩
      rw [List.getElem?_nil]
      exact (ite_self _).symm
  | cons mark marks ih =>
      rw [List.length_cons] at hroom
      have hargc : ter.argc.toNat < 9 := by omega
      have hnext : (ter.pushArg mark).argc.toNat = ter.argc.toNat + 1 := by
        rw [pushArg_argc hargc, BitVec.toNat_add, Nat.mod_eq_of_lt]
        · rfl
        · exact Nat.lt_of_le_of_lt (Nat.succ_le_of_lt hargc) (by decide)
      obtain ⟨hargv, hcount⟩ := ih (ter.pushArg mark)
        (fun other hother => hmarks other (List.mem_cons_of_mem _ hother)) (by omega)
      rw [List.foldl_cons]
      refine ⟨fun j hj => ?_, ?_⟩
      · rw [hargv j hj, hnext, pushArg_argv (hmarks mark List.mem_cons_self) hj]
        rcases Nat.lt_trichotomy j ter.argc.toNat with hlt | rfl | hgt
        · rw [if_pos (Nat.lt_succ_of_lt hlt), if_neg (Nat.ne_of_lt hlt), if_pos hlt]
        · rw [if_pos (Nat.lt_succ_self _), if_pos rfl, if_neg (Nat.lt_irrefl _), Nat.sub_self]
          rfl
        · have hindex : j - ter.argc.toNat = j - (ter.argc.toNat + 1) + 1 := by omega
          rw [if_neg (Nat.not_lt.mpr hgt), if_neg (Nat.ne_of_gt hgt), if_neg (Nat.lt_asymm hgt),
            hindex, List.getElem?_cons_succ]
          rfl
      · rw [hcount, hnext, List.length_cons, Nat.add_right_comm, Nat.add_assoc]

/-- The first pointers, when none was set before. -/
theorem foldl_pushArg_first {marks : List Nat} (hmarks : ∀ mark ∈ marks, mark < 176)
    (hroom : marks.length ≤ 9) (hargc : ter.argc = 0) :
    (∀ j < 9, (marks.foldl pushArg ter).argv j =
        (marks[j]?.map ter.lineAddr).getD (ter.argv j)) ∧
      (marks.foldl pushArg ter).argc.toNat = marks.length := by
  have hzero : ter.argc.toNat = 0 := by
    rw [hargc]
    rfl
  obtain ⟨hargv, hcount⟩ := foldl_pushArg marks ter hmarks (by omega)
  refine ⟨fun j hj => ?_, by rw [hcount, hzero, Nat.zero_add]⟩
  rw [hargv j hj, hzero, if_neg (Nat.not_lt_zero j), Nat.sub_zero]

theorem lt_of_mem_places (hlen : text.length < 128) {place : Nat} (hmem : place ∈ places text) :
    place < 176 := by
  rcases List.mem_append.mp hmem with hmem | hmem
  · have hbounds := Fields.mem_starts hmem
    omega
  · split at hmem
    next => rw [List.mem_singleton.mp hmem]; decide
    next => cases hmem

theorem places_eq_starts (hlast : text.getLast? ≠ some space) :
    places text = Fields.starts space 0 true text := by
  rw [places, if_neg hlast, List.append_nil]

theorem cutRange_argv (hlen : text.length < 128) (j : Nat) :
    (ter.cutRange 0 text.length).argv j = ter.argv j :=
  ByteArea.getLE_congr fun k hk =>
    cutRange_mem_of_not (by simp only [lineAddr, argvAddr, cutRange]; omega)

theorem cutRange_argc (hlen : text.length < 128) :
    (ter.cutRange 0 text.length).argc = ter.argc :=
  cutRange_mem_of_not (by simp only [lineAddr, cutRange]; omega)

/-- What the first loop leaves in the line. -/
theorem Holds.cut_line (hholds : ter.Holds text) (hi : i < 128) :
    (ter.cutRange 0 text.length).line i = ((cut text)[i]?).getD 0 := by
  have hrem := hholds.remains
  rcases Nat.lt_or_ge i (cut text).length with hlt | hge
  · have hchar := hrem.chars i hlt
    rw [Nat.zero_add] at hchar
    rw [hchar]
    rfl
  · rw [List.getElem?_eq_none hge]
    exact hrem.zeros i (by rwa [Nat.zero_add]) hi

/-- A piece of the line, at its place. -/
theorem Holds.denotes (hholds : ter.Holds text) (hnul : 0 ∉ text) {place : Nat}
    (hplace : place < text.length)
    (hsame : ∀ addr < ter.this + 292, after.mem addr = (ter.cutRange 0 text.length).mem addr) :
    after.Denotes (ter.lineAddr place) (Fields.piece space text place) := by
  obtain ⟨hspace, rest, hdrop, hrest⟩ := Fields.piece_spec space text place
  generalize Fields.piece space text place = word at *
  have hlen := hholds.length
  have hsize : text.length - place = word.length + rest.length := by
    rw [← List.length_drop, hdrop, List.length_append]
  have hword : word.map (fun char => if char = space then 0 else char) = word := by
    refine (List.map_congr_left fun char hchar => if_neg ?_).trans (List.map_id _)
    exact fun heq => hspace (heq ▸ hchar)
  have hline : ∀ k, place + k < 128 →
      after.mem (ter.lineAddr place + k) = ((word ++ cut rest)[k]?).getD 0 := by
    intro k hk
    have haddr : ter.lineAddr place + k = ter.lineAddr (place + k) := Nat.add_assoc _ _ _
    have hcut : (cut text)[place + k]? = (word ++ cut rest)[k]? := by
      rw [← List.getElem?_drop, cut, ← List.map_drop, hdrop, List.map_append, hword]
      rfl
    rw [haddr, hsame _ (by simp only [lineAddr]; omega), ← hcut]
    exact hholds.cut_line hk
  refine ⟨fun hzero => ?_, fun k hk => ?_, ?_⟩
  · exact hnul (List.mem_of_mem_drop (hdrop ▸ List.mem_append_left rest hzero))
  · rw [hline k (by omega), List.getElem?_append_left hk, List.getElem?_eq_getElem hk]
    rfl
  · rw [hline _ (by omega), List.getElem?_append_right (Nat.le_refl _), Nat.sub_self]
    rcases hrest with rfl | ⟨more, rfl⟩
    · rfl
    · rw [cut, List.map_cons, if_pos rfl]
      rfl

/-- The pointers that are set and the count leave the piece as it is. -/
theorem Holds.denotes_pushed (hholds : ter.Holds text) (hnul : 0 ∉ text) {place : Nat}
    (hplace : place < text.length) (marks : List Nat) (argc : Byte) :
    ((marks.foldl pushArg (ter.cutRange 0 text.length)).setArgc argc).Denotes
      (ter.lineAddr place) (Fields.piece space text place) := by
  obtain ⟨hthis, hmem⟩ := foldl_pushArg_mem marks (ter.cutRange 0 text.length)
  have hsame : (ter.cutRange 0 text.length).this = ter.this := rfl
  refine hholds.denotes hnul hplace fun addr haddr => ?_
  rw [setArgc_mem_of_ne _ (by rw [hthis]; omega), hmem addr (by omega)]

/-- The pointers denote the words in order, no other one is set, and only the line is read. -/
def Tokenizes (ter : Terminal) (words : List (List Byte)) : Prop :=
  ∃ after accesses, ter.formatInput = some (after, accesses) ∧
    (∀ j word, words[j]? = some word → after.Denotes (after.argv j) word) ∧
    (∀ j, words.length ≤ j → j < 9 → after.argv j = ter.argv j) ∧
    after.argc.toNat + 1 = words.length ∧
    ∀ i, .read i ∈ accesses → i < 128

/-- `format_input` cuts a line into its words if and only if it does not end in a space. -/
theorem tokenizes_iff (hholds : ter.Holds text) (hargc : ter.argc = 0)
    (hprintable : ∀ char ∈ text, 0x20 ≤ char.toNat ∧ char.toNat ≤ 0x7e)
    (hsome : 1 ≤ (fields space text).length) (hmost : (fields space text).length ≤ 9) :
    ter.Tokenizes (fields space text) ↔ text.getLast? ≠ some space := by
  have hnul : 0 ∉ text := fun hzero => absurd (hprintable 0 hzero).1 (by decide)
  have hlen := hholds.length
  obtain ⟨accesses, hformat, -, hreads⟩ := formatInput_eq hholds hnul
  constructor
  · rintro ⟨after, accesses', hresult, -, -, -, hinside⟩
    rw [hformat, Option.some.injEq, Prod.mk.injEq] at hresult
    obtain ⟨-, rfl⟩ := hresult
    exact hreads.mp hinside
  · intro hlast
    have hcount := Fields.length_starts space text
    have hmarks : ∀ mark ∈ Fields.starts space 0 true text, mark < 176 := by
      rw [← places_eq_starts hlast]
      exact fun mark hmark => lt_of_mem_places hlen hmark
    obtain ⟨hargv, hnumber⟩ := foldl_pushArg_first hmarks (hcount.trans_le hmost)
      ((cutRange_argc hlen).trans hargc)
    rw [hcount] at hnumber
    rw [places_eq_starts hlast] at hformat
    refine ⟨_, _, hformat, ?_, ?_, ?_, hreads.mpr hlast⟩
    · intro j word hword
      rw [← Fields.map_piece, List.getElem?_map, Option.map_eq_some_iff] at hword
      obtain ⟨place, hplace, rfl⟩ := hword
      have hj : j < 9 := by
        have hlt := (List.getElem?_eq_some_iff.mp hplace).1
        omega
      have hinside := (Fields.mem_starts (List.mem_of_getElem? hplace)).2
      rw [Nat.zero_add] at hinside
      rw [setArgc_argv _ hj, hargv j hj, hplace]
      exact hholds.denotes_pushed hnul hinside _ _
    · intro j hlow hhigh
      rw [setArgc_argv _ hhigh, hargv j hhigh, List.getElem?_eq_none (by omega)]
      exact cutRange_argv hlen j
    · generalize (Fields.starts space 0 true text).foldl pushArg (ter.cutRange 0 text.length) =
        pushed at *
      have hone : (1 : Byte) ≤ pushed.argc := by
        rw [BitVec.le_def, hnumber]
        exact hsome
      rw [setArgc_argc, BitVec.toNat_sub_of_le hone, hnumber]
      exact Nat.sub_add_cancel hsome

/-- A terminal in which a line was typed. -/
def typed (text : List Byte) : Terminal where
  this := 0x1000
  mem addr :=
    if addr = 0x1124 then BitVec.ofNat 8 text.length
    else if 0x10a4 ≤ addr then text.getD (addr - 0x10a4) 0
    else 0
  inside := by decide

theorem typed_holds (hlen : text.length < 128) : (typed text).Holds text where
  length := hlen
  chars i hi := by
    change (if 0x1000 + 164 + i = 0x1124 then _ else
      if 0x10a4 ≤ 0x1000 + 164 + i then text.getD (0x1000 + 164 + i - 0x10a4) 0 else 0) = _
    rw [if_neg (by omega), if_pos (Nat.le_add_right _ _), Nat.add_sub_cancel_left]
  lineIdx := by
    change (BitVec.ofNat 8 text.length).toNat = _
    rw [BitVec.toNat_ofNat]
    exact Nat.mod_eq_of_lt (hlen.trans (by decide))

/-- `" cat  a"`. -/
theorem tokenizes_cat :
    (typed ([' ', 'c', 'a', 't', ' ', ' ', 'a'].map ofChar)).Tokenizes
      [['c', 'a', 't'].map ofChar, ['a'].map ofChar] :=
  (tokenizes_iff (typed_holds (by decide)) (by decide) (by decide) (by decide) (by decide)).mpr
    (by decide)

/-- `"a "`. -/
theorem last_space_is_word :
    ¬ ∀ (ter : Terminal) (text : List Byte), ter.Holds text → ter.argc = 0 →
      (∀ char ∈ text, 0x20 ≤ char.toNat ∧ char.toNat ≤ 0x7e) → 1 ≤ (fields space text).length →
      (fields space text).length ≤ 9 → ter.Tokenizes (fields space text) := by
  intro hall
  have hholds : (typed (['a', ' '].map ofChar)).Holds (['a', ' '].map ofChar) :=
    typed_holds (by decide)
  obtain ⟨after, accesses, hresult, -, -, -, hinside⟩ :=
    hall _ _ hholds (by decide) (by decide) (by decide) (by decide)
  obtain ⟨accesses', hformat, -, hreads⟩ := formatInput_eq hholds (by decide)
  rw [hformat, Option.some.injEq, Prod.mk.injEq] at hresult
  obtain ⟨-, rfl⟩ := hresult
  exact hreads.mp hinside (by decide)

end Terminal

end Shmily
