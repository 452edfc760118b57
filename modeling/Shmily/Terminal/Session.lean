import Shmily.Foundation.Run
import Shmily.Fs.Dir
import Shmily.Terminal.CommandLine

/-! # The session at the keyboard

Keys arrive one after the other. `login` collects a name and a password in local buffers
and the name in `cur_user`, and `run` collects a line and handles it. Neither loop compares
its index with the length of its buffer.
-/

namespace Shmily

open Foundation Lib

namespace Terminal

/-- `'\b'`. -/
def backspace : Byte := 8

/-- What the return key sends. -/
def carriageReturn : Byte := 13

/-- `"exit"`. -/
def exitName : List Byte := ['e', 'x', 'i', 't'].map ofChar

/-- A store to an element of a buffer for input. -/
inductive BufferWrite where
  | line (i : Nat)
  | username (i : Nat)
  | password (i : Nat)
  | curUsername (i : Nat)
  deriving DecidableEq, Repr

/-- The buffer has this element. -/
def BufferWrite.InBuffer : BufferWrite → Prop
  | line i => i < 128
  | username i | password i | curUsername i => i < 32

/-- `memset` with zero. -/
def memset (ter : Terminal) (addr cnt : Nat) : Terminal :=
  { ter with mem := fun k => if addr ≤ k ∧ k < addr + cnt then 0 else ter.mem k }

/-- `&cur_user.username[i]`. -/
def usernameAddr (ter : Terminal) (i : Nat) : Nat := ter.this + 4 + i

/-- `cur_user.uid = uid`. -/
def setUid (ter : Terminal) (uid : BitVec 32) : Terminal :=
  { ter with mem := ter.mem.putLE 4 ter.this uid.toNat }

def setLineIdx (ter : Terminal) (idx : Byte) : Terminal := ter.store (ter.this + 292) idx

/-- `line[line_idx++] = ch`. -/
def typeChar (ter : Terminal) (ch : Byte) : Terminal :=
  (ter.setLineIdx (ter.lineIdx + 1)).store (ter.lineAddr ter.lineIdx.toNat) ch

/-- `line_idx--` and `line[line_idx] = 0`. -/
def eraseChar (ter : Terminal) : Terminal :=
  (ter.setLineIdx (ter.lineIdx - 1)).store (ter.lineAddr (ter.lineIdx - 1).toNat) 0

/-- What other code leaves in `cur_dir` and `old_dir` and outside of the object. Commands are
taken to leave `line`, `line_idx`, `argv` and `argc` alone; `cd` to a path of 64 characters or
more would write past `cur_dir`. -/
def leave (ter : Terminal) (others : ByteArea) : Terminal :=
  { ter with mem := fun k =>
      if ter.this ≤ k ∧ k < ter.this + 36 ∨ ter.this + 164 ≤ k ∧ k < ter.this + 340 then ter.mem k
      else others k }

/-- `reset_terminal`. Of the pointers nine bytes are cleared. -/
def resetTerminal (ter : Terminal) : Terminal :=
  ((((ter.memset (ter.lineAddr 0) 128).setLineIdx 0).memset (ter.argvAddr 0) 9).setArgc 0)

/-- The constructor, with the directory that the file system answers. -/
def construct (ter : Terminal) (others : ByteArea) : Terminal :=
  let ter := (ter.setUid (-1)).memset (ter.usernameAddr 0) 32
  (ter.leave others).resetTerminal

/-- The local variables of `login`. -/
structure Login where
  isPasswd : Bool
  username : ByteArea
  password : ByteArea
  idx : Byte

namespace Login

/-- `login_str[i] = ch`. -/
def putStr (log : Login) (i : Nat) (ch : Byte) : Login :=
  if log.isPasswd then { log with password := Function.update log.password i ch }
  else { log with username := Function.update log.username i ch }

/-- The store to `login_str[i]`. -/
def strWrite (log : Login) (i : Nat) : BufferWrite :=
  if log.isPasswd then .password i else .username i

end Login

/-- The loop that waits for a key. -/
inductive Mode where
  | login (log : Login)
  | shell

/-- A key, with what the rest of the system does if it ends an input. -/
structure Key where
  ch : Byte
  /-- The result of `user_check`. -/
  uid : BitVec 32
  /-- The memory that a command, or the way to the home directory, leaves. -/
  others : ByteArea

/-- The terminal between two keys, and the stores that the last one caused. -/
structure Session where
  ter : Terminal
  mode : Mode
  writes : List BufferWrite

/-- The start of `login`. -/
def beginLogin (ter : Terminal) : Session where
  ter := (ter.setUid (-1)).memset (ter.usernameAddr 0) 32
  mode := .login ⟨false, .zeros, .zeros, 0⟩
  writes := (List.range 32).map .curUsername

/-- The name in `cur_user` has a zero behind it. -/
def NameEnds (ter : Terminal) : Prop := ∃ i < 32, ter.mem (ter.usernameAddr i) = 0

instance (ter : Terminal) : Decidable ter.NameEnds :=
  inferInstanceAs (Decidable (∃ i < 32, ter.mem (ter.usernameAddr i) = 0))

/-- One turn of the loop of `login`, and what `start` does up to the next key. -/
def loginKey (ter : Terminal) (log : Login) (key : Key) : Option Session :=
  if key.ch = backspace then
    if log.idx = 0 then some ⟨ter, .login log, []⟩
    else
      let log := { log with idx := log.idx - 1 }
      some ⟨ter, .login (log.putStr log.idx.toNat 0), [log.strWrite log.idx.toNat]⟩
  else if key.ch = carriageReturn then
    if log.isPasswd then
      let ter := ter.setUid key.uid
      if key.uid = -1 then some ter.beginLogin
      else if ter.NameEnds then some ⟨ter.leave key.others, .shell, []⟩
      -- `change_home_dir` copies the name to right behind it, and so never finds its end
      else none
    else some ⟨ter, .login { log with isPasswd := true, idx := 0 }, []⟩
  else
    let i := log.idx.toNat
    let log' := { log.putStr i key.ch with idx := log.idx + 1 }
    if log.isPasswd then some ⟨ter, .login log', [log.strWrite i]⟩
    else some ⟨ter.store (ter.usernameAddr i) key.ch, .login log', [.curUsername i, log.strWrite i]⟩

/-- The store of `format_input`, if it is one. -/
def LineAccess.toWrite : LineAccess → Option BufferWrite
  | read _ => none
  | write i => some (.line i)

/-- `exit`, up to the next login. -/
def exit (ter : Terminal) : Session :=
  let ter := (ter.memset (ter.this + 36) 64).memset (ter.this + 100) 64
  ((ter.setUid 0).memset (ter.usernameAddr 0) 32).resetTerminal.beginLogin

/-- One turn of the loop of `run`. -/
def runKey (ter : Terminal) (key : Key) : Option Session :=
  if key.ch = backspace then
    if ter.lineIdx = 0 then some ⟨ter, .shell, []⟩
    else some ⟨ter.eraseChar, .shell, [.line (ter.lineIdx - 1).toNat]⟩
  else if key.ch = carriageReturn then do
    let (ter, accesses) ← ter.formatInput
    let writes := accesses.filterMap LineAccess.toWrite ++ (List.range 128).map .line
    -- the names of the commands differ, so the order of the comparisons does not matter
    if Fs.strcmp ter.mem (ter.argv 0) exitName then
      some { ter.exit with writes := writes ++ ter.exit.writes }
    else some ⟨(ter.leave key.others).resetTerminal, .shell, writes⟩
  else some ⟨ter.typeChar key.ch, .shell, [.line ter.lineIdx.toNat]⟩

def step (ses : Session) (key : Key) : Option Session :=
  match ses.mode with
  | .login log => loginKey ses.ter log key
  | .shell => runKey ses.ter key

/-- The terminal as `main` starts it. -/
def boot (ter : Terminal) (others : ByteArea) : Session := (ter.construct others).beginLogin

variable {ter after done : Terminal} {i j addr left : Nat} {ses next : Session} {key : Key}
  {accesses : List LineAccess}

/-! ### What is left alone -/

/-- The line, its index, the pointers and their number are the same. -/
structure KeepsInput (ter after : Terminal) : Prop where
  this : after.this = ter.this
  mem : ∀ addr, ter.this + 164 ≤ addr → addr < ter.this + 340 → after.mem addr = ter.mem addr

/-- The name lies before the line. -/
theorem usernameAddr_le (ter : Terminal) : ter.usernameAddr 0 + 32 ≤ ter.this + 164 := by
  simp only [usernameAddr]
  omega

namespace KeepsInput

theorem refl (ter : Terminal) : ter.KeepsInput ter := ⟨rfl, fun _ _ _ => rfl⟩

theorem trans {last : Terminal} (hfirst : ter.KeepsInput after) (hsecond : after.KeepsInput last) :
    ter.KeepsInput last where
  this := hsecond.this.trans hfirst.this
  mem addr hlow hhigh := by
    have hlater := hsecond.mem addr (by rwa [hfirst.this]) (by rwa [hfirst.this])
    exact hlater.trans (hfirst.mem addr hlow hhigh)

theorem line (hkeeps : ter.KeepsInput after) (hi : i < 128) : after.line i = ter.line i := by
  have hmem := hkeeps.mem (ter.lineAddr i) (Nat.le_add_right _ _)
    (by simp only [lineAddr]; omega)
  rw [Terminal.line, Terminal.line, ← hmem, lineAddr, lineAddr, hkeeps.this]

theorem lineIdx (hkeeps : ter.KeepsInput after) : after.lineIdx = ter.lineIdx := by
  have hmem := hkeeps.mem (ter.this + 292) (by omega) (by omega)
  rw [Terminal.lineIdx, Terminal.lineIdx, ← hmem, hkeeps.this]

theorem argc (hkeeps : ter.KeepsInput after) : after.argc = ter.argc := by
  have hmem := hkeeps.mem (ter.this + 336) (by omega) (by omega)
  rw [Terminal.argc, Terminal.argc, ← hmem, hkeeps.this]

theorem argv (hkeeps : ter.KeepsInput after) (hj : j < 9) : after.argv j = ter.argv j := by
  rw [Terminal.argv, Terminal.argv, argvAddr, argvAddr, hkeeps.this]
  exact ByteArea.getLE_congr fun k hk => hkeeps.mem _ (by omega) (by omega)

theorem setUid (uid : BitVec 32) : ter.KeepsInput (ter.setUid uid) where
  this := rfl
  mem _ hlow _ := ByteArea.putLE_of_not (by omega)

/-- A `memset` before the line. -/
theorem memset {cnt : Nat} (hbefore : addr + cnt ≤ ter.this + 164) :
    ter.KeepsInput (ter.memset addr cnt) where
  this := rfl
  mem other hlow _ := if_neg (by omega)

/-- A store before the line. -/
theorem store (ch : Byte) (hbefore : addr < ter.this + 164) :
    ter.KeepsInput (ter.store addr ch) where
  this := rfl
  mem other hlow _ := store_mem_of_ne (by omega)

theorem leave (others : ByteArea) : ter.KeepsInput (ter.leave others) where
  this := rfl
  mem _ hlow hhigh := if_pos (.inr ⟨hlow, hhigh⟩)

theorem beginLogin : ter.KeepsInput ter.beginLogin.ter :=
  (setUid (-1)).trans (memset (usernameAddr_le _))

end KeepsInput

/-! ### The line -/

theorem store_mem_self (byte : Byte) : (ter.store addr byte).mem addr = byte :=
  Function.update_self _ _ _

theorem store_line_of_ne (ter : Terminal) (byte : Byte) (hne : i ≠ j) :
    (ter.store (ter.lineAddr j) byte).line i = ter.line i :=
  store_mem_of_ne (by simp only [lineAddr, store_this]; omega)

@[simp] theorem setLineIdx_this (idx : Byte) : (ter.setLineIdx idx).this = ter.this := rfl

theorem setLineIdx_line (idx : Byte) (hi : i < 128) : (ter.setLineIdx idx).line i = ter.line i :=
  store_mem_of_ne (by simp only [lineAddr, setLineIdx_this]; omega)

@[simp] theorem setLineIdx_lineIdx (idx : Byte) : (ter.setLineIdx idx).lineIdx = idx :=
  store_mem_self _

@[simp] theorem typeChar_this (ch : Byte) : (ter.typeChar ch).this = ter.this := rfl

@[simp] theorem eraseChar_this : ter.eraseChar.this = ter.this := rfl

theorem typeChar_line (ch : Byte) (hi : i < 128) :
    (ter.typeChar ch).line i = if i = ter.lineIdx.toNat then ch else ter.line i := by
  split
  next heq =>
    rw [heq]
    exact store_mem_self ch
  next hne =>
    have hstore : (ter.typeChar ch).line i = (ter.setLineIdx (ter.lineIdx + 1)).line i :=
      store_line_of_ne (ter.setLineIdx (ter.lineIdx + 1)) ch hne
    rw [hstore, setLineIdx_line _ hi]

theorem typeChar_lineIdx (ter : Terminal) (ch : Byte) (hroom : ter.lineIdx.toNat < 128) :
    (ter.typeChar ch).lineIdx.toNat = ter.lineIdx.toNat + 1 := by
  have hidx : (ter.typeChar ch).lineIdx = ter.lineIdx + 1 := by
    refine (store_mem_of_ne ?_).trans (setLineIdx_lineIdx _)
    simp only [lineAddr, typeChar_this]
    omega
  rw [hidx, BitVec.toNat_add, Nat.mod_eq_of_lt]
  · rfl
  · exact Nat.lt_of_le_of_lt (Nat.succ_le_of_lt hroom) (by decide)

theorem toNat_pred {byte : Byte} (hne : byte ≠ 0) : (byte - 1).toNat = byte.toNat - 1 := by
  have hpos : byte.toNat ≠ 0 := fun hzero => hne (BitVec.eq_of_toNat_eq hzero)
  refine BitVec.toNat_sub_of_le ?_
  rw [BitVec.le_def]
  exact Nat.one_le_iff_ne_zero.mpr hpos

theorem eraseChar_line (hi : i < 128) :
    ter.eraseChar.line i = if i = (ter.lineIdx - 1).toNat then 0 else ter.line i := by
  split
  next heq =>
    rw [heq]
    exact store_mem_self 0
  next hne =>
    have hstore : ter.eraseChar.line i = (ter.setLineIdx (ter.lineIdx - 1)).line i :=
      store_line_of_ne (ter.setLineIdx (ter.lineIdx - 1)) 0 hne
    rw [hstore, setLineIdx_line _ hi]

theorem eraseChar_lineIdx (hsome : ter.lineIdx ≠ 0) (hbound : ter.lineIdx.toNat ≤ 127) :
    ter.eraseChar.lineIdx.toNat = ter.lineIdx.toNat - 1 := by
  have hidx : ter.eraseChar.lineIdx = ter.lineIdx - 1 := by
    refine (store_mem_of_ne ?_).trans (setLineIdx_lineIdx _)
    have hpred := toNat_pred hsome
    simp only [lineAddr, eraseChar_this]
    omega
  rw [hidx, toNat_pred hsome]

theorem resetTerminal_mem :
    ter.resetTerminal.mem addr =
      if ter.this + 164 ≤ addr ∧ addr < ter.this + 293 ∨
          ter.this + 300 ≤ addr ∧ addr < ter.this + 309 ∨ addr = ter.this + 336 then 0
      else ter.mem addr := by
  by_cases hargc : addr = ter.this + 336
  · subst hargc
    rw [if_pos (.inr (.inr rfl))]
    exact store_mem_self 0
  have hreset : ter.resetTerminal.mem addr =
      (((ter.memset (ter.lineAddr 0) 128).setLineIdx 0).memset (ter.argvAddr 0) 9).mem addr :=
    store_mem_of_ne hargc
  rw [hreset]
  by_cases hargv : ter.this + 300 ≤ addr ∧ addr < ter.this + 309
  · rw [if_pos (.inr (.inl hargv))]
    exact if_pos hargv
  have hcleared :
      (((ter.memset (ter.lineAddr 0) 128).setLineIdx 0).memset (ter.argvAddr 0) 9).mem addr =
        ((ter.memset (ter.lineAddr 0) 128).setLineIdx 0).mem addr := if_neg hargv
  rw [hcleared]
  by_cases hidx : addr = ter.this + 292
  · subst hidx
    rw [if_pos (.inl ⟨by omega, by omega⟩)]
    exact store_mem_self 0
  have hline : ((ter.memset (ter.lineAddr 0) 128).setLineIdx 0).mem addr =
      (ter.memset (ter.lineAddr 0) 128).mem addr := store_mem_of_ne hidx
  have hrange : ter.lineAddr 0 ≤ addr ∧ addr < ter.lineAddr 0 + 128 ↔
      ter.this + 164 ≤ addr ∧ addr < ter.this + 293 ∨
          ter.this + 300 ≤ addr ∧ addr < ter.this + 309 ∨ addr = ter.this + 336 := by
    simp only [lineAddr]
    omega
  rw [hline]
  exact if_congr hrange rfl rfl

@[simp] theorem resetTerminal_this : ter.resetTerminal.this = ter.this := rfl

theorem resetTerminal_line (hi : i < 128) : ter.resetTerminal.line i = 0 := by
  rw [line, resetTerminal_mem, if_pos]
  simp only [lineAddr, resetTerminal_this]
  omega

theorem resetTerminal_lineIdx : ter.resetTerminal.lineIdx = 0 := by
  rw [lineIdx, resetTerminal_mem, if_pos]
  rw [resetTerminal_this]
  omega

/-! ### The stores of `format_input` -/

theorem LineAccess.write_ne_read (i j : Nat) : LineAccess.write j ≠ .read i := by
  intro heq
  cases heq

/-- The first loop stores before the first zero. -/
theorem cutSpaces_writes {k : Nat} (hcut : cutSpaces left i ter = some (done, accesses))
    (hzero : ter.line k = 0) (hi : i ≤ k) :
    done.this = ter.this ∧ ∀ j, .write j ∈ accesses → j < k := by
  induction left generalizing i ter done accesses with
  | zero => cases hcut
  | succ left ih =>
      rw [cutSpaces] at hcut
      split at hcut
      next hend =>
        obtain ⟨rfl, rfl⟩ := Prod.mk.inj (Option.some.inj hcut)
        refine ⟨rfl, fun j hmem => ?_⟩
        exact absurd (List.mem_singleton.mp hmem) (LineAccess.write_ne_read i j)
      next hchar =>
        have hne : i ≠ k := fun heq => hchar (heq ▸ hzero)
        have hlt : i + 1 ≤ k := Nat.lt_of_le_of_ne hi hne
        split at hcut
        next hspace =>
          obtain ⟨⟨done', later⟩, hlater, hresult⟩ := Option.bind_eq_some_iff.mp hcut
          obtain ⟨rfl, rfl⟩ := Prod.mk.inj (Option.some.inj hresult)
          obtain ⟨hthis, hwrites⟩ := ih hlater ((store_line_of_ne ter 0 hne.symm).trans hzero) hlt
          refine ⟨hthis, fun j hmem => ?_⟩
          rcases List.mem_cons.mp hmem with heq | hmem
          · exact absurd heq (LineAccess.write_ne_read i j)
          · rcases List.mem_cons.mp hmem with heq | hmem
            · rw [LineAccess.write.inj heq]
              exact hlt
            · exact hwrites j hmem
        next =>
          obtain ⟨⟨done', later⟩, hlater, hresult⟩ := Option.bind_eq_some_iff.mp hcut
          obtain ⟨rfl, rfl⟩ := Prod.mk.inj (Option.some.inj hresult)
          obtain ⟨hthis, hwrites⟩ := ih hlater hzero hlt
          refine ⟨hthis, fun j hmem => ?_⟩
          rcases List.mem_cons.mp hmem with heq | hmem
          · cases heq
          · exact hwrites j hmem

theorem skipZeros_reads (hskip : ter.skipZeros left i = some (j, accesses)) (k : Nat) :
    .write k ∉ accesses := by
  induction left generalizing i j accesses with
  | zero => cases hskip
  | succ left ih =>
      by_cases hzero : ter.line i = 0
      · rw [skipZeros_zero hzero, Option.map_eq_some_iff] at hskip
        obtain ⟨⟨j', later⟩, hlater, hresult⟩ := hskip
        obtain ⟨rfl, rfl⟩ := Prod.mk.inj hresult
        rw [List.mem_cons, not_or]
        exact ⟨LineAccess.write_ne_read i k, ih hlater⟩
      · rw [skipZeros_char hzero] at hskip
        obtain ⟨rfl, rfl⟩ := Prod.mk.inj (Option.some.inj hskip)
        exact fun hmem => LineAccess.write_ne_read i k (List.mem_singleton.mp hmem)

theorem scanWords_reads {isHead : Bool}
    (hscan : scanWords left i isHead ter = some (done, accesses)) :
    done.this = ter.this ∧ ∀ k, .write k ∉ accesses := by
  induction left generalizing i isHead ter done accesses with
  | zero => cases hscan
  | succ left ih =>
      rw [scanWords] at hscan
      split at hscan
      next =>
        obtain ⟨⟨j, reads⟩, hskip, hscan⟩ := Option.bind_eq_some_iff.mp hscan
        obtain ⟨⟨done', later⟩, hlater, hresult⟩ := Option.bind_eq_some_iff.mp hscan
        obtain ⟨rfl, rfl⟩ := Prod.mk.inj (Option.some.inj hresult)
        obtain ⟨hthis, hreads⟩ := ih hlater
        have hpushed : (if isHead || i ≠ j then ter.pushArg j else ter).this = ter.this := by
          split <;> rfl
        refine ⟨hthis.trans hpushed, fun k hmem => ?_⟩
        rcases List.mem_append.mp hmem with hmem | hmem
        · exact skipZeros_reads hskip k hmem
        · exact hreads k hmem
      next =>
        obtain ⟨rfl, rfl⟩ := Prod.mk.inj (Option.some.inj hscan)
        exact ⟨rfl, fun _ => List.not_mem_nil⟩

theorem formatInput_writes {k : Nat} (hformat : ter.formatInput = some (done, accesses))
    (hzero : ter.line k = 0) :
    done.this = ter.this ∧ ∀ j, .write j ∈ accesses → j < k := by
  rw [formatInput] at hformat
  obtain ⟨⟨cutted, first⟩, hcut, hformat⟩ := Option.bind_eq_some_iff.mp hformat
  obtain ⟨⟨scanned, second⟩, hscan, hresult⟩ := Option.bind_eq_some_iff.mp hformat
  obtain ⟨rfl, rfl⟩ := Prod.mk.inj (Option.some.inj hresult)
  obtain ⟨hcutThis, hwrites⟩ := cutSpaces_writes hcut hzero (Nat.zero_le k)
  obtain ⟨hscanThis, hreads⟩ := scanWords_reads hscan
  refine ⟨hscanThis.trans hcutThis, fun j hmem => ?_⟩
  rcases List.mem_append.mp hmem with hmem | hmem
  · exact hwrites j hmem
  · exact absurd hmem (hreads j)

/-! ### One key -/

/-- The key is no character, or its loop has an element of the buffer left for it, and one
behind it for the zero that ends the line. -/
def HasRoom (ses : Session) (key : Key) : Prop :=
  key.ch ≠ backspace → key.ch ≠ carriageReturn →
    match ses.mode with
    | .login log => log.idx.toNat < 32
    | .shell => ses.ter.lineIdx.toNat < 127

/-- The key makes the loops store to elements of their buffers only, and leaves an index of
the line. -/
def StaysInside (ses : Session) (key : Key) : Prop :=
  ∀ next, step ses key = some next →
    (∀ write ∈ next.writes, write.InBuffer) ∧ next.ter.lineIdx.toNat ≤ 127

/-- Where the indices are, and the zeros behind the line. -/
structure Bounded (ses : Session) : Prop where
  lineIdx : ses.ter.lineIdx.toNat ≤ 127
  empty : ∀ i, ses.ter.lineIdx.toNat ≤ i → i < 128 → ses.ter.line i = 0
  idx : ∀ log, ses.mode = .login log → log.idx.toNat ≤ 32

theorem Login.strWrite_inBuffer (log : Login) (i : Nat) : (log.strWrite i).InBuffer ↔ i < 32 := by
  rw [Login.strWrite]
  split <;> rfl

theorem beginLogin_writes : ∀ write ∈ ter.beginLogin.writes, write.InBuffer := by
  intro write hmem
  obtain ⟨i, hi, rfl⟩ := List.mem_map.mp hmem
  exact List.mem_range.mp hi

theorem beginLogin_idx (ter : Terminal) {log : Login} (hmode : ter.beginLogin.mode = .login log) :
    log.idx.toNat ≤ 32 := by
  obtain rfl := Mode.login.inj hmode
  exact Nat.zero_le 32

/-- What a key leaves that is read by `login`: the line as it was, and the local buffers with
their bounds. -/
structure LoginKept (ter : Terminal) (next : Session) : Prop where
  keeps : ter.KeepsInput next.ter
  writes : ∀ write ∈ next.writes, write.InBuffer
  idx : ∀ log, next.mode = .login log → log.idx.toNat ≤ 32

theorem loginKey_erase {log : Login} (hidx : log.idx.toNat ≤ 32) (hback : key.ch = backspace)
    (hkey : ter.loginKey log key = some next) : LoginKept ter next := by
  rw [loginKey, if_pos hback] at hkey
  split at hkey
  next hzero =>
    obtain rfl := Option.some.inj hkey
    refine ⟨.refl ter, fun _ hmem => absurd hmem List.not_mem_nil, fun log' hmode => ?_⟩
    rwa [← Mode.login.inj hmode]
  next hsome =>
    obtain rfl := Option.some.inj hkey
    have hpred : (log.idx - 1).toNat < 32 := by
      have hpos : log.idx.toNat ≠ 0 := fun hzero => hsome (BitVec.eq_of_toNat_eq hzero)
      rw [toNat_pred hsome]
      omega
    refine ⟨.refl ter, fun write hmem => ?_, fun log' hmode => ?_⟩
    · rw [List.mem_singleton.mp hmem, Login.strWrite_inBuffer]
      exact hpred
    · have hlog' : log'.idx = log.idx - 1 := by
        rw [← Mode.login.inj hmode, Login.putStr]
        split <;> rfl
      rw [hlog']
      exact hpred.le

theorem loginKey_enter {log : Login} (hreturn : key.ch = carriageReturn)
    (hkey : ter.loginKey log key = some next) : LoginKept ter next := by
  have hback : key.ch ≠ backspace := by
    rw [hreturn]
    decide
  rw [loginKey, if_neg hback, if_pos hreturn] at hkey
  split at hkey
  next hpasswd =>
    dsimp only at hkey
    split at hkey
    next hfailed =>
      obtain rfl := Option.some.inj hkey
      exact ⟨(KeepsInput.setUid _).trans .beginLogin, beginLogin_writes,
        fun log' hmode => beginLogin_idx _ hmode⟩
    next hpassed =>
      split at hkey
      next hends =>
        obtain rfl := Option.some.inj hkey
        exact ⟨(KeepsInput.setUid _).trans (.leave _),
          fun _ hmem => absurd hmem List.not_mem_nil, fun _ hmode => nomatch hmode⟩
      next => cases hkey
  next hname =>
    obtain rfl := Option.some.inj hkey
    refine ⟨.refl ter, fun _ hmem => absurd hmem List.not_mem_nil, fun log' hmode => ?_⟩
    rw [← Mode.login.inj hmode]
    exact Nat.zero_le 32

theorem loginKey_type {log : Login} (hback : key.ch ≠ backspace) (hchar : key.ch ≠ carriageReturn)
    (hlt : log.idx.toNat < 32) (hkey : ter.loginKey log key = some next) :
    LoginKept ter next := by
  have hlog : ∀ log', Mode.login { log.putStr log.idx.toNat key.ch with idx := log.idx + 1 } =
      .login log' → log'.idx.toNat ≤ 32 := by
    intro log' hmode
    rw [← Mode.login.inj hmode, BitVec.toNat_add, Nat.mod_eq_of_lt]
    · exact Nat.succ_le_of_lt hlt
    · exact Nat.lt_of_le_of_lt (Nat.succ_le_of_lt hlt) (by decide)
  have hstr : (log.strWrite log.idx.toNat).InBuffer := (Login.strWrite_inBuffer _ _).mpr hlt
  rw [loginKey, if_neg hback, if_neg hchar] at hkey
  dsimp only at hkey
  split at hkey
  next hpasswd =>
    obtain rfl := Option.some.inj hkey
    refine ⟨.refl ter, fun write hmem => ?_, hlog⟩
    rwa [List.mem_singleton.mp hmem]
  next hname =>
    obtain rfl := Option.some.inj hkey
    refine ⟨.store _ ?_, fun write hmem => ?_, hlog⟩
    · simp only [usernameAddr]
      omega
    · rcases List.mem_cons.mp hmem with rfl | hmem
      · exact hlt
      · rwa [List.mem_singleton.mp hmem]

theorem loginKey_kept {log : Login} (hidx : log.idx.toNat ≤ 32)
    (hroom : key.ch ≠ backspace → key.ch ≠ carriageReturn → log.idx.toNat < 32)
    (hkey : ter.loginKey log key = some next) : LoginKept ter next := by
  by_cases hback : key.ch = backspace
  · exact loginKey_erase hidx hback hkey
  · by_cases hreturn : key.ch = carriageReturn
    · exact loginKey_enter hreturn hkey
    · exact loginKey_type hback hreturn (hroom hback hreturn) hkey

/-- A character for which there is no element. -/
theorem loginKey_outside {log : Login} (hback : key.ch ≠ backspace)
    (hchar : key.ch ≠ carriageReturn) (hfull : 32 ≤ log.idx.toNat)
    (hkey : ter.loginKey log key = some next) : ∃ write ∈ next.writes, ¬ write.InBuffer := by
  have hstr : ¬ (log.strWrite log.idx.toNat).InBuffer :=
    fun h => absurd ((Login.strWrite_inBuffer _ _).mp h) (Nat.not_lt.mpr hfull)
  rw [loginKey, if_neg hback, if_neg hchar] at hkey
  dsimp only at hkey
  split at hkey
  next =>
    obtain rfl := Option.some.inj hkey
    exact ⟨_, List.mem_singleton_self _, hstr⟩
  next =>
    obtain rfl := Option.some.inj hkey
    exact ⟨_, List.mem_cons_of_mem _ (List.mem_singleton_self _), hstr⟩

/-- What a key does to the line in `run`. -/
inductive LineStep (ter : Terminal) (key : Key) (next : Session) : Prop
  | nothing (hback : key.ch = backspace) (hempty : ter.lineIdx = 0) (hter : next.ter = ter)
      (hmode : next.mode = .shell) (hwrites : next.writes = [])
  | erased (hback : key.ch = backspace) (hsome : ter.lineIdx ≠ 0)
      (hter : next.ter = ter.eraseChar) (hmode : next.mode = .shell)
      (hwrites : next.writes = [.line (ter.lineIdx - 1).toNat])
  | typed (hback : key.ch ≠ backspace) (hchar : key.ch ≠ carriageReturn)
      (hter : next.ter = ter.typeChar key.ch) (hmode : next.mode = .shell)
      (hwrites : next.writes = [.line ter.lineIdx.toNat])
  | entered (done left : Terminal) (accesses : List LineAccess) (others : List BufferWrite)
      (hreturn : key.ch = carriageReturn) (hformat : ter.formatInput = some (done, accesses))
      (hleft : done.KeepsInput left) (hter : left.resetTerminal.KeepsInput next.ter)
      (hmode : ∀ log, next.mode = .login log → log.idx.toNat ≤ 32)
      (hwrites : next.writes = accesses.filterMap LineAccess.toWrite ++
        (List.range 128).map .line ++ others)
      (hothers : ∀ write ∈ others, write.InBuffer)

theorem runKey_cases (hkey : ter.runKey key = some next) : ter.LineStep key next := by
  rw [runKey] at hkey
  split at hkey
  next hback =>
    split at hkey
    next hempty =>
      obtain rfl := Option.some.inj hkey
      exact .nothing hback hempty rfl rfl rfl
    next hsome =>
      obtain rfl := Option.some.inj hkey
      exact .erased hback hsome rfl rfl rfl
  next hback =>
    split at hkey
    next hreturn =>
      obtain ⟨⟨done, accesses⟩, hformat, hkey⟩ := Option.bind_eq_some_iff.mp hkey
      dsimp only at hkey
      split at hkey
      next hexit =>
        obtain rfl := Option.some.inj hkey
        have hdirs :
            done.KeepsInput ((done.memset (done.this + 36) 64).memset (done.this + 100) 64) :=
          (KeepsInput.memset (by omega)).trans
            (KeepsInput.memset (by change done.this + 100 + 64 ≤ done.this + 164; omega))
        exact .entered done _ accesses _ hreturn hformat
          (hdirs.trans ((KeepsInput.setUid 0).trans (.memset (usernameAddr_le _)))) .beginLogin
          (fun log hmode => beginLogin_idx done hmode) rfl beginLogin_writes
      next hcommand =>
        obtain rfl := Option.some.inj hkey
        exact .entered done _ accesses [] hreturn hformat (.leave key.others) (.refl _)
          (fun log hmode => nomatch hmode) (List.append_nil _).symm
          fun _ hmem => absurd hmem List.not_mem_nil
    next hchar =>
      obtain rfl := Option.some.inj hkey
      exact .typed hback hchar rfl rfl rfl

theorem Bounded.of_keeps (hbounded : Bounded ses) (hkeeps : ses.ter.KeepsInput next.ter)
    (hidx : ∀ log, next.mode = .login log → log.idx.toNat ≤ 32) : Bounded next where
  lineIdx := by rw [hkeeps.lineIdx]; exact hbounded.lineIdx
  empty i hlow hi := by
    rw [hkeeps.lineIdx] at hlow
    rw [hkeeps.line hi]
    exact hbounded.empty i hlow hi
  idx := hidx

/-- The line is emptied before the next key. -/
theorem Bounded.of_reset (hkeeps : ter.resetTerminal.KeepsInput next.ter)
    (hidx : ∀ log, next.mode = .login log → log.idx.toNat ≤ 32) : Bounded next where
  lineIdx := by
    rw [hkeeps.lineIdx, resetTerminal_lineIdx]
    exact Nat.zero_le 127
  empty i _ hi := by rw [hkeeps.line hi, resetTerminal_line hi]
  idx := hidx

theorem Bounded.eraseChar (hbounded : Bounded ses) (hsome : ses.ter.lineIdx ≠ 0)
    (hter : next.ter = ses.ter.eraseChar) (hmode : next.mode = .shell) : Bounded next where
  lineIdx := by
    have hlineIdx := hbounded.lineIdx
    rw [hter, eraseChar_lineIdx hsome hlineIdx]
    omega
  empty i hlow hi := by
    have hpred := toNat_pred hsome
    rw [hter, eraseChar_lineIdx hsome hbounded.lineIdx] at hlow
    rw [hter, eraseChar_line hi]
    split
    next => rfl
    next hne => exact hbounded.empty i (by omega) hi
  idx log hlog := by
    rw [hmode] at hlog
    cases hlog

theorem Bounded.typeChar (hbounded : Bounded ses) (hroom : ses.ter.lineIdx.toNat < 127)
    (hter : next.ter = ses.ter.typeChar key.ch) (hmode : next.mode = .shell) : Bounded next where
  lineIdx := by
    rw [hter, typeChar_lineIdx ses.ter key.ch (by omega)]
    omega
  empty i hlow hi := by
    rw [hter, typeChar_lineIdx ses.ter key.ch (by omega)] at hlow
    rw [hter, typeChar_line key.ch hi, if_neg (by omega)]
    exact hbounded.empty i (by omega) hi
  idx log hlog := by
    rw [hmode] at hlog
    cases hlog

/-- The line that is entered is cut where it has spaces, and then cleared. -/
theorem Bounded.enter_writes (hbounded : Bounded ses) {done : Terminal}
    {accesses : List LineAccess} (hformat : ses.ter.formatInput = some (done, accesses)) :
    ∀ write ∈ accesses.filterMap LineAccess.toWrite ++ (List.range 128).map .line,
      write.InBuffer := by
  have hlineIdx := hbounded.lineIdx
  have hend := hbounded.empty _ (Nat.le_refl _) (Nat.lt_succ_of_le hlineIdx)
  obtain ⟨-, hstores⟩ := formatInput_writes hformat hend
  intro write hmem
  rcases List.mem_append.mp hmem with hmem | hmem
  · obtain ⟨access, haccess, hwrite⟩ := List.mem_filterMap.mp hmem
    cases access with
    | read i => cases hwrite
    | write i =>
        obtain rfl := Option.some.inj hwrite
        have hlt := hstores i haccess
        exact Nat.lt_succ_of_lt (Nat.lt_of_lt_of_le hlt hlineIdx)
  · obtain ⟨i, hi, rfl⟩ := List.mem_map.mp hmem
    exact List.mem_range.mp hi

/-- A key that has room keeps the bounds, and stays inside of the buffers. -/
theorem Bounded.afterKey (hbounded : Bounded ses) (hroom : HasRoom ses key)
    (hstep : step ses key = some next) :
    Bounded next ∧ ∀ write ∈ next.writes, write.InBuffer := by
  obtain ⟨ter, mode, writes⟩ := ses
  cases mode with
  | login log =>
      have hkept := loginKey_kept (hbounded.idx log rfl) hroom hstep
      exact ⟨hbounded.of_keeps hkept.keeps hkept.idx, hkept.writes⟩
  | shell =>
      have hlineIdx : ter.lineIdx.toNat ≤ 127 := hbounded.lineIdx
      have hcases : ter.LineStep key next := runKey_cases hstep
      cases hcases with
      | nothing hback hempty hter hmode hwrites =>
          have hsame : ter.KeepsInput next.ter := by rw [hter]; exact .refl ter
          refine ⟨hbounded.of_keeps hsame fun log hlog => ?_, ?_⟩
          · rw [hmode] at hlog
            cases hlog
          · rw [hwrites]
            exact fun _ hmem => absurd hmem List.not_mem_nil
      | erased hback hsome hter hmode hwrites =>
          refine ⟨hbounded.eraseChar hsome hter hmode, ?_⟩
          have hpred := toNat_pred hsome
          rw [hwrites]
          intro write hmem
          rw [List.mem_singleton.mp hmem]
          change (ter.lineIdx - 1).toNat < 128
          omega
      | typed hback hchar hter hmode hwrites =>
          have hlt : ter.lineIdx.toNat < 127 := hroom hback hchar
          refine ⟨hbounded.typeChar hlt hter hmode, ?_⟩
          rw [hwrites]
          intro write hmem
          rw [List.mem_singleton.mp hmem]
          exact Nat.lt_succ_of_lt hlt
      | entered done left accesses others hreturn hformat hleft hter hmode hwrites hothers =>
          refine ⟨.of_reset hter hmode, ?_⟩
          rw [hwrites]
          intro write hmem
          rcases List.mem_append.mp hmem with hmem | hmem
          · exact hbounded.enter_writes hformat write hmem
          · exact hothers write hmem

theorem boot_bounded (others : ByteArea) : Bounded (ter.boot others) :=
  .of_reset .beginLogin fun _ hmode => beginLogin_idx _ hmode

/-- In a bounded state a key stays inside just if it has room. -/
theorem Bounded.inside_iff_hasRoom (hbounded : Bounded ses) (hstep : step ses key = some next) :
    StaysInside ses key ↔ HasRoom ses key := by
  constructor
  · intro hinside hback hchar
    obtain ⟨hwrites, hidx⟩ := hinside next hstep
    obtain ⟨ter, mode, writes⟩ := ses
    cases mode with
    | login log =>
        refine Nat.lt_of_not_le fun hfull => ?_
        obtain ⟨write, hmem, hout⟩ := loginKey_outside hback hchar hfull hstep
        exact hout (hwrites write hmem)
    | shell =>
        have hlineIdx : ter.lineIdx.toNat ≤ 127 := hbounded.lineIdx
        have hnext : ter.runKey key = some next := hstep
        rw [runKey, if_neg hback, if_neg hchar, Option.some.injEq] at hnext
        subst hnext
        rw [ter.typeChar_lineIdx key.ch (by omega)] at hidx
        exact hidx
  · intro hroom next' hnext
    obtain ⟨hlater, hwrites⟩ := hbounded.afterKey hroom hnext
    exact ⟨hwrites, hlater.lineIdx⟩

/-! ### No key is left unhandled -/

theorem cutSpaces_isSome {cnt : Nat} (hzero : ter.line (i + cnt) = 0) (hcnt : cnt < left)
    (hline : i + cnt < 128) :
    ∃ done accesses, cutSpaces left i ter = some (done, accesses) ∧ done.lineIdx = ter.lineIdx := by
  induction left generalizing i cnt ter with
  | zero => exact absurd hcnt (Nat.not_lt_zero cnt)
  | succ left ih =>
      by_cases hchar : ter.line i = 0
      · exact ⟨ter, [.read i], by rw [cutSpaces, if_pos hchar], rfl⟩
      · have hpos : cnt ≠ 0 := fun h => hchar (by rwa [h] at hzero)
        obtain ⟨cnt, rfl⟩ := Nat.exists_eq_succ_of_ne_zero hpos
        have hnext : i + (cnt + 1) = i + 1 + cnt := (Nat.add_right_comm i 1 cnt).symm
        rw [hnext] at hzero hline
        by_cases hspace : ter.line i = space
        · obtain ⟨done, accesses, hcut, hidx⟩ := ih
            ((store_line_of_ne ter 0 (by omega : i + 1 + cnt ≠ i)).trans hzero)
            (Nat.lt_of_succ_lt_succ hcnt) hline
          refine ⟨done, .read i :: .write i :: accesses, ?_, hidx.trans (store_mem_of_ne ?_)⟩
          · rw [cutSpaces, if_neg hchar, if_pos hspace, hcut]
            rfl
          · simp only [lineAddr, store_this]
            omega
        · obtain ⟨done, accesses, hcut, hidx⟩ := ih hzero (Nat.lt_of_succ_lt_succ hcnt) hline
          refine ⟨done, .read i :: accesses, ?_, hidx⟩
          rw [cutSpaces, if_neg hchar, if_neg hspace, hcut]
          rfl

theorem skipZeros_isSome {cnt : Nat} (hchar : ter.line (i + cnt) ≠ 0) (hcnt : cnt < left) :
    ∃ j accesses, ter.skipZeros left i = some (j, accesses) ∧ i ≤ j ∧ j ≤ i + cnt := by
  induction left generalizing i cnt with
  | zero => exact absurd hcnt (Nat.not_lt_zero cnt)
  | succ left ih =>
      by_cases hzero : ter.line i = 0
      · have hpos : cnt ≠ 0 := fun h => hchar (by rwa [h])
        obtain ⟨cnt, rfl⟩ := Nat.exists_eq_succ_of_ne_zero hpos
        have hnext : i + (cnt + 1) = i + 1 + cnt := (Nat.add_right_comm i 1 cnt).symm
        rw [hnext] at hchar ⊢
        obtain ⟨j, accesses, hskip, hlow, hhigh⟩ := ih hchar (Nat.lt_of_succ_lt_succ hcnt)
        refine ⟨j, .read i :: accesses, ?_, Nat.le_of_succ_le hlow, hhigh⟩
        rw [skipZeros_zero hzero, hskip]
        rfl
      · exact ⟨i, [.read i], skipZeros_char hzero, Nat.le_refl i, Nat.le_add_right i cnt⟩

/-- The index behind the line is not zero while there is something to read. -/
theorem scanWords_isSome (isHead : Bool) (hidx : ter.lineIdx.toNat ≤ 127) (hturns : 129 < i + left)
    (hi : i ≤ 129) : ∃ done accesses, scanWords left i isHead ter = some (done, accesses) := by
  induction left generalizing i isHead ter with
  | zero => exact absurd hturns (Nat.not_lt.mpr hi)
  | succ left ih =>
      by_cases hmore : i < ter.lineIdx.toNat
      · have hfound : ter.line (i + (128 - i)) ≠ 0 := by
          rw [Nat.add_sub_cancel' (by omega), line_lineIdx]
          intro hzero
          rw [hzero] at hmore
          exact Nat.not_lt_zero i hmore
        obtain ⟨j, reads, hskip, hlow, hhigh⟩ :=
          skipZeros_isSome hfound (by omega : 128 - i < 176 - i)
        have hkept : (if isHead || i ≠ j then ter.pushArg j else ter).lineIdx = ter.lineIdx := by
          split
          next => exact pushArg_lineIdx
          next => rfl
        have hidx' : (if isHead || i ≠ j then ter.pushArg j else ter).lineIdx.toNat ≤ 127 := by
          rwa [hkept]
        obtain ⟨done, accesses, hscan⟩ := ih (i := j + 1) false hidx' (by omega) (by omega)
        exact ⟨done, reads ++ accesses, scanWords_succ hmore hskip hscan⟩
      · exact ⟨ter, [], by rw [scanWords, if_neg hmore]⟩

theorem Bounded.formatInput_isSome (hbounded : Bounded ses) :
    ∃ done accesses, ses.ter.formatInput = some (done, accesses) := by
  have hlineIdx := hbounded.lineIdx
  have hend := hbounded.empty _ (Nat.le_refl _) (Nat.lt_succ_of_le hlineIdx)
  rw [← Nat.zero_add ses.ter.lineIdx.toNat] at hend
  obtain ⟨cutted, first, hcut, hidx⟩ :=
    cutSpaces_isSome hend (by omega : ses.ter.lineIdx.toNat < 176) (by omega)
  rw [← hidx] at hlineIdx
  obtain ⟨scanned, second, hscan⟩ :=
    scanWords_isSome true hlineIdx (by omega : 129 < 0 + 256) (by omega)
  refine ⟨scanned.setArgc (scanned.argc - 1), first ++ second, ?_⟩
  rw [formatInput, hcut]
  simp only [Option.bind_eq_bind, Option.bind_some, hscan]

/-- Only a login with a name that fills its buffer does not come back. -/
theorem Bounded.step_isSome (hbounded : Bounded ses) (key : Key)
    (hends : (ses.ter.setUid key.uid).NameEnds) : ∃ next, step ses key = some next := by
  rw [step]
  split
  next log hmode =>
    rw [loginKey]
    split
    next =>
      split
      next => exact ⟨_, rfl⟩
      next => exact ⟨_, rfl⟩
    next =>
      split
      next =>
        split
        next =>
          dsimp only
          split
          next => exact ⟨_, rfl⟩
          next => exact ⟨_, rfl⟩
        next => exact ⟨_, rfl⟩
      next =>
        dsimp only
        split
        next => exact ⟨_, rfl⟩
        next => exact ⟨_, rfl⟩
  next hmode =>
    obtain ⟨done, accesses, hformat⟩ := hbounded.formatInput_isSome
    rw [runKey, hformat]
    split
    next =>
      split
      next => exact ⟨_, rfl⟩
      next => exact ⟨_, rfl⟩
    next =>
      split
      next =>
        simp only [Option.bind_eq_bind, Option.bind_some]
        split
        next => exact ⟨_, rfl⟩
        next => exact ⟨_, rfl⟩
      next => exact ⟨_, rfl⟩

/-! ### Runs -/

/-- In a run every key stays inside of the buffers if and only if each of them had room. -/
theorem run_staysInside_iff (ter : Terminal) (others : ByteArea) {keys : List Key}
    {last : Session} :
    Run step StaysInside (ter.boot others) keys last ↔
      Run step HasRoom (ter.boot others) keys last :=
  Run.congr_of_invariant Bounded (boot_bounded others)
    (fun _ _ _ hbounded hstep => hbounded.inside_iff_hasRoom hstep)
    fun _ _ _ hbounded hroom hstep => (hbounded.afterKey hroom hstep).1

/-- In every run whose keys have room the next key comes back, unless it logs in with a name that
fills its buffer. -/
theorem run_step_isSome (ter : Terminal) (others : ByteArea) {keys : List Key} {last : Session}
    (hrun : Run step HasRoom (ter.boot others) keys last) (key : Key)
    (hends : (last.ter.setUid key.uid).NameEnds) : ∃ next, step last key = some next := by
  have hbounded : Bounded last := hrun.invariant Bounded (boot_bounded others)
    fun _ _ _ hbounded hroom hstep => (hbounded.afterKey hroom hstep).1
  exact hbounded.step_isSome key hends

/-- A character key, whatever the rest of the system would do. -/
def charKey (ch : Char) : Key := ⟨ofChar ch, 0, .zeros⟩

/-- A name is collected as it is typed. -/
theorem login_run (start : Session) (count : Nat) (hcount : count < 256)
    (hstart : ∃ ter log, start = ⟨ter, .login log, start.writes⟩ ∧ log.idx = 0) :
    ∃ ter log writes, log.idx.toNat = count ∧
      Run step (fun _ _ => True) start (List.replicate count (charKey 'a'))
        ⟨ter, .login log, writes⟩ := by
  induction count with
  | zero =>
      obtain ⟨ter, log, hstart, hidx⟩ := hstart
      refine ⟨ter, log, start.writes, by rw [hidx]; rfl, ?_⟩
      rw [← hstart]
      exact .nil
  | succ count ih =>
      obtain ⟨ter, log, writes, hidx, hrun⟩ := ih (Nat.lt_of_succ_lt hcount)
      have hnext : (log.idx + 1).toNat = count + 1 := by
        rw [BitVec.toNat_add, hidx, Nat.mod_eq_of_lt]
        · rfl
        · exact hcount
      have hback : (charKey 'a').ch ≠ backspace := by decide
      have hchar : (charKey 'a').ch ≠ carriageReturn := by decide
      have hstep : ∃ ter' writes', step ⟨ter, .login log, writes⟩ (charKey 'a') =
          some ⟨ter', .login { log.putStr log.idx.toNat (charKey 'a').ch with idx := log.idx + 1 },
            writes'⟩ := by
        simp only [step, loginKey, if_neg hback, if_neg hchar]
        split
        next => exact ⟨_, _, rfl⟩
        next => exact ⟨_, _, rfl⟩
      obtain ⟨ter', writes', hstep⟩ := hstep
      refine ⟨ter', { log.putStr log.idx.toNat (charKey 'a').ch with idx := log.idx + 1 }, writes',
        hnext, ?_⟩
      rw [List.replicate_succ']
      exact hrun.snoc trivial hstep

/-- A name of 33 characters. -/
theorem long_name_overflows :
    ¬ ∀ (ter : Terminal) (others : ByteArea) (keys : List Key) (last : Session),
      Run step (fun _ _ => True) (ter.boot others) keys last →
        Run step StaysInside (ter.boot others) keys last := by
  intro hall
  obtain ⟨ter, log, writes, hidx, hrun⟩ :=
    login_run ((typed []).boot .zeros) 32 (by decide) ⟨_, _, rfl, rfl⟩
  have hback : (charKey 'a').ch ≠ backspace := by decide
  have hchar : (charKey 'a').ch ≠ carriageReturn := by decide
  obtain ⟨ter', log', writes', -, hrun'⟩ :=
    login_run ((typed []).boot .zeros) 33 (by decide) ⟨_, _, rfl, rfl⟩
  have hinside := hall _ _ _ _ hrun'
  rw [List.replicate_succ'] at hinside
  obtain ⟨before, hbefore, hlast, hstep⟩ := hinside.last
  obtain rfl := hbefore.unique hrun
  obtain ⟨write, hmem, hout⟩ := loginKey_outside hback hchar (Nat.le_of_eq hidx.symm) hstep
  exact hout ((hlast _ hstep).1 write hmem)

end Terminal

end Shmily
