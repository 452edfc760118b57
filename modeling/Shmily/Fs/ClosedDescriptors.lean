import Shmily.Foundation.Run
import Shmily.Fs.RoundTrip

/-! # Calls on a descriptor that is not open

Five operations index the descriptor table with the number that they are given, and none
of them compares it with the size of the table. Three of them look whether the entry is
null, `lseek_file` and `is_eof` do not.
-/

namespace Shmily.Fs

open Foundation Lib

/-- The calls that are given a descriptor. -/
inductive DescriptorCall where
  | readFile (buf : ByteArea) (count : Nat)
  | writeFile (str : StringBuffer) (count : Nat) (mode : Byte)
  | lseekFile (offset : Nat)
  | isEof
  | closeFile

/-- Opening and closing a file. -/
inductive OpenClose where
  | openFile (path : List Byte)
  | closeFile (fd : Nat)

namespace DescriptorCall

def run (fs : Server) (fd : Nat) : DescriptorCall → Option Server
  | readFile buf count => (fs.readFile fd buf count).map Prod.fst
  | writeFile str count mode => fs.writeFile fd str count mode
  | lseekFile offset => fs.lseekFile fd offset
  | isEof => (fs.isEof fd).map fun _ => fs
  | closeFile => fs.closeFile fd

/-- The operation returns if the entry is null. -/
def checksNull : DescriptorCall → Bool
  | readFile .. | writeFile .. | closeFile => true
  | lseekFile _ | isEof => false

end DescriptorCall

namespace Server

/-- The descriptor denotes an open file. -/
def IsOpen (fs : Server) (fd : Nat) : Prop := fd < 64 ∧ fs.fileDescTbl fd ≠ none

def openClose (fs : Server) : OpenClose → Option Server
  | .openFile path => some (fs.openFile path).1
  | .closeFile fd => fs.closeFile fd

/-- The call indexes the table within its bounds and follows no null pointer (there is a
result), and the table and the disk stay as they are. -/
def HarmlessCall (fs : Server) (fd : Nat) (call : DescriptorCall) : Prop :=
  ∃ fs', call.run fs fd = some fs' ∧ fs'.fileDescTbl = fs.fileDescTbl ∧ fs'.disk = fs.disk

variable {fs : Server} {fd : Nat}

theorem fileAt_closed (hclosed : ¬ fs.IsOpen fd) (hfd : fd < 64) : fs.fileAt fd = some none := by
  have hnone : fs.fileDescTbl fd = none := by
    by_contra hne
    exact hclosed ⟨hfd, hne⟩
  rw [fileAt, if_pos hfd, hnone]

theorem fileAt_of_le (fs : Server) (hfd : 64 ≤ fd) : fs.fileAt fd = none :=
  if_neg (Nat.not_lt.mpr hfd)

/-- Outside the table there is no result. -/
theorem run_of_le (hfd : 64 ≤ fd) (call : DescriptorCall) : call.run fs fd = none := by
  have hat := fs.fileAt_of_le hfd
  cases call with
  | readFile buf count =>
      change (fs.readFile fd buf count).map Prod.fst = none
      rw [readFile, hat]
      rfl
  | writeFile str count mode =>
      change fs.writeFile fd str count mode = none
      rw [writeFile, hat]
      rfl
  | lseekFile offset =>
      change fs.lseekFile fd offset = none
      rw [lseekFile, hat]
      rfl
  | isEof =>
      change (fs.isEof fd).map (fun _ => fs) = none
      rw [isEof, hat]
      rfl
  | closeFile =>
      change fs.closeFile fd = none
      rw [closeFile, hat]
      rfl

/-- At a null entry the calls that look at it return at once, and the others follow it. -/
theorem run_closed (hclosed : ¬ fs.IsOpen fd) (hfd : fd < 64) (call : DescriptorCall) :
    call.run fs fd = if call.checksNull then some fs else none := by
  have hat := fileAt_closed hclosed hfd
  cases call with
  | readFile buf count =>
      change (fs.readFile fd buf count).map Prod.fst = some fs
      rw [readFile, hat]
      rfl
  | writeFile str count mode =>
      change fs.writeFile fd str count mode = some fs
      rw [writeFile, hat]
      rfl
  | lseekFile offset =>
      change fs.lseekFile fd offset = none
      rw [lseekFile, hat]
      rfl
  | isEof =>
      change (fs.isEof fd).map (fun _ => fs) = none
      rw [isEof, hat]
      rfl
  | closeFile =>
      change fs.closeFile fd = some fs
      rw [closeFile, hat]
      rfl

/-- After any opens and closes, a call on a descriptor that is not open is harmless if and
only if the descriptor is less than 64 and the call looks at the entry. -/
theorem closed_harmless_iff (start : Server) :
    ∀ events fs, Run openClose (fun _ _ => True) start events fs →
      ∀ fd, ¬ fs.IsOpen fd → ∀ call : DescriptorCall,
        fs.HarmlessCall fd call ↔ fd < 64 ∧ call.checksNull = true := by
  intro events fs _ fd hclosed call
  rcases Nat.lt_or_ge fd 64 with hfd | hfd
  · rw [HarmlessCall, run_closed hclosed hfd]
    constructor
    · rintro ⟨fs', hresult, -⟩
      refine ⟨hfd, ?_⟩
      by_contra hunchecked
      rw [if_neg hunchecked] at hresult
      cases hresult
    · rintro ⟨-, hchecks⟩
      exact ⟨fs, if_pos hchecks, rfl, rfl⟩
  · constructor
    · rintro ⟨fs', hresult, -⟩
      rw [run_of_le hfd] at hresult
      cases hresult
    · rintro ⟨hlt, -⟩
      exact absurd hlt (Nat.not_lt.mpr hfd)

/-- The file `/x`, which does not exist, is opened. -/
def failedOpen : List OpenClose := [.openFile [slash, 0x78]]

theorem failedOpen_run : Run openClose (fun _ _ => True) smallServer failedOpen smallServer := by
  have hfails : (smallServer.openFile [slash, 0x78]).1 = smallServer := by
    rw [openFile, show smallServer.dirIsExists [slash, 0x78] = minusOne by decide]
    rfl
  exact Run.snoc .nil trivial (congrArg some hfails)

/-- Reading from an entry that was never opened. -/
theorem closed_harmless_read : smallServer.HarmlessCall 1 (.readFile ByteArea.zeros 1) :=
  (closed_harmless_iff smallServer failedOpen smallServer failedOpen_run 1
    (fun hopen => hopen.2 rfl) _).mpr ⟨by decide, rfl⟩

/-- The result of the failed `open_file` is given to `is_eof`. -/
theorem failed_open_then_eof :
    (smallServer.openFile [slash, 0x78]).2 = minusOne ∧
      ¬ ∀ (start : Server) (events : List OpenClose) (fs : Server),
        Run openClose (fun _ _ => True) start events fs →
          ∀ fd < 2 ^ 32, ¬ fs.IsOpen fd → ∀ call : DescriptorCall, fs.HarmlessCall fd call := by
  refine ⟨by decide, fun hall => ?_⟩
  obtain ⟨fs', hresult, -⟩ := hall smallServer failedOpen smallServer failedOpen_run minusOne
    (by decide) (fun hopen => absurd hopen.1 (by decide)) .isEof
  have hnone : (smallServer.isEof minusOne).map (fun _ => smallServer) = some fs' := hresult
  rw [isEof, smallServer.fileAt_of_le (by decide)] at hnone
  cases hnone

end Server

end Shmily.Fs
