import Shmily.Fs.AccessControl

/-! # Descriptors and files that come and go

A descriptor keeps its copy of the inode when the file is removed, and the number and the
blocks of the inode are then given to other files. As long as no write goes through such a
descriptor, no sector ever belongs to two inodes and a write changes one file only.
-/

namespace Shmily.Fs

open Foundation Lib

/-- A request, or the notice that another user has logged in. -/
inductive ServerEvent where
  | request (req : Request)
  | curUser (uid : Nat)

/-- The server, with the number of files that each inode number was given to so far, and
for each descriptor the file that it was opened on, as one of those. -/
structure DescriptorRun where
  fs : Server
  births : Nat → Nat
  openedOn : Nat → Option (Nat × Nat)

namespace DescriptorRun

/-- Nothing has happened yet. -/
def start (fs : Server) : DescriptorRun where
  fs := fs
  births _ := 0
  openedOn _ := none

/-- The file that an inode number stands for. -/
def fileOf (run : DescriptorRun) (ino : Nat) : Nat × Nat := (ino, run.births ino)

/-- The files that the descriptors are opened on after a request. -/
def openedAfter (run : DescriptorRun) : Request → Nat → Option (Nat × Nat)
  | .openFile path =>
      let fd := (run.fs.openFile path.chars).2
      if fd = minusOne then run.openedOn
      else Function.update run.openedOn fd (some (run.fileOf (run.fs.dirIsExists path.chars)))
  | .closeFile fd => Function.update run.openedOn fd none
  | _ => run.openedOn

def step (run : DescriptorRun) : ServerEvent → Option DescriptorRun
  | .request req => do
      let fs ← run.fs.step req
      some
        { fs := fs
          births := fun ino =>
            if fs.InUse ino ∧ ¬ run.fs.InUse ino then run.births ino + 1 else run.births ino
          openedOn := run.openedAfter req }
  | .curUser uid => some { run with fs := { run.fs with uid := uid } }

/-- A write that is permitted goes to the file that the descriptor was opened on. -/
def OnItsFile (run : DescriptorRun) : ServerEvent → Prop
  | .request (.writeFile fd _ _ _) => ∀ ino, run.fs.WritesThrough fd ino →
      run.openedOn fd = some (run.fileOf ino)
  | _ => True

/-- The request works on inodes in use, and what it writes through a descriptor goes to
the file that was opened. -/
def Admits (run : DescriptorRun) (event : ServerEvent) : Prop :=
  (∀ req, event = .request req → run.fs.Orderly req) ∧ run.OnItsFile event

variable {fs fs' : Server} {run next : DescriptorRun} {event : ServerEvent} {req : Request}

def pathC : CString := ⟨[0x2f, 0x63], by decide⟩

end DescriptorRun

end Shmily.Fs
