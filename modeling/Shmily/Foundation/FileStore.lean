import Mathlib.Data.BitVec
import Mathlib.Logic.Function.Basic

/-! # A store of byte files

Files have names and hold bytes. A file is read through a position that moves on; what
is written is appended.
-/

namespace Shmily.Foundation

universe u

structure FileStore (Path : Type u) where
  files : Path → Option (List (BitVec 8))

/-- An open file, with the position from which it is read. -/
structure OpenFile (Path : Type u) where
  path : Path
  offset : Nat

namespace FileStore

variable {Path : Type u}

/-- The bytes of a file; none if there is no such file. -/
def content (store : FileStore Path) (path : Path) : List (BitVec 8) := (store.files path).getD []

/-- A file that exists is opened at its start. -/
def openFile (store : FileStore Path) (path : Path) : Option (OpenFile Path) :=
  (store.files path).map fun _ => { path := path, offset := 0 }

/-- What has not been read yet. -/
def unread (store : FileStore Path) (file : OpenFile Path) : List (BitVec 8) :=
  (store.content file.path).drop file.offset

def isEof (store : FileStore Path) (file : OpenFile Path) : Bool := (store.unread file).isEmpty

/-- Read some bytes, or as many as there are. -/
def read (store : FileStore Path) (file : OpenFile Path) (cnt : Nat) :
    List (BitVec 8) × OpenFile Path :=
  let bytes := (store.unread file).take cnt
  (bytes, { file with offset := file.offset + bytes.length })

section

variable [DecidableEq Path]

def append (store : FileStore Path) (file : OpenFile Path) (bytes : List (BitVec 8)) :
    FileStore Path where
  files := Function.update store.files file.path (some (store.content file.path ++ bytes))

/-- A new file is empty; one that exists is kept. -/
def create (store : FileStore Path) (path : Path) : FileStore Path where
  files := Function.update store.files path (some (store.content path))

def remove (store : FileStore Path) (path : Path) : FileStore Path where
  files := Function.update store.files path none

/-- The file gets another name. -/
def rename (store : FileStore Path) (src dst : Path) : FileStore Path where
  files := Function.update (Function.update store.files src none) dst (store.files src)

end

variable {store : FileStore Path} {file : OpenFile Path} {path other : Path}
  {byte : BitVec 8} {bytes rest : List (BitVec 8)}

/-- An opened file is unread. -/
theorem openFile_unread (hfile : store.files path = some bytes) :
    store.openFile path = some ⟨path, 0⟩ ∧ store.unread ⟨path, 0⟩ = bytes := by
  constructor
  · rw [openFile, hfile]
    rfl
  · rw [unread, content, hfile]
    rfl

theorem isEof_iff : store.isEof file = true ↔ store.unread file = [] := List.isEmpty_iff

/-- Reading one byte moves on to the next. -/
theorem read_one (hunread : store.unread file = byte :: rest) :
    store.read file 1 = ([byte], { file with offset := file.offset + 1 }) ∧
      store.unread { file with offset := file.offset + 1 } = rest := by
  constructor
  · rw [read, hunread]
    rfl
  · have hdrop : store.unread { file with offset := file.offset + 1 } =
        (store.unread file).drop 1 := by
      rw [unread, unread, List.drop_drop]
    rw [hdrop, hunread]
    rfl

section

variable [DecidableEq Path]

theorem files_create_self : (store.create path).files path = some (store.content path) :=
  Function.update_self path _ store.files

theorem files_create_of_ne (hne : other ≠ path) :
    (store.create path).files other = store.files other :=
  Function.update_of_ne hne _ store.files

theorem append_of_files (hfile : store.files file.path = some rest) (bytes : List (BitVec 8)) :
    store.append file bytes = ⟨Function.update store.files file.path (some (rest ++ bytes))⟩ := by
  rw [append, content, hfile]
  rfl

theorem content_update_of_ne (hne : other ≠ path) (file : Option (List (BitVec 8))) :
    content ⟨Function.update store.files path file⟩ other = store.content other :=
  congrArg (Option.getD · []) (Function.update_of_ne hne file store.files)

/-- A file takes the place of one that was removed. -/
theorem rename_remove {src dst : Path} (hne : src ≠ dst) : (store.remove dst).rename src dst =
    ⟨Function.update (Function.update store.files src none) dst (store.files src)⟩ := by
  refine congrArg FileStore.mk (funext fun path => ?_)
  by_cases hdst : path = dst
  · simp [remove, hdst, hne]
  · by_cases hsrc : path = src
    · simp [remove, hsrc, hne]
    · simp [remove, hdst, hsrc]

/-- Writing to another file changes nothing that is to be read. -/
theorem unread_append {target : OpenFile Path} (hne : file.path ≠ target.path) :
    (store.append target bytes).unread file = store.unread file := by
  simp [unread, content, append, hne]

end

end FileStore

end Shmily.Foundation
