import Shmily.Foundation.Cancellation
import Shmily.Fs.Components
import Shmily.Lib.Strings

/-! # Paths on the command line

`format_path` makes an absolute path of an argument. The path is cut at its slashes in
place; a pass from the back flags the components that go, with the character 1, and a pass
from the front copies the others to a second array. This pass puts each slash where it
was, and each component behind what the array holds.
-/

namespace Shmily.Terminal

open Foundation Lib
open Fs (slash dot joinPath joinPath_cons IsComponent)

/-- `".."`. -/
def dotDot : List Byte := [dot, dot]

/-- The flag of a component that is not copied. -/
def flag : Byte := 1

/-- `path_relative2abs`, for a pointer that is not null. -/
def pathRelative2abs (curDir relativePath absPath : List Byte) : Option (List Byte) :=
  if relativePath = [] then strcpy absPath 0 curDir
  else if relativePath.head? = some slash then strcpy absPath 0 relativePath
  else do
    let absPath ← strcpy absPath 0 curDir
    if strcmp curDir [slash] then strcpy absPath curDir.length relativePath
    else do
      let absPath ← putChar absPath curDir.length slash
      strcpy absPath (curDir.length + 1) relativePath

/-- The loop of `path_double_dot` that ends a string at each slash. -/
def cutSlashes : Nat → Nat → List Byte → Option (List Byte)
  | 0, _, path => some path
  | left + 1, i, path => do
      let char ← path[i]?
      if char = slash then do
        let path ← putChar path i 0
        cutSlashes left (i + 1) path
      else cutSlashes left (i + 1) path

/-- The loop of `path_double_dot` from back to front, with `cnt`. -/
def flagEntries : Nat → List Byte → Nat → Option (List Byte)
  | 0, path, _ => some path
  | i + 1, path, cnt => do
      let char ← path[i]?
      if char ≠ 0 then flagEntries i path cnt
      else
        let entry ← stringAt path (i + 1)
        if strcmp entry dotDot then do
          let path ← putChar path (i + 1) flag
          flagEntries i path (cnt + 1)
        else if cnt ≠ 0 then do
          let path ← putChar path (i + 1) flag
          flagEntries i path (cnt - 1)
        else flagEntries i path cnt

/-- The loop of `path_double_dot` that copies, at most so many times. -/
def copyEntries (path : List Byte) (l : Nat) : Nat → Nat → List Byte → Option (List Byte)
  | 0, _, _ => none
  | fuel + 1, i, buf =>
      if i < l then do
        let buf ← putChar buf i slash
        let i := i + 1
        let char ← path[i]?
        let entry ← stringAt path i
        if char ≠ flag then do
          let len ← strlen buf
          let buf ← strcpy buf len entry
          copyEntries path l fuel (i + entry.length) buf
        else copyEntries path l fuel (i + entry.length) buf
      else some buf

/-- `path_double_dot`. Each turn of the copying loop moves on by a character at least. -/
def pathDoubleDot (path : List Byte) : Option (List Byte) := do
  let l ← strlen path
  let path ← cutSlashes l 0 path
  let path ← flagEntries l path 0
  let buf ← copyEntries path l (l + 1) 0 (List.replicate 128 0)
  let str ← stringAt buf 0
  let path ← strcpy path 0 str
  putChar path str.length 0

/-- The loop of `skip_last_slash`, from an index down to 1. -/
def skipSlashesFrom : Nat → List Byte → Option (List Byte)
  | 0, path => some path
  | i + 1, path => do
      let char ← path[i + 1]?
      if char = slash then do
        let path ← putChar path (i + 1) 0
        skipSlashesFrom i path
      else some path

/-- `skip_last_slash`. -/
def skipLastSlash (path : List Byte) : Option (List Byte) := do
  let len ← strlen path
  skipSlashesFrom (len - 1) path

/-- `format_path`. -/
def formatPath (curDir path newPath : List Byte) : Option (List Byte) := do
  let newPath ← pathRelative2abs curDir path newPath
  let newPath ← pathDoubleDot newPath
  skipLastSlash newPath

/-! ### The passes over the path -/

/-- The path with its slashes cut: each component behind a zero. -/
def cutPath (names : List (List Byte)) : List Byte := names.flatMap (0 :: ·)

def isDotDot (name : List Byte) : Bool := name = dotDot

/-- The components, with a flag on those that are not copied. -/
def flagNames : List (List Byte) → List (List Byte)
  | [] => []
  | name :: rest =>
      (if Cancellation.IsDropped isDotDot name rest then name.set 0 flag else name) :: flagNames rest

section

variable {name : List Byte} {names : List (List Byte)}

theorem cutPath_cons : cutPath (name :: names) = 0 :: (name ++ cutPath names) := rfl

theorem cutPath_append (front rest : List (List Byte)) :
    cutPath (front ++ rest) = cutPath front ++ cutPath rest := List.flatMap_append

/-- The string of a component ends at the next one, or at the end of the path. -/
theorem cutPath_head (names : List (List Byte)) (post : List Byte) :
    ∃ rest, cutPath names ++ 0 :: post = 0 :: rest := by
  cases names with
  | nil => exact ⟨post, rfl⟩
  | cons name names => exact ⟨_, rfl⟩

theorem cutSlashes_append (pre chars post : List Byte) :
    cutSlashes chars.length pre.length (pre ++ (chars ++ post)) =
      some (pre ++ (chars.map (fun char => if char = slash then 0 else char) ++ post)) := by
  induction chars generalizing pre with
  | nil => rfl
  | cons char chars ih =>
      have hget : (pre ++ char :: (chars ++ post))[pre.length]? = some char := by simp
      have hrest := ih (pre ++ [if char = slash then 0 else char])
      rw [List.append_assoc, List.length_append, List.append_assoc] at hrest
      rw [List.length_cons, List.cons_append, cutSlashes, hget, Option.bind_eq_bind,
        Option.bind_some, putChar_append]
      refine Eq.trans ?_ hrest
      split
      next => rfl
      next => rfl

theorem map_joinPath (hslash : ∀ name ∈ names, slash ∉ name) :
    (joinPath names).map (fun char => if char = slash then 0 else char) = cutPath names := by
  induction names with
  | nil => rfl
  | cons name names ih =>
      have hname : name.map (fun char => if char = slash then 0 else char) = name := by
        refine (List.map_congr_left fun char hchar => ?_).trans (List.map_id name)
        exact if_neg (ne_of_mem_of_not_mem hchar (hslash name List.mem_cons_self))
      rw [joinPath_cons, List.map_cons, if_pos rfl, List.map_append, hname,
        ih fun other hother => hslash other (List.mem_cons_of_mem name hother), cutPath_cons]

/-- Nothing happens inside a component. -/
theorem flagEntries_skip (cnt : Nat) (pre post : List Byte) {chars : List Byte} (hchars : 0 ∉ chars) :
    flagEntries (pre.length + chars.length) (pre ++ (chars ++ post)) cnt =
      flagEntries pre.length (pre ++ (chars ++ post)) cnt := by
  induction chars generalizing pre with
  | nil => rfl
  | cons char chars ih =>
      obtain ⟨hchar, hrest⟩ := not_or.mp (mt List.mem_cons.mpr hchars)
      have hget : (pre ++ char :: (chars ++ post))[pre.length]? = some char := by simp
      have hnext := ih (pre ++ [char]) hrest
      rw [List.append_assoc, List.length_append, List.length_singleton] at hnext
      rw [List.length_cons, ← Nat.add_assoc, Nat.add_right_comm, List.cons_append]
      refine hnext.trans ?_
      change flagEntries (pre.length + 1) (pre ++ char :: (chars ++ post)) cnt = _
      rw [flagEntries, hget, Option.bind_eq_bind, Option.bind_some, if_pos (Ne.symm hchar)]

/-- One component is flagged, or not. -/
theorem flagEntries_name (cnt : Nat) (pre post : List Byte) (hne : name ≠ []) (hnul : 0 ∉ name) :
    flagEntries (pre.length + 1 + name.length) (pre ++ 0 :: (name ++ 0 :: post)) cnt =
      flagEntries pre.length
        (pre ++ 0 :: ((if name = dotDot ∨ cnt ≠ 0 then name.set 0 flag else name) ++ 0 :: post))
        (if name = dotDot then cnt + 1 else cnt - 1) := by
  have hskip := flagEntries_skip cnt (pre ++ [0]) (0 :: post) hnul
  rw [List.append_assoc, List.length_append] at hskip
  refine hskip.trans ?_
  change flagEntries (pre.length + 1) (pre ++ 0 :: (name ++ 0 :: post)) cnt = _
  have hget : (pre ++ 0 :: (name ++ 0 :: post))[pre.length]? = some 0 := by simp
  have hentry : stringAt (pre ++ 0 :: (name ++ 0 :: post)) (pre.length + 1) = some name := by
    have hstring := stringAt_append (pre ++ [0]) post hnul
    rwa [List.append_assoc, List.length_append] at hstring
  have hput : putChar (pre ++ 0 :: (name ++ 0 :: post)) (pre.length + 1) flag =
      some (pre ++ 0 :: (name.set 0 flag ++ 0 :: post)) := by
    obtain ⟨char, chars, rfl⟩ := List.exists_cons_of_ne_nil hne
    have hput := putChar_append (pre ++ [0]) (chars ++ 0 :: post) char flag
    rwa [List.append_assoc, List.append_assoc, List.length_append] at hput
  rw [flagEntries, hget]
  simp only [Option.bind_eq_bind, Option.bind_some, ne_eq, not_true_eq_false, if_false, hentry,
    strcmp_iff, hput]
  by_cases hdots : name = dotDot
  · rw [if_pos hdots, if_pos (.inl hdots), if_pos hdots]
  · rw [if_neg hdots, if_neg hdots]
    by_cases hcnt : cnt = 0
    · rw [if_neg (not_not.mpr hcnt), if_neg (by simp [hdots, hcnt]), hcnt]
    · rw [if_pos hcnt, if_pos (.inr hcnt)]

/-- The pass from the back flags the components that are not copied. -/
theorem flagEntries_cutPath (pre post : List Byte)
    (hnames : ∀ name ∈ names, name ≠ [] ∧ 0 ∉ name) :
    flagEntries (pre.length + (cutPath names).length) (pre ++ (cutPath names ++ 0 :: post)) 0 =
      flagEntries pre.length (pre ++ (cutPath (flagNames names) ++ 0 :: post))
        (Cancellation.pending isDotDot names) := by
  induction names generalizing pre with
  | nil => rfl
  | cons name names ih =>
      obtain ⟨hne, hnul⟩ := hnames name List.mem_cons_self
      have hrest := ih (pre ++ 0 :: name) fun other hother =>
        hnames other (List.mem_cons_of_mem name hother)
      obtain ⟨tail, htail⟩ := cutPath_head (flagNames names) post
      have hname := flagEntries_name (Cancellation.pending isDotDot names) pre tail hne hnul
      rw [htail] at hrest
      simp only [List.append_assoc, List.cons_append, List.length_append, List.length_cons] at hrest
      rw [cutPath_cons, flagNames, cutPath_cons, List.length_cons, List.length_append]
      have hindex : pre.length + (name.length + (cutPath names).length + 1) =
          pre.length + (name.length + 1) + (cutPath names).length := by omega
      rw [hindex, List.cons_append, List.append_assoc, hrest, ← Nat.add_assoc, Nat.add_right_comm,
        hname, List.cons_append, List.append_assoc, htail]
      simp only [Cancellation.IsDropped, isDotDot, decide_eq_true_eq, Cancellation.pending]

end

end Shmily.Terminal
