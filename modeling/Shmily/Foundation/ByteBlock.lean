import Shmily.Foundation.OnesComplement

/-! # Blocks of bytes in an area

A block is a list of bytes that is stored at an offset. Blocks that are stored one behind the
other make one block. A function that is given a pointer into an area works on the part of the
area from there on.
-/

namespace Shmily.Foundation

namespace ByteArea

/-- Store a list of bytes. -/
def putBytes (area : ByteArea) : Nat → List (BitVec 8) → ByteArea
  | _, [] => area
  | offset, byte :: rest => Function.update (putBytes area (offset + 1) rest) offset byte

/-- The part from an offset on. -/
def part (area : ByteArea) (offset : Nat) : ByteArea := fun k => area (offset + k)

/-- Work on the part from an offset on. -/
def onPart (area : ByteArea) (offset : Nat) (work : ByteArea → ByteArea) : ByteArea := fun k =>
  if offset ≤ k then work (area.part offset) (k - offset) else area k

variable {area : ByteArea} {offset k : Nat} {byte : BitVec 8} {block : List (BitVec 8)}

theorem putBytes_of_not (hout : ¬ (offset ≤ k ∧ k < offset + block.length)) :
    area.putBytes offset block k = area k := by
  induction block generalizing offset with
  | nil => rfl
  | cons byte rest ih =>
      rw [List.length_cons] at hout
      have hne : k ≠ offset := by
        rintro rfl
        exact hout ⟨Nat.le_refl k, by omega⟩
      rw [putBytes, Function.update_of_ne hne]
      exact ih (by omega)

/-- A block is stored after a byte before it. -/
theorem putBytes_update (hk : k < offset) :
    putBytes (Function.update area k byte) offset block =
      Function.update (area.putBytes offset block) k byte := by
  induction block generalizing offset with
  | nil => rfl
  | cons first rest ih =>
      rw [putBytes, putBytes, ih (Nat.lt_succ_of_lt hk), Function.update_comm (Nat.ne_of_lt hk)]

theorem putBytes_append (first second : List (BitVec 8)) :
    area.putBytes offset (first ++ second) =
      (area.putBytes offset first).putBytes (offset + first.length) second := by
  induction first generalizing offset with
  | nil => rfl
  | cons byte rest ih =>
      have hshift : offset + (byte :: rest).length = offset + 1 + rest.length := by
        rw [List.length_cons]
        omega
      rw [List.cons_append, putBytes, putBytes, hshift, ih, putBytes_update (by omega)]

theorem putBytes_concat (first : List (BitVec 8)) (byte : BitVec 8) :
    area.putBytes offset (first ++ [byte]) =
      Function.update (area.putBytes offset first) (offset + first.length) byte :=
  putBytes_append first [byte]

/-- A block is read back. -/
theorem bytes_putBytes (area : ByteArea) (offset : Nat) (block : List (BitVec 8)) :
    (area.putBytes offset block).bytes offset block.length = block := by
  induction block generalizing offset with
  | nil => rfl
  | cons byte rest ih =>
      have hrest : (area.putBytes offset (byte :: rest)).bytes (offset + 1) rest.length =
          (area.putBytes (offset + 1) rest).bytes (offset + 1) rest.length :=
        bytes_congr fun i _ => by rw [putBytes, Function.update_of_ne (by omega)]
      rw [List.length_cons, bytes, hrest, ih, putBytes, Function.update_self]

theorem getLE_part (area : ByteArea) (width start offset : Nat) :
    (area.part start).getLE width offset = area.getLE width (start + offset) := by
  induction width generalizing offset with
  | zero => rfl
  | succ width ih => rw [getLE, getLE, part, ih, Nat.add_assoc]

theorem copyIn_congr {source source' : ByteArea} {start start' cnt : Nat}
    (hsame : ∀ i < cnt, source (start + i) = source' (start' + i)) :
    area.copyIn offset source start cnt = area.copyIn offset source' start' cnt := by
  funext k
  by_cases hk : offset ≤ k ∧ k < offset + cnt
  · rw [copyIn_at hk.1 hk.2, copyIn_at hk.1 hk.2]
    exact hsame _ (by omega)
  · rw [copyIn_of_not hk, copyIn_of_not hk]

/-- Nothing is copied. -/
theorem copyIn_zero (area : ByteArea) (offset : Nat) (source : ByteArea) (start : Nat) :
    area.copyIn offset source start 0 = area := by
  funext k
  exact copyIn_of_not fun hk => absurd hk.2 (Nat.not_lt.mpr hk.1)

/-- Two pieces that are copied one behind the other. -/
theorem copyIn_copyIn (area : ByteArea) (offset : Nat) (source : ByteArea) (start cnt more : Nat) :
    (area.copyIn offset source start cnt).copyIn (offset + cnt) source (start + cnt) more =
      area.copyIn offset source start (cnt + more) := by
  funext k
  by_cases hsecond : offset + cnt ≤ k ∧ k < offset + cnt + more
  · have hfrom : start + cnt + (k - (offset + cnt)) = start + (k - offset) := by omega
    rw [copyIn_at hsecond.1 hsecond.2, copyIn_at (by omega) (by omega), hfrom]
  · rw [copyIn_of_not hsecond]
    by_cases hfirst : offset ≤ k ∧ k < offset + cnt
    · rw [copyIn_at hfirst.1 hfirst.2, copyIn_at hfirst.1 (by omega)]
    · rw [copyIn_of_not hfirst, copyIn_of_not (by omega)]

theorem onPart_add (area : ByteArea) (offset : Nat) (work : ByteArea → ByteArea) (k : Nat) :
    area.onPart offset work (offset + k) = work (area.part offset) k := by
  rw [onPart, if_pos (Nat.le_add_right offset k), Nat.add_sub_cancel_left]

theorem onPart_of_lt {work : ByteArea → ByteArea} (hk : k < offset) :
    area.onPart offset work k = area k := if_neg (Nat.not_le.mpr hk)

end ByteArea

end Shmily.Foundation
