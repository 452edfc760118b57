import Mathlib.Data.List.Range
import Mathlib.Data.Nat.ModEq

/-! # Positions in a ring

A ring of `len` slots has a position for the writer and one for the reader, both
counted modulo `len`. Beside them stand the numbers of slots written and taken so
far, which never wrap. One slot stays free, so that equal positions mean that
the ring is empty.
-/

namespace Shmily.Foundation

/-- `head` and `tail` are the positions after `written` slots have been filled and
`taken` of them emptied again. -/
structure RingPositions (len head tail written taken : Nat) : Prop where
  head_eq : head = written % len
  tail_eq : tail = taken % len
  taken_le : taken ≤ written
  written_lt : written < taken + len

/-- Places less than one round apart are different slots. -/
theorem mod_ne_of_lt {len i j : Nat} (hlt : i < j) (hround : j < i + len) : i % len ≠ j % len := by
  intro heq
  have hdvd : len ∣ j - i := (Nat.modEq_iff_dvd' hlt.le).mp heq
  have hle := Nat.le_of_dvd (Nat.sub_pos_of_lt hlt) hdvd
  omega

namespace RingPositions

variable {len head tail written taken : Nat}

theorem start (hlen : 0 < len) : RingPositions len 0 0 0 0 where
  head_eq := (Nat.zero_mod len).symm
  tail_eq := (Nat.zero_mod len).symm
  taken_le := le_rfl
  written_lt := by omega

theorem len_pos (hpositions : RingPositions len head tail written taken) : 0 < len := by
  have hle := hpositions.taken_le
  have hlt := hpositions.written_lt
  omega

theorem head_lt (hpositions : RingPositions len head tail written taken) : head < len := by
  rw [hpositions.head_eq]
  exact Nat.mod_lt _ hpositions.len_pos

theorem tail_lt (hpositions : RingPositions len head tail written taken) : tail < len := by
  rw [hpositions.tail_eq]
  exact Nat.mod_lt _ hpositions.len_pos

/-- The positions are equal just when everything written has been taken. -/
theorem empty_iff (hpositions : RingPositions len head tail written taken) :
    tail = head ↔ taken = written := by
  obtain ⟨hhead, htail, hle, hlt⟩ := hpositions
  constructor
  · intro heq
    by_contra hne
    exact mod_ne_of_lt (Nat.lt_of_le_of_ne hle hne) hlt (by rw [← htail, ← hhead, heq])
  · intro heq
    rw [hhead, htail, heq]

theorem succ_mod (written : Nat) : (written % len + 1) % len = (written + 1) % len := by
  rw [Nat.mod_add_mod]

/-- The writer is right behind the reader just when one slot is left. -/
theorem full_iff (hpositions : RingPositions len head tail written taken) :
    tail = (head + 1) % len ↔ written + 1 = taken + len := by
  obtain ⟨hhead, htail, hle, hlt⟩ := hpositions
  rw [hhead, htail, succ_mod]
  constructor
  · intro heq
    by_contra hne
    exact mod_ne_of_lt (by omega : taken < written + 1) (by omega) heq
  · intro heq
    rw [heq, Nat.add_mod_right]

/-- Filling a slot. -/
theorem put (hpositions : RingPositions len head tail written taken)
    (hfull : tail ≠ (head + 1) % len) :
    RingPositions len ((head + 1) % len) tail (written + 1) taken where
  head_eq := by rw [hpositions.head_eq, succ_mod]
  tail_eq := hpositions.tail_eq
  taken_le := Nat.le_succ_of_le hpositions.taken_le
  written_lt := by
    have hlt := hpositions.written_lt
    have hne : written + 1 ≠ taken + len := fun heq => hfull (hpositions.full_iff.mpr heq)
    omega

/-- Emptying a slot. -/
theorem take (hpositions : RingPositions len head tail written taken) (hempty : tail ≠ head) :
    RingPositions len head ((tail + 1) % len) written (taken + 1) where
  head_eq := hpositions.head_eq
  tail_eq := by rw [hpositions.tail_eq, succ_mod]
  taken_le := by
    have hle := hpositions.taken_le
    have hne : taken ≠ written := fun heq => hempty (hpositions.empty_iff.mpr heq)
    omega
  written_lt := by
    have hlt := hpositions.written_lt
    omega

/-- The writer's slot is none of those filled and not yet emptied, and as long as
there is room it is not the one emptied last either. -/
theorem slot_ne_head (hpositions : RingPositions len head tail written taken)
    (hfull : tail ≠ (head + 1) % len) {i : Nat} (hle : taken ≤ i + 1) (hlt : i < written) :
    i % len ≠ head := by
  have hroom := (hpositions.put hfull).written_lt
  rw [hpositions.head_eq]
  exact mod_ne_of_lt hlt (by omega)

end RingPositions

end Shmily.Foundation
