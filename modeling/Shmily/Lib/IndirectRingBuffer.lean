import Mathlib.Data.List.Range
import Mathlib.Data.Nat.Basic

/-! # The ring of packet buffers

`IndirectRingBuffer` holds ten pointers; the interrupt handler takes free buffers
at `head` and the network process used ones at `tail`.
-/

namespace Shmily.Lib

/-- `indirect_ring_buffer::LEN`. -/
def ringLen : Nat := 10

structure IndirectRingBuffer where
  buf : Nat → Nat
  head : Nat
  tail : Nat

namespace IndirectRingBuffer

/-- `initialize`: the ring over the given pointers, with nothing in it. -/
def initializeRing (buf : Nat → Nat) : IndirectRingBuffer where
  buf := buf
  head := 0
  tail := 0

def isFull (ring : IndirectRingBuffer) : Bool :=
  ring.tail == (ring.head + 1) % ringLen

def isEmpty (ring : IndirectRingBuffer) : Bool :=
  ring.tail == ring.head

/-- The pointer is null, and nothing changes, if the ring is full. -/
def getFirstFreeBuffer (ring : IndirectRingBuffer) : Nat × IndirectRingBuffer :=
  if ring.isFull then (0, ring)
  else (ring.buf ring.head, { ring with head := (ring.head + 1) % ringLen })

/-- The pointer is null, and nothing changes, if the ring is empty. -/
def getFirstUsedBuffer (ring : IndirectRingBuffer) : Nat × IndirectRingBuffer :=
  if ring.isEmpty then (0, ring)
  else (ring.buf ring.tail, { ring with tail := (ring.tail + 1) % ringLen })

/-- The positions stay inside the array. -/
structure WellFormed (ring : IndirectRingBuffer) : Prop where
  head_lt : ring.head < ringLen
  tail_lt : ring.tail < ringLen

/-- How many buffers hold a packet. -/
def used (ring : IndirectRingBuffer) : Nat :=
  (ring.head + ringLen - ring.tail) % ringLen

/-- The buffers that hold a packet, the oldest first. -/
def pointers (ring : IndirectRingBuffer) : List Nat :=
  (List.range ring.used).map fun i => ring.buf ((ring.tail + i) % ringLen)

variable {ring : IndirectRingBuffer}

theorem initializeRing_wellFormed (buf : Nat → Nat) : (initializeRing buf).WellFormed :=
  ⟨Nat.succ_pos _, Nat.succ_pos _⟩

theorem isEmpty_iff (hwf : ring.WellFormed) : ring.isEmpty ↔ ring.used = 0 := by
  obtain ⟨hhead, htail⟩ := hwf
  rw [isEmpty, used, beq_iff_eq]
  unfold ringLen at *
  omega

theorem isFull_iff (hwf : ring.WellFormed) : ring.isFull ↔ ring.used = 9 := by
  obtain ⟨hhead, htail⟩ := hwf
  rw [isFull, used, beq_iff_eq]
  unfold ringLen at *
  omega

theorem getFirstFreeBuffer_wellFormed (hwf : ring.WellFormed) :
    ring.getFirstFreeBuffer.2.WellFormed := by
  rw [getFirstFreeBuffer]
  split
  · exact hwf
  · exact ⟨Nat.mod_lt _ (by decide), hwf.tail_lt⟩

theorem getFirstUsedBuffer_wellFormed (hwf : ring.WellFormed) :
    ring.getFirstUsedBuffer.2.WellFormed := by
  rw [getFirstUsedBuffer]
  split
  · exact hwf
  · exact ⟨hwf.head_lt, Nat.mod_lt _ (by decide)⟩

theorem getFirstFreeBuffer_buf : ring.getFirstFreeBuffer.2.buf = ring.buf := by
  rw [getFirstFreeBuffer]
  split <;> rfl

theorem getFirstUsedBuffer_buf : ring.getFirstUsedBuffer.2.buf = ring.buf := by
  rw [getFirstUsedBuffer]
  split <;> rfl

theorem used_getFirstFreeBuffer (hwf : ring.WellFormed) :
    ring.getFirstFreeBuffer.2.used = ring.used + if ring.isFull then 0 else 1 := by
  obtain ⟨hhead, htail⟩ := hwf
  rw [getFirstFreeBuffer]
  split
  next => rfl
  next hfull =>
    rw [isFull, beq_iff_eq] at hfull
    unfold used ringLen at *
    dsimp only
    omega

theorem used_getFirstUsedBuffer (hwf : ring.WellFormed) :
    ring.getFirstUsedBuffer.2.used + (if ring.isEmpty then 0 else 1) = ring.used := by
  obtain ⟨hhead, htail⟩ := hwf
  rw [getFirstUsedBuffer]
  split
  next => rfl
  next hempty =>
    rw [isEmpty, beq_iff_eq] at hempty
    unfold used ringLen at *
    dsimp only
    omega

/-- The buffer that is given away becomes the youngest. -/
theorem pointers_getFirstFreeBuffer (hwf : ring.WellFormed) (hfull : ring.isFull = false) :
    ring.getFirstFreeBuffer.2.pointers = ring.pointers ++ [ring.getFirstFreeBuffer.1] := by
  have hused := used_getFirstFreeBuffer hwf
  rw [hfull] at hused
  have hhead : (ring.tail + ring.used) % ringLen = ring.head := by
    obtain ⟨hhead, htail⟩ := hwf
    simp only [used, ringLen] at *
    omega
  rw [pointers, hused]
  simp only [getFirstFreeBuffer, hfull, Bool.false_eq_true, if_false, List.range_succ,
    List.map_append, List.map_cons, List.map_nil, hhead]
  rfl

/-- The buffer that is taken was the oldest. -/
theorem pointers_getFirstUsedBuffer (hwf : ring.WellFormed) (hempty : ring.isEmpty = false) :
    ring.pointers = ring.getFirstUsedBuffer.1 :: ring.getFirstUsedBuffer.2.pointers := by
  have hused := used_getFirstUsedBuffer hwf
  rw [hempty] at hused
  simp only [Bool.false_eq_true, if_false] at hused
  rw [pointers, ← hused, List.range_succ_eq_map, List.map_cons, List.map_map]
  have hfirst : (ring.tail + 0) % ringLen = ring.tail := Nat.mod_eq_of_lt hwf.tail_lt
  simp only [getFirstUsedBuffer, hempty, Bool.false_eq_true, if_false, hfirst, pointers]
  congr 1
  refine List.map_congr_left fun i _ => ?_
  simp only [Function.comp_apply, ringLen]
  congr 1
  omega

/-- A buffer that holds a packet is not the next one to be given away. -/
theorem exists_of_mem_pointers (hwf : ring.WellFormed) {pointer : Nat}
    (hmem : pointer ∈ ring.pointers) : ∃ k < ringLen, k ≠ ring.head ∧ pointer = ring.buf k := by
  obtain ⟨i, hi, rfl⟩ := List.mem_map.mp hmem
  obtain ⟨hhead, htail⟩ := hwf
  rw [List.mem_range] at hi
  refine ⟨(ring.tail + i) % ringLen, Nat.mod_lt _ (by decide), ?_, rfl⟩
  simp only [used, ringLen] at *
  omega

end IndirectRingBuffer

end Shmily.Lib
