import Mathlib.Algebra.BigOperators.Group.List.Basic
import Mathlib.Data.BitVec

/-! # Ranges of wrapping numbers

A range starts at a number of fixed width and may wrap around. Ranges that follow
each other without a gap are disjoint as long as together they do not go round more
than once.
-/

namespace Shmily.Foundation

/-- The numbers from `start` on, as many as told. -/
@[ext]
structure NumberRange (width : Nat) where
  start : BitVec width
  length : Nat
  deriving DecidableEq

namespace NumberRange

variable {width : Nat}

def Contains (range : NumberRange width) (number : BitVec width) : Prop :=
  ∃ i < range.length, number = range.start + BitVec.ofNat width i

def Disjoint (first second : NumberRange width) : Prop :=
  ∀ number, first.Contains number → ¬ second.Contains number

/-- How many numbers the ranges have together. -/
def total (ranges : List (NumberRange width)) : Nat := (ranges.map length).sum

/-- Each range starts where the one before it ends. -/
def Consecutive : BitVec width → List (NumberRange width) → Prop
  | _, [] => True
  | next, range :: rest =>
      range.start = next ∧ Consecutive (next + BitVec.ofNat width range.length) rest

variable {next : BitVec width} {first second ranges : List (NumberRange width)}
  {range : NumberRange width}

@[simp]
theorem total_cons : total (range :: ranges) = range.length + total ranges := List.sum_cons

@[simp]
theorem total_append : total (first ++ second) = total first + total second := by
  rw [total, List.map_append, List.sum_append]
  rfl

theorem consecutive_append : Consecutive next (first ++ second) ↔
    Consecutive next first ∧ Consecutive (next + BitVec.ofNat width (total first)) second := by
  induction first generalizing next with
  | nil => simp [Consecutive, total]
  | cons range rest ih =>
      rw [List.cons_append, Consecutive, Consecutive, ih, and_assoc, total_cons, BitVec.ofNat_add,
        BitVec.add_assoc]

/-- Where a number of one of the ranges lies behind the start. -/
theorem Consecutive.contains (hconsecutive : Consecutive next ranges) (hmem : range ∈ ranges)
    {number : BitVec width} (hnumber : range.Contains number) :
    ∃ i < total ranges, number = next + BitVec.ofNat width i := by
  induction ranges generalizing next with
  | nil => cases hmem
  | cons first rest ih =>
      obtain ⟨hstart, hrest⟩ := hconsecutive
      rw [total_cons]
      rcases List.mem_cons.mp hmem with rfl | hlater
      · obtain ⟨i, hi, hnumber⟩ := hnumber
        exact ⟨i, Nat.lt_add_right _ hi, hstart ▸ hnumber⟩
      · obtain ⟨i, hi, hnumber⟩ := ih hrest hlater
        refine ⟨first.length + i, Nat.add_lt_add_left hi _, ?_⟩
        rw [hnumber, BitVec.ofNat_add, BitVec.add_assoc]

/-- No number between the start and the end is left out. -/
theorem Consecutive.covers (hconsecutive : Consecutive next ranges) {i : Nat}
    (hi : i < total ranges) : ∃ range ∈ ranges, range.Contains (next + BitVec.ofNat width i) := by
  induction ranges generalizing next i with
  | nil => cases hi
  | cons first rest ih =>
      obtain ⟨hstart, hrest⟩ := hconsecutive
      rw [total_cons] at hi
      rcases Nat.lt_or_ge i first.length with hlt | hge
      · exact ⟨first, List.mem_cons_self, i, hlt, hstart ▸ rfl⟩
      · obtain ⟨j, rfl⟩ := Nat.exists_eq_add_of_le hge
        obtain ⟨range, hmem, hcontains⟩ := ih hrest (Nat.lt_of_add_lt_add_left hi)
        rw [BitVec.add_assoc, ← BitVec.ofNat_add] at hcontains
        exact ⟨range, List.mem_cons_of_mem _ hmem, hcontains⟩

/-- Ranges that go round at most once are disjoint. -/
theorem Consecutive.pairwise_disjoint (hconsecutive : Consecutive next ranges)
    (htotal : total ranges ≤ 2 ^ width) : ranges.Pairwise Disjoint := by
  induction ranges generalizing next with
  | nil => exact .nil
  | cons first rest ih =>
      obtain ⟨hstart, hrest⟩ := hconsecutive
      rw [total_cons] at htotal
      refine .cons (fun range hmem number hfirst hlater => ?_)
        (ih hrest (Nat.le_trans (Nat.le_add_left _ _) htotal))
      obtain ⟨i, hi, hnumber⟩ := hfirst
      obtain ⟨j, hj, hagain⟩ := hrest.contains hmem hlater
      have hsame : BitVec.ofNat width i = BitVec.ofNat width (first.length + j) := by
        rw [hnumber, hstart, BitVec.add_assoc, ← BitVec.ofNat_add] at hagain
        exact add_left_cancel hagain
      have hnat := congrArg BitVec.toNat hsame
      rw [BitVec.toNat_ofNat, BitVec.toNat_ofNat, Nat.mod_eq_of_lt (by omega),
        Nat.mod_eq_of_lt (by omega)] at hnat
      omega

end NumberRange

end Shmily.Foundation
