import Shmily.Foundation.ByteArea

/-! # Ranges of bytes that are copied into an area

Several ranges of bytes are copied into an area one after another. Ranges that are
apart from each other are all there afterwards, and the bytes in no range are as before.
-/

namespace Shmily.Foundation

/-- `size` bytes of the source, from `start` on, that belong at an address. -/
structure Placement where
  address : Nat
  source : ByteArea
  start : Nat
  size : Nat

namespace Placement

/-- The address is one of those that the bytes belong at. -/
def Covers (placement : Placement) (k : Nat) : Prop :=
  placement.address ≤ k ∧ k < placement.address + placement.size

instance (placement : Placement) (k : Nat) : Decidable (placement.Covers k) :=
  inferInstanceAs (Decidable (_ ∧ _))

/-- The range is empty, or behind the first address and before the second. -/
def Within (placement : Placement) (low high : Nat) : Prop :=
  placement.size = 0 ∨ low ≤ placement.address ∧ placement.address + placement.size ≤ high

instance (placement : Placement) (low high : Nat) : Decidable (placement.Within low high) :=
  inferInstanceAs (Decidable (_ ∨ _))

/-- The range is empty, or outside the one between two addresses. -/
def Outside (placement : Placement) (low high : Nat) : Prop :=
  placement.size = 0 ∨ placement.address + placement.size ≤ low ∨ high ≤ placement.address

instance (placement : Placement) (low high : Nat) : Decidable (placement.Outside low high) :=
  inferInstanceAs (Decidable (_ ∨ _))

/-- Two ranges have no address in common. -/
def Apart (placement other : Placement) : Prop :=
  other.size = 0 ∨ placement.Outside other.address (other.address + other.size)

instance : DecidableRel Apart := fun placement other =>
  inferInstanceAs (Decidable (other.size = 0 ∨ placement.Outside _ _))

/-- Copy the bytes to where they belong. -/
def place (placement : Placement) (area : ByteArea) : ByteArea :=
  area.copyIn placement.address placement.source placement.start placement.size

/-- Copy all ranges, in order. -/
def placeAll (area : ByteArea) (placements : List Placement) : ByteArea :=
  placements.foldl (fun area placement => placement.place area) area

variable {area : ByteArea} {placement other : Placement} {placements : List Placement}
  {low high k : Nat}

theorem Covers.size_ne_zero (hcovers : placement.Covers k) : placement.size ≠ 0 := by
  intro hempty
  have hlt := hcovers.2
  rw [hempty] at hlt
  exact absurd hlt (Nat.not_lt.mpr hcovers.1)

theorem Within.bounds (hwithin : placement.Within low high) (hcovers : placement.Covers k) :
    low ≤ k ∧ k < high := by
  rcases hwithin with hempty | ⟨hlow, hhigh⟩
  · exact absurd hempty hcovers.size_ne_zero
  · exact ⟨hlow.trans hcovers.1, hcovers.2.trans_le hhigh⟩

theorem Outside.not_covers (houtside : placement.Outside low high) (hlow : low ≤ k)
    (hhigh : k < high) : ¬ placement.Covers k := by
  intro hcovers
  rcases houtside with hempty | hbefore | hbehind
  · exact absurd hempty hcovers.size_ne_zero
  · exact absurd (hcovers.2.trans_le hbefore) (Nat.not_lt.mpr hlow)
  · exact absurd (hhigh.trans_le hbehind) (Nat.not_lt.mpr hcovers.1)

theorem Apart.not_covers (hapart : placement.Apart other) (hcovers : other.Covers k) :
    ¬ placement.Covers k := by
  rcases hapart with hempty | houtside
  · exact absurd hempty hcovers.size_ne_zero
  · exact houtside.not_covers hcovers.1 hcovers.2

theorem Apart.symm (hapart : placement.Apart other) : other.Apart placement := by
  rcases hapart with hempty | hempty | hbefore | hbehind
  · exact .inr (.inl hempty)
  · exact .inl hempty
  · exact .inr (.inr (.inr hbefore))
  · exact .inr (.inr (.inl hbehind))

theorem place_of_not (hout : ¬ placement.Covers k) : placement.place area k = area k :=
  ByteArea.copyIn_of_not hout

theorem place_at {i : Nat} (hi : i < placement.size) :
    placement.place area (placement.address + i) = placement.source (placement.start + i) := by
  rw [place, ByteArea.copyIn_at (Nat.le_add_right _ _) (Nat.add_lt_add_left hi _),
    Nat.add_sub_cancel_left]

/-- Bytes in no range are as before. -/
theorem placeAll_of_not (hout : ∀ placement ∈ placements, ¬ placement.Covers k) :
    placeAll area placements k = area k := by
  induction placements generalizing area with
  | nil => rfl
  | cons first rest ih =>
      rw [placeAll, List.foldl_cons]
      exact (ih fun placement hmem => hout placement (List.mem_cons_of_mem _ hmem)).trans
        (place_of_not (hout first List.mem_cons_self))

/-- Of ranges that are apart from each other each is where it belongs. -/
theorem placeAll_at (hapart : placements.Pairwise Apart) (hmem : placement ∈ placements) {i : Nat}
    (hi : i < placement.size) :
    placeAll area placements (placement.address + i) = placement.source (placement.start + i) := by
  have hcovers : placement.Covers (placement.address + i) :=
    ⟨Nat.le_add_right _ _, Nat.add_lt_add_left hi _⟩
  induction placements generalizing area with
  | nil => exact absurd hmem List.not_mem_nil
  | cons first rest ih =>
      obtain ⟨hfirst, hrest⟩ := List.pairwise_cons.mp hapart
      rw [placeAll, List.foldl_cons]
      rcases List.mem_cons.mp hmem with rfl | hlater
      · have hkept : ∀ later ∈ rest, ¬ later.Covers (placement.address + i) :=
          fun later hlater => (hfirst later hlater).symm.not_covers hcovers
        exact (placeAll_of_not hkept).trans (place_at hi)
      · exact ih hrest hlater

theorem placeAll_append (first second : List Placement) :
    placeAll area (first ++ second) = placeAll (placeAll area first) second :=
  List.foldl_append

end Placement

end Shmily.Foundation
