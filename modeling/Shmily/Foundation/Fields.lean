import Mathlib.Data.List.TakeWhile
import Mathlib.Tactic.Common

/-! # Fields of a line

The fields of a line are the nonempty pieces between separators. A pass over the line finds
a field where an element that is no separator comes first or right behind a separator. The
fields are what stands from these places up to the next separator.
-/

namespace Shmily.Foundation

universe uElem uOther

variable {Elem : Type uElem} [DecidableEq Elem]

/-- The nonempty pieces between separators. -/
def fields (sep : Elem) (line : List Elem) : List (List Elem) :=
  (line.splitOn sep).filter (· ≠ [])

namespace Fields

/-- Where fields start, from a place on; `isHead` is set at the start of the line and behind
a separator. -/
def starts (sep : Elem) : Nat → Bool → List Elem → List Nat
  | _, _, [] => []
  | place, isHead, elem :: rest =>
      if elem = sep then starts sep (place + 1) true rest
      else if isHead then place :: starts sep (place + 1) false rest
      else starts sep (place + 1) false rest

/-- What stands from a place up to the next separator. -/
def piece (sep : Elem) (line : List Elem) (place : Nat) : List Elem :=
  (line.drop place).takeWhile (· ≠ sep)

variable {sep : Elem} {line rest front : List Elem} {elem : Elem} {place : Nat} {isHead : Bool}

theorem fields_nil : fields sep [] = [] := rfl

theorem fields_sep : fields sep (sep :: rest) = fields sep rest := by
  rw [fields, ← List.nil_append (sep :: rest),
    List.splitOn_append_cons_self_of_not_mem List.not_mem_nil, List.filter_cons_of_neg (by simp)]
  rfl

theorem not_mem_takeWhile (line : List Elem) : sep ∉ line.takeWhile (· ≠ sep) := by
  intro hmem
  have hsep := List.mem_takeWhile_imp hmem
  exact of_decide_eq_true hsep rfl

/-- The first field ends at the first separator. -/
theorem fields_cons (hne : elem ≠ sep) :
    fields sep (elem :: rest) =
      (elem :: rest.takeWhile (· ≠ sep)) :: fields sep (rest.dropWhile (· ≠ sep)) := by
  have hfront : sep ∉ elem :: rest.takeWhile (· ≠ sep) :=
    List.not_mem_cons_of_ne_of_not_mem hne.symm (not_mem_takeWhile rest)
  have hsplit : elem :: rest =
      (elem :: rest.takeWhile (· ≠ sep)) ++ rest.dropWhile (· ≠ sep) := by
    rw [List.cons_append, List.takeWhile_append_dropWhile]
  have hhead := List.head?_dropWhile_not (· ≠ sep) rest
  cases hrest : rest.dropWhile (· ≠ sep) with
  | nil =>
      rw [hrest, List.append_nil] at hsplit
      rw [fields_nil, ← hsplit, fields, List.splitOn_eq_singleton (hsplit ▸ hfront),
        List.filter_cons_of_pos (by simp), List.filter_nil]
  | cons first others =>
      rw [hrest, List.head?_cons] at hhead
      obtain rfl : first = sep := by simpa using hhead
      rw [hrest] at hsplit
      rw [hsplit, fields, List.splitOn_append_cons_self_of_not_mem hfront,
        List.filter_cons_of_pos (by simp), fields_sep]
      rfl

/-- The places in a line behind a front; inside a field the pass goes on at its end. -/
theorem map_piece_starts (front line : List Elem) (isHead : Bool) :
    (starts sep front.length isHead line).map (piece sep (front ++ line)) =
      fields sep (if isHead then line else line.dropWhile (· ≠ sep)) := by
  induction line generalizing front isHead with
  | nil => cases isHead <;> rfl
  | cons elem rest ih =>
      have hrest := fun isHead => ih (front ++ [elem]) isHead
      simp only [List.length_append, List.length_singleton, List.append_assoc,
        List.singleton_append] at hrest
      rw [starts]
      split
      next hsep =>
        subst hsep
        rw [hrest true, if_pos rfl]
        cases isHead with
        | true => exact fields_sep.symm
        | false =>
            rw [if_neg Bool.false_ne_true, List.dropWhile_cons_of_neg (by simp), fields_sep]
      next hne =>
        cases isHead with
        | true =>
            have hpiece : piece sep (front ++ elem :: rest) front.length =
                elem :: rest.takeWhile (· ≠ sep) := by
              rw [piece, List.drop_left, List.takeWhile_cons_of_pos (by simpa using hne)]
            rw [if_pos rfl, if_pos rfl, List.map_cons, hrest false, if_neg Bool.false_ne_true,
              hpiece, fields_cons hne]
        | false =>
            rw [if_neg Bool.false_ne_true, if_neg Bool.false_ne_true, hrest false,
              if_neg Bool.false_ne_true, List.dropWhile_cons_of_pos (by simpa using hne)]

/-- The pieces from where fields start are the fields. -/
theorem map_piece (line : List Elem) :
    (starts sep 0 true line).map (piece sep line) = fields sep line :=
  map_piece_starts [] line true

theorem length_starts (sep : Elem) (line : List Elem) :
    (starts sep 0 true line).length = (fields sep line).length := by
  rw [← map_piece, List.length_map]

/-- Fields start inside the line. -/
theorem mem_starts {start : Nat} (hmem : start ∈ starts sep place isHead line) :
    place ≤ start ∧ start < place + line.length := by
  induction line generalizing place isHead with
  | nil => cases hmem
  | cons elem rest ih =>
      have hrest : ∀ {isHead}, start ∈ starts sep (place + 1) isHead rest →
          place ≤ start ∧ start < place + (elem :: rest).length := by
        intro isHead hlater
        have hbounds := ih hlater
        rw [List.length_cons]
        omega
      rw [starts] at hmem
      split at hmem
      next => exact hrest hmem
      next =>
        split at hmem
        next =>
          rcases List.mem_cons.mp hmem with rfl | hlater
          · rw [List.length_cons]
            omega
          · exact hrest hlater
        next => exact hrest hmem

/-- Only where the separators are matters. -/
theorem starts_map {Other : Type uOther} [DecidableEq Other] {other : Other} (f : Elem → Other)
    (hsep : ∀ elem ∈ line, f elem = other ↔ elem = sep) :
    starts other place isHead (line.map f) = starts sep place isHead line := by
  induction line generalizing place isHead with
  | nil => rfl
  | cons elem rest ih =>
      have hrest : ∀ place isHead,
          starts other place isHead (rest.map f) = starts sep place isHead rest := fun _ _ =>
        ih fun next hnext => hsep next (List.mem_cons_of_mem _ hnext)
      rw [List.map_cons, starts, starts, hrest, hrest]
      simp only [hsep elem List.mem_cons_self]

/-- A piece goes up to a separator or to the end. -/
theorem piece_spec (sep : Elem) (line : List Elem) (place : Nat) :
    sep ∉ piece sep line place ∧ ∃ rest, line.drop place = piece sep line place ++ rest ∧
      (rest = [] ∨ ∃ more, rest = sep :: more) := by
  refine ⟨not_mem_takeWhile _, (line.drop place).dropWhile (· ≠ sep),
    List.takeWhile_append_dropWhile.symm, ?_⟩
  have hhead := List.head?_dropWhile_not (· ≠ sep) (line.drop place)
  cases hrest : (line.drop place).dropWhile (· ≠ sep) with
  | nil => exact .inl rfl
  | cons first others =>
      rw [hrest, List.head?_cons] at hhead
      obtain rfl : first = sep := by simpa using hhead
      exact .inr ⟨others, rfl⟩

end Fields

end Shmily.Foundation
