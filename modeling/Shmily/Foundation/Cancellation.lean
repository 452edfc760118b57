import Mathlib.Data.List.Basic
import Mathlib.Tactic.Common

/-! # Entries that cancel entries before them

Some entries of a sequence cancel the nearest one before them that is left. Going forward,
what is left is a stack; going back, it is enough to count the cancellations that have met
no entry yet.
-/

namespace Shmily.Foundation

universe u

namespace Cancellation

variable {Entry : Type u} (cancels : Entry → Bool)

/-- The next entry is pushed, or takes the last one away; at the bottom it does nothing. -/
def push (stack : List Entry) (entry : Entry) : List Entry :=
  if cancels entry then stack.dropLast else stack ++ [entry]

/-- What is left of the entries. -/
def resolve (entries : List Entry) : List Entry := entries.foldl (push cancels) []

/-- The cancellations that meet no entry. -/
def pending : List Entry → Nat
  | [] => 0
  | entry :: rest => if cancels entry then pending rest + 1 else pending rest - 1

/-- The entry is not copied: it cancels, or is cancelled by what follows. -/
def IsDropped (entry : Entry) (rest : List Entry) : Prop :=
  cancels entry = true ∨ pending cancels rest ≠ 0

instance instDecidableIsDropped (entry : Entry) (rest : List Entry) :
    Decidable (IsDropped cancels entry rest) :=
  inferInstanceAs (Decidable (_ ∨ _))

/-- The entries that are not dropped. -/
def remaining : List Entry → List Entry
  | [] => []
  | entry :: rest =>
      if IsDropped cancels entry rest then remaining rest else entry :: remaining rest

/-- Pushing the entries on a stack takes the pending ones away from it. -/
theorem foldl_push (stack entries : List Entry) :
    entries.foldl (push cancels) stack =
      stack.take (stack.length - pending cancels entries) ++ remaining cancels entries := by
  induction entries generalizing stack with
  | nil => simp [pending, remaining]
  | cons entry rest ih =>
      rw [List.foldl_cons, ih, push, pending, remaining]
      by_cases hcancels : cancels entry = true
      · rw [if_pos hcancels, if_pos hcancels, if_pos (.inl hcancels), List.dropLast_eq_take,
          List.take_take, List.length_take]
        congr 2
        omega
      · rw [if_neg hcancels, if_neg hcancels, List.length_append, List.length_singleton]
        by_cases hnone : pending cancels rest = 0
        · have hkept : ¬ IsDropped cancels entry rest := by
            rintro (hthis | hlater)
            · exact hcancels hthis
            · exact hlater hnone
          rw [if_neg hkept, hnone, Nat.sub_zero, Nat.zero_sub, Nat.sub_zero, List.take_length,
            List.take_of_length_le (by simp), List.append_assoc, List.singleton_append]
        · rw [if_pos (.inr hnone), List.take_append_of_le_length (by omega)]
          congr 2
          omega

/-- Both directions leave the same entries. -/
theorem resolve_eq_remaining (entries : List Entry) :
    resolve cancels entries = remaining cancels entries := by
  rw [resolve, foldl_push, List.take_nil, List.nil_append]

theorem remaining_sublist (entries : List Entry) : (remaining cancels entries).Sublist entries := by
  induction entries with
  | nil => exact .slnil
  | cons entry rest ih =>
      rw [remaining]
      split
      next => exact ih.cons entry
      next => exact ih.cons_cons entry

end Cancellation

end Shmily.Foundation
