import Mathlib.Algebra.Order.BigOperators.Group.Finset
import Mathlib.Algebra.Order.Ring.GeomSum
import Mathlib.Data.Nat.Bitwise
import Mathlib.Data.Nat.Digits.Defs
import Mathlib.Tactic.Ring

/-! # Sums of digits by masks and products

A number in a base that is a power of two. Each digit is added to its neighbour by one
addition under a mask, and since the sum of two digits stays within their pair, the digits
of the result in the square of the base have the same sum. A product with a number whose
digits are all one brings the sum of all digits to the highest one, if it fits there.
-/

namespace Shmily.Foundation

namespace DigitSums

open Finset

/-- The sum of the digits. -/
def digitSum (base n : Nat) : Nat := (Nat.digits base n).sum

variable {base digit rest n acc cnt width : Nat}

@[simp] theorem digitSum_zero (base : Nat) : digitSum base 0 = 0 := by
  rw [digitSum, Nat.digits_zero, List.sum_nil]

theorem digitSum_eq_mod_add_div (hbase : 1 < base) (n : Nat) :
    digitSum base n = n % base + digitSum base (n / base) := by
  rcases Nat.eq_zero_or_pos n with rfl | hpos
  · simp
  · rw [digitSum, Nat.digits_eq_cons_digits_div hbase hpos.ne', List.sum_cons, digitSum]

theorem digitSum_add_mul (hbase : 1 < base) (hdigit : digit < base) (rest : Nat) :
    digitSum base (digit + base * rest) = digit + digitSum base rest := by
  rw [digitSum_eq_mod_add_div hbase, Nat.add_mul_mod_self_left, Nat.mod_eq_of_lt hdigit,
    Nat.add_mul_div_left _ _ (Nat.zero_lt_of_lt hbase), Nat.div_eq_of_lt hdigit, Nat.zero_add]

theorem digitSum_of_lt (hbase : 1 < base) (hlt : n < base) : digitSum base n = n := by
  have hsplit := digitSum_add_mul hbase hlt 0
  rwa [Nat.mul_zero, digitSum_zero, Nat.add_zero] at hsplit

/-- In base two the digits are the bits. -/
theorem digitSum_two (hlt : n < 2 ^ width) :
    digitSum 2 n = ∑ bit ∈ range width, (n.testBit bit).toNat := by
  induction width generalizing n with
  | zero =>
      have hzero : n = 0 := Nat.lt_one_iff.mp hlt
      rw [hzero, digitSum_zero, sum_range_zero]
  | succ width ih =>
      have hhalf : n / 2 < 2 ^ width := by
        rw [Nat.div_lt_iff_lt_mul Nat.two_pos, ← Nat.pow_succ]
        exact hlt
      have hlow : n % 2 = (n.testBit 0).toNat := by
        rw [Nat.testBit_zero]
        rcases Nat.mod_two_eq_zero_or_one n with hbit | hbit <;> rw [hbit] <;> rfl
      rw [digitSum_eq_mod_add_div Nat.one_lt_two, ih hhalf, sum_range_succ', hlow, Nat.add_comm]
      simp only [Nat.testBit_succ]

theorem digitSum_two_le (hlt : n < 2 ^ width) : digitSum 2 n ≤ width := by
  rw [digitSum_two hlt]
  have hbound := sum_le_card_nsmul (range width) (fun bit => (n.testBit bit).toNat) 1
    fun bit _ => Bool.toNat_le _
  rwa [card_range, nsmul_eq_mul, Nat.cast_id, Nat.mul_one] at hbound

/-! ## Adding neighbours -/

/-- The number whose lowest digits are one, as many as told. -/
def ones (base cnt : Nat) : Nat := ∑ i ∈ range cnt, base ^ i

theorem ones_succ (base cnt : Nat) : ones base (cnt + 1) = 1 + base * ones base cnt := by
  rw [ones, geom_sum_succ, Nat.add_comm, ones]

theorem ones_succ_top (base cnt : Nat) : ones base (cnt + 1) = ones base cnt + base ^ cnt := by
  rw [ones, sum_range_succ, ones]

/-- The mask of the lower digit of each pair. -/
def pairMask (width cnt : Nat) : Nat := (2 ^ width - 1) * ones (2 ^ (2 * width)) cnt

/-- Each digit of a pair added to the other one. -/
def pairSums (width cnt n : Nat) : Nat :=
  (n &&& pairMask width cnt) + ((n >>> width) &&& pairMask width cnt)

theorem and_pairMask_succ (width cnt n : Nat) : n &&& pairMask width (cnt + 1) =
    n % 2 ^ width + 2 ^ (2 * width) * (n / 2 ^ (2 * width) &&& pairMask width cnt) := by
  have hpos : 0 < 2 ^ (2 * width) := Nat.two_pow_pos _
  have hlow : 2 ^ width - 1 < 2 ^ (2 * width) :=
    lt_of_lt_of_le (Nat.sub_lt (Nat.two_pow_pos _) Nat.one_pos)
      (Nat.pow_le_pow_right Nat.two_pos (Nat.le_mul_of_pos_left _ Nat.two_pos))
  have hmask : pairMask width (cnt + 1) =
      2 ^ width - 1 + 2 ^ (2 * width) * pairMask width cnt := by
    rw [pairMask, ones_succ, Nat.mul_add, Nat.mul_one, Nat.mul_left_comm, pairMask]
  have hdiv : pairMask width (cnt + 1) / 2 ^ (2 * width) = pairMask width cnt := by
    rw [hmask, Nat.add_mul_div_left _ _ hpos, Nat.div_eq_of_lt hlow, Nat.zero_add]
  have hmod : pairMask width (cnt + 1) % 2 ^ (2 * width) = 2 ^ width - 1 := by
    rw [hmask, Nat.add_mul_mod_self_left, Nat.mod_eq_of_lt hlow]
  have hdvd : 2 ^ width ∣ 2 ^ (2 * width) :=
    Nat.pow_dvd_pow 2 (Nat.le_mul_of_pos_left _ Nat.two_pos)
  rw [← Nat.mod_add_div (n &&& pairMask width (cnt + 1)) (2 ^ (2 * width)), Nat.and_mod_two_pow,
    Nat.and_div_two_pow, hdiv, hmod, Nat.and_two_pow_sub_one_eq_mod, Nat.mod_mod_of_dvd n hdvd]

theorem pairSums_succ (width cnt n : Nat) : pairSums width (cnt + 1) n =
    n % 2 ^ width + n / 2 ^ width % 2 ^ width +
      2 ^ (2 * width) * pairSums width cnt (n / 2 ^ (2 * width)) := by
  have hswap : n / 2 ^ width / 2 ^ (2 * width) = n / 2 ^ (2 * width) / 2 ^ width :=
    Nat.div_right_comm ..
  rw [pairSums, and_pairMask_succ, and_pairMask_succ, Nat.shiftRight_eq_div_pow, hswap, pairSums,
    Nat.shiftRight_eq_div_pow, Nat.mul_add, Nat.add_add_add_comm]

/-- The sum of two digits is a digit in the square of the base. -/
theorem pair_lt (hwidth : 0 < width) (n : Nat) :
    n % 2 ^ width + n / 2 ^ width % 2 ^ width < 2 ^ (2 * width) := by
  have hlow : n % 2 ^ width < 2 ^ width := Nat.mod_lt _ (Nat.two_pow_pos _)
  have hhigh : n / 2 ^ width % 2 ^ width < 2 ^ width := Nat.mod_lt _ (Nat.two_pow_pos _)
  have hdouble : 2 ^ width + 2 ^ width ≤ 2 ^ (2 * width) := by
    rw [← Nat.two_mul, ← Nat.pow_succ']
    exact Nat.pow_le_pow_right Nat.two_pos (by omega)
  exact lt_of_lt_of_le (Nat.add_lt_add hlow hhigh) hdouble

theorem pairSums_lt (hwidth : 0 < width) (cnt n : Nat) :
    pairSums width cnt n < (2 ^ (2 * width)) ^ cnt := by
  induction cnt generalizing n with
  | zero => simp [pairSums, pairMask, ones]
  | succ cnt ih =>
      have hpair := pair_lt hwidth n
      have hrest := ih (n / 2 ^ (2 * width))
      rw [pairSums_succ, Nat.pow_succ']
      calc
        _ < 2 ^ (2 * width) + 2 ^ (2 * width) * pairSums width cnt (n / 2 ^ (2 * width)) :=
          Nat.add_lt_add_right hpair _
        _ = 2 ^ (2 * width) * (pairSums width cnt (n / 2 ^ (2 * width)) + 1) := by
          rw [Nat.mul_add, Nat.mul_one, Nat.add_comm]
        _ ≤ _ := Nat.mul_le_mul_left _ hrest

/-- Adding neighbours keeps the sum of the digits. -/
theorem digitSum_pairSums (hwidth : 0 < width) (hlt : n < (2 ^ (2 * width)) ^ cnt) :
    digitSum (2 ^ (2 * width)) (pairSums width cnt n) = digitSum (2 ^ width) n := by
  have hbase : 1 < 2 ^ width := Nat.one_lt_two_pow hwidth.ne'
  have hsquare : 1 < 2 ^ (2 * width) := Nat.one_lt_two_pow (by omega)
  induction cnt generalizing n with
  | zero =>
      have hzero : n = 0 := Nat.lt_one_iff.mp hlt
      simp [hzero, pairSums]
  | succ cnt ih =>
      have hrest : n / 2 ^ (2 * width) < (2 ^ (2 * width)) ^ cnt := by
        rw [Nat.div_lt_iff_lt_mul (Nat.two_pow_pos _), ← Nat.pow_succ]
        exact hlt
      have htwice : n / 2 ^ width / 2 ^ width = n / 2 ^ (2 * width) := by
        rw [Nat.div_div_eq_div_mul, ← Nat.pow_add, ← Nat.two_mul]
      rw [pairSums_succ, digitSum_add_mul hsquare (pair_lt hwidth n), ih hrest,
        digitSum_eq_mod_add_div hbase n, digitSum_eq_mod_add_div hbase (n / 2 ^ width), htwice,
        Nat.add_assoc]

/-! ## Adding all digits -/

/-- The highest of the digits that are kept, without the lowest one. -/
theorem top_digit_add_mul (hdigit : digit < base) (rest cnt : Nat) :
    (digit + base * rest) % base ^ (cnt + 1 + 1) / base ^ (cnt + 1) =
      rest % base ^ (cnt + 1) / base ^ cnt := by
  have hpos : 0 < base := Nat.zero_lt_of_lt hdigit
  have hlow : (digit + base * rest) % base = digit := by
    rw [Nat.add_mul_mod_self_left, Nat.mod_eq_of_lt hdigit]
  have hhigh : ∀ high, (digit + base * high) / base = high := fun high => by
    rw [Nat.add_mul_div_left _ _ hpos, Nat.div_eq_of_lt hdigit, Nat.zero_add]
  have hkept : (digit + base * rest) % (base * base ^ (cnt + 1)) =
      digit + base * (rest % base ^ (cnt + 1)) := by
    rw [Nat.mod_mul, hlow, hhigh]
  calc
    (digit + base * rest) % base ^ (cnt + 1 + 1) / base ^ (cnt + 1)
        = (digit + base * (rest % base ^ (cnt + 1))) / (base * base ^ cnt) := by
          rw [Nat.pow_succ', hkept, ← Nat.pow_succ']
    _ = rest % base ^ (cnt + 1) / base ^ cnt := by rw [← Nat.div_div_eq_div_mul, hhigh]

/-- The lowest digit of a product. What the highest digit of the factor adds to the product
lies above the digits that are kept. -/
theorem mul_ones_succ (base cnt digit rest : Nat) :
    (digit + base * rest) * ones base (cnt + 1) =
      digit + base * ((digit + rest) * ones base cnt) + base ^ (cnt + 1) * rest := by
  have hrest : base * rest * ones base (cnt + 1) =
      base * (rest * ones base cnt) + base ^ (cnt + 1) * rest := by
    rw [ones_succ_top, Nat.pow_succ]
    ring
  rw [Nat.add_mul, hrest, ones_succ]
  ring

/-- The highest digit of the product is the sum of all digits. The sum of the digits
passed so far goes on as `acc`. -/
theorem mul_ones_div (hbase : 1 < base) (hlt : n < base ^ (cnt + 1))
    (hsum : acc + digitSum base n < base) :
    (acc + n) * ones base (cnt + 1) % base ^ (cnt + 1) / base ^ cnt = acc + digitSum base n := by
  induction cnt generalizing acc n with
  | zero =>
      rw [Nat.zero_add, Nat.pow_one] at hlt ⊢
      rw [digitSum_of_lt hbase hlt] at hsum ⊢
      rw [ones, sum_range_one, Nat.pow_zero, Nat.mul_one, Nat.div_one, Nat.mod_eq_of_lt hsum]
  | succ cnt ih =>
      have hrest : n / base < base ^ (cnt + 1) := by
        rw [Nat.div_lt_iff_lt_mul (Nat.zero_lt_of_lt hbase), ← Nat.pow_succ]
        exact hlt
      rw [digitSum_eq_mod_add_div hbase n, ← Nat.add_assoc] at hsum ⊢
      have hdigit : acc + n % base < base := Nat.lt_of_le_of_lt (Nat.le_add_right ..) hsum
      have hn : acc + n = acc + n % base + base * (n / base) := by
        rw [Nat.add_assoc, Nat.mod_add_div]
      rw [hn, mul_ones_succ, Nat.add_mul_mod_self_left, top_digit_add_mul hdigit]
      exact ih hrest hsum

end DigitSums

end Shmily.Foundation
