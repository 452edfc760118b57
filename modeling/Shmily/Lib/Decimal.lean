import Shmily.Lib.Strings

/-! # Decimal numbers

`itoa` calls itself for the digits in front of the last one and stores each digit behind those
that are stored already. `string2uint` and `string2int` go back from the last character, with a
factor that grows by ten at each one and may wrap.
-/

namespace Shmily.Lib

/-- `itoa`, with the bytes stored so far; `none` if it calls itself more often than told. -/
def itoaRun (base : Nat) : Nat → Nat → List Byte → Option (List Byte)
  | 0, _, _ => none
  | depth + 1, val, buf => do
      let buf ← if val / base ≠ 0 then itoaRun base depth (val / base) buf else some buf
      some (buf ++ [itoaDigit (val % base)])

/-- The loop of `string2uint`, from the last character on. -/
def string2uintFrom : List Byte → BitVec 32 → BitVec 32 → BitVec 32
  | [], _, res => res
  | char :: rest, factor, res =>
      string2uintFrom rest (factor * 10)
        (res + factor * (char.signExtend 32 - (ofChar '0').signExtend 32))

/-- `string2uint`. -/
def string2uint (str : List Byte) : BitVec 32 := string2uintFrom str.reverse 1 0

section

variable {base depth digits val : Nat}

/-! ## Printing -/

/-- The number in front of the last digit has one digit less. -/
theorem div_lt_pow (hdepth : val < base ^ (depth + 1)) (hne : val / base ≠ 0) :
    val / base < base ^ depth ∧ 0 < depth := by
  have hlt : val / base < base ^ depth := Nat.div_lt_of_lt_mul (Nat.pow_succ' ▸ hdepth)
  refine ⟨hlt, Nat.pos_of_ne_zero ?_⟩
  rintro rfl
  exact hne (Nat.lt_one_iff.mp hlt)

/-- More calls than digits do not change the text. -/
theorem itoaDigits_add (depth : Nat) (hdepth : val < base ^ digits) (hdigits : 0 < digits) :
    itoaDigits base (digits + depth) val = itoaDigits base digits val := by
  induction digits generalizing val with
  | zero => exact absurd hdigits (Nat.lt_irrefl 0)
  | succ digits ih =>
      rw [Nat.succ_add_eq_add_succ, Nat.add_succ, itoaDigits, itoaDigits]
      congr 1
      split
      next hne =>
        obtain ⟨hlt, hfewer⟩ := div_lt_pow hdepth hne
        exact ih hlt hfewer
      next => rfl

/-- The recursion ends, and appends the digits. -/
theorem itoaRun_eq (hdepth : val < base ^ depth) (hpos : 0 < depth) (buf : List Byte) :
    itoaRun base depth val buf = some (buf ++ itoaDigits base depth val) := by
  induction depth generalizing val with
  | zero => exact absurd hpos (Nat.lt_irrefl 0)
  | succ depth ih =>
      rw [itoaRun, itoaDigits]
      split
      next hne =>
        obtain ⟨hlt, hdeeper⟩ := div_lt_pow hdepth hne
        rw [ih hlt hdeeper]
        exact congrArg some (List.append_assoc _ _ _)
      next => rfl

theorem itoaDigits_ne_nil (hpos : 0 < depth) : itoaDigits base depth val ≠ [] := by
  cases depth with
  | zero => exact absurd hpos (Nat.lt_irrefl 0)
  | succ depth => exact List.append_ne_nil_of_right_ne_nil _ (List.cons_ne_nil _ _)

/-- The first digit of a number is not zero. -/
theorem head?_itoaDigits (hdepth : val < 10 ^ depth) (hval : val ≠ 0) :
    (itoaDigits 10 depth val).head? ≠ some (ofChar '0') := by
  induction depth generalizing val with
  | zero => exact absurd (Nat.lt_one_iff.mp hdepth) hval
  | succ depth ih =>
      rw [itoaDigits]
      split
      next hne =>
        obtain ⟨hlt, hpos⟩ := div_lt_pow hdepth hne
        rw [List.head?_append_of_ne_nil _ (itoaDigits_ne_nil hpos)]
        exact ih hlt hne
      next hsmall =>
        have hlt : val < 10 := by omega
        have hall : ∀ digit : Fin 10, digit.val ≠ 0 → itoaDigit digit ≠ ofChar '0' := by decide
        rw [List.nil_append, List.head?_cons, Nat.mod_eq_of_lt hlt, Ne, Option.some.injEq]
        exact hall ⟨val, hlt⟩ hval

end

/-! ## Reading -/

theorem string2uintFrom_eq (chars : List Byte) (factor res : BitVec 32) :
    string2uintFrom chars factor res = res + factor * decimal chars := by
  induction chars generalizing factor res with
  | nil => simp [string2uintFrom, decimal]
  | cons char rest ih =>
      rw [string2uintFrom, ih, decimal]
      ring

theorem string2uint_eq (str : List Byte) : string2uint str = decimal str.reverse := by
  rw [string2uint, string2uintFrom_eq, zero_add, one_mul]

theorem string2uint_itoa (val : BitVec 32) : string2uint (itoa val 10) = val := by
  rw [string2uint_eq, ← string2int_eq, string2int_itoa]

theorem decimal_append_zeros (chars : List Byte) (zeros : Nat) :
    decimal (chars ++ List.replicate zeros (ofChar '0')) = decimal chars := by
  induction chars with
  | nil =>
      induction zeros with
      | zero => rfl
      | succ zeros ih =>
          rw [List.nil_append] at ih ⊢
          rw [List.replicate_succ]
          unfold decimal
          rw [ih]
          rfl
  | cons char rest ih => rw [List.cons_append, decimal, ih, decimal]

/-- Zeros in front of a number do not change it. -/
theorem string2uint_zeros (zeros : Nat) (str : List Byte) :
    string2uint (List.replicate zeros (ofChar '0') ++ str) = string2uint str := by
  rw [string2uint_eq, string2uint_eq, List.reverse_append, List.reverse_replicate,
    decimal_append_zeros]

/-- A number that is printed in decimal ends after at most ten digits, has no zero in front of
other digits, and is read back. -/
theorem itoa_decimal (val : BitVec 32) :
    (∀ depth, 10 ≤ depth → ∀ buf, itoaRun 10 depth val.toNat buf = some (buf ++ itoa val 10)) ∧
      1 ≤ (itoa val 10).length ∧ (itoa val 10).length ≤ 10 ∧
      (∀ char ∈ itoa val 10, IsDigit char) ∧
      ((itoa val 10).head? = some (ofChar '0') → (itoa val 10).length = 1) ∧
      string2uint (itoa val 10) = val ∧
      (val.toNat < 2 ^ 31 → (string2int (itoa val 10)).toInt = val.toNat) := by
  have hlt : val.toNat < 10 ^ 10 := Nat.lt_of_lt_of_le val.isLt (by decide)
  refine ⟨fun depth hdepth buf => ?_, ?_, ?_, isDigit_itoaDigits, fun hhead => ?_,
    string2uint_itoa val, fun hsmall => ?_⟩
  · obtain ⟨more, rfl⟩ := Nat.exists_eq_add_of_le hdepth
    have hfit : val.toNat < 10 ^ (10 + more) :=
      Nat.lt_of_lt_of_le hlt (Nat.pow_le_pow_right (by decide) (Nat.le_add_right 10 more))
    rw [itoaRun_eq hfit (by omega), itoaDigits_add more hlt (by decide), itoa,
      itoaDigits_add 22 hlt (by decide)]
  · exact List.length_pos_of_ne_nil (itoaDigits_ne_nil (by decide))
  · exact length_itoaDigits_le hlt (by decide)
  · have hzero : val.toNat = 0 := by
      by_contra hne
      exact head?_itoaDigits (Nat.lt_of_lt_of_le val.isLt (by decide)) hne hhead
    rw [itoa, hzero]
    rfl
  · rw [string2int_itoa, BitVec.toInt_eq_toNat_of_lt (by omega)]

/-- The largest number of ten digits below `2 ^ 31`. -/
theorem itoa_decimal_max :
    string2uint (itoa 2147483647 10) = 2147483647 ∧
      (string2int (itoa 2147483647 10)).toInt = 2147483647 :=
  have hdecimal := itoa_decimal 2147483647
  ⟨hdecimal.2.2.2.2.2.1, hdecimal.2.2.2.2.2.2 (by decide)⟩

end Shmily.Lib
