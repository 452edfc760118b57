import Mathlib.Data.Nat.Digits.Defs
import Shmily.Lib.Bitmap

/-! # Strings in arrays

A string is the bytes before its terminating zero. An array of `char` is the list of
its bytes, and a pointer into it the number of the element. What reads or writes
outside the array is `none`.
-/

namespace Shmily.Lib

/-- A character constant. -/
def ofChar (char : Char) : Byte := BitVec.ofNat 8 char.toNat

/-- Store one element. -/
def putChar (array : List Byte) (pos : Nat) (char : Byte) : Option (List Byte) :=
  if pos < array.length then some (array.set pos char) else none

/-- `memcpy` to a position of an array. -/
def memcpy (dst : List Byte) (pos : Nat) (src : List Byte) (cnt : Nat) : Option (List Byte) :=
  if pos + cnt ≤ dst.length ∧ cnt ≤ src.length then
    some (dst.take pos ++ src.take cnt ++ dst.drop (pos + cnt))
  else none

/-- `strcpy`, which does not copy the terminating zero. -/
def strcpy (dst : List Byte) (pos : Nat) (src : List Byte) : Option (List Byte) :=
  memcpy dst pos src src.length

/-- `strlen` of what starts at the first element. -/
def strlen : List Byte → Option Nat
  | [] => none
  | char :: rest => if char = 0 then some 0 else (strlen rest).map (· + 1)

/-- The string that a pointer points to. -/
def stringAt (array : List Byte) (pos : Nat) : Option (List Byte) :=
  (strlen (array.drop pos)).map fun len => (array.drop pos).take len

/-- `strcmp` of two strings: whether they are equal. -/
def strcmp : List Byte → List Byte → Bool
  | char1 :: str1, char2 :: str2 => if char1 = char2 then strcmp str1 str2 else false
  | [], [] => true
  | _, _ => false

/-- The loop of `string2int`, from the last character on. -/
def string2intFrom : List Byte → BitVec 32 → BitVec 32 → BitVec 32
  | [], _, ret => ret
  | char :: rest, t, ret =>
      string2intFrom rest (t * 10) (ret + (char.signExtend 32 - (ofChar '0').signExtend 32) * t)

/-- `string2int`. -/
def string2int (buf : List Byte) : BitVec 32 := string2intFrom buf.reverse 1 0

/-- One digit of `itoa`. -/
def itoaDigit (remainder : Nat) : Byte :=
  if remainder < 10 then BitVec.ofNat 8 remainder + ofChar '0'
  else BitVec.ofNat 8 (remainder - 10) + ofChar 'A'

/-- `itoa` as far as so many digits. -/
def itoaDigits (base : Nat) : Nat → Nat → List Byte
  | 0, _ => []
  | depth + 1, val =>
      (if val / base ≠ 0 then itoaDigits base depth (val / base) else []) ++ [itoaDigit (val % base)]

/-- `itoa`; an `unsigned int` has at most 32 digits. -/
def itoa (val : BitVec 32) (base : Nat) : List Byte := itoaDigits base 32 val.toNat

/-- An argument of `sprintf`. -/
inductive PrintArg
  | string (str : List Byte)
  | char (char : Byte)
  | int (val : BitVec 32)

/-- `%d`. -/
def printInt (val : BitVec 32) : List Byte :=
  if val.slt 0 then ofChar '-' :: itoa (0 - val) 10 else itoa val 10

/-- What one conversion prints; `none` if the argument is missing or of another kind. -/
def convert (conversion : Byte) : List PrintArg → Option (List Byte × List PrintArg)
  | .string str :: args => if conversion = ofChar 's' then some (str, args) else none
  | .char char :: args => if conversion = ofChar 'c' then some ([char], args) else none
  | .int val :: args =>
      if conversion = ofChar 'd' then some (printInt val, args)
      else if conversion = ofChar 'x' then some (itoa val 16, args)
      else none
  | [] => none

def isConversion (char : Byte) : Bool :=
  char = ofChar 's' || char = ofChar 'c' || char = ofChar 'd' || char = ofChar 'x'

/-- `vsprintf`: the bytes that it stores. A `%` before any other character is dropped. -/
def vsprintf : List Byte → List PrintArg → Option (List Byte)
  | [], _ => some []
  | cur :: rest, args =>
      if cur ≠ ofChar '%' then (vsprintf rest args).map (cur :: ·)
      else
        match rest with
        | [] => some []
        | conversion :: rest' =>
            if isConversion conversion then do
              let (printed, args) ← convert conversion args
              (vsprintf rest' args).map (printed ++ ·)
            else vsprintf (conversion :: rest') args

/-- `sprintf` to the start of an array; no terminating zero is stored. -/
def sprintf (buf : List Byte) (format : List Byte) (args : List PrintArg) : Option (List Byte) :=
  (vsprintf format args).bind (strcpy buf 0)

section

variable {str : List Byte}

theorem strlen_append (rest : List Byte) (hstr : 0 ∉ str) :
    strlen (str ++ 0 :: rest) = some str.length := by
  induction str with
  | nil => rfl
  | cons char str ih =>
      obtain ⟨hchar, hrest⟩ := not_or.mp (mt List.mem_cons.mpr hstr)
      rw [List.cons_append, strlen, if_neg (Ne.symm hchar), ih hrest]
      rfl

/-- The string goes on behind what has no zero. -/
theorem strlen_lt {char : Byte} {post : List Byte} (hstr : 0 ∉ str) (hchar : char ≠ 0)
    (hpost : 0 ∈ post) : ∃ len, strlen (str ++ char :: post) = some len ∧ str.length < len := by
  obtain ⟨between, rest, rfl, hbetween⟩ := List.eq_append_cons_of_mem hpost
  have hall : 0 ∉ str ++ char :: between :=
    List.not_mem_append hstr (List.not_mem_cons_of_ne_of_not_mem hchar.symm hbetween)
  refine ⟨(str ++ char :: between).length, ?_, ?_⟩
  · rw [← strlen_append rest hall, List.append_assoc, List.cons_append]
  · rw [List.length_append, List.length_cons]
    omega

/-- The string that starts behind some elements. -/
theorem stringAt_append (pre rest : List Byte) (hstr : 0 ∉ str) :
    stringAt (pre ++ (str ++ 0 :: rest)) pre.length = some str := by
  rw [stringAt, List.drop_left, strlen_append rest hstr, Option.map_some, List.take_left]

theorem stringAt_zero (rest : List Byte) (hstr : 0 ∉ str) :
    stringAt (str ++ 0 :: rest) 0 = some str :=
  stringAt_append [] rest hstr

theorem strcmp_iff {str1 str2 : List Byte} : strcmp str1 str2 = true ↔ str1 = str2 := by
  fun_induction strcmp str1 str2 with
  | case1 str1 char str2 ih => simp [ih]
  | case2 char1 str1 char2 str2 hne => simp [hne]
  | case3 => simp
  | case4 str1 str2 hcons hnil =>
      simp only [Bool.false_eq_true, false_iff]
      rintro rfl
      cases str1 with
      | nil => exact hnil rfl rfl
      | cons char rest => exact hcons char rest char rest rfl rfl

theorem putChar_append (pre rest : List Byte) (old new : Byte) :
    putChar (pre ++ old :: rest) pre.length new = some (pre ++ new :: rest) := by
  rw [putChar, if_pos (by simp), List.set_append_right _ _ (Nat.le_refl _), Nat.sub_self]
  rfl

theorem memcpy_append (pre room rest : List Byte) (hroom : room.length = str.length) :
    memcpy (pre ++ (room ++ rest)) pre.length str str.length = some (pre ++ (str ++ rest)) := by
  have hbounds :
      pre.length + str.length ≤ (pre ++ (room ++ rest)).length ∧ str.length ≤ str.length := by
    simp [hroom]
  rw [memcpy, if_pos hbounds, List.take_left, List.take_length, ← hroom,
    ← List.append_assoc pre room, ← List.length_append, List.drop_left, List.append_assoc]

/-- What stands behind the copied bytes does not matter. -/
theorem memcpy_prefix (dst : List Byte) (pos : Nat) (str more : List Byte) :
    memcpy dst pos (str ++ more) str.length = strcpy dst pos str := by
  have hlong : str.length ≤ (str ++ more).length := by simp
  simp only [strcpy, memcpy, hlong, Nat.le_refl, List.take_left, List.take_length]

/-- Copied to the start of a longer array and terminated there. -/
theorem strcpy_terminated {dst : List Byte} (hlen : str.length < dst.length) :
    ∃ post, (strcpy dst 0 str).bind (putChar · str.length 0) = some (str ++ 0 :: post) := by
  refine ⟨dst.drop (str.length + 1), ?_⟩
  rw [strcpy, memcpy, if_pos ⟨by omega, Nat.le_refl _⟩, Option.bind_some, List.take_zero,
    List.take_length, List.nil_append, Nat.zero_add, List.drop_eq_getElem_cons hlen, putChar_append]

/-- Copied to the start of an array of zeros. -/
theorem strcpy_replicate {size : Nat} (hsize : str.length ≤ size) :
    strcpy (List.replicate size 0) 0 str = some (str ++ List.replicate (size - str.length) 0) := by
  rw [strcpy, memcpy, if_pos (by simpa using hsize), List.take_zero, List.take_length,
    List.nil_append, Nat.zero_add, List.drop_replicate]

end

/-! ## Decimal numbers -/

/-- The number that decimal digits stand for, the last one first. -/
def decimal : List Byte → BitVec 32
  | [] => 0
  | char :: rest => (char.signExtend 32 - (ofChar '0').signExtend 32) + 10 * decimal rest

theorem string2intFrom_eq (chars : List Byte) (t ret : BitVec 32) :
    string2intFrom chars t ret = ret + t * decimal chars := by
  induction chars generalizing t ret with
  | nil => simp [string2intFrom, decimal]
  | cons char rest ih =>
      rw [string2intFrom, ih, decimal]
      ring

theorem string2int_eq (buf : List Byte) : string2int buf = decimal buf.reverse := by
  rw [string2int, string2intFrom_eq, zero_add, one_mul]

theorem itoaDigit_sub {remainder : Nat} (hlt : remainder < 10) :
    (itoaDigit remainder).signExtend 32 - (ofChar '0').signExtend 32 =
      BitVec.ofNat 32 remainder := by
  have hall : ∀ digit : Fin 10, (itoaDigit digit).signExtend 32 - (ofChar '0').signExtend 32 =
      BitVec.ofNat 32 digit := by decide
  exact hall ⟨remainder, hlt⟩

theorem decimal_itoaDigits {depth val : Nat} (hval : val < 10 ^ depth) :
    decimal (itoaDigits 10 depth val).reverse = BitVec.ofNat 32 val := by
  induction depth generalizing val with
  | zero =>
      have hzero : val = 0 := by simpa using hval
      rw [hzero]
      rfl
  | succ depth ih =>
      -- the recursion ends early, where no digits are left
      have hrest : decimal (if val / 10 ≠ 0 then itoaDigits 10 depth (val / 10) else []).reverse =
          BitVec.ofNat 32 (val / 10) := by
        split
        next => exact ih (Nat.div_lt_of_lt_mul (Nat.pow_succ' ▸ hval))
        next hzero =>
          rw [not_not.mp hzero]
          rfl
      rw [itoaDigits, List.reverse_append, List.reverse_singleton, List.singleton_append, decimal,
        itoaDigit_sub (Nat.mod_lt _ (by decide)), hrest]
      calc BitVec.ofNat 32 (val % 10) + 10 * BitVec.ofNat 32 (val / 10)
          = BitVec.ofNat 32 (val % 10 + 10 * (val / 10)) := by
            rw [BitVec.ofNat_add, BitVec.ofNat_mul]
            rfl
        _ = BitVec.ofNat 32 val := by rw [Nat.mod_add_div]

/-- What is printed in decimal is read back. -/
theorem string2int_itoa (val : BitVec 32) : string2int (itoa val 10) = val := by
  have hlt : val.toNat < 10 ^ 32 := Nat.lt_of_lt_of_le val.isLt (by decide)
  rw [string2int_eq, itoa, decimal_itoaDigits hlt, BitVec.ofNat_toNat, BitVec.setWidth_eq]

theorem printInt_of_lt {val : BitVec 32} (hval : val.toNat < 2 ^ 31) :
    printInt val = itoa val 10 := by
  have hslt : ¬ val.slt 0 := by
    have hzero : (0 : BitVec 32) = 0#32 := rfl
    rw [hzero, BitVec.slt_zero_iff_msb_cond, BitVec.msb_eq_decide]
    simpa using hval
  exact if_neg hslt

theorem string2int_printInt {val : BitVec 32} (hval : val.toNat < 2 ^ 31) :
    string2int (printInt val) = val := by
  rw [printInt_of_lt hval, string2int_itoa]

theorem length_itoaDigits_le {depth digits val : Nat} (hval : val < 10 ^ digits)
    (hdigits : 0 < digits) : (itoaDigits 10 depth val).length ≤ digits := by
  induction depth generalizing digits val with
  | zero => exact Nat.zero_le digits
  | succ depth ih =>
      obtain ⟨digits, rfl⟩ := Nat.exists_eq_succ_of_ne_zero (Nat.ne_of_gt hdigits)
      have hrest : (if val / 10 ≠ 0 then itoaDigits 10 depth (val / 10) else []).length ≤ digits := by
        split
        next hne =>
          have hlt : val / 10 < 10 ^ digits := Nat.div_lt_of_lt_mul (Nat.pow_succ' ▸ hval)
          refine ih hlt (Nat.pos_of_ne_zero fun hzero => hne ?_)
          simpa [hzero] using hlt
        next => exact Nat.zero_le digits
      rw [itoaDigits, List.length_append]
      exact Nat.succ_le_succ hrest

theorem length_printInt_le {val : BitVec 32} (hval : val.toNat < 2 ^ 31) :
    (printInt val).length ≤ 10 := by
  rw [printInt_of_lt hval]
  exact length_itoaDigits_le (Nat.lt_of_lt_of_le hval (by decide)) (by decide)

/-- A decimal digit. -/
def IsDigit (char : Byte) : Prop := ∃ digit < 10, char = itoaDigit digit

theorem isDigit_itoaDigits {depth val : Nat} : ∀ char ∈ itoaDigits 10 depth val, IsDigit char := by
  induction depth generalizing val with
  | zero => exact fun _ hmem => absurd hmem List.not_mem_nil
  | succ depth ih =>
      intro char hmem
      rw [itoaDigits, List.mem_append, List.mem_singleton] at hmem
      rcases hmem with hrest | rfl
      · split at hrest
        next => exact ih char hrest
        next => cases hrest
      · exact ⟨val % 10, Nat.mod_lt _ (by decide), rfl⟩

theorem isDigit_printInt {val : BitVec 32} (hval : val.toNat < 2 ^ 31) :
    ∀ char ∈ printInt val, IsDigit char := by
  rw [printInt_of_lt hval]
  exact isDigit_itoaDigits

theorem IsDigit.ne {char other : Byte} (hdigit : IsDigit char)
    (hother : ∀ digit : Fin 10, itoaDigit digit ≠ other) : char ≠ other := by
  obtain ⟨digit, hlt, rfl⟩ := hdigit
  exact hother ⟨digit, hlt⟩

end Shmily.Lib
