import Mathlib.Algebra.BigOperators.Group.List.Basic
import Mathlib.Data.Nat.ModEq
import Shmily.Foundation.ByteArea

/-! # One's complement sums

The Internet checksum adds 16-bit words with end-around carry. Bytes are paired into
words with the first byte as the higher one, and a last single byte is padded with a
zero. Up to multiples of `65535` such a sum is the ordinary sum of the words, and
`256` times the sum of the words with their bytes swapped.
-/

namespace Shmily.Foundation

namespace OnesComplement

/-- Addition of digits with end-around carry. -/
def onesAdd (base a b : Nat) : Nat := (a + b) % base + (a + b) / base

/-- The sum of digits with end-around carry. -/
def onesSum (base : Nat) (digits : List Nat) : Nat := digits.foldl (onesAdd base) 0

section

variable {base a b : Nat}

theorem onesAdd_lt (ha : a < base) (hb : b < base) : onesAdd base a b < base := by
  rw [onesAdd]
  rcases Nat.lt_or_ge (a + b) base with hlt | hge
  · rwa [Nat.mod_eq_of_lt hlt, Nat.div_eq_of_lt hlt]
  · have hdiv : (a + b) / base = 1 :=
      Nat.div_eq_of_lt_le (by rwa [Nat.one_mul]) (by omega)
    have hmod : (a + b) % base = a + b - base := by
      rw [Nat.mod_eq_sub_mod hge, Nat.mod_eq_of_lt (by omega)]
    omega

/-- One's complement addition is addition modulo `base - 1`. -/
theorem onesAdd_modEq (hbase : 0 < base) : onesAdd base a b ≡ a + b [MOD base - 1] := by
  have hone : base ≡ 1 [MOD base - 1] := (Nat.modEq_iff_dvd' hbase).mpr dvd_rfl |>.symm
  calc onesAdd base a b
      = 1 * ((a + b) / base) + (a + b) % base := by rw [onesAdd, Nat.one_mul, Nat.add_comm]
    _ ≡ base * ((a + b) / base) + (a + b) % base [MOD base - 1] :=
        (hone.symm.mul_right _).add_right _
    _ = a + b := Nat.div_add_mod _ _

theorem onesAdd_eq_zero : onesAdd base a b = 0 ↔ a + b = 0 := by
  constructor
  · intro hzero
    have hsum := Nat.div_add_mod (a + b) base
    have hparts := Nat.add_eq_zero_iff.mp hzero
    rw [hparts.1, hparts.2, Nat.mul_zero] at hsum
    exact hsum.symm
  · intro hzero
    rw [onesAdd, hzero, Nat.zero_mod, Nat.zero_div]

/-- What a sum from any digit on has in common with the ordinary sum. -/
theorem foldl_onesAdd {digits : List Nat} (hdigits : ∀ digit ∈ digits, digit < base)
    (ha : a < base) :
    digits.foldl (onesAdd base) a < base ∧
      digits.foldl (onesAdd base) a ≡ a + digits.sum [MOD base - 1] ∧
      (digits.foldl (onesAdd base) a = 0 ↔ a + digits.sum = 0) := by
  induction digits generalizing a with
  | nil => exact ⟨ha, .rfl, .rfl⟩
  | cons digit rest ih =>
      have hbase : 0 < base := by omega
      have hdigit : digit < base := hdigits digit List.mem_cons_self
      have hrest : ∀ other ∈ rest, other < base := fun other hmem =>
        hdigits other (List.mem_cons_of_mem _ hmem)
      obtain ⟨hlt, hmod, hzero⟩ := ih hrest (onesAdd_lt ha hdigit)
      rw [List.foldl_cons, List.sum_cons, ← Nat.add_assoc]
      refine ⟨hlt, hmod.trans ((onesAdd_modEq hbase).add_right _), hzero.trans ?_⟩
      rw [Nat.add_eq_zero_iff, onesAdd_eq_zero, ← Nat.add_eq_zero_iff]

/-- The sum is all ones just if the ordinary sum is a multiple of `base - 1` but not zero. -/
theorem onesSum_eq_iff (hbase : 2 ≤ base) {digits : List Nat}
    (hdigits : ∀ digit ∈ digits, digit < base) :
    onesSum base digits = base - 1 ↔ digits.sum ≡ 0 [MOD base - 1] ∧ digits.sum ≠ 0 := by
  obtain ⟨hlt, hmod, hzero⟩ := foldl_onesAdd hdigits (by omega : 0 < base)
  rw [Nat.zero_add] at hmod hzero
  constructor
  · intro heq
    have hfold : digits.foldl (onesAdd base) 0 = base - 1 := heq
    rw [hfold] at hmod hzero
    exact ⟨hmod.symm.trans (Nat.modEq_zero_iff_dvd.mpr dvd_rfl), fun hsum => by omega⟩
  · rintro ⟨hsum, hne⟩
    -- the only positive multiple below the base
    have hdvd := Nat.modEq_zero_iff_dvd.mp (hmod.trans hsum)
    have hpos : 0 < digits.foldl (onesAdd base) 0 := Nat.pos_of_ne_zero fun heq => hne (hzero.mp heq)
    have hle := Nat.le_of_dvd hpos hdvd
    rw [onesSum]
    omega

/-- The sum is the one digit that is congruent to the ordinary sum and zero along with it. -/
theorem onesSum_unique {digits : List Nat} (hdigits : ∀ digit ∈ digits, digit < base) (ha : a < base)
    (hmod : a ≡ digits.sum [MOD base - 1]) (hzero : a = 0 ↔ digits.sum = 0) :
    onesSum base digits = a := by
  obtain ⟨hlt, hmod', hzero'⟩ := foldl_onesAdd hdigits (Nat.zero_lt_of_lt ha)
  rw [Nat.zero_add] at hmod' hzero'
  have hsame : onesSum base digits ≡ a [MOD base - 1] := hmod'.trans hmod.symm
  have hboth : onesSum base digits = 0 ↔ a = 0 := hzero'.trans hzero.symm
  have hsum : onesSum base digits < base := hlt
  rcases Nat.eq_zero_or_pos a with hnone | hpos
  · rw [hboth.mpr hnone, hnone]
  · -- both are from `1` to `base - 1`
    have hsumPos : 0 < onesSum base digits := Nat.pos_of_ne_zero fun h => hpos.ne' (hboth.mp h)
    have hpred : onesSum base digits - 1 ≡ a - 1 [MOD base - 1] := by
      have hone := Nat.ModEq.add_right_cancel' (n := base - 1) 1
        (a := onesSum base digits - 1) (b := a - 1)
      rw [Nat.sub_add_cancel hsumPos, Nat.sub_add_cancel hpos] at hone
      exact hone hsame
    have heq := hpred.eq_of_lt_of_lt (by omega) (by omega)
    omega

end

/-- The 16-bit words of the bytes, in network order. -/
def networkWords : List (BitVec 8) → List Nat
  | [] => []
  | [high] => [256 * high.toNat]
  | high :: low :: rest => (256 * high.toNat + low.toNat) :: networkWords rest

/-- The bytes include a checksum that is correct. -/
def Verifies (bytes : List (BitVec 8)) : Prop := onesSum 65536 (networkWords bytes) = 65535

instance (bytes : List (BitVec 8)) : Decidable (Verifies bytes) := inferInstanceAs (Decidable (_ = _))

/-- The sum of the words with the first byte of each as the lower one. -/
def littleSum : List (BitVec 8) → Nat
  | [] => 0
  | [low] => low.toNat
  | low :: high :: rest => low.toNat + 256 * high.toNat + littleSum rest

/-- The words with the first byte of each as the lower one. -/
def littleWords : List (BitVec 8) → List Nat
  | [] => []
  | [low] => [low.toNat]
  | low :: high :: rest => (low.toNat + 256 * high.toNat) :: littleWords rest

/-- The Internet checksum of the bytes: the complement of the sum of their words. -/
def checksum (bytes : List (BitVec 8)) : Nat := 65535 - onesSum 65536 (littleWords bytes)

theorem littleWords_lt {bytes : List (BitVec 8)} : ∀ word ∈ littleWords bytes, word < 65536 := by
  fun_induction littleWords bytes with
  | case1 => exact fun word hmem => absurd hmem List.not_mem_nil
  | case2 low =>
      intro word hmem
      rw [List.mem_singleton.mp hmem]
      exact Nat.lt_trans low.isLt (by decide)
  | case3 low high rest ih =>
      have := low.isLt
      have := high.isLt
      intro word hmem
      rcases List.mem_cons.mp hmem with rfl | hrest
      · omega
      · exact ih word hrest

theorem sum_littleWords (bytes : List (BitVec 8)) : (littleWords bytes).sum = littleSum bytes := by
  fun_induction littleWords bytes with
  | case1 => rfl
  | case2 low => rw [List.sum_singleton, littleSum]
  | case3 low high rest ih => rw [List.sum_cons, littleSum, ih]

theorem networkWords_lt {bytes : List (BitVec 8)} : ∀ word ∈ networkWords bytes, word < 65536 := by
  fun_induction networkWords bytes with
  | case1 => simp
  | case2 high =>
      have := high.isLt
      intro word hmem
      rw [List.mem_singleton.mp hmem]
      omega
  | case3 high low rest ih =>
      have := high.isLt
      have := low.isLt
      intro word hmem
      rcases List.mem_cons.mp hmem with rfl | hrest
      · omega
      · exact ih word hrest

/-- Swapping the bytes of every word multiplies the sum by `256`. -/
theorem sum_networkWords (bytes : List (BitVec 8)) :
    (networkWords bytes).sum ≡ 256 * littleSum bytes [MOD 65535] ∧
      ((networkWords bytes).sum = 0 ↔ littleSum bytes = 0) := by
  fun_induction networkWords bytes with
  | case1 => exact ⟨.rfl, .rfl⟩
  | case2 high =>
      simp only [List.sum_cons, List.sum_nil, littleSum]
      exact ⟨.rfl, by omega⟩
  | case3 high low rest ih =>
      obtain ⟨hmod, hzero⟩ := ih
      rw [List.sum_cons, littleSum]
      unfold Nat.ModEq at hmod ⊢
      omega

/-- Sums agree with the bytes of every word swapped. -/
theorem sum_networkWords_modEq_iff (first second : List (BitVec 8)) :
    (networkWords first).sum ≡ (networkWords second).sum [MOD 65535] ↔
      littleSum first ≡ littleSum second [MOD 65535] := by
  have hfirst := (sum_networkWords first).1
  have hsecond := (sum_networkWords second).1
  unfold Nat.ModEq at hfirst hsecond ⊢
  omega

/-- A checksum can be verified with the bytes of every word swapped. -/
theorem verifies_iff (bytes : List (BitVec 8)) :
    Verifies bytes ↔ littleSum bytes ≡ 0 [MOD 65535] ∧ littleSum bytes ≠ 0 := by
  obtain ⟨hmod, hzero⟩ := sum_networkWords bytes
  -- 256 is invertible modulo 65535
  have hsame : (networkWords bytes).sum ≡ 0 [MOD 65535] ↔ littleSum bytes ≡ 0 [MOD 65535] := by
    unfold Nat.ModEq at hmod ⊢
    omega
  rw [Verifies, show (65535 : Nat) = 65536 - 1 from rfl, onesSum_eq_iff (by decide) networkWords_lt,
    Ne, hzero]
  exact and_congr_left' hsame

/-- A zero that pads the last word. -/
theorem checksum_append_zero {bytes : List (BitVec 8)} (hodd : bytes.length % 2 = 1) :
    checksum (bytes ++ [0]) = checksum bytes := by
  have hwords : littleWords (bytes ++ [0]) = littleWords bytes := by
    fun_induction littleWords bytes with
    | case1 => cases hodd
    | case2 low => rfl
    | case3 low high rest ih =>
        have hrest : rest.length % 2 = 1 := by
          rw [List.length_cons, List.length_cons] at hodd
          omega
        rw [List.cons_append, List.cons_append, littleWords, ih hrest]
  rw [checksum, hwords, checksum]

/-- The checksum is zero just if the bytes are correct without one. -/
theorem checksum_eq_zero_iff (bytes : List (BitVec 8)) : checksum bytes = 0 ↔ Verifies bytes := by
  have hsum := onesSum_eq_iff (by decide : 2 ≤ 65536) (@littleWords_lt bytes)
  have hlt : onesSum 65536 (littleWords bytes) < 65536 :=
    (foldl_onesAdd (@littleWords_lt bytes) (by decide : 0 < 65536)).1
  rw [sum_littleWords, ← verifies_iff] at hsum
  rw [← hsum, checksum]
  omega

/-- The sum and the checksum add up to all ones. -/
theorem littleSum_add_checksum (bytes : List (BitVec 8)) :
    littleSum bytes + checksum bytes ≡ 0 [MOD 65535] := by
  obtain ⟨hlt, hmod, -⟩ := foldl_onesAdd (@littleWords_lt bytes) (by decide : 0 < 65536)
  rw [Nat.zero_add, sum_littleWords] at hmod
  have hsum : onesSum 65536 (littleWords bytes) ≡ littleSum bytes [MOD 65535] := hmod
  have hle : onesSum 65536 (littleWords bytes) ≤ 65535 := Nat.le_of_lt_succ hlt
  calc littleSum bytes + checksum bytes
      ≡ onesSum 65536 (littleWords bytes) + checksum bytes [MOD 65535] := hsum.symm.add_right _
    _ = 65535 := by rw [checksum, Nat.add_sub_cancel' hle]
    _ ≡ 0 [MOD 65535] := rfl

/-- The sum of the words of an area after whole words of another. -/
theorem littleSum_append {first second : List (BitVec 8)} (heven : 2 ∣ first.length) :
    littleSum (first ++ second) = littleSum first + littleSum second := by
  fun_induction littleSum first with
  | case1 => rw [List.nil_append, Nat.zero_add]
  | case2 low =>
      rw [List.length_singleton] at heven
      omega
  | case3 low high rest ih =>
      have hrest : 2 ∣ rest.length := by
        rw [List.length_cons, List.length_cons] at heven
        omega
      rw [List.cons_append, List.cons_append, littleSum, ih hrest, ← Nat.add_assoc]

theorem littleSum_le (bytes : List (BitVec 8)) :
    2 * littleSum bytes ≤ 65535 * (bytes.length + 1) := by
  fun_induction littleSum bytes with
  | case1 => simp
  | case2 low =>
      have := low.isLt
      rw [List.length_singleton]
      omega
  | case3 low high rest ih =>
      have := low.isLt
      have := high.isLt
      rw [List.length_cons, List.length_cons]
      omega

end OnesComplement

namespace ByteArea

open OnesComplement

/-- The bytes from an offset on, as many as told. -/
def bytes (area : ByteArea) (offset : Nat) : Nat → List (BitVec 8)
  | 0 => []
  | len + 1 => area offset :: bytes area (offset + 1) len

variable {area other : ByteArea} {offset offset' len : Nat}

@[simp]
theorem length_bytes (area : ByteArea) (offset len : Nat) : (area.bytes offset len).length = len := by
  induction len generalizing offset with
  | zero => rfl
  | succ len ih => rw [bytes, List.length_cons, ih]

theorem bytes_congr (hsame : ∀ i < len, area (offset + i) = other (offset' + i)) :
    area.bytes offset len = other.bytes offset' len := by
  induction len generalizing offset offset' with
  | zero => rfl
  | succ len ih =>
      rw [bytes, bytes]
      refine congrArg₂ List.cons (hsame 0 (Nat.succ_pos len)) (ih fun i hi => ?_)
      rw [Nat.add_assoc, Nat.add_assoc, Nat.add_comm 1]
      exact hsame (i + 1) (by omega)

/-- The sum starts with the first word. -/
theorem littleSum_bytes_add_two (area : ByteArea) (offset len : Nat) :
    littleSum (area.bytes offset (len + 2)) =
      area.getLE 2 offset + littleSum (area.bytes (offset + 2) len) := rfl

theorem bytes_add (area : ByteArea) (offset len more : Nat) :
    area.bytes offset (len + more) = area.bytes offset len ++ area.bytes (offset + len) more := by
  induction len generalizing offset with
  | zero => rw [Nat.zero_add, Nat.add_zero, bytes, List.nil_append]
  | succ len ih =>
      rw [Nat.add_right_comm, bytes, bytes, ih, List.cons_append, Nat.add_assoc, Nat.add_comm 1]

/-- An array that lies in the area. -/
theorem bytes_eq_ofFn {n : Nat} {array : Fin n → BitVec 8}
    (harray : ∀ i : Fin n, area (offset + i) = array i) : area.bytes offset n = List.ofFn array := by
  induction n generalizing offset with
  | zero => rfl
  | succ n ih =>
      have hrest : ∀ i : Fin n, area (offset + 1 + i) = array i.succ := by
        intro i
        rw [Nat.add_assoc, Nat.add_comm 1]
        exact harray i.succ
      rw [bytes, List.ofFn_succ, ih hrest]
      exact congrArg (· :: _) (harray 0)

/-- Storing a word where there was a zero adds it to the sum. -/
theorem littleSum_bytes_putLE (position : Nat) {value : Nat} (hvalue : value < 65536)
    (hzero : area.getLE 2 (offset + 2 * position) = 0) (hlen : 2 * position + 2 ≤ len) :
    littleSum ((area.putLE 2 (offset + 2 * position) value).bytes offset len) =
      littleSum (area.bytes offset len) + value := by
  induction position generalizing offset len with
  | zero =>
      obtain ⟨rest, rfl⟩ := Nat.exists_eq_add_of_le' hlen
      have hrest : (area.putLE 2 offset value).bytes (offset + 2) rest =
          area.bytes (offset + 2) rest :=
        bytes_congr fun i _ => putLE_of_not (by omega)
      rw [Nat.mul_zero, Nat.add_zero] at hzero
      rw [Nat.mul_zero, Nat.zero_add, Nat.add_zero, littleSum_bytes_add_two,
        littleSum_bytes_add_two, getLE_putLE_self,
        Nat.mod_eq_of_lt (show value < 256 ^ 2 from hvalue), hrest, hzero]
      omega
  | succ position ih =>
      obtain ⟨rest, rfl⟩ := Nat.exists_eq_add_of_le' (show 2 ≤ len by omega)
      have hshift : offset + 2 * (position + 1) = offset + 2 + 2 * position := by omega
      rw [hshift] at hzero ⊢
      rw [littleSum_bytes_add_two, littleSum_bytes_add_two, ih hzero (by omega),
        getLE_putLE_of_disjoint (.inl (by omega)), Nat.add_assoc]

end ByteArea

end Shmily.Foundation
