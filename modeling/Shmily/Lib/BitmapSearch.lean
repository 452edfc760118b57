import Shmily.Foundation.FirstFit
import Shmily.Lib.Bitmap

/-! # Searching the bitmap

The search for one bit finds the first clear bit. The search for several bits is a pass over the
rest of the map that goes one bit too far, so it can return bits of which the last one is no part
of the map. The source counts bits with `unsigned int` and returns an `int`. As long as the bits of
the map can be counted so, its search is the one on natural numbers, with a result that is
negative from the bit `2 ^ 31` on.
-/

namespace Shmily.Lib.Bitmap

open Foundation

/-- The bit is clear. -/
def IsFree (bmap : Bitmap) (idx : Nat) : Prop := bmap.verifyBit idx = false

instance (bmap : Bitmap) : DecidablePred bmap.IsFree := fun idx =>
  inferInstanceAs (Decidable (bmap.verifyBit idx = false))

/-- The clear bits at the end of the map would be enough together with the bit behind it. -/
def RunsOver (bmap : Bitmap) (cnt : Nat) : Prop :=
  2 ≤ cnt ∧ FirstFit.IsRun bmap.IsFree (bmap.bytesLen * 8 + 1) (bmap.bytesLen * 8 + 1 - cnt) cnt

/-- The search on numbers returns the first run of clear bits inside the map. -/
def ScansRight (bmap : Bitmap) (cnt : Nat) : Prop :=
  FirstFit.Finds bmap.IsFree (bmap.bytesLen * 8) cnt (bmap.bitmapScan cnt)

namespace Words

/-- The loop of `bitmap_scan` that looks for several clear bits in a row. -/
def scanMore (bmap : Bitmap) (cnt : BitVec 32) : Nat → BitVec 32 → BitVec 32 → BitVec 32
  | 0, _, _ => -1
  | left + 1, nextBit, count =>
      let count := if bmap.verifyBit nextBit.toNat then 0 else count + 1
      if cnt = count then nextBit - cnt + 1 else scanMore bmap cnt left (nextBit + 1) count

/-- `bitmap_scan`. The bytes of a map in memory are counted without a carry. -/
def bitmapScan (bmap : Bitmap) (cnt : BitVec 32) : Int :=
  let byteIdx := bmap.skipFull bmap.bytesLen 0
  if byteIdx = bmap.bytesLen then -1
  else
    let ret := BitVec.ofNat 32 byteIdx * 8 + BitVec.ofNat 32 (firstClear (bmap.base byteIdx) 8 0)
    if cnt = 1 then ret.toInt
    else
      let leftBits := BitVec.ofNat 32 bmap.bytesLen * 8 - ret
      (scanMore bmap cnt leftBits.toNat (ret + 1) 1).toInt

/-- `bitmap_scan` returns the first run of clear bits inside the map, and -1 if there is none. -/
def ScansRight (bmap : Bitmap) (cnt : BitVec 32) : Prop :=
  (∃ start, IsLeast {start | FirstFit.IsRun bmap.IsFree (bmap.bytesLen * 8) start cnt.toNat} start ∧
      bitmapScan bmap cnt = start) ∨
    bitmapScan bmap cnt = -1 ∧
      ∀ start, ¬ FirstFit.IsRun bmap.IsFree (bmap.bytesLen * 8) start cnt.toNat

/-- The result of a search on numbers, as a word. -/
def result : Option Nat → BitVec 32
  | none => -1
  | some bit => BitVec.ofNat 32 bit

end Words

variable {bmap : Bitmap} {cnt idx start : Nat}

/-! ## The first clear bit -/

/-- The loop inside a byte passes over bits that are set. -/
theorem firstClear_least {byte : Byte} {left bitIdx bit : Nat} (hlow : bitIdx ≤ bit)
    (hhigh : bit < firstClear byte left bitIdx) : byte &&& bitMask bit ≠ 0 := by
  induction left generalizing bitIdx with
  | zero => exact absurd hhigh (Nat.not_lt.mpr hlow)
  | succ left ih =>
      rw [firstClear] at hhigh
      split at hhigh
      next hset =>
        obtain rfl | hlt := Nat.eq_or_lt_of_le hlow
        · rw [BitVec.and_comm]
          exact hset
        · exact ih hlt hhigh
      next => exact absurd hhigh (Nat.not_lt.mpr hlow)

/-- No bit of a full byte is clear. -/
theorem not_isFree_of_full (hfull : bmap.base (idx / 8) = 0xff#8) : ¬ bmap.IsFree idx := by
  have hmask := full_and_bitMask ⟨idx % 8, Nat.mod_lt _ (by decide)⟩
  intro hfree
  rw [IsFree, verifyBit, hfull, decide_eq_false_iff_not] at hfree
  exact hfree hmask

/-- When all bytes are full no bit of the map is clear. -/
theorem not_isFree_of_skipFull (hskip : bmap.skipFull bmap.bytesLen 0 = bmap.bytesLen)
    (hidx : idx < bmap.bytesLen * 8) : ¬ bmap.IsFree idx := by
  have hbyte : idx / 8 < bmap.bytesLen := Nat.div_lt_of_lt_mul (Nat.mul_comm _ 8 ▸ hidx)
  exact not_isFree_of_full (bmap.skipFull_full bmap.bytesLen 0 (Nat.zero_le _) (hskip.symm ▸ hbyte))

/-- Otherwise the two loops stop at the first clear bit. -/
theorem isLeast_first (hskip : bmap.skipFull bmap.bytesLen 0 ≠ bmap.bytesLen) :
    IsLeast {idx | idx < bmap.bytesLen * 8 ∧ bmap.IsFree idx}
      (bmap.skipFull bmap.bytesLen 0 * 8 +
        firstClear (bmap.base (bmap.skipFull bmap.bytesLen 0)) 8 0) := by
  obtain ⟨-, hhigh, hnotFull⟩ := skipFull_spec bmap bmap.bytesLen 0
  have hbefore {full : Nat} (hlt : full < bmap.skipFull bmap.bytesLen 0) :
      bmap.base full = 0xff#8 :=
    bmap.skipFull_full bmap.bytesLen 0 (Nat.zero_le _) hlt
  generalize bmap.skipFull bmap.bytesLen 0 = byteIdx at *
  obtain ⟨hbit, hclear⟩ := firstClear_spec _ (hnotFull (by omega))
  have hleast (bit : Nat) (hlt : bit < firstClear (bmap.base byteIdx) 8 0) :
      bmap.base byteIdx &&& bitMask bit ≠ 0 := firstClear_least (Nat.zero_le bit) hlt
  generalize firstClear (bmap.base byteIdx) 8 0 = bitIdx at *
  have hdiv : (byteIdx * 8 + bitIdx) / 8 = byteIdx := by omega
  have hmod : (byteIdx * 8 + bitIdx) % 8 = bitIdx := by omega
  refine ⟨⟨by omega, ?_⟩, ?_⟩
  · rw [IsFree, verifyBit, hdiv, hmod, decide_eq_false_iff_not]
    exact not_not.mpr hclear
  · rintro idx ⟨-, hfree⟩
    by_contra hlt
    obtain hbyte | hbyte := Nat.lt_or_ge (idx / 8) byteIdx
    · exact not_isFree_of_full (hbefore hbyte) hfree
    · have hsame : idx / 8 = byteIdx := by omega
      rw [IsFree, verifyBit, hsame, decide_eq_false_iff_not] at hfree
      exact hfree (hleast (idx % 8) (by omega))

/-! ## More than one bit -/

/-- The loop is a pass over the next bits. -/
theorem scanMore_eq_search {left nextBit count : Nat} (hcnt : 0 < cnt) :
    bmap.scanMore cnt left nextBit count = FirstFit.search bmap.IsFree cnt left nextBit count := by
  induction left generalizing nextBit count with
  | zero => rfl
  | succ left ih =>
      rw [scanMore, FirstFit.search]
      by_cases hfree : bmap.IsFree nextBit
      · rw [if_pos hfree, show bmap.verifyBit nextBit = false from hfree]
        simp only [Bool.false_eq_true, if_false, eq_comm (a := cnt)]
        rw [ih]
      · rw [if_neg hfree, Bool.eq_true_of_not_eq_false hfree, if_pos rfl, if_neg hcnt.ne', ih]

/-- No run starts before the first clear bit. -/
theorem le_of_isRun {limit first : Nat} (hcnt : 0 < cnt)
    (hfirst : IsLeast {idx | idx < bmap.bytesLen * 8 ∧ bmap.IsFree idx} first)
    (hrun : FirstFit.IsRun bmap.IsFree limit start cnt) : first ≤ start := by
  obtain hinside | hbehind := Nat.lt_or_ge start (bmap.bytesLen * 8)
  · exact hfirst.2 ⟨hinside, hrun.free start le_rfl (Nat.lt_add_of_pos_right hcnt)⟩
  · exact le_trans hfirst.1.1.le hbehind

/-- The search for several bits looks at the map and at one bit more. -/
theorem finds_bitmapScan (hcnt : 2 ≤ cnt) :
    FirstFit.Finds bmap.IsFree (bmap.bytesLen * 8 + 1) cnt (bmap.bitmapScan cnt) := by
  rw [bitmapScan]
  split
  next hskip =>
    refine .inr ⟨rfl, ?_⟩
    intro start hrun
    have hinside := hrun.inside
    exact not_isFree_of_skipFull hskip (by omega) (hrun.free start le_rfl (by omega))
  next hskip =>
    have hfirst := isLeast_first hskip
    generalize bmap.skipFull bmap.bytesLen 0 * 8 +
      firstClear (bmap.base (bmap.skipFull bmap.bytesLen 0)) 8 0 = first at *
    -- the loop starts behind the first clear bit, which it has counted already
    have hpassing : FirstFit.Passing bmap.IsFree (bmap.bytesLen * 8 + 1) cnt (first + 1) 1 := by
      refine ⟨hcnt, Nat.le_add_left 1 first, ?_, ?_⟩
      · intro other hlow hhigh
        obtain rfl : other = first := by omega
        exact hfirst.1.2
      · intro start hrun
        exact le_of_isRun (by omega) hfirst hrun
    -- so the number of turns is one too many
    have hleft : first + 1 + (bmap.bytesLen * 8 - first) = bmap.bytesLen * 8 + 1 := by
      have hinside := hfirst.1.1
      omega
    simp only [if_neg (show cnt ≠ 1 by omega), scanMore_eq_search (show 0 < cnt by omega)]
    exact hpassing.search_spec hleft

/-- The search for one bit is right. -/
theorem scansRight_one (bmap : Bitmap) : bmap.ScansRight 1 := by
  rw [ScansRight, bitmapScan]
  split
  next hskip =>
    refine .inr ⟨rfl, ?_⟩
    intro start hrun
    have hinside := hrun.inside
    exact not_isFree_of_skipFull hskip (by omega) (hrun.free start le_rfl (Nat.lt_succ_self start))
  next hskip =>
    have hfirst := isLeast_first hskip
    refine .inl ⟨_, if_pos rfl, ⟨hfirst.1.1, ?_⟩, ?_⟩
    · intro place hlow hhigh
      obtain rfl := Nat.le_antisymm hlow (Nat.le_of_lt_succ hhigh)
      exact hfirst.1.2
    · intro start hrun
      exact le_of_isRun Nat.one_pos hfirst hrun

/-- The search is right if and only if the run that takes in the bit behind the map is not there or
some run comes before it. -/
theorem scansRight_iff (bmap : Bitmap) (hcnt : 1 ≤ cnt) :
    bmap.ScansRight cnt ↔
      (bmap.RunsOver cnt → ∃ start, FirstFit.IsRun bmap.IsFree (bmap.bytesLen * 8) start cnt) := by
  obtain rfl | htwo := Nat.eq_or_lt_of_le hcnt
  · exact iff_of_true bmap.scansRight_one fun hover => absurd hover.1 (by decide)
  · rw [ScansRight, (finds_bitmapScan htwo).pred_iff]
    constructor
    · intro hshorter hover
      exact hshorter ⟨_, hover.2⟩
    · rintro hover ⟨start, hrun⟩
      obtain hrun | hend := hrun.of_succ
      · exact ⟨start, hrun⟩
      · have hstart : start = bmap.bytesLen * 8 + 1 - cnt := by omega
        exact hover ⟨htwo, hstart ▸ hrun⟩

/-! ## On machine words -/

theorem bitmapScan_le (hcnt : 1 ≤ cnt) (hscan : bmap.bitmapScan cnt = some idx) :
    idx ≤ bmap.bytesLen * 8 := by
  have hfinds : FirstFit.Finds bmap.IsFree (bmap.bytesLen * 8 + 1) cnt (bmap.bitmapScan cnt) ∨
      bmap.ScansRight cnt := by
    obtain rfl | htwo := Nat.eq_or_lt_of_le hcnt
    · exact .inr bmap.scansRight_one
    · exact .inl (finds_bitmapScan htwo)
  have hinside : ∀ {limit}, FirstFit.Finds bmap.IsFree limit cnt (bmap.bitmapScan cnt) →
      idx + cnt ≤ limit := by
    rintro limit (⟨start, hsome, hleast⟩ | ⟨hnone, -⟩)
    · obtain rfl : start = idx := Option.some.inj (hsome.symm.trans hscan)
      exact hleast.1.inside
    · cases hnone.symm.trans hscan
  rcases hfinds with hfinds | hright
  · have hend := hinside hfinds
    omega
  · have hend := hinside hright
    omega

namespace Words

variable {words : BitVec 32}

theorem toNat_bit {bit : Nat} (hbit : bit < 2 ^ 32) : (BitVec.ofNat 32 bit).toNat = bit := by
  rw [BitVec.toNat_ofNat, Nat.mod_eq_of_lt hbit]

theorem scanMore_eq {left nextBit count : Nat} (hlow : count ≤ nextBit)
    (hhigh : nextBit + left < 2 ^ 32) :
    scanMore bmap words left (BitVec.ofNat 32 nextBit) (BitVec.ofNat 32 count) =
      result (bmap.scanMore words.toNat left nextBit count) := by
  induction left generalizing nextBit count with
  | zero => rfl
  | succ left ih =>
      have hbit : (BitVec.ofNat 32 nextBit).toNat = nextBit := toNat_bit (by omega)
      have hnext : BitVec.ofNat 32 nextBit + 1 = BitVec.ofNat 32 (nextBit + 1) :=
        (BitVec.ofNat_add ..).symm
      have hturn : ∀ count' ≤ nextBit + 1,
          (if words = BitVec.ofNat 32 count' then BitVec.ofNat 32 nextBit - words + 1
            else scanMore bmap words left (BitVec.ofNat 32 nextBit + 1) (BitVec.ofNat 32 count')) =
          result (if words.toNat = count' then some (nextBit + 1 - words.toNat)
            else bmap.scanMore words.toNat left (nextBit + 1) count') := by
        intro count' hcount
        have heq : words = BitVec.ofNat 32 count' ↔ words.toNat = count' := by
          rw [← BitVec.toNat_inj, toNat_bit (by omega)]
        simp only [heq]
        split
        next hfound =>
          apply BitVec.eq_of_toNat_eq
          rw [result, hfound]
          bv_omega
        next => rw [hnext, ih hcount (by omega)]
      rw [scanMore, Bitmap.scanMore, hbit]
      cases bmap.verifyBit nextBit with
      | true => exact hturn 0 (Nat.zero_le _)
      | false =>
          have hcount := hturn (count + 1) (by omega)
          rw [BitVec.ofNat_add] at hcount
          exact hcount

/-- The search of the source is the one on numbers. -/
theorem bitmapScan_eq (hlen : bmap.bytesLen * 8 < 2 ^ 32) :
    bitmapScan bmap words = (result (bmap.bitmapScan words.toNat)).toInt := by
  rw [bitmapScan, Bitmap.bitmapScan]
  split
  next => rfl
  next hskip =>
    have hinside : bmap.skipFull bmap.bytesLen 0 * 8 +
        firstClear (bmap.base (bmap.skipFull bmap.bytesLen 0)) 8 0 < bmap.bytesLen * 8 :=
      (isLeast_first hskip).1.1
    have hret : BitVec.ofNat 32 (bmap.skipFull bmap.bytesLen 0) * 8 +
        BitVec.ofNat 32 (firstClear (bmap.base (bmap.skipFull bmap.bytesLen 0)) 8 0) =
        BitVec.ofNat 32 (bmap.skipFull bmap.bytesLen 0 * 8 +
          firstClear (bmap.base (bmap.skipFull bmap.bytesLen 0)) 8 0) := by
      rw [BitVec.ofNat_add, BitVec.ofNat_mul]
      rfl
    dsimp only
    rw [hret]
    generalize bmap.skipFull bmap.bytesLen 0 * 8 +
      firstClear (bmap.base (bmap.skipFull bmap.bytesLen 0)) 8 0 = first at *
    have hone : words = 1 ↔ words.toNat = 1 := by
      rw [← BitVec.toNat_inj]
      rfl
    simp only [hone]
    split
    next => rfl
    next =>
      have hleft : (BitVec.ofNat 32 bmap.bytesLen * 8 - BitVec.ofNat 32 first).toNat =
          bmap.bytesLen * 8 - first := by
        bv_omega
      have hnext : BitVec.ofNat 32 first + 1 = BitVec.ofNat 32 (first + 1) :=
        (BitVec.ofNat_add ..).symm
      rw [hleft, hnext]
      have hloop := @scanMore_eq bmap words (bmap.bytesLen * 8 - first) (first + 1) 1
        (by omega) (by omega)
      exact congrArg BitVec.toInt hloop

/-- A bit number is the result just if it is below `2 ^ 31`. -/
theorem result_some_eq {bit start : Nat} (hbit : bit < 2 ^ 32) :
    (result (some bit)).toInt = start ↔ bit = start ∧ start < 2 ^ 31 := by
  rw [result, BitVec.toInt_eq_toNat_cond, toNat_bit hbit]
  split
  all_goals omega

theorem result_some_ne {bit : Nat} (hbit : bit < 2 ^ 32 - 1) : (result (some bit)).toInt ≠ -1 := by
  rw [result, BitVec.toInt_eq_toNat_cond, toNat_bit (by omega)]
  split
  all_goals omega

/-- The search is right just if the one on numbers is, and the first run does not start where
an `int` is negative. -/
theorem scansRight_words_iff (hlen : bmap.bytesLen * 8 < 2 ^ 32) (hcnt : 1 ≤ words.toNat) :
    ScansRight bmap words ↔ bmap.ScansRight words.toNat ∧
      ((∃ start, FirstFit.IsRun bmap.IsFree (bmap.bytesLen * 8) start words.toNat) →
        ∃ start < 2 ^ 31, FirstFit.IsRun bmap.IsFree (bmap.bytesLen * 8) start words.toNat) := by
  have hle : ∀ {bit}, bmap.bitmapScan words.toNat = some bit → bit < 2 ^ 32 - 1 := by
    intro bit hscan
    have hbit := bitmapScan_le hcnt hscan
    omega
  rw [ScansRight, Bitmap.ScansRight, FirstFit.Finds, bitmapScan_eq hlen]
  cases hscan : bmap.bitmapScan words.toNat with
  | none =>
      have hnever : ∀ start : Nat, (result none).toInt ≠ start := by
        intro start
        change (-1 : Int) ≠ start
        omega
      constructor
      · rintro (⟨start, -, hresult⟩ | ⟨-, hnone⟩)
        · exact absurd hresult (hnever start)
        · exact ⟨.inr ⟨rfl, hnone⟩, fun ⟨start, hrun⟩ => absurd hrun (hnone start)⟩
      · rintro ⟨⟨start, hsome, -⟩ | ⟨-, hnone⟩, -⟩
        · cases hsome
        · exact .inr ⟨rfl, hnone⟩
  | some bit =>
      have hbit := hle hscan
      have hresult := fun start => @result_some_eq bit start (by omega)
      simp only [hresult]
      constructor
      · rintro (⟨start, hleast, rfl, hlow⟩ | ⟨hminus, -⟩)
        · exact ⟨.inl ⟨bit, rfl, hleast⟩, fun _ => ⟨bit, hlow, hleast.1⟩⟩
        · exact absurd hminus (result_some_ne hbit)
      · rintro ⟨⟨start, hsome, hleast⟩ | ⟨hnone, -⟩, hlow⟩
        · obtain rfl := Option.some.inj hsome
          obtain ⟨other, hother, hrun⟩ := hlow ⟨bit, hleast.1⟩
          exact .inl ⟨bit, hleast, rfl, lt_of_le_of_lt (hleast.2 hrun) hother⟩
        · cases hnone

/-- The search is right if and only if the run that takes in the bit behind the map is not there or
some run comes before it, and the first run does not start where an `int` is negative. -/
theorem bitmapScan_right_iff (bmap : Bitmap) (hlen : bmap.bytesLen * 8 < 2 ^ 32)
    (hcnt : words ≠ 0) :
    ScansRight bmap words ↔
      (bmap.RunsOver words.toNat →
        ∃ start, FirstFit.IsRun bmap.IsFree (bmap.bytesLen * 8) start words.toNat) ∧
      ((∃ start, FirstFit.IsRun bmap.IsFree (bmap.bytesLen * 8) start words.toNat) →
        ∃ start < 2 ^ 31, FirstFit.IsRun bmap.IsFree (bmap.bytesLen * 8) start words.toNat) := by
  have hpos : 1 ≤ words.toNat := by
    rw [Nat.one_le_iff_ne_zero]
    exact fun hzero => hcnt (BitVec.eq_of_toNat_eq hzero)
  rw [scansRight_words_iff hlen hpos, scansRight_iff bmap hpos]

end Words

/-- A map of one byte in which only the last bit is clear, with an empty byte behind it. -/
def lastBit : Bitmap where
  bytesLen := 1
  base byteIdx := if byteIdx = 0 then 0x7f else 0

/-- Two clear bits are found where the map has only one. -/
theorem not_bitmapScan_right_lastBit :
    Words.bitmapScan lastBit 2 = 7 ∧ ¬ Words.ScansRight lastBit 2 := by
  have hscan : Words.bitmapScan lastBit 2 = 7 := by decide
  refine ⟨hscan, ?_⟩
  rintro (⟨start, hleast, hresult⟩ | ⟨hminus, -⟩)
  · obtain rfl : start = 7 := by
      rw [hscan] at hresult
      exact_mod_cast hresult.symm
    exact absurd hleast.1.inside (by decide)
  · rw [hscan] at hminus
    cases hminus

/-- With a full byte behind the map the search fails, as it should. -/
theorem bitmapScan_right_fullBehind :
    Words.ScansRight (Bitmap.mk 1 fun byteIdx => if byteIdx = 0 then 0x7f else 0xff) 2 := by
  refine (Words.bitmapScan_right_iff _ (by decide) (by decide)).mpr ⟨?_, ?_⟩
  · rintro ⟨-, hrun⟩
    exact absurd (hrun.free 8 (by decide) (by decide)) (by decide)
  · rintro ⟨start, hrun⟩
    have hinside : start + 2 ≤ 8 := hrun.inside
    exact ⟨start, by omega, hrun⟩

end Shmily.Lib.Bitmap
