import Shmily.Foundation.BitFields
import Shmily.Kernel.Ipc

/-! # The current time

The kernel sends the time in the words of a message. `get_current_time` takes it out of
them and packs it into one number of 64 bits, which `num2time` takes apart again. The
operands of type `unsigned char` are promoted to `int`, and an `int` is converted to 64 bits
with its sign.
-/

namespace Shmily.Kernel

open Foundation BitFields

/-- `struct time`. -/
@[ext]
structure Time where
  second : BitVec 8
  minute : BitVec 8
  hour : BitVec 8
  day : BitVec 8
  month : BitVec 8
  year : BitVec 32
  deriving DecidableEq, Repr

/-- `num2time`. -/
def num2time (num : BitVec 64) : Time where
  year := (num >>> 32).setWidth 32
  month := ((num >>> 28) &&& 0xf).setWidth 8
  day := ((num >>> 22) &&& 0x3f).setWidth 8
  hour := ((num >>> 16) &&& 0x3f).setWidth 8
  minute := ((num >>> 8) &&& 0x3f).setWidth 8
  second := (num &&& 0xff).setWidth 8

/-- `time2num`. Only the year is cast to 64 bits before it is shifted. -/
def time2num (t : Time) : BitVec 64 :=
  (t.year.setWidth 64 <<< 32) ||| ((t.month.setWidth 32 &&& 0xf) <<< 28).signExtend 64 |||
    ((t.day.setWidth 32 &&& 0x3f) <<< 22).signExtend 64 |||
    ((t.hour.setWidth 32 &&& 0x3f) <<< 16).signExtend 64 |||
    (t.minute.setWidth 32 <<< 8).signExtend 64 ||| (t.second.setWidth 32).signExtend 64

/-- The first word of the reply to `GET_TIME`. -/
def timeOfDay (curTime : Time) : BitVec 32 :=
  curTime.second.setWidth 32 ||| (curTime.minute.setWidth 32 <<< 8) |||
    (curTime.hour.setWidth 32 <<< 16) ||| (curTime.day.setWidth 32 <<< 24)

/-- The reply of `kernel_work` to `GET_TIME`. It does not set the last word. -/
def getTimeReply (curTime : Time) (con4 : Nat) : Context where
  con1 := (timeOfDay curTime).toNat
  con2 := (curTime.month.setWidth 32 &&& (0xff : BitVec 32)).toNat
  con3 := curTime.year.toNat
  con4 := con4

/-- The time that `get_current_time` takes out of the reply. -/
def timeOfReply (conRet : Context) : Time :=
  let con1 := BitVec.ofNat 32 conRet.con1
  { second := (con1 &&& 0xff).setWidth 8
    minute := ((con1 >>> 8) &&& 0xff).setWidth 8
    hour := ((con1 >>> 16) &&& 0xff).setWidth 8
    day := ((con1 >>> 24) &&& 0xff).setWidth 8
    month := (BitVec.ofNat 32 conRet.con2 &&& 0xff).setWidth 8
    year := BitVec.ofNat 32 conRet.con3 }

/-- `get_current_time`, given the reply. -/
def getCurrentTime (conRet : Context) : BitVec 64 := time2num (timeOfReply conRet)

/-- A date and a time of the day. -/
structure Time.Valid (t : Time) : Prop where
  month : 1 ≤ t.month.toNat ∧ t.month.toNat ≤ 12
  day : 1 ≤ t.day.toNat ∧ t.day.toNat ≤ 31
  hour : t.hour.toNat ≤ 23
  minute : t.minute.toNat ≤ 59
  second : t.second.toNat ≤ 59

variable {t : Time}

/-! ## The message -/

/-- Nothing is lost in the message. -/
theorem timeOfReply_getTimeReply (t : Time) (con4 : Nat) :
    timeOfReply (getTimeReply t con4) = t := by
  obtain ⟨hsecond, hminute, hhour, hday⟩ := bytes_joinBytes t.second t.minute t.hour t.day
  have hjoin : timeOfDay t = joinBytes t.second t.minute t.hour t.day := rfl
  have hmonth : (t.month.setWidth 32 &&& 0xff &&& (0xff : BitVec 32)).setWidth 8 = t.month := by
    rw [BitVec.and_assoc, BitVec.and_self, ← BitVec.ushiftRight_zero (t.month.setWidth 32)]
    refine field_eq 8 rfl (fun i hi => ?_) t.month.isLt
    rw [Nat.zero_add, BitVec.getLsbD_setWidth, decide_eq_true (by omega), Bool.true_and]
  simp only [timeOfReply, getTimeReply, BitVec.ofNat_toNat, BitVec.setWidth_eq, hjoin, hmonth,
    hsecond, hminute, hhour, hday]

/-! ## The number -/

/-- The sign of the shifted month fills the upper half of the number. -/
theorem getLsbD_time2num (t : Time) (i : Nat) :
    (i < 8 → (time2num t).getLsbD (0 + i) = t.second.getLsbD i) ∧
      (i < 6 → (time2num t).getLsbD (8 + i) = t.minute.getLsbD i) ∧
      (i < 6 → (time2num t).getLsbD (16 + i) = t.hour.getLsbD i) ∧
      (i < 6 → (time2num t).getLsbD (22 + i) = t.day.getLsbD i) ∧
      (i < 4 → (time2num t).getLsbD (28 + i) = t.month.getLsbD i) ∧
      (i < 32 → (time2num t).getLsbD (32 + i) = (t.year.getLsbD i || t.month.getLsbD 3)) := by
  have hfour (j : Nat) : (0xf : BitVec 32).getLsbD j = decide (j < 32 ∧ j < 4) :=
    getLsbD_mask 32 4 j
  have hsix (j : Nat) : (0x3f : BitVec 32).getLsbD j = decide (j < 32 ∧ j < 6) :=
    getLsbD_mask 32 6 j
  simp only [time2num, BitVec.getLsbD_or, BitVec.getLsbD_shiftLeft, BitVec.getLsbD_setWidth,
    BitVec.getLsbD_signExtend, BitVec.msb_eq_getLsbD_last, BitVec.getLsbD_and, hfour, hsix]
  refine ⟨?second, ?minute, ?hour, ?day, ?month, ?year⟩
  all_goals grind

theorem num2time_year (t : Time) :
    (num2time (time2num t)).year = if t.month.getLsbD 3 then 0xffffffff else t.year := by
  apply BitVec.eq_of_getLsbD_eq
  intro i hi
  have hbit : (num2time (time2num t)).year.getLsbD i = (t.year.getLsbD i || t.month.getLsbD 3) := by
    simp only [num2time, BitVec.getLsbD_setWidth, BitVec.getLsbD_ushiftRight, hi, decide_true,
      Bool.true_and, (getLsbD_time2num t i).2.2.2.2.2]
  rw [hbit]
  cases t.month.getLsbD 3 with
  | false => rw [Bool.or_false, if_neg Bool.false_ne_true]
  | true =>
      rw [Bool.or_true, if_pos rfl, show (0xffffffff : BitVec 32) = BitVec.allOnes 32 from rfl,
        BitVec.getLsbD_allOnes, decide_eq_true hi]

/-- Only the year can be lost in the number. -/
theorem num2time_time2num (ht : t.Valid) : num2time (time2num t) =
    { t with year := if t.month.getLsbD 3 then 0xffffffff else t.year } := by
  have hbits := getLsbD_time2num t
  have hmonth : (num2time (time2num t)).month = t.month :=
    field_eq 4 rfl (fun i hi => (hbits i).2.2.2.2.1 hi) (by have := ht.month; omega)
  have hday : (num2time (time2num t)).day = t.day :=
    field_eq 6 rfl (fun i hi => (hbits i).2.2.2.1 hi) (by have := ht.day; omega)
  have hhour : (num2time (time2num t)).hour = t.hour :=
    field_eq 6 rfl (fun i hi => (hbits i).2.2.1 hi) (by have := ht.hour; omega)
  have hminute : (num2time (time2num t)).minute = t.minute :=
    field_eq 6 rfl (fun i hi => (hbits i).2.1 hi) (by have := ht.minute; omega)
  have hsecond : (num2time (time2num t)).second = t.second := by
    have hfield := field_eq 8 rfl (fun i hi => (hbits i).1 hi) t.second.isLt
    rwa [BitVec.ushiftRight_zero] at hfield
  exact Time.ext hsecond hminute hhour hday hmonth (num2time_year t)

/-- The sign of the shifted month is set from August on. -/
theorem Time.Valid.month_bit (ht : t.Valid) : t.month.getLsbD 3 = true ↔ ¬ t.month.toNat < 8 := by
  have hmonth := ht.month
  rw [BitVec.getLsbD, Nat.testBit_eq_decide_div_mod_eq, decide_eq_true_iff]
  omega

/-- The time survives just before August, apart from the one year that has all bits set. -/
theorem num2time_getCurrentTime_iff (ht : t.Valid) (con4 : Nat) :
    num2time (getCurrentTime (getTimeReply t con4)) = t ↔
      t.month.toNat < 8 ∨ t.year = 0xffffffff := by
  rw [getCurrentTime, timeOfReply_getTimeReply, num2time_time2num ht]
  rcases Nat.lt_or_ge t.month.toNat 8 with hlt | hge
  · have hbit : ¬ t.month.getLsbD 3 = true := fun hset => ht.month_bit.mp hset hlt
    rw [if_neg hbit]
    exact iff_of_true rfl (.inl hlt)
  · have hbit : t.month.getLsbD 3 = true := ht.month_bit.mpr (Nat.not_lt.mpr hge)
    rw [if_pos hbit, or_iff_right (Nat.not_lt.mpr hge)]
    exact ⟨fun heq => (congrArg Time.year heq).symm, fun hyear => by rw [← hyear]⟩

/-- A day in May. -/
def mayDay : Time := ⟨5, 30, 12, 31, 5, 2024⟩

theorem mayDay_valid : mayDay.Valid := by
  constructor <;> decide

theorem num2time_mayDay : num2time (getCurrentTime (getTimeReply mayDay 0)) = mayDay :=
  (num2time_getCurrentTime_iff mayDay_valid 0).mpr (.inl (by decide))

/-- In August the year is lost. -/
theorem num2time_august :
    Time.Valid ⟨5, 30, 12, 31, 8, 2024⟩ ∧
      num2time (getCurrentTime (getTimeReply ⟨5, 30, 12, 31, 8, 2024⟩ 0)) =
        ⟨5, 30, 12, 31, 8, 0xffffffff⟩ := by
  refine ⟨?_, by decide⟩
  constructor <;> decide

end Shmily.Kernel
