import Shmily.Foundation.Run
import Shmily.Mm.DoublebitWords

/-! # The runs of the two-bit map

The length of a run is not stored. In a map that was free at first, and of which only runs
that were taken are given back, it is recovered from the marks: the runs are disjoint, all
else is free, and giving one back frees exactly its slots and looks at no others. This holds
as long as no run goes beyond the slot `2 ^ 31 - 1`, behind which the index of the bits wraps.
-/

namespace Shmily.Mm

open Foundation DoublebitMap

/-- The calls of the map. -/
inductive MapCall where
  | getFreeSlots (cnt : Nat)
  | freeSlots (start : Nat)

/-- A map, and the length of the live run at each start. -/
structure RunTracking where
  bmap : DoublebitMap
  runs : Nat → Option Nat

namespace RunTracking

/-- A map of which no run is live. -/
def initial (bmap : DoublebitMap) : RunTracking where
  bmap := bmap
  runs _ := none

/-- A slot is taken, or a live run is given back. -/
def Admits (state : RunTracking) : MapCall → Prop
  | .getFreeSlots cnt => 1 ≤ cnt
  | .freeSlots start => state.runs start ≠ none

instance (state : RunTracking) (call : MapCall) : Decidable (state.Admits call) := by
  unfold Admits
  split <;> infer_instance

/-- What a call returns as `int` is given back as `unsigned int`. -/
def step (state : RunTracking) : MapCall → Option RunTracking
  | .getFreeSlots cnt =>
      let (bmap, result) := (Words.getFreeSlots state.bmap cnt).1
      some { bmap := bmap
             runs := if result = -1 then state.runs
               else Function.update state.runs (result % 2 ^ 32).toNat (some cnt) }
  | .freeSlots start =>
      (Words.freeSlots state.bmap start).1.map fun freed =>
        { bmap := freed.1, runs := Function.update state.runs start none }

/-- As many free slots in a row lie below the slot `2 ^ 31`, or they lie nowhere. -/
def Fits (state : RunTracking) : MapCall → Prop
  | .getFreeSlots cnt =>
      (∃ start, FirstFit.IsRun (Words.IsFree state.bmap) (min (Words.turns state.bmap) (2 ^ 31))
        start cnt) ∨
      ∀ start, ¬ FirstFit.IsRun (Words.IsFree state.bmap) (Words.turns state.bmap) start cnt
  | .freeSlots _ => True

/-- The slot lies in a live run. -/
def InRun (state : RunTracking) (slot : Nat) : Prop :=
  ∃ start cnt, state.runs start = some cnt ∧ start ≤ slot ∧ slot < start + cnt

/-- The live runs are disjoint, and every other slot is free. -/
structure Separated (state : RunTracking) : Prop where
  disjoint : ∀ left right leftCnt rightCnt, state.runs left = some leftCnt →
    state.runs right = some rightCnt → left ≠ right →
    left + leftCnt ≤ right ∨ right + rightCnt ≤ left
  outside : ∀ slot < state.bmap.slots, ¬ state.InRun slot →
    state.bmap.getSlotStatus slot = DoublebitMap.slotFree

/-- Giving a live run back returns its length, frees its slots and no others, and touches
no others. -/
structure Tracked (state : RunTracking) : Prop extends Separated state where
  frees : ∀ start cnt, state.runs start = some cnt →
    ∃ next, (Words.freeSlots state.bmap start).1 = some (next, cnt) ∧
      (∀ slot, next.getSlotStatus slot =
        if start ≤ slot ∧ slot < start + cnt then slotFree else state.bmap.getSlotStatus slot) ∧
      ∀ slot ∈ (Words.freeSlots state.bmap start).2, start ≤ slot ∧ slot < start + cnt

/-- The invariant: each live run lies below the slot `2 ^ 31` and carries its marks. -/
structure Invariant (state : RunTracking) : Prop extends Separated state where
  inside : ∀ start cnt, state.runs start = some cnt → 1 ≤ cnt ∧ start + cnt ≤ 2 ^ 31
  marked : ∀ start cnt, state.runs start = some cnt → state.bmap.Marked start cnt

variable {state next : RunTracking} {call : MapCall}

theorem Invariant.tracked (hinv : state.Invariant) : state.Tracked where
  toSeparated := hinv.toSeparated
  frees start cnt hrun := by
    obtain ⟨hcnt, hinside⟩ := hinv.inside start cnt hrun
    rw [Words.freeSlots_eq hcnt hinside (hinv.marked start cnt hrun)]
    refine ⟨_, rfl, fun slot => clear_status cnt start slot state.bmap, fun slot hslot => ?_⟩
    exact List.mem_range'_1.mp hslot

theorem initial_invariant {bmap : DoublebitMap}
    (hfree : ∀ slot < bmap.slots, bmap.getSlotStatus slot = slotFree) :
    (initial bmap).Invariant where
  disjoint _ _ _ _ hrun := nomatch hrun
  outside slot hslot _ := hfree slot hslot
  inside _ _ hrun := nomatch hrun
  marked _ _ hrun := nomatch hrun

/-- A slot that is free lies in no run. -/
theorem Invariant.not_inRun (hinv : state.Invariant) {slot : Nat}
    (hfree : state.bmap.getSlotStatus slot = DoublebitMap.slotFree) : ¬ state.InRun slot := by
  rintro ⟨start, cnt, hrun, hlow, hhigh⟩
  have hmark := hinv.marked start cnt hrun (slot - start) (by omega)
  rw [Nat.add_sub_of_le hlow, hfree] at hmark
  exact DoublebitMap.mark_ne_free _ _ hmark.symm

/-- A live run lies before or behind free slots. -/
theorem Invariant.apart (hinv : state.Invariant) {start cnt other otherCnt : Nat} (hcnt : 1 ≤ cnt)
    (hfree : ∀ slot, start ≤ slot → slot < start + cnt →
      state.bmap.getSlotStatus slot = DoublebitMap.slotFree)
    (hrun : state.runs other = some otherCnt) :
    start + cnt ≤ other ∨ other + otherCnt ≤ start := by
  by_contra hmeet
  have hpos := (hinv.inside other otherCnt hrun).1
  have hslot := hinv.not_inRun (hfree (max start other) (le_max_left _ _) (by omega))
  exact hslot ⟨other, otherCnt, hrun, le_max_right _ _, by omega⟩

/-- A run of free slots becomes live. -/
theorem Invariant.take (hinv : state.Invariant) {start cnt : Nat} (hcnt : 1 ≤ cnt)
    (hinside : start + cnt ≤ 2 ^ 31)
    (hfree : ∀ slot, start ≤ slot → slot < start + cnt →
      state.bmap.getSlotStatus slot = DoublebitMap.slotFree) :
    Invariant { bmap := state.bmap.sync start cnt
                runs := Function.update state.runs start (some cnt) } := by
  have hstatus := state.bmap.sync_status start hcnt
  have hcases : ∀ other otherCnt, Function.update state.runs start (some cnt) other = some otherCnt →
      other = start ∧ cnt = otherCnt ∨ other ≠ start ∧ state.runs other = some otherCnt := by
    intro other otherCnt hrun
    rwa [Function.update_apply, ite_eq_iff, Option.some.injEq] at hrun
  constructor
  · constructor
    · intro left right leftCnt rightCnt hleft hright hne
      rcases hcases left leftCnt hleft with ⟨rfl, rfl⟩ | ⟨-, hleft'⟩
      · rcases hcases right rightCnt hright with ⟨rfl, rfl⟩ | ⟨-, hright'⟩
        · exact absurd rfl hne
        · exact hinv.apart hcnt hfree hright'
      · rcases hcases right rightCnt hright with ⟨rfl, rfl⟩ | ⟨-, hright'⟩
        · exact (hinv.apart hcnt hfree hleft').symm
        · exact hinv.disjoint left right leftCnt rightCnt hleft' hright' hne
    · intro slot hslot hout
      rw [DoublebitMap.slots, DoublebitMap.sync_bytesLen] at hslot
      have hnew : ¬ (start ≤ slot ∧ slot < start + cnt) := fun hin =>
        hout ⟨start, cnt, Function.update_self .., hin⟩
      rw [hstatus, if_neg hnew]
      refine hinv.outside slot hslot ?_
      rintro ⟨other, otherCnt, hrun, hin⟩
      have hother : other ≠ start := by
        rintro rfl
        have hapart := hinv.apart hcnt hfree hrun
        have hpos := (hinv.inside other otherCnt hrun).1
        omega
      exact hout ⟨other, otherCnt, (Function.update_of_ne hother _ _).trans hrun, hin⟩
  · intro other otherCnt hrun
    rcases hcases other otherCnt hrun with ⟨rfl, rfl⟩ | ⟨-, hrun⟩
    · exact ⟨hcnt, hinside⟩
    · exact hinv.inside other otherCnt hrun
  · intro other otherCnt hrun offset hoffset
    rw [hstatus]
    rcases hcases other otherCnt hrun with ⟨rfl, rfl⟩ | ⟨-, hrun⟩
    · rw [if_pos (by omega), Nat.add_sub_cancel_left]
    · have hapart := hinv.apart hcnt hfree hrun
      rw [if_neg (by omega)]
      exact hinv.marked other otherCnt hrun offset hoffset

/-- A live run is given back. -/
theorem Invariant.give (hinv : state.Invariant) {start cnt : Nat}
    (hrun : state.runs start = some cnt) {freed : DoublebitMap}
    (hlen : freed.bytesLen = state.bmap.bytesLen)
    (hstatus : ∀ slot, freed.getSlotStatus slot =
      if start ≤ slot ∧ slot < start + cnt then DoublebitMap.slotFree
      else state.bmap.getSlotStatus slot) :
    Invariant { bmap := freed, runs := Function.update state.runs start none } := by
  have hcases : ∀ other otherCnt, Function.update state.runs start none other = some otherCnt →
      other ≠ start ∧ state.runs other = some otherCnt := by
    intro other otherCnt hother
    rw [Function.update_apply, ite_eq_iff] at hother
    exact hother.resolve_left fun h => nomatch h.2
  constructor
  · constructor
    · intro left right leftCnt rightCnt hleft hright
      exact hinv.disjoint left right leftCnt rightCnt (hcases left leftCnt hleft).2
        (hcases right rightCnt hright).2
    · intro slot hslot hout
      rw [DoublebitMap.slots, hlen] at hslot
      rw [hstatus]
      split
      next => rfl
      next hrest =>
        refine hinv.outside slot hslot ?_
        rintro ⟨other, otherCnt, hother, hin⟩
        have hne : other ≠ start := by
          rintro rfl
          rw [hrun, Option.some.injEq] at hother
          exact hrest (hother ▸ hin)
        exact hout ⟨other, otherCnt, (Function.update_of_ne hne _ _).trans hother, hin⟩
  · intro other otherCnt hother
    exact hinv.inside other otherCnt (hcases other otherCnt hother).2
  · intro other otherCnt hother offset hoffset
    obtain ⟨hne, hother⟩ := hcases other otherCnt hother
    have hdisjoint := hinv.disjoint start other cnt otherCnt hrun hother hne.symm
    rw [hstatus, if_neg (by omega)]
    exact hinv.marked other otherCnt hother offset hoffset

/-- The slots that the search on words finds below the slot `2 ^ 31` are free. -/
theorem free_of_isRun {bmap : DoublebitMap} {start cnt : Nat}
    (hrun : FirstFit.IsRun (Words.IsFree bmap) (Words.turns bmap) start cnt)
    (hend : start + cnt ≤ 2 ^ 31) :
    ∀ slot, start ≤ slot → slot < start + cnt → bmap.getSlotStatus slot = slotFree := by
  intro slot hlow hhigh
  rw [← Words.getSlotStatus_eq (by omega)]
  exact hrun.free slot hlow hhigh

/-- The state after a search that succeeds. -/
theorem step_getFreeSlots {cnt start : Nat} {touched : List Nat} (hstart : start < 2 ^ 32 - 1)
    (hresult : Words.getFreeSlots state.bmap cnt =
      ((Words.sync state.bmap start cnt, Words.toInt start), touched)) :
    state.step (.getFreeSlots cnt) =
      some { bmap := Words.sync state.bmap start cnt
             runs := Function.update state.runs start (some cnt) } := by
  obtain ⟨hsucceeded, hkey⟩ := Words.toNat_toInt hstart
  rw [step, hresult]
  dsimp only
  rw [if_neg hsucceeded, hkey]

theorem exists_step_getFreeSlots (state : RunTracking) (cnt : Nat) :
    ∃ next, state.step (.getFreeSlots cnt) = some next := by
  rw [step]
  exact ⟨_, rfl⟩

theorem turns_lt (bmap : DoublebitMap) : Words.turns bmap < 2 ^ 32 - 1 := by
  rw [Words.turns]
  omega

theorem step_invariant (hinv : state.Invariant) (hadmits : state.Admits call)
    (hfits : state.Fits call) (hstep : state.step call = some next) : next.Invariant := by
  cases call with
  | getFreeSlots cnt =>
      have hcnt : 1 ≤ cnt := hadmits
      rcases Words.getFreeSlots_cases state.bmap hcnt with ⟨start, hleast, hresult⟩ | ⟨-, hresult⟩
      · obtain ⟨low, hlow⟩ := hfits.resolve_right fun hnone => hnone start hleast.1
        have hbelow := hlow.inside
        have hfirst : start ≤ low := hleast.2 ⟨by omega, hlow.free⟩
        have hturns := turns_lt state.bmap
        rw [step_getFreeSlots (by omega) hresult, Words.sync_eq hcnt (by omega),
          Option.some.injEq] at hstep
        subst hstep
        exact hinv.take hcnt (by omega) (free_of_isRun hleast.1 (by omega))
      · rw [step, hresult, Option.some.injEq] at hstep
        subst hstep
        exact hinv
  | freeSlots start =>
      obtain ⟨cnt, hrun⟩ := Option.ne_none_iff_exists'.mp hadmits
      obtain ⟨hcnt, hinside⟩ := hinv.inside start cnt hrun
      rw [step, Words.freeSlots_eq hcnt hinside (hinv.marked start cnt hrun), Option.map_some,
        Option.some.injEq] at hstep
      subst hstep
      exact hinv.give hrun (clear_bytesLen ..) fun slot => clear_status cnt start slot state.bmap

/-! ## Beyond the slot `2 ^ 31 - 1` -/

/-- A run that takes in the bits of a slot outside of it leaves this slot marked. -/
theorem not_separated_of_wraps (hinv : state.Invariant) {start cnt slot : Nat}
    (hrun : FirstFit.IsRun (Words.IsFree state.bmap) (Words.turns state.bmap) start cnt)
    (hlow : start ≤ slot) (hhigh : slot < start + cnt) (hwraps : 2 ^ 31 ≤ slot)
    (hout : ¬ (start ≤ slot - 2 ^ 31 ∧ slot - 2 ^ 31 < start + cnt)) :
    ¬ Separated { bmap := Words.sync state.bmap start cnt
                  runs := Function.update state.runs start (some cnt) } := by
  intro hseparated
  have hend := hrun.inside
  have hturns := turns_lt state.bmap
  have hslots : Words.turns state.bmap ≤ state.bmap.slots := Nat.mod_le _ _
  have hhome : slot % 2 ^ 31 = slot - 2 ^ 31 := by omega
  have hfree : state.bmap.getSlotStatus (slot - 2 ^ 31) = slotFree := by
    rw [← hhome, ← Words.getSlotStatus_home]
    exact hrun.free slot hlow hhigh
  have hmarked : (Words.sync state.bmap start cnt).getSlotStatus (slot - 2 ^ 31) ≠ slotFree :=
    Words.sync_ne_free (by omega) (by omega : slot - start < cnt) (by omega)
  refine hmarked (hseparated.outside _ ?_ ?_)
  · rw [DoublebitMap.slots, Words.sync_bytesLen]
    change slot - 2 ^ 31 < state.bmap.slots
    omega
  · rintro ⟨other, otherCnt, hother, hin⟩
    dsimp only at hother
    by_cases hnew : other = start
    · subst hnew
      rw [Function.update_self, Option.some.injEq] at hother
      exact hout (hother ▸ hin)
    · rw [Function.update_of_ne hnew] at hother
      exact hinv.not_inRun hfree ⟨other, otherCnt, hother, hin⟩

/-- A run that starts at zero and comes around to its own start is not given back. -/
theorem not_frees_of_wraps {bmap : DoublebitMap} {cnt : Nat} (hcnt : 2 ^ 31 < cnt)
    {next : DoublebitMap} :
    (Words.freeSlots (Words.sync bmap 0 cnt) 0).1 ≠ some (next, cnt) := by
  have hstart : (Words.sync bmap 0 cnt).getSlotStatus 0 ≠ slotSeqStart :=
    Words.sync_ne_start hcnt
  rw [← Words.getSlotStatus_eq (by decide)] at hstart
  rw [Words.freeSlots]
  split
  next =>
    intro heq
    have hone : 1 = cnt := congrArg Prod.snd (Option.some.inj heq)
    omega
  next =>
    intro heq
    have hzero : 0 = cnt := congrArg Prod.snd (Option.some.inj heq)
    omega

/-- A search that finds its slots only beyond `2 ^ 31 - 1` spoils the map. -/
theorem not_tracked_of_not_fits (hinv : state.Invariant) (hadmits : state.Admits call)
    (hfits : ¬ state.Fits call) (hstep : state.step call = some next) : ¬ next.Tracked := by
  cases call with
  | freeSlots start => exact absurd trivial hfits
  | getFreeSlots cnt =>
      have hcnt : 1 ≤ cnt := hadmits
      rw [Fits, not_or] at hfits
      obtain ⟨hbelow, hsome⟩ := hfits
      rcases Words.getFreeSlots_cases state.bmap hcnt with ⟨start, hleast, hresult⟩ | ⟨hnone, -⟩
      · have hinside := hleast.1.inside
        have hturns := turns_lt state.bmap
        have hend : 2 ^ 31 < start + cnt := by
          by_contra hlow
          exact hbelow ⟨start, by omega, hleast.1.free⟩
        rw [step_getFreeSlots (by omega) hresult, Option.some.injEq] at hstep
        subst hstep
        intro htracked
        by_cases hzero : start = 0
        · subst hzero
          have hlive : Function.update state.runs 0 (some cnt) 0 = some cnt := Function.update_self ..
          obtain ⟨freed, hfreed, -⟩ := htracked.frees 0 cnt hlive
          exact not_frees_of_wraps (by omega) hfreed
        · refine not_separated_of_wraps hinv hleast.1 (le_max_left start (2 ^ 31)) (by omega)
            (le_max_right start (2 ^ 31)) ?_ htracked.toSeparated
          omega
      · exact absurd hnone hsome

/-- A map that is free keeps the invariant as long as the searches fit. -/
theorem invariant_of_run {bmap : DoublebitMap}
    (hfree : ∀ slot < bmap.slots, bmap.getSlotStatus slot = slotFree) {calls : List MapCall}
    (hrun : Run step (fun state call => state.Admits call ∧ state.Fits call) (initial bmap) calls
      state) : state.Invariant :=
  hrun.invariant Invariant (initial_invariant hfree) fun _ _ _ hinv hadmits hstep =>
    step_invariant hinv hadmits.1 hadmits.2 hstep

/-- No search of a map goes beyond the slot `2 ^ 31 - 1` if it makes no more turns. -/
theorem fits_of_turns (hturns : Words.turns state.bmap ≤ 2 ^ 31) (call : MapCall) :
    state.Fits call := by
  cases call with
  | getFreeSlots cnt =>
      rw [Fits, min_eq_left hturns, ← not_exists]
      exact em _
  | freeSlots start => trivial

theorem step_bytesLen (hstep : state.step call = some next) :
    next.bmap.bytesLen = state.bmap.bytesLen := by
  cases call with
  | getFreeSlots cnt =>
      rw [step, Option.some.injEq] at hstep
      subst hstep
      exact Words.getFreeSlots_bytesLen
  | freeSlots start =>
      obtain ⟨freed, hfreed, rfl⟩ := Option.map_eq_some_iff.mp hstep
      exact Words.freeSlots_bytesLen hfreed

/-- In a map that is searched no further than that every sequence of calls fits. -/
theorem fits_run {bmap : DoublebitMap} (hturns : Words.turns bmap ≤ 2 ^ 31) {calls : List MapCall}
    (hrun : Run step Admits (initial bmap) calls state) :
    Words.turns state.bmap ≤ 2 ^ 31 ∧
      Run step (fun state call => state.Admits call ∧ state.Fits call) (initial bmap) calls state := by
  induction hrun with
  | nil => exact ⟨hturns, .nil⟩
  | @snoc calls before after call _ hadmits hstep ih =>
      obtain ⟨hbefore, hfits⟩ := ih
      refine ⟨?_, hfits.snoc ⟨hadmits, fits_of_turns hbefore call⟩ hstep⟩
      rw [Words.turns, step_bytesLen hstep]
      exact hbefore

theorem zeros_free (bytesLen slot : Nat) :
    DoublebitMap.getSlotStatus { bytesLen := bytesLen, base := fun _ => 0 } slot = slotFree := by
  simp [DoublebitMap.getSlotStatus, slotIn, slotFree]

/-- Where the search goes further, the last of `2 ^ 31 + 1` slots takes the mark of the first. -/
theorem exists_not_tracked {bmap : DoublebitMap} (hturns : 2 ^ 31 < Words.turns bmap)
    (hfree : ∀ slot, bmap.getSlotStatus slot = slotFree) :
    ∃ state, Run step Admits (initial bmap) [.getFreeSlots (2 ^ 31 + 1)] state ∧
      ¬ state.Tracked := by
  have hadmits : (initial bmap).Admits (.getFreeSlots (2 ^ 31 + 1)) := Nat.le_add_left 1 (2 ^ 31)
  obtain ⟨next, hstep⟩ := exists_step_getFreeSlots (initial bmap) (2 ^ 31 + 1)
  refine ⟨next, Run.nil.snoc hadmits hstep,
    not_tracked_of_not_fits (initial_invariant fun slot _ => hfree slot) hadmits ?_ hstep⟩
  rintro (⟨start, hrun⟩ | hnone)
  · have hinside := hrun.inside
    omega
  · refine hnone 0 ⟨?_, fun slot _ _ => (Words.getSlotStatus_home _ _).trans (hfree _)⟩
    rw [Nat.zero_add]
    exact hturns

/-- All sequences of calls track the runs of all free maps of a length just if the search stops
at the slot `2 ^ 31`. -/
theorem all_tracked_iff (bytesLen : Nat) :
    (∀ bmap : DoublebitMap, bmap.bytesLen = bytesLen →
      (∀ slot < bmap.slots, bmap.getSlotStatus slot = slotFree) →
      ∀ calls state, Run step Admits (initial bmap) calls state → state.Tracked) ↔
      bytesLen * 8 % 2 ^ 32 ≤ 2 ^ 31 := by
  constructor
  · intro hall
    by_contra hturns
    obtain ⟨state, hrun, hlost⟩ := @exists_not_tracked { bytesLen := bytesLen, base := fun _ => 0 }
      (Nat.lt_of_not_le hturns) (zeros_free bytesLen)
    exact hlost (hall _ rfl (fun slot _ => zeros_free bytesLen slot) _ _ hrun)
  · rintro hturns bmap rfl hfree calls state hrun
    exact (invariant_of_run hfree (fits_run hturns hrun).2).tracked

end RunTracking

end Shmily.Mm
