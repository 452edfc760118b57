import Shmily.Mm.RunTracking

/-! # The storage of the two-bit map

The search of `get_free_slots` goes over eight slots for each byte of the storage, which
holds four. The map stays inside its storage as long as every search ends in the slots that
the storage holds: what is given back then lies inside as well, also when a start is given
back more than once.
-/

namespace Shmily.Mm

open Foundation Lib DoublebitMap

/-- A map on machine words, and the starts that it has returned. -/
structure Storage where
  bmap : DoublebitMap
  returned : List Nat

namespace Storage

/-- The map after `DoublebitMap::initialize`. -/
def initial (bytesLen : Nat) (base : Nat → Byte) : Storage where
  bmap := Words.initializeMap bytesLen base
  returned := []

/-- Slots are asked for, or a start that was returned is given back. -/
def Admits (state : Storage) : MapCall → Prop
  | .getFreeSlots _ => True
  | .freeSlots start => start ∈ state.returned

/-- What a call returns as `int` is given back as `unsigned int`. -/
def step (state : Storage) : MapCall → Option Storage
  | .getFreeSlots cnt =>
      let (bmap, result) := (Words.getFreeSlots state.bmap cnt).1
      some { bmap := bmap
             returned := if result = -1 then state.returned
               else (result % 2 ^ 32).toNat :: state.returned }
  | .freeSlots start =>
      (Words.freeSlots state.bmap start).1.map fun freed => { state with bmap := freed.1 }

/-- The bytes that a call reads and writes. -/
def touched (state : Storage) : MapCall → List Nat
  | .getFreeSlots cnt => (Words.getFreeSlots state.bmap cnt).2.map Words.byteIdx
  | .freeSlots start => (Words.freeSlots state.bmap start).2.map Words.byteIdx

/-- The search ends in the slots that the storage holds, or the storage is empty or so
large that all slots lie in it. -/
def Fits (state : Storage) : MapCall → Prop
  | .getFreeSlots cnt =>
      state.bmap.bytesLen = 0 ∨ 2 ^ 29 ≤ state.bmap.bytesLen ∨
        1 ≤ cnt ∧ ∃ start,
          FirstFit.IsRun (Words.IsFree state.bmap) (state.bmap.bytesLen * 4) start cnt
  | .freeSlots _ => True

/-- Every start mark of the slots that were taken has an end mark of its own behind it,
and all between them was taken. -/
structure Matched (bmap : DoublebitMap) (taken : Nat → Prop) (close : Nat → Nat) : Prop where
  ends : ∀ p, taken p → bmap.getSlotStatus p = slotSeqStart →
    p ≤ close p ∧ bmap.getSlotStatus (close p) = slotSeqEnd ∧ ∀ k, p ≤ k → k ≤ close p → taken k
  injective : ∀ p q, taken p → taken q → bmap.getSlotStatus p = slotSeqStart →
    bmap.getSlotStatus q = slotSeqStart → close p = close q → p = q

/-- The slots that were taken lie in the storage, and so do the starts. -/
structure Inside (bytesLen : Nat) (state : Storage) (taken : Nat → Prop) (close : Nat → Nat) :
    Prop where
  matched : Matched state.bmap taken close
  held : ∀ slot, taken slot → slot < bytesLen * 4
  returned : ∀ start ∈ state.returned, taken start

/-- The invariant for a storage that does not hold all slots. -/
structure Invariant (bytesLen : Nat) (state : Storage) : Prop where
  length : state.bmap.bytesLen = bytesLen
  inside : bytesLen < 2 ^ 29 → ∃ taken close, Inside bytesLen state taken close

section Marks

variable {bmap : DoublebitMap} {taken : Nat → Prop} {close : Nat → Nat} {start cnt n : Nat}

/-- A run of free slots is taken. -/
theorem Matched.sync (hmatched : Matched bmap taken close) (hcnt : 1 ≤ cnt)
    (hfree : ∀ slot, start ≤ slot → slot < start + cnt → bmap.getSlotStatus slot = slotFree) :
    Matched (bmap.sync start cnt) (fun slot => taken slot ∨ start ≤ slot ∧ slot < start + cnt)
      (Function.update close start (start + cnt - 1)) := by
  have hstatus := bmap.sync_status start hcnt
  -- a start mark is that of the new run or one from before
  have hcases : ∀ p, (taken p ∨ start ≤ p ∧ p < start + cnt) →
      (bmap.sync start cnt).getSlotStatus p = slotSeqStart →
      p = start ∧ cnt ≠ 1 ∨
        p ≠ start ∧ taken p ∧ bmap.getSlotStatus p = slotSeqStart := by
    intro p htaken hp
    rw [hstatus] at hp
    split at hp
    next hin =>
      left
      unfold mark at hp
      split at hp
      next => exact absurd hp (by decide)
      next hone =>
        split at hp
        next hzero => exact ⟨by omega, hone⟩
        next => split at hp <;> exact absurd hp (by decide)
    next hout => exact .inr ⟨by omega, htaken.resolve_right hout, hp⟩
  -- an end mark from before is none of the new slots
  have hends : ∀ p, taken p → bmap.getSlotStatus p = slotSeqStart →
      ¬ (start ≤ close p ∧ close p < start + cnt) := by
    rintro p htaken hp ⟨hlow, hhigh⟩
    have hend := (hmatched.ends p htaken hp).2.1
    rw [hfree _ hlow hhigh] at hend
    exact absurd hend (by decide)
  constructor
  · intro p htaken hp
    rcases hcases p htaken hp with ⟨rfl, hone⟩ | ⟨hne, htaken, hp⟩
    · rw [Function.update_self, hstatus, if_pos (by omega), mark, if_neg hone, if_neg (by omega),
        if_pos (by omega)]
      exact ⟨by omega, rfl, fun k hlow hhigh => .inr ⟨hlow, by omega⟩⟩
    · obtain ⟨hle, hend, hbetween⟩ := hmatched.ends p htaken hp
      rw [Function.update_of_ne hne, hstatus, if_neg (hends p htaken hp)]
      exact ⟨hle, hend, fun k hlow hhigh => .inl (hbetween k hlow hhigh)⟩
  · intro p q hinp hinq hnowp hnowq hsame
    rcases hcases p hinp hnowp with ⟨rfl, hone⟩ | ⟨hnep, htakenp, hp⟩
    · rcases hcases q hinq hnowq with ⟨rfl, -⟩ | ⟨hneq, htakenq, hq⟩
      · rfl
      · rw [Function.update_self, Function.update_of_ne hneq] at hsame
        exact absurd ⟨by omega, by omega⟩ (hends q htakenq hq)
    · rcases hcases q hinq hnowq with ⟨rfl, -⟩ | ⟨hneq, htakenq, hq⟩
      · rw [Function.update_self, Function.update_of_ne hnep] at hsame
        exact absurd ⟨by omega, by omega⟩ (hends p htakenp hp)
      · rw [Function.update_of_ne hnep, Function.update_of_ne hneq] at hsame
        exact hmatched.injective p q htakenp htakenq hp hq hsame

/-- Freeing a slot that has neither mark. -/
theorem Matched.freeSingle (hmatched : Matched bmap taken close)
    (hsingle : bmap.getSlotStatus start = slotUsedSingle) :
    Matched (bmap.setSlotValue start slotFree) taken close := by
  have hstarts : ∀ p, (bmap.setSlotValue start slotFree).getSlotStatus p = slotSeqStart →
      bmap.getSlotStatus p = slotSeqStart := by
    intro p hp
    rw [getSlotStatus_setSlotValue _ _ _ (by decide)] at hp
    split at hp
    next => exact absurd hp (by decide)
    next => exact hp
  constructor
  · intro p htaken hp
    obtain ⟨hle, hend, hbetween⟩ := hmatched.ends p htaken (hstarts p hp)
    refine ⟨hle, ?_, hbetween⟩
    have hne : start ≠ close p := by
      rintro rfl
      rw [hsingle] at hend
      exact absurd hend (by decide)
    rw [getSlotStatus_setSlotValue _ _ _ (by decide), if_neg hne, hend]
  · intro p q htakenp htakenq hp hq
    exact hmatched.injective p q htakenp htakenq (hstarts p hp) (hstarts q hq)

/-- The walk from a start mark ends at the latest at the end mark of its own. -/
theorem Matched.walkEnds (hmatched : Matched bmap taken close) (htaken : taken start)
    (hstart : bmap.getSlotStatus start = slotSeqStart) :
    ∃ n, bmap.WalkEnds start n ∧ start + n ≤ close start := by
  obtain ⟨hle, hend, -⟩ := hmatched.ends start htaken hstart
  have hexists : ∃ n, bmap.getSlotStatus (start + n) = slotSeqEnd :=
    ⟨close start - start, by rwa [Nat.add_sub_of_le hle]⟩
  refine ⟨Nat.find hexists, ⟨fun k hk => Nat.find_min hexists hk, Nat.find_spec hexists⟩, ?_⟩
  have hfirst : Nat.find hexists ≤ close start - start :=
    Nat.find_min' hexists (by rwa [Nat.add_sub_of_le hle])
  omega

/-- What the walk frees takes one end mark, and that of the first slot is left for the start
mark that it belonged to. -/
theorem Matched.clear (hmatched : Matched bmap taken close) (htaken : taken start)
    (hstart : bmap.getSlotStatus start = slotSeqStart) (hwalk : bmap.WalkEnds start n)
    (hle : start + n ≤ close start) :
    Matched (clear (n + 1) bmap start) taken fun p =>
      if close p = start + n then close start else close p := by
  obtain ⟨-, hendStart, hbetweenStart⟩ := hmatched.ends start htaken hstart
  have hstatus : ∀ p, (DoublebitMap.clear (n + 1) bmap start).getSlotStatus p =
      if start ≤ p ∧ p < start + (n + 1) then slotFree else bmap.getSlotStatus p :=
    fun p => clear_status (n + 1) start p bmap
  have hstarts : ∀ p, (DoublebitMap.clear (n + 1) bmap start).getSlotStatus p = slotSeqStart →
      ¬ (start ≤ p ∧ p < start + (n + 1)) ∧ bmap.getSlotStatus p = slotSeqStart := by
    intro p hp
    rw [hstatus] at hp
    split at hp
    next => exact absurd hp (by decide)
    next hout => exact ⟨hout, hp⟩
  -- the other end marks lie behind the walk or before it
  have hkept : ∀ e, bmap.getSlotStatus e = slotSeqEnd → e ≠ start + n →
      (DoublebitMap.clear (n + 1) bmap start).getSlotStatus e = slotSeqEnd := by
    intro e hend hne
    rw [hstatus, if_neg, hend]
    rintro ⟨hlow, hhigh⟩
    have hinner := hwalk.inner (e - start) (by omega)
    rw [Nat.add_sub_of_le hlow] at hinner
    exact hinner hend
  constructor
  · intro p htakenp hp
    obtain ⟨hout, hp⟩ := hstarts p hp
    obtain ⟨hlep, hend, hbetween⟩ := hmatched.ends p htakenp hp
    split
    next hsame =>
      have hother : close start ≠ start + n := by
        intro hown
        have := hmatched.injective p start htakenp htaken hp hstart (hsame.trans hown.symm)
        omega
      refine ⟨by omega, hkept _ hendStart hother, fun k hlow hhigh => ?_⟩
      by_cases hk : k ≤ start + n
      · exact hbetween k hlow (hsame ▸ hk)
      · exact hbetweenStart k (by omega) hhigh
    next hne => exact ⟨hlep, hkept _ hend hne, hbetween⟩
  · intro p q htakenp htakenq hp hq hsame
    obtain ⟨houtp, hp⟩ := hstarts p hp
    obtain ⟨houtq, hq⟩ := hstarts q hq
    have hown : ∀ r, taken r → bmap.getSlotStatus r = slotSeqStart →
        ¬ (start ≤ r ∧ r < start + (n + 1)) → close r ≠ close start := by
      intro r htakenr hr hout hclose
      have := hmatched.injective r start htakenr htaken hr hstart hclose
      omega
    split at hsame
    next hpn =>
      split at hsame
      next hqn => exact hmatched.injective p q htakenp htakenq hp hq (hpn.trans hqn.symm)
      next => exact absurd hsame.symm (hown q htakenq hq houtq)
    next =>
      split at hsame
      next => exact absurd hsame (hown p htakenp hp houtp)
      next => exact hmatched.injective p q htakenp htakenq hp hq hsame

end Marks

variable {state next : Storage} {call : MapCall} {bytesLen : Nat} {base : Nat → Byte}

theorem byteIdx_lt {slot : Nat} (hlen : bytesLen < 2 ^ 29) (hslot : slot < bytesLen * 4) :
    Words.byteIdx slot < bytesLen := by
  rw [Words.byteIdx, Words.bitOffset_eq (by omega)]
  omega

/-- The first slot that the storage does not hold. -/
theorem byteIdx_end (hlen : bytesLen < 2 ^ 29) : Words.byteIdx (bytesLen * 4) = bytesLen := by
  rw [Words.byteIdx, Words.bitOffset_eq (by omega)]
  omega

/-- No byte has a larger index. -/
theorem byteIdx_lt_max (slot : Nat) : Words.byteIdx slot < 2 ^ 29 := by
  have hoffset : Words.bitOffset slot < 2 ^ 32 := Nat.mod_lt _ (by decide)
  rw [Words.byteIdx]
  omega

theorem initial_invariant (bytesLen : Nat) (base : Nat → Byte) :
    Invariant bytesLen (initial bytesLen base) where
  length := rfl
  inside _ := by
    refine ⟨fun _ => False, id, ⟨fun _ h => h.elim, fun _ _ h => h.elim⟩, fun _ h => h.elim, ?_⟩
    exact List.forall_mem_nil _

/-- A start that was returned is given back: only slots that were taken are touched. -/
theorem Inside.freeSlots {taken : Nat → Prop} {close : Nat → Nat} {start : Nat}
    (hinside : Inside bytesLen state taken close) (hlen : bytesLen < 2 ^ 29)
    (hstart : start ∈ state.returned) :
    (∀ slot ∈ (Words.freeSlots state.bmap start).2, taken slot) ∧
      ∀ freed, (Words.freeSlots state.bmap start).1 = some freed →
        ∃ close', Matched freed.1 taken close' := by
  have htaken := hinside.returned start hstart
  have hheld := hinside.held start htaken
  rw [Words.freeSlots, Words.getSlotStatus_eq (by omega), Words.setSlotValue_eq (by omega)]
  split
  next hsingle =>
    refine ⟨List.forall_mem_singleton.mpr htaken, ?_⟩
    rintro _ ⟨⟩
    exact ⟨close, hinside.matched.freeSingle hsingle⟩
  next =>
    split
    next =>
      refine ⟨List.forall_mem_singleton.mpr htaken, ?_⟩
      rintro _ ⟨⟩
      exact ⟨close, hinside.matched⟩
    next hmark =>
      rw [ne_eq, not_not] at hmark
      obtain ⟨n, hwalk, hle⟩ := hinside.matched.walkEnds htaken hmark
      obtain ⟨hleClose, -, hbetween⟩ := hinside.matched.ends start htaken hmark
      have hclose := hinside.held _ (hbetween (close start) hleClose le_rfl)
      rw [Words.freeToEnd_eq hwalk (by omega) (by omega)]
      constructor
      · intro slot hslot
        rw [List.mem_range'_1] at hslot
        exact hbetween slot hslot.1 (by omega)
      · rintro _ ⟨⟩
        exact ⟨_, hinside.matched.clear htaken hmark hwalk hle⟩

/-- An empty storage is not searched. -/
theorem getFreeSlots_empty {bmap : DoublebitMap} {cnt : Nat} (hzero : bmap.bytesLen = 0) :
    Words.getFreeSlots bmap cnt = ((bmap, -1), []) := by
  rw [Words.getFreeSlots, Words.turns, hzero]
  rfl

/-- A search that ends in the storage. -/
theorem getFreeSlots_fits {bmap : DoublebitMap} {cnt : Nat} (hlen : bmap.bytesLen < 2 ^ 29)
    (hcnt : 1 ≤ cnt)
    (hrun : ∃ start, FirstFit.IsRun (Words.IsFree bmap) (bmap.bytesLen * 4) start cnt) :
    ∃ start, FirstFit.IsRun (Words.IsFree bmap) (bmap.bytesLen * 4) start cnt ∧
      Words.getFreeSlots bmap cnt =
        ((Words.sync bmap start cnt, Words.toInt start),
          List.range (start + cnt) ++ List.range' start cnt) := by
  have hturns : Words.turns bmap = bmap.bytesLen * 8 := Nat.mod_eq_of_lt (by omega)
  have hcases := Words.getFreeSlots_cases bmap hcnt
  rw [hturns] at hcases
  obtain ⟨other, hother⟩ := hrun
  have hwider : FirstFit.IsRun (Words.IsFree bmap) (bmap.bytesLen * 8) other cnt :=
    ⟨hother.inside.trans (by omega), hother.free⟩
  rcases hcases with ⟨start, hleast, hresult⟩ | ⟨hnorun, -⟩
  · have hle := hleast.2 hwider
    have hinside := hother.inside
    exact ⟨start, ⟨by omega, hleast.1.free⟩, hresult⟩
  · exact absurd hwider (hnorun other)

/-- A search that does not end in the storage reads the first slot behind it. -/
theorem mem_getFreeSlots_of_not_fits {bmap : DoublebitMap} {cnt : Nat} (hpos : 0 < bmap.bytesLen)
    (hlen : bmap.bytesLen < 2 ^ 29)
    (hnot : ¬ (1 ≤ cnt ∧ ∃ start,
      FirstFit.IsRun (Words.IsFree bmap) (bmap.bytesLen * 4) start cnt)) :
    bmap.bytesLen * 4 ∈ (Words.getFreeSlots bmap cnt).2 := by
  have hturns : Words.turns bmap = bmap.bytesLen * 8 := Nat.mod_eq_of_lt (by omega)
  by_cases hcnt : 1 ≤ cnt
  · have hnorun := not_exists.mp fun hrun => hnot ⟨hcnt, hrun⟩
    have hcases := Words.getFreeSlots_cases bmap hcnt
    rw [hturns] at hcases
    rcases hcases with ⟨start, hleast, hresult⟩ | ⟨-, hresult⟩
    · rw [hresult]
      refine List.mem_append_left _ (List.mem_range.mpr ?_)
      by_contra hend
      exact hnorun start ⟨by omega, hleast.1.free⟩
    · rw [hresult, List.mem_range]
      omega
  · obtain rfl : cnt = 0 := by omega
    have hnone : (Words.findFree bmap 0 (Words.turns bmap) 0 0).1 = none := Words.findFree_zero
    obtain ⟨n, hreads, hend⟩ :
        ∃ n, (Words.findFree bmap 0 (Words.turns bmap) 0 0).2 = List.range' 0 n ∧
          (Words.findFree bmap 0 (Words.turns bmap) 0 0).1.elim (0 + Words.turns bmap) (· + 0) = 0 + n :=
      Words.findFree_reads (Nat.zero_le 0)
    rcases hfound : Words.findFree bmap 0 (Words.turns bmap) 0 0 with ⟨result, reads⟩
    rw [hfound] at hnone hreads hend
    dsimp only at hnone hreads hend
    subst hnone hreads
    rw [Option.elim_none, hturns] at hend
    rw [Words.getFreeSlots, hfound]
    dsimp only
    rw [List.mem_range'_1]
    omega

/-- A call that fits stays inside. -/
theorem Invariant.touched_lt (hinv : Invariant bytesLen state) (hadmits : state.Admits call)
    (hfits : state.Fits call) : ∀ byte ∈ state.touched call, byte < bytesLen := by
  obtain ⟨hlength, hinside⟩ := hinv
  intro byte hbyte
  by_cases hlarge : 2 ^ 29 ≤ bytesLen
  · have hall : ∃ slot, byte = Words.byteIdx slot := by
      cases call with
      | getFreeSlots cnt =>
          obtain ⟨slot, -, hslot⟩ := List.mem_map.mp hbyte
          exact ⟨slot, hslot.symm⟩
      | freeSlots start =>
          obtain ⟨slot, -, hslot⟩ := List.mem_map.mp hbyte
          exact ⟨slot, hslot.symm⟩
    obtain ⟨slot, rfl⟩ := hall
    exact lt_of_lt_of_le (byteIdx_lt_max slot) hlarge
  · rw [not_le] at hlarge
    obtain ⟨taken, close, hinside⟩ := hinside hlarge
    cases call with
    | getFreeSlots cnt =>
        obtain ⟨slot, hslot, rfl⟩ := List.mem_map.mp hbyte
        rcases hfits with hzero | hlarge' | ⟨hcnt, hrun⟩
        · rw [getFreeSlots_empty hzero] at hslot
          cases hslot
        · omega
        · obtain ⟨start, hfree, hresult⟩ := getFreeSlots_fits (hlength ▸ hlarge) hcnt hrun
          have hend := hfree.inside
          rw [hresult, List.mem_append, List.mem_range, List.mem_range'_1] at hslot
          exact byteIdx_lt hlarge (by omega)
    | freeSlots start =>
        obtain ⟨slot, hslot, rfl⟩ := List.mem_map.mp hbyte
        exact byteIdx_lt hlarge (hinside.held slot ((hinside.freeSlots hlarge hadmits).1 slot hslot))

theorem step_invariant (hinv : Invariant bytesLen state) (hadmits : state.Admits call)
    (hfits : state.Fits call) (hstep : state.step call = some next) : Invariant bytesLen next := by
  obtain ⟨hlength, hinside⟩ := hinv
  cases call with
  | getFreeSlots cnt =>
      rw [step, Option.some.injEq] at hstep
      subst hstep
      refine ⟨Words.getFreeSlots_bytesLen.trans hlength, fun hlen => ?_⟩
      obtain ⟨taken, close, hinside⟩ := hinside hlen
      rcases hfits with hzero | hlarge | ⟨hcnt, hrun⟩
      · rw [getFreeSlots_empty hzero]
        exact ⟨taken, close, hinside⟩
      · omega
      · obtain ⟨start, hfree, hresult⟩ := getFreeSlots_fits (hlength ▸ hlen) hcnt hrun
        have hend := hfree.inside
        obtain ⟨hsucceeded, hstart⟩ := @Words.toNat_toInt start (by omega)
        have hslots : ∀ slot, start ≤ slot → slot < start + cnt →
            state.bmap.getSlotStatus slot = slotFree := by
          intro slot hlow hhigh
          rw [← Words.getSlotStatus_eq (by omega)]
          exact hfree.free slot hlow hhigh
        rw [hresult, Words.sync_eq hcnt (by omega)]
        dsimp only
        rw [if_neg hsucceeded, hstart]
        refine ⟨_, _, hinside.matched.sync hcnt hslots, ?_, ?_⟩
        · rintro slot (htaken | hnew)
          · exact hinside.held slot htaken
          · omega
        · rw [List.forall_mem_cons]
          exact ⟨.inr ⟨le_rfl, by omega⟩, fun other hother => .inl (hinside.returned other hother)⟩
  | freeSlots start =>
      obtain ⟨freed, hfreed, hnext⟩ := Option.map_eq_some_iff.mp hstep
      subst hnext
      refine ⟨(Words.freeSlots_bytesLen hfreed).trans hlength, fun hlen => ?_⟩
      obtain ⟨taken, close, hinside⟩ := hinside hlen
      obtain ⟨close', hmatched⟩ := (hinside.freeSlots hlen hadmits).2 freed hfreed
      exact ⟨taken, close', hmatched, hinside.held, hinside.returned⟩

/-- As long as every search before it has ended in the storage, a call touches only bytes of
the storage exactly if it fits. -/
theorem touches_storage_iff {calls : List MapCall}
    (hrun : Run step (fun state call => state.Admits call ∧ state.Fits call)
      (initial bytesLen base) calls state) (hadmits : state.Admits call) :
    (∀ byte ∈ state.touched call, byte < bytesLen) ↔ state.Fits call := by
  have hinv : Invariant bytesLen state :=
    hrun.invariant (Invariant bytesLen) (initial_invariant bytesLen base)
      fun _ _ _ hinv hboth hstep => step_invariant hinv hboth.1 hboth.2 hstep
  refine ⟨fun hbytes => ?_, hinv.touched_lt hadmits⟩
  cases call with
  | freeSlots start => trivial
  | getFreeSlots cnt =>
      by_contra hnot
      rw [Fits, hinv.length, not_or, not_or] at hnot
      obtain ⟨hpos, hlen, hrun⟩ := hnot
      rw [not_le] at hlen
      have hread : bytesLen * 4 ∈ (Words.getFreeSlots state.bmap cnt).2 := by
        have hlength := hinv.length
        subst hlength
        exact mem_getFreeSlots_of_not_fits (Nat.pos_of_ne_zero hpos) hlen hrun
      have hbyte := hbytes _ (List.mem_map_of_mem hread)
      rw [byteIdx_end hlen] at hbyte
      exact lt_irrefl _ hbyte

/-- Two slots of a single byte. -/
theorem touches_storage_two :
    ∃ state, Run step (fun state call => state.Admits call ∧ state.Fits call)
        (initial 1 fun _ => 0) [.getFreeSlots 2] state ∧
      ((∀ byte ∈ state.touched (.freeSlots 0), byte < 1) ↔ state.Fits (.freeSlots 0)) := by
  have hfits : (initial 1 fun _ => 0).Fits (.getFreeSlots 2) := by
    refine .inr (.inr ⟨by decide, 0, by decide, fun slot _ _ => ?_⟩)
    simp [Words.IsFree, Words.getSlotStatus, initial, Words.initializeMap, Words.memset, slotIn, slotFree]
  have hstep : ((initial 1 fun _ => 0).step (.getFreeSlots 2)).map returned = some [0] := by decide
  obtain ⟨state, hstate, hreturned⟩ := Option.map_eq_some_iff.mp hstep
  have hrun : Run step (fun state call => state.Admits call ∧ state.Fits call)
      (initial 1 fun _ => 0) [.getFreeSlots 2] state := .snoc .nil ⟨trivial, hfits⟩ hstate
  refine ⟨state, hrun, touches_storage_iff hrun ?_⟩
  rw [Admits, hreturned]
  exact List.mem_singleton_self 0

/-- A search for five slots reads behind a single byte. -/
theorem search_leaves_storage :
    ¬ ∀ (bytesLen : Nat) (base : Nat → Byte) (calls : List MapCall) (state : Storage)
      (call : MapCall), Run step Admits (initial bytesLen base) calls state → state.Admits call →
      ∀ byte ∈ state.touched call, byte < bytesLen := by
  intro hall
  have hread : 1 ∈ (initial 1 fun _ => 0).touched (.getFreeSlots 5) := by decide
  exact absurd (hall 1 (fun _ => 0) [] _ (.getFreeSlots 5) .nil trivial 1 hread) (by decide)

end Storage

end Shmily.Mm
