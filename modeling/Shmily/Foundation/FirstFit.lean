import Mathlib.Order.Bounds.Basic

/-! # First fit

A single pass looks for a run of free places. It counts the free places right before the
current one and starts over where a place is taken. It finds the run that starts first,
and stops at its end.
-/

namespace Shmily.Foundation.FirstFit

/-- A run of free places below a limit. -/
structure IsRun (free : Nat → Prop) (limit start cnt : Nat) : Prop where
  inside : start + cnt ≤ limit
  free : ∀ place, start ≤ place → place < start + cnt → free place

/-- The pass over the places that are left. -/
def search (free : Nat → Prop) [DecidablePred free] (cnt : Nat) : Nat → Nat → Nat → Option Nat
  | 0, _, _ => none
  | left + 1, place, found =>
      if free place then
        if found + 1 = cnt then some (place + 1 - cnt)
        else search free cnt left (place + 1) (found + 1)
      else search free cnt left (place + 1) 0

variable {free : Nat → Prop} {limit cnt left place found start : Nat}

/-- What holds when the pass is at a place: this many free places come right before it, and
no run starts before them. -/
structure Passing (free : Nat → Prop) (limit cnt place found : Nat) : Prop where
  less : found < cnt
  le : found ≤ place
  counted : ∀ other, place - found ≤ other → other < place → free other
  least : ∀ start, IsRun free limit start cnt → place - found ≤ start

theorem Passing.initial (hcnt : 0 < cnt) : Passing free limit cnt 0 0 where
  less := hcnt
  le := Nat.le_refl 0
  counted _ _ hlt := absurd hlt (Nat.not_lt_zero _)
  least start _ := Nat.zero_le start

/-- A free place is counted. -/
theorem Passing.counted_next (hpassing : Passing free limit cnt place found) (hfree : free place)
    {other : Nat} (hlow : place - found ≤ other) (hhigh : other < place + 1) : free other := by
  rcases Nat.lt_succ_iff_lt_or_eq.mp hhigh with hlt | rfl
  · exact hpassing.counted other hlow hlt
  · exact hfree

theorem Passing.step_free (hpassing : Passing free limit cnt place found) (hfree : free place)
    (hless : found + 1 < cnt) : Passing free limit cnt (place + 1) (found + 1) where
  less := hless
  le := Nat.succ_le_succ hpassing.le
  counted other hlow hhigh := by
    rw [Nat.add_sub_add_right] at hlow
    exact hpassing.counted_next hfree hlow hhigh
  least start hrun := by
    rw [Nat.add_sub_add_right]
    exact hpassing.least start hrun

/-- No run goes over a place that is taken. -/
theorem Passing.step_taken (hpassing : Passing free limit cnt place found) (htaken : ¬ free place) :
    Passing free limit cnt (place + 1) 0 where
  less := lt_of_le_of_lt (Nat.zero_le found) hpassing.less
  le := Nat.zero_le _
  counted other hlow hhigh := absurd hhigh (Nat.not_lt.mpr hlow)
  least start hrun := by
    by_contra hbefore
    have hstart := hpassing.least start hrun
    have hless := hpassing.less
    have hle := hpassing.le
    exact htaken (hrun.free place (by omega) (by omega))

/-- The pass finds the first run or there is none. -/
theorem Passing.search_spec [DecidablePred free] (hpassing : Passing free limit cnt place found)
    (hlimit : place + left = limit) :
    (∃ start, search free cnt left place found = some start ∧
        IsLeast {start | IsRun free limit start cnt} start) ∨
      search free cnt left place found = none ∧ ∀ start, ¬ IsRun free limit start cnt := by
  induction left generalizing place found with
  | zero =>
      refine .inr ⟨rfl, fun start hrun => ?_⟩
      have hstart := hpassing.least start hrun
      have hinside := hrun.inside
      have hless := hpassing.less
      have hle := hpassing.le
      omega
  | succ left ih =>
      rw [search]
      split
      next hfree =>
        split
        next hfound =>
          have hplace : place + 1 - cnt = place - found := by omega
          refine .inl ⟨_, rfl, ?_, ?_⟩
          · have hle := hpassing.le
            rw [hplace]
            refine ⟨by omega, fun other hlow hhigh => ?_⟩
            exact hpassing.counted_next hfree hlow (by omega)
          · intro start hrun
            rw [hplace]
            exact hpassing.least start hrun
        next hfound =>
          have hless := hpassing.less
          exact ih (hpassing.step_free hfree (by omega)) (by omega)
      next htaken => exact ih (hpassing.step_taken htaken) (by omega)

theorem search_spec (free : Nat → Prop) [DecidablePred free] (limit : Nat) (hcnt : 0 < cnt) :
    (∃ start, search free cnt limit 0 0 = some start ∧
        IsLeast {start | IsRun free limit start cnt} start) ∨
      search free cnt limit 0 0 = none ∧ ∀ start, ¬ IsRun free limit start cnt :=
  (Passing.initial hcnt).search_spec (Nat.zero_add limit)

/-- A search below a limit found the first run, or none because there is none. -/
def Finds (free : Nat → Prop) (limit cnt : Nat) (result : Option Nat) : Prop :=
  (∃ start, result = some start ∧ IsLeast {start | IsRun free limit start cnt} start) ∨
    result = none ∧ ∀ start, ¬ IsRun free limit start cnt

theorem IsRun.succ (hrun : IsRun free limit start cnt) : IsRun free (limit + 1) start cnt where
  inside := Nat.le_succ_of_le hrun.inside
  free := hrun.free

/-- A run below the next limit is a run below the limit or ends there. -/
theorem IsRun.of_succ (hrun : IsRun free (limit + 1) start cnt) :
    IsRun free limit start cnt ∨ start + cnt = limit + 1 := by
  obtain hlt | heq := Nat.lt_or_eq_of_le hrun.inside
  · exact .inl ⟨Nat.le_of_lt_succ hlt, hrun.free⟩
  · exact .inr heq

/-- One more place makes no difference when there is a run without it. -/
theorem isLeast_succ_iff (hex : ∃ start, IsRun free limit start cnt) :
    IsLeast {start | IsRun free (limit + 1) start cnt} start ↔
      IsLeast {start | IsRun free limit start cnt} start := by
  obtain ⟨found, hfound⟩ := hex
  have hinside := hfound.inside
  constructor
  · rintro ⟨hrun, hleast⟩
    have hle : start ≤ found := hleast hfound.succ
    refine ⟨hrun.of_succ.resolve_right (by omega), ?_⟩
    intro other hother
    exact hleast hother.succ
  · rintro ⟨hrun, hleast⟩
    have hle : start ≤ found := hleast hfound
    refine ⟨hrun.succ, ?_⟩
    intro other hother
    obtain hother | hend := hother.of_succ
    · exact hleast hother
    · omega

/-- A search that goes one place too far is right unless the only runs end at that place. -/
theorem Finds.pred_iff {result : Option Nat} (hfinds : Finds free (limit + 1) cnt result) :
    Finds free limit cnt result ↔
      ((∃ start, IsRun free (limit + 1) start cnt) → ∃ start, IsRun free limit start cnt) := by
  constructor
  · rintro (⟨start, -, hleast⟩ | ⟨hnone, -⟩) hlonger
    · exact ⟨start, hleast.1⟩
    · obtain ⟨start, hsome, -⟩ | ⟨-, hno⟩ := hfinds
      · exact absurd (hsome.symm.trans hnone) (Option.some_ne_none start)
      · obtain ⟨start, hrun⟩ := hlonger
        exact absurd hrun (hno start)
  · intro hshorter
    obtain ⟨start, hsome, hleast⟩ | ⟨hnone, hno⟩ := hfinds
    · exact .inl ⟨start, hsome, (isLeast_succ_iff (hshorter ⟨start, hleast.1⟩)).mp hleast⟩
    · exact .inr ⟨hnone, fun start hrun => hno start hrun.succ⟩

end Shmily.Foundation.FirstFit
