import Shmily.Kernel.Semaphore

/-! # Locks

`acquire` and `release` are not atomic: a process can be interrupted between the
test of the holder and the wait, between the wait and the store of the holder,
and between the store and the signal of `release`. Every release signals, also
that of a process which has acquired the lock several times.
-/

namespace Shmily.Kernel

open Foundation

/-- Where a process is in `acquire` or `release`. -/
inductive LockPlace
  | outside
  /-- It is not the holder, and waits for the semaphore. -/
  | waiting
  /-- `wait` has returned. -/
  | passed
  /-- The holder is cleared. -/
  | releasing
  deriving DecidableEq, Repr

/-- The members of class `Lock`, the places of the processes, and how many calls
each of them has completed. -/
structure LockUse where
  holder : Addr
  sema : Semaphore
  place : Addr → LockPlace
  acquires : Addr → Nat
  releases : Addr → Nat

/-- What can happen next. -/
inductive LockEvent
  /-- A process calls `acquire` and tests the holder. -/
  | acquire (proc : Addr)
  /-- A process calls `release` and clears the holder. -/
  | release (proc : Addr)
  /-- A process continues in its call. -/
  | proceed (proc : Addr)
  deriving DecidableEq, Repr

namespace LockUse

/-- A new lock. -/
def initial (nextReady : Addr → Addr) (status : Addr → ProcessStatus) : LockUse where
  holder := 0
  sema := .init nextReady status
  place _ := .outside
  acquires _ := 0
  releases _ := 0

def setPlace (use : LockUse) (proc : Addr) (place : LockPlace) : LockUse :=
  { use with place := Function.update use.place proc place }

/-- A call of `acquire` is complete. -/
def acquired (use : LockUse) (proc : Addr) : LockUse :=
  { use with
    place := Function.update use.place proc .outside
    acquires := Function.update use.acquires proc (use.acquires proc + 1) }

/-- A call of `release` is complete. -/
def released (use : LockUse) (proc : Addr) : LockUse :=
  { use with
    place := Function.update use.place proc .outside
    releases := Function.update use.releases proc (use.releases proc + 1) }

def step (use : LockUse) : LockEvent → Option LockUse
  | .acquire proc =>
      if use.sema.Runs proc ∧ use.place proc = .outside then
        some (if use.holder = proc then use.acquired proc else use.setPlace proc .waiting)
      else none
  | .release proc =>
      if use.sema.Runs proc ∧ use.place proc = .outside then
        some (({ use with holder := 0 } : LockUse).setPlace proc .releasing)
      else none
  | .proceed proc =>
      if use.sema.Runs proc then
        match use.place proc with
        | .outside => none
        | .waiting =>
            let result := use.sema.wait proc
            some (({ use with sema := result.2 } : LockUse).setPlace proc
              (if result.1 then .passed else .waiting))
        | .passed => some (({ use with holder := proc } : LockUse).acquired proc)
        | .releasing => use.sema.signal.map fun sema =>
            ({ use with sema := sema } : LockUse).released proc
      else none

/-- The process has completed more acquires than releases. -/
def Holds (use : LockUse) (proc : Addr) : Prop :=
  use.releases proc < use.acquires proc

/-- A process calls `release` only while it holds the lock. -/
def ReleasesHeld (use : LockUse) : LockEvent → Prop
  | .release proc => use.Holds proc
  | .acquire _ | .proceed _ => True

/-- A process calls `release` only while it has acquired the lock exactly once
more than it has released it. -/
def ReleasesOutermost (use : LockUse) : LockEvent → Prop
  | .release proc => use.acquires proc = use.releases proc + 1
  | .acquire _ | .proceed _ => True

instance (use : LockUse) : (event : LockEvent) → Decidable (use.ReleasesHeld event)
  | .release _ => inferInstanceAs (Decidable (_ < _))
  | .acquire _ | .proceed _ => inferInstanceAs (Decidable True)

instance (use : LockUse) : (event : LockEvent) → Decidable (use.ReleasesOutermost event)
  | .release _ => inferInstanceAs (Decidable (_ = _))
  | .acquire _ | .proceed _ => inferInstanceAs (Decidable True)

/-- The process has a unit of the semaphore. -/
def Owns (use : LockUse) (proc : Addr) : Prop :=
  use.place proc = .passed ∨ use.Holds proc

/-- There is one unit, which the semaphore has or one process. -/
structure Exclusive (use : LockUse) : Prop where
  unique : ∀ first second, use.Owns first → use.Owns second → first = second
  free : use.sema.value = 0 ∨ use.sema.value = 1 ∧ ∀ proc, ¬ use.Owns proc
  holder_holds : ∀ proc, use.holder = proc → proc ≠ 0 → use.place proc = .outside ∧ use.Holds proc
  releasing_once : ∀ proc, use.place proc = .releasing →
    use.acquires proc = use.releases proc + 1
  balanced : ∀ proc, use.releases proc ≤ use.acquires proc

variable {use next : LockUse} {proc : Addr}

theorem initial_exclusive (nextReady : Addr → Addr) (status : Addr → ProcessStatus) :
    (initial nextReady status).Exclusive where
  unique first _ howns := by simp [Owns, Holds, initial] at howns
  free := .inr ⟨rfl, fun proc => by simp [Owns, Holds, initial]⟩
  holder_holds proc hholder hne := absurd hholder.symm hne
  releasing_once _ hplace := by cases hplace
  balanced _ := le_rfl

/-- Who is in `release` after one process has gone elsewhere was there before. -/
theorem releasing_of_update {place : LockPlace} {other : Addr} (hplace : place ≠ .releasing)
    (hreleasing : Function.update use.place proc place other = .releasing) :
    other ≠ proc ∧ use.place other = .releasing := by
  by_cases heq : other = proc
  · rw [heq, Function.update_self] at hreleasing
    exact absurd hreleasing hplace
  · rw [Function.update_of_ne heq] at hreleasing
    exact ⟨heq, hreleasing⟩

/-- A change of place that does not begin or end behind `wait` passes no unit on. -/
theorem owns_setPlace {place : LockPlace} (hbefore : use.place proc ≠ .passed)
    (hplace : place ≠ .passed) (other : Addr) :
    (use.setPlace proc place).Owns other ↔ use.Owns other := by
  by_cases heq : other = proc
  · simp [Owns, Holds, setPlace, heq, hbefore, hplace]
  · simp [Owns, Holds, setPlace, heq]

namespace Exclusive

theorem no_unit (hexclusive : use.Exclusive) (howns : use.Owns proc) : use.sema.value = 0 :=
  hexclusive.free.resolve_right fun hfree => hfree.2 proc howns

/-- A step that passes no unit on. -/
theorem of_owns_iff (hexclusive : use.Exclusive) (howns : ∀ proc, next.Owns proc ↔ use.Owns proc)
    (hvalue : next.sema.value = use.sema.value)
    (hholder : ∀ proc, next.holder = proc → proc ≠ 0 → next.place proc = .outside ∧ next.Holds proc)
    (hreleasing : ∀ proc, next.place proc = .releasing →
      next.acquires proc = next.releases proc + 1)
    (hbalanced : ∀ proc, next.releases proc ≤ next.acquires proc) : next.Exclusive where
  unique first second hfirst hsecond :=
    hexclusive.unique first second ((howns first).mp hfirst) ((howns second).mp hsecond)
  free := by
    rw [hvalue]
    exact hexclusive.free.imp_right fun hfree =>
      ⟨hfree.1, fun proc hnext => hfree.2 proc ((howns proc).mp hnext)⟩
  holder_holds := hholder
  releasing_once := hreleasing
  balanced := hbalanced

/-- The holder acquires the lock once more. -/
theorem acquire_again (hexclusive : use.Exclusive) (hne : proc ≠ 0) (hholder : use.holder = proc) :
    (use.acquired proc).Exclusive := by
  obtain ⟨houtside, hholds⟩ := hexclusive.holder_holds proc hholder hne
  have hgrows : ∀ other, use.acquires other ≤ (use.acquired proc).acquires other := by
    intro other
    by_cases heq : other = proc
    · simp [acquired, heq]
    · simp [acquired, heq]
  have hplace : (use.acquired proc).place = use.place := by
    simp [acquired, ← houtside]
  refine hexclusive.of_owns_iff (fun other => ?_) rfl ?_ ?_ ?_
  · by_cases heq : other = proc
    · subst heq
      exact iff_of_true (.inr (hholds.trans_le (hgrows other))) (.inr hholds)
    · simp [Owns, Holds, acquired, heq]
  · intro other hother hzero
    rw [hplace]
    have hold := hexclusive.holder_holds other hother hzero
    exact ⟨hold.1, hold.2.trans_le (hgrows other)⟩
  · intro other hreleasing
    obtain ⟨hother, hold⟩ := releasing_of_update (by decide) hreleasing
    simpa [acquired, hother] using hexclusive.releasing_once other hold
  · exact fun other => (hexclusive.balanced other).trans (hgrows other)

/-- A process that is not the holder goes to the semaphore. -/
theorem acquire_wait (hexclusive : use.Exclusive) (houtside : use.place proc = .outside)
    (hholder : use.holder ≠ proc) : (use.setPlace proc .waiting).Exclusive := by
  have howns := owns_setPlace (by rw [houtside]; decide) (by decide : LockPlace.waiting ≠ .passed)
  refine hexclusive.of_owns_iff howns rfl ?_ ?_ hexclusive.balanced
  · intro other hother hzero
    have hne : other ≠ proc := fun heq => hholder (hother.trans heq)
    simpa [setPlace, hne, Holds] using hexclusive.holder_holds other hother hzero
  · intro other hreleasing
    exact hexclusive.releasing_once other (releasing_of_update (by decide) hreleasing).2

/-- The holder begins its only release. -/
theorem release (hexclusive : use.Exclusive) (houtside : use.place proc = .outside)
    (honce : use.acquires proc = use.releases proc + 1) :
    (({ use with holder := 0 } : LockUse).setPlace proc .releasing).Exclusive := by
  have howns := owns_setPlace (by rw [houtside]; decide) (by decide : LockPlace.releasing ≠ .passed)
  refine hexclusive.of_owns_iff howns rfl ?_ ?_ hexclusive.balanced
  · exact fun other hother hzero => absurd hother.symm hzero
  · intro other hreleasing
    by_cases heq : other = proc
    · rw [heq]
      exact honce
    · simp only [setPlace, Function.update_of_ne heq] at hreleasing
      exact hexclusive.releasing_once other hreleasing

/-- The process has to wait for the semaphore. -/
theorem block (hexclusive : use.Exclusive) {sema : Semaphore} (hplace : use.place proc = .waiting)
    (hwait : use.sema.wait proc = (false, sema)) :
    (({ use with sema := sema } : LockUse).setPlace proc .waiting).Exclusive := by
  have hsame : ({ use with sema := sema } : LockUse).setPlace proc .waiting =
      { use with sema := sema } := by
    simp [setPlace, ← hplace]
  rw [hsame]
  exact hexclusive.of_owns_iff (fun _ => Iff.rfl) (Semaphore.wait_blocks hwait)
    hexclusive.holder_holds hexclusive.releasing_once hexclusive.balanced

/-- The process gets the unit of the semaphore. -/
theorem pass (hexclusive : use.Exclusive) {sema : Semaphore}
    (hwait : use.sema.wait proc = (true, sema)) :
    (({ use with sema := sema } : LockUse).setPlace proc .passed).Exclusive := by
  obtain ⟨hvalue, hnext⟩ := Semaphore.wait_returns hwait
  obtain ⟨hone, hnone⟩ := hexclusive.free.resolve_left hvalue
  -- nobody else owns it
  have howns : ∀ other,
      (({ use with sema := sema } : LockUse).setPlace proc .passed).Owns other → other = proc := by
    intro other hother
    by_contra heq
    refine hnone other ?_
    simpa [Owns, Holds, setPlace, heq] using hother
  constructor
  · exact fun first second hfirst hsecond => (howns first hfirst).trans (howns second hsecond).symm
  · left
    change sema.value = 0
    omega
  · intro other hother hzero
    obtain ⟨houtside, hholds⟩ := hexclusive.holder_holds other hother hzero
    exact absurd (.inr hholds) (hnone other)
  · intro other hreleasing
    exact hexclusive.releasing_once other (releasing_of_update (by decide) hreleasing).2
  · exact hexclusive.balanced

/-- The process that has the unit becomes the holder. -/
theorem become_holder (hexclusive : use.Exclusive) (hplace : use.place proc = .passed) :
    (({ use with holder := proc } : LockUse).acquired proc).Exclusive := by
  have hbalanced := hexclusive.balanced proc
  refine hexclusive.of_owns_iff (fun other => ?_) rfl ?_ ?_ ?_
  · by_cases heq : other = proc
    · subst heq
      refine iff_of_true (.inr ?_) (.inl hplace)
      simp only [Holds, acquired, Function.update_self]
      omega
    · simp [Owns, Holds, acquired, heq]
  · rintro other rfl -
    simp only [Holds, acquired, Function.update_self]
    exact ⟨trivial, Nat.lt_succ_of_le hbalanced⟩
  · intro other hreleasing
    obtain ⟨hother, hold⟩ := releasing_of_update (by decide) hreleasing
    simpa [acquired, hother] using hexclusive.releasing_once other hold
  · intro other
    have hother := hexclusive.balanced other
    by_cases heq : other = proc
    · simp only [acquired, heq, Function.update_self]
      omega
    · simpa [acquired, heq] using hother

/-- The process gives the unit back. -/
theorem give_back (hexclusive : use.Exclusive) {sema : Semaphore}
    (hplace : use.place proc = .releasing) (hsignal : use.sema.signal = some sema) :
    (({ use with sema := sema } : LockUse).released proc).Exclusive := by
  have honce := hexclusive.releasing_once proc hplace
  have hholds : use.Holds proc := by
    rw [Holds]
    omega
  have hzero := hexclusive.no_unit (.inr hholds)
  -- it was the only owner and is none any more
  have hnone : ∀ other, ¬ (({ use with sema := sema } : LockUse).released proc).Owns other := by
    intro other hother
    by_cases heq : other = proc
    · simp [Owns, Holds, released, heq, honce] at hother
    · refine heq (hexclusive.unique other proc ?_ (.inr hholds))
      simpa [Owns, Holds, released, heq] using hother
  constructor
  · exact fun first _ hfirst => absurd hfirst (hnone first)
  · right
    refine ⟨?_, hnone⟩
    have hvalue := Semaphore.signal_value hsignal
    rwa [hzero] at hvalue
  · intro other hother hne
    obtain ⟨houtside, hother⟩ := hexclusive.holder_holds other hother hne
    have heq := hexclusive.unique other proc (.inr hother) (.inr hholds)
    rw [heq, hplace] at houtside
    cases houtside
  · intro other hreleasing
    obtain ⟨hother, hold⟩ := releasing_of_update (by decide) hreleasing
    simpa [released, hother] using hexclusive.releasing_once other hold
  · intro other
    by_cases heq : other = proc
    · simp [released, heq, honce]
    · simpa [released, heq] using hexclusive.balanced other

/-- Every step keeps the lock exclusive, if only outermost holds are released. -/
theorem step (hexclusive : use.Exclusive) {event : LockEvent}
    (hadmits : use.ReleasesOutermost event) (hstep : use.step event = some next) :
    next.Exclusive := by
  cases event with
  | acquire proc =>
      rw [LockUse.step] at hstep
      split at hstep
      next hruns =>
        cases hstep
        split
        next hholder => exact hexclusive.acquire_again hruns.1.1 hholder
        next hholder => exact hexclusive.acquire_wait hruns.2 hholder
      next => cases hstep
  | release proc =>
      rw [LockUse.step] at hstep
      split at hstep
      next hruns =>
        cases hstep
        exact hexclusive.release hruns.2 hadmits
      next => cases hstep
  | proceed proc =>
      rw [LockUse.step] at hstep
      split at hstep
      next hruns =>
        split at hstep
        next => cases hstep
        next hwaiting =>
          cases hstep
          cases hwait : use.sema.wait proc with
          | mk returned sema =>
              cases returned with
              | false => exact hexclusive.block hwaiting hwait
              | true => exact hexclusive.pass hwait
        next hpassed =>
          cases hstep
          exact hexclusive.become_holder hpassed
        next hreleasing =>
          obtain ⟨sema, hsignal, rfl⟩ := Option.map_eq_some_iff.mp hstep
          exact hexclusive.give_back hreleasing hsignal
      next => cases hstep

end Exclusive

/-- At most one process holds the lock, as long as nobody releases it while it
has acquired it more than once. -/
theorem holds_unique {nextReady : Addr → Addr} {status : Addr → ProcessStatus}
    {events : List LockEvent}
    (hrun : Run step ReleasesOutermost (initial nextReady status) events use) {first second : Addr}
    (hfirst : use.Holds first) (hsecond : use.Holds second) : first = second := by
  have hexclusive := hrun.invariant Exclusive (initial_exclusive nextReady status)
    (fun _ _ _ hbefore hadmits hstep => hbefore.step hadmits hstep)
  exact hexclusive.unique first second (.inr hfirst) (.inr hsecond)

/-- The lock passes from one process to another. -/
theorem holds_unique_handover :
    ∃ use, Run step ReleasesOutermost (initial (fun _ => 0) (fun _ => .ready))
      [.acquire 1, .proceed 1, .proceed 1, .acquire 2, .proceed 2, .release 1, .proceed 1,
        .proceed 2, .proceed 2] use ∧
      use.Holds 2 ∧ ∀ proc, use.Holds proc → proc = 2 := by
  have hrun := Run.of_exec step ReleasesOutermost (initial (fun _ => 0) (fun _ => .ready))
    [.acquire 1, .proceed 1, .proceed 1, .acquire 2, .proceed 2, .release 1, .proceed 1,
      .proceed 2, .proceed 2] rfl
  -- the second process waits until the first has signalled
  refine ⟨_, hrun, ?_, fun proc hproc => ?_⟩
  · exact Nat.zero_lt_one
  · exact holds_unique hrun hproc Nat.zero_lt_one

/-- A process that has acquired the lock twice releases it once, and another
process gets it. -/
theorem nested_release_frees_lock :
    ∃ use, Run step ReleasesHeld (initial (fun _ => 0) (fun _ => .ready))
      [.acquire 1, .proceed 1, .proceed 1, .acquire 1, .release 1, .proceed 1,
        .acquire 2, .proceed 2, .proceed 2] use ∧
      use.Holds 1 ∧ use.Holds 2 := by
  have hrun := Run.of_exec step ReleasesHeld (initial (fun _ => 0) (fun _ => .ready))
    [.acquire 1, .proceed 1, .proceed 1, .acquire 1, .release 1, .proceed 1,
      .acquire 2, .proceed 2, .proceed 2] rfl
  exact ⟨_, hrun, Nat.one_lt_two, Nat.zero_lt_one⟩

end LockUse

end Shmily.Kernel
