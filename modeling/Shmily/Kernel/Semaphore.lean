import Mathlib.Data.Finset.Card
import Shmily.Foundation.NullChain
import Shmily.Foundation.Run
import Shmily.Kernel.Process

/-! # Semaphores

`wait` and `signal` run with interrupts disabled; the only place where another
process comes in is the `self_block` in the loop of `wait`. A process that has
been woken tests the value again when it is next scheduled, and may find that
another process has been faster.
-/

namespace Shmily.Kernel

open Foundation

/-- The members of class `Semaphore`, and the PCB fields that it uses. -/
structure Semaphore where
  value : Int
  waiters : Addr
  nextReady : Addr → Addr
  status : Addr → ProcessStatus

namespace Semaphore

/-- The constructor. -/
def init (nextReady : Addr → Addr) (status : Addr → ProcessStatus) : Semaphore where
  value := 1
  waiters := 0
  nextReady := nextReady
  status := status

/-- The current process puts itself in front of the waiters and blocks. -/
def enqueue (sema : Semaphore) (cur : Addr) : Semaphore :=
  { sema with
    nextReady := Function.update sema.nextReady cur sema.waiters
    waiters := cur
    status := Function.update sema.status cur .blocked }

/-- One test of the loop of `wait`: whether `wait` returns, and the state at its
return or at the `self_block`. -/
def wait (sema : Semaphore) (cur : Addr) : Bool × Semaphore :=
  if sema.value = 0 then (false, sema.enqueue cur)
  else (true, { sema with value := sema.value - 1 })

/-- The first waiter is unlinked and unblocked. -/
def wakeup (sema : Semaphore) : Semaphore :=
  if sema.waiters ≠ 0 then
    { sema with
      waiters := sema.nextReady sema.waiters
      status := Function.update sema.status sema.waiters .ready }
  else sema

/-- `signal`; incrementing the largest `int` is undefined. -/
def signal (sema : Semaphore) : Option Semaphore :=
  if sema.value = 2 ^ 31 - 1 then none
  else some { sema.wakeup with value := sema.value + 1 }

/-- The process exists and can be chosen by the scheduler. -/
def Runs (sema : Semaphore) (proc : Addr) : Prop :=
  proc ≠ 0 ∧ (sema.status proc).Runnable

instance (sema : Semaphore) (proc : Addr) : Decidable (sema.Runs proc) :=
  inferInstanceAs (Decidable (_ ∧ _))

variable {sema next : Semaphore} {cur : Addr}

/-- `wait` returns with one unit less. -/
theorem wait_returns (hwait : sema.wait cur = (true, next)) :
    sema.value ≠ 0 ∧ next.value = sema.value - 1 := by
  unfold wait at hwait
  split at hwait
  next => cases hwait
  next hvalue =>
    cases hwait
    exact ⟨hvalue, rfl⟩

theorem wait_blocks (hwait : sema.wait cur = (false, next)) : next.value = sema.value := by
  unfold wait at hwait
  split at hwait
  next =>
    cases hwait
    rfl
  next => cases hwait

theorem signal_value (hsignal : sema.signal = some next) : next.value = sema.value + 1 := by
  unfold signal at hsignal
  split at hsignal
  next => cases hsignal
  next =>
    cases hsignal
    rfl

end Semaphore

/-- A semaphore in use: which processes have called `wait` without having
returned from it, and how often `signal` was called and `wait` completed. -/
structure SemaphoreUse where
  sema : Semaphore
  inWait : Addr → Bool
  signals : Nat
  completed : Nat

/-- What can happen next. -/
inductive SemaphoreEvent
  /-- A process calls `wait`. -/
  | wait (proc : Addr)
  /-- A process calls `signal`. -/
  | signal (proc : Addr)
  /-- A process that was woken in `wait` is scheduled. -/
  | resume (proc : Addr)
  deriving DecidableEq, Repr

namespace SemaphoreUse

/-- A new semaphore. -/
def initial (nextReady : Addr → Addr) (status : Addr → ProcessStatus) : SemaphoreUse where
  sema := .init nextReady status
  inWait _ := false
  signals := 0
  completed := 0

/-- The process tests the value. -/
def test (use : SemaphoreUse) (proc : Addr) : SemaphoreUse :=
  let result := use.sema.wait proc
  { use with
    sema := result.2
    inWait := Function.update use.inWait proc (!result.1)
    completed := if result.1 then use.completed + 1 else use.completed }

def step (use : SemaphoreUse) : SemaphoreEvent → Option SemaphoreUse
  | .wait proc => if use.sema.Runs proc ∧ use.inWait proc = false then some (use.test proc) else none
  | .signal proc =>
      if use.sema.Runs proc ∧ use.inWait proc = false then
        use.sema.signal.map fun sema => { use with sema := sema, signals := use.signals + 1 }
      else none
  | .resume proc => if use.sema.Runs proc ∧ use.inWait proc = true then some (use.test proc) else none

/-- Every event may happen in every state in which it can. -/
def Admits (_ : SemaphoreUse) (_ : SemaphoreEvent) : Prop := True

instance (use : SemaphoreUse) (event : SemaphoreEvent) : Decidable (Admits use event) :=
  inferInstanceAs (Decidable True)

/-- The process sleeps in `wait`. -/
def Blocked (use : SemaphoreUse) (proc : Addr) : Prop :=
  use.inWait proc = true ∧ use.sema.status proc = .blocked

/-- The process was woken in `wait` and has not tested the value again. -/
def Woken (use : SemaphoreUse) (proc : Addr) : Prop :=
  use.inWait proc = true ∧ use.sema.status proc ≠ .blocked

/-- What a semaphore is for: it counts, its waiters are those who sleep, and no
unit is left while everybody sleeps. -/
structure Sound (use : SemaphoreUse) : Prop where
  nonneg : 0 ≤ use.sema.value
  value_eq : use.sema.value = 1 + use.signals - use.completed
  waiting_once : ∃ queue, NullChain use.sema.nextReady use.sema.waiters queue ∧
    ∀ proc, use.Blocked proc → queue.count proc = 1
  no_lost_wakeup : ∃ woken : Finset Addr, (∀ proc, proc ∈ woken ↔ use.Woken proc) ∧
    (use.sema.waiters ≠ 0 → use.sema.value ≤ woken.card)

/-- The queue of the waiters and the set of the processes that were woken. -/
structure Counts (use : SemaphoreUse) (queue : List Addr) (woken : Finset Addr) : Prop where
  nonneg : 0 ≤ use.sema.value
  value_eq : use.sema.value = 1 + use.signals - use.completed
  chain : NullChain use.sema.nextReady use.sema.waiters queue
  mem_queue : ∀ proc, proc ∈ queue ↔ use.Blocked proc
  mem_woken : ∀ proc, proc ∈ woken ↔ use.Woken proc
  le_woken : queue ≠ [] → use.sema.value ≤ woken.card

variable {use next : SemaphoreUse} {queue : List Addr} {woken : Finset Addr} {proc : Addr}

theorem initial_counts (nextReady : Addr → Addr) (status : Addr → ProcessStatus) :
    (initial nextReady status).Counts [] ∅ where
  nonneg := Int.zero_le_ofNat 1
  value_eq := rfl
  chain := NullChain.nil
  mem_queue proc := by simp [Blocked, initial]
  mem_woken proc := by simp [Woken, initial]
  le_woken hne := absurd rfl hne

theorem Counts.sound (hcounts : use.Counts queue woken) : use.Sound where
  nonneg := hcounts.nonneg
  value_eq := hcounts.value_eq
  waiting_once := by
    refine ⟨queue, hcounts.chain, fun proc hblocked => ?_⟩
    exact List.count_eq_one_of_mem hcounts.chain.nodup ((hcounts.mem_queue proc).mpr hblocked)
  no_lost_wakeup := by
    refine ⟨woken, hcounts.mem_woken, fun hwaiters => hcounts.le_woken ?_⟩
    exact mt hcounts.chain.eq_nil_iff.mp hwaiters

namespace Counts

theorem notMem_of_runs (hcounts : use.Counts queue woken) (hruns : use.sema.Runs proc) :
    proc ∉ queue := by
  intro hmem
  have hblocked := ((hcounts.mem_queue proc).mp hmem).2
  rcases hruns.2 with hready | hrunning
  · simp [hready] at hblocked
  · simp [hrunning] at hblocked

/-- A test of the value that fails puts the process in front of the waiters. -/
theorem test_zero (hcounts : use.Counts queue woken) (hruns : use.sema.Runs proc)
    (hzero : use.sema.value = 0) : (use.test proc).Counts (proc :: queue) (woken.erase proc) := by
  have htest : use.test proc =
      { use with
        sema := use.sema.enqueue proc
        inWait := Function.update use.inWait proc true } := by
    simp [test, Semaphore.wait, hzero]
  rw [htest]
  constructor
  · exact hcounts.nonneg
  · exact hcounts.value_eq
  · exact hcounts.chain.push (hcounts.notMem_of_runs hruns) hruns.1
  · intro other
    have hmem := hcounts.mem_queue other
    by_cases heq : other = proc
    · simp [heq, Blocked, Semaphore.enqueue]
    · simpa [heq, Blocked, Semaphore.enqueue] using hmem
  · intro other
    have hmem := hcounts.mem_woken other
    by_cases heq : other = proc
    · simp [heq, Woken, Semaphore.enqueue]
    · simpa [heq, Woken, Semaphore.enqueue] using hmem
  · intro _
    simp [Semaphore.enqueue, hzero]

/-- A test of the value that succeeds takes a unit. -/
theorem test_pos (hcounts : use.Counts queue woken) (hruns : use.sema.Runs proc)
    (hpos : use.sema.value ≠ 0) : (use.test proc).Counts queue (woken.erase proc) := by
  have htest : use.test proc =
      { use with
        sema := { use.sema with value := use.sema.value - 1 }
        inWait := Function.update use.inWait proc false
        completed := use.completed + 1 } := by
    simp [test, Semaphore.wait, hpos]
  have hnonneg := hcounts.nonneg
  rw [htest]
  constructor
  · change 0 ≤ use.sema.value - 1
    omega
  · have hvalue := hcounts.value_eq
    push_cast
    omega
  · exact hcounts.chain
  · intro other
    have hmem := hcounts.mem_queue other
    by_cases heq : other = proc
    · simp [heq, Blocked, hcounts.notMem_of_runs hruns]
    · simpa [heq, Blocked] using hmem
  · intro other
    have hmem := hcounts.mem_woken other
    by_cases heq : other = proc
    · simp [heq, Woken]
    · simpa [heq, Woken] using hmem
  · intro hne
    have hle := hcounts.le_woken hne
    -- the process may have been one of those that were woken
    have hcard : woken.card - 1 ≤ (woken.erase proc).card := Finset.pred_card_le_card_erase
    change use.sema.value - 1 ≤ (woken.erase proc).card
    omega

/-- A signal wakes the first waiter, if there is one. -/
theorem signal (hcounts : use.Counts queue woken) {sema : Semaphore}
    (hsignal : use.sema.signal = some sema) :
    ∃ queue' woken', ({ use with sema := sema, signals := use.signals + 1 } :
      SemaphoreUse).Counts queue' woken' := by
  rw [Semaphore.signal] at hsignal
  split at hsignal
  next => cases hsignal
  next =>
    rw [Option.some.injEq] at hsignal
    subst hsignal
    have hnonneg := hcounts.nonneg
    have hvalue := hcounts.value_eq
    have hchain := hcounts.chain
    cases queue with
    | nil =>
        have hempty : use.sema.waiters = 0 := hchain
        refine ⟨[], woken, ?_⟩
        simp only [Semaphore.wakeup, hempty, ne_eq, not_true_eq_false, if_false]
        constructor
        · change 0 ≤ use.sema.value + 1
          omega
        · push_cast
          omega
        · exact hempty ▸ hchain
        · exact hcounts.mem_queue
        · exact hcounts.mem_woken
        · exact fun hne => absurd rfl hne
    | cons first rest =>
        obtain ⟨hfirst, hne, hrest⟩ := hchain
        have hnot := (List.nodup_cons.mp hcounts.chain.nodup).1
        have hblocked := (hcounts.mem_queue first).mp List.mem_cons_self
        have hasleep : first ∉ woken := fun hmem =>
          ((hcounts.mem_woken first).mp hmem).2 hblocked.2
        -- the first waiter is woken and has yet to test the value
        refine ⟨rest, insert first woken, ?_⟩
        simp only [Semaphore.wakeup, hfirst, ne_eq, hne, not_false_eq_true, if_true]
        constructor
        · change 0 ≤ use.sema.value + 1
          omega
        · push_cast
          omega
        · exact hrest
        · intro other
          have hmem := hcounts.mem_queue other
          by_cases heq : other = first
          · simp [heq, Blocked, hnot]
          · simpa [heq, Blocked] using hmem
        · intro other
          have hmem := hcounts.mem_woken other
          by_cases heq : other = first
          · simp [heq, Woken, hblocked.1]
          · simpa [heq, Woken] using hmem
        · intro _
          have hle := hcounts.le_woken (List.cons_ne_nil first rest)
          rw [Finset.card_insert_of_notMem hasleep]
          push_cast
          omega

/-- Every step keeps the counts. -/
theorem step (hcounts : use.Counts queue woken) {event : SemaphoreEvent}
    (hstep : use.step event = some next) : ∃ queue' woken', next.Counts queue' woken' := by
  -- a first test and a test after a wakeup are the same
  have htest : ∀ proc, use.sema.Runs proc → ∃ queue' woken', (use.test proc).Counts queue' woken' := by
    intro proc hruns
    by_cases hzero : use.sema.value = 0
    · exact ⟨_, _, hcounts.test_zero hruns hzero⟩
    · exact ⟨_, _, hcounts.test_pos hruns hzero⟩
  cases event with
  | wait proc =>
      rw [SemaphoreUse.step] at hstep
      split at hstep
      next hruns =>
        cases hstep
        exact htest proc hruns.1
      next => cases hstep
  | signal proc =>
      rw [SemaphoreUse.step] at hstep
      split at hstep
      next hruns =>
        obtain ⟨sema, hsignal, rfl⟩ := Option.map_eq_some_iff.mp hstep
        exact hcounts.signal hsignal
      next => cases hstep
  | resume proc =>
      rw [SemaphoreUse.step] at hstep
      split at hstep
      next hruns =>
        cases hstep
        exact htest proc hruns.1
      next => cases hstep

end Counts

/-- A semaphore is sound in every state that its users can bring it into. -/
theorem sound_of_run {nextReady : Addr → Addr} {status : Addr → ProcessStatus}
    {events : List SemaphoreEvent} (hrun : Run step Admits (initial nextReady status) events use) :
    use.Sound := by
  obtain ⟨queue, woken, hcounts⟩ := hrun.invariant
    (fun use => ∃ queue woken, use.Counts queue woken) ⟨[], ∅, initial_counts nextReady status⟩
    (fun _ _ _ ⟨_, _, hcounts⟩ _ hstep => hcounts.step hstep)
  exact hcounts.sound

/-- A process that was woken is overtaken and sleeps again. -/
theorem sound_overtaken :
    ∃ use, Run step Admits (initial (fun _ => 0) (fun _ => .ready))
      [.wait 1, .wait 2, .signal 1, .wait 3, .resume 2] use ∧
      use.Blocked 2 ∧ use.Sound := by
  have hrun := Run.of_exec step Admits (initial (fun _ => 0) (fun _ => .ready))
    [.wait 1, .wait 2, .signal 1, .wait 3, .resume 2] rfl
  exact ⟨_, hrun, ⟨rfl, rfl⟩, sound_of_run hrun⟩

end SemaphoreUse

end Shmily.Kernel
