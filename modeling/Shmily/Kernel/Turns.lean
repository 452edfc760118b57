import Mathlib.Data.Nat.Find
import Shmily.Kernel.SchedulerInvariant
import Shmily.Lib.CycleSequence

/-! # Whose turn it is

While processes are only preempted, the ready queues stand still and the choices
of `schedule` follow a fixed cycle. The rounds of a counted priority give its
queue eleven turns in a row, from the first member on, and then one turn to the
first member of the next queue that is not empty. All other processes wait.
-/

namespace Shmily.Kernel

open Foundation Lib

namespace SchedulerOp

/-- The call takes the processor from a process without making it wait. -/
def Preempts : SchedulerOp → Prop
  | .timer | .schedule | .procYield => True
  | .startProcess .. | .selfBlock _ | .unblockProc _ => False

instance : DecidablePred Preempts
  | .timer | .schedule | .procYield => .isTrue trivial
  | .startProcess .. | .selfBlock _ | .unblockProc _ => .isFalse id

end SchedulerOp

namespace SchedulerSystem

/-- The call reaches `schedule`; a timer interrupt does so when the current
process has no ticks left. -/
def Switches (sys : SchedulerSystem) : SchedulerOp → Prop
  | .timer => sys.sched.ticks sys.sched.curProc = 0
  | .schedule | .procYield | .selfBlock _ => True
  | .startProcess .. | .unblockProc _ => False

instance (sys : SchedulerSystem) : (op : SchedulerOp) → Decidable (sys.Switches op)
  | .timer => inferInstanceAs (Decidable (sys.sched.ticks sys.sched.curProc = 0))
  | .schedule | .procYield | .selfBlock _ => .isTrue trivial
  | .startProcess .. | .unblockProc _ => .isFalse id

/-- How often a sequence of calls reaches `schedule`. -/
def switches : SchedulerSystem → List SchedulerOp → Nat :=
  occurrences step Switches

/-- The runs in which processes are only preempted. -/
abbrev Preemption := Run step fun _ op => op.Preempts

variable {sched : Scheduler} {started : List Addr} {queue : Nat → List Addr}

/-! ## The selection -/

/-- A queue without rounds is passed over and gets them back. -/
theorem pickPriority_pass (links : Links ReadyNode) {left prio : Nat} {rounds : Nat → Nat}
    (hrounds : rounds prio = 0) (hprio : prio < 3) :
    Scheduler.pickPriority links (left + 1) prio rounds =
      Scheduler.pickPriority links left (prio + 1) (Function.update rounds prio 10) := by
  rw [Scheduler.pickPriority, if_pos ⟨hrounds, hprio⟩]

theorem pickPriority_stay (hcons : Consistent sched started queue) {left prio : Nat}
    {rounds : Nat → Nat} (hprio : prio < priorityKind) (hqueue : queue prio ≠ [])
    (hrounds : rounds prio ≠ 0 ∨ 3 ≤ prio) :
    Scheduler.pickPriority sched.links (left + 1) prio rounds = (prio, rounds) := by
  have hempty : (readyProcesses prio).isEmpty sched.links = false := by
    rw [← Bool.not_eq_true, hcons.isEmpty_iff hprio]
    exact hqueue
  rw [Scheduler.pickPriority, if_neg, hempty]
  · rfl
  · rintro ⟨hzero, hlt⟩
    exact hrounds.elim (fun hne => hne hzero) (fun hle => absurd hlt (Nat.not_lt.mpr hle))

/-- Empty queues are passed over, and only their rounds may change. -/
theorem pickPriority_skip (hcons : Consistent sched started queue) (left count prio : Nat)
    (hprio : prio + count ≤ priorityKind)
    (hempty : ∀ idx, prio ≤ idx → idx < prio + count → queue idx = []) (rounds : Nat → Nat) :
    ∃ rounds' : Nat → Nat, (∀ idx, idx < prio ∨ prio + count ≤ idx → rounds' idx = rounds idx) ∧
      Scheduler.pickPriority sched.links (left + count) prio rounds =
        Scheduler.pickPriority sched.links left (prio + count) rounds' := by
  induction count generalizing prio rounds with
  | zero => exact ⟨rounds, fun _ _ => rfl, rfl⟩
  | succ count ih =>
      have hnil := hempty prio (Nat.le_refl prio) (by omega)
      have hkind : prio < priorityKind := by omega
      have hisEmpty := (hcons.isEmpty_iff hkind).mpr hnil
      obtain ⟨passed, hpassed, hstep⟩ : ∃ passed : Nat → Nat,
          (∀ idx, idx ≠ prio → passed idx = rounds idx) ∧
          Scheduler.pickPriority sched.links (left + count + 1) prio rounds =
            Scheduler.pickPriority sched.links (left + count) (prio + 1) passed := by
        rw [Scheduler.pickPriority]
        split
        · exact ⟨_, fun idx hne => Function.update_of_ne hne _ _, rfl⟩
        · exact ⟨rounds, fun _ _ => rfl, by simp [hisEmpty]⟩
      obtain ⟨rounds', hkept, hrest⟩ := ih (prio + 1) (by omega)
        (fun idx hle hlt => hempty idx (by omega) (by omega)) passed
      refine ⟨rounds', fun idx hidx => ?_, ?_⟩
      · rw [hkept idx (by omega), hpassed idx (by omega)]
      · rw [← Nat.add_assoc, hstep, hrest, Nat.add_right_comm, Nat.add_assoc]

/-- The loop does not look back. -/
theorem pickPriority_behind (links : Links ReadyNode) (left prio : Nat) (rounds : Nat → Nat) :
    prio ≤ (Scheduler.pickPriority links left prio rounds).1 ∧
      ∀ idx < prio, (Scheduler.pickPriority links left prio rounds).2 idx = rounds idx := by
  induction left generalizing prio rounds with
  | zero => exact ⟨Nat.le_refl prio, fun _ _ => rfl⟩
  | succ left ih =>
      have hpassed : ∀ passed : Nat → Nat, (∀ idx, idx ≠ prio → passed idx = rounds idx) →
          prio ≤ (Scheduler.pickPriority links left (prio + 1) passed).1 ∧
            ∀ idx < prio,
              (Scheduler.pickPriority links left (prio + 1) passed).2 idx = rounds idx := by
        intro passed hpassed
        obtain ⟨hle, hkept⟩ := ih (prio + 1) passed
        exact ⟨by omega, fun idx hidx =>
          (hkept idx (by omega)).trans (hpassed idx (Nat.ne_of_lt hidx))⟩
      rw [Scheduler.pickPriority]
      split
      · exact hpassed _ fun idx hne => Function.update_of_ne hne _ _
      · split
        · exact ⟨Nat.le_refl prio, fun _ _ => rfl⟩
        · exact hpassed rounds fun _ _ => rfl

/-! ## One turn -/

/-- What `schedule` has selected when it gives the processor to somebody. -/
def picked (sched : Scheduler) : Nat × (Nat → Nat) :=
  Scheduler.pickPriority sched.links (priorityKind - sched.maxPriority) sched.maxPriority
    sched.maxRounds

theorem selectNext_eq {prio : Nat} {rounds : Nat → Nat} (hpicked : picked sched = (prio, rounds)) :
    sched.selectNext =
      if sched.priority sched.curProc = prio then
        { sched with
          nextProc := (readyProcesses prio).nextElem sched.links (.elem sched.curProc)
          maxRounds := Function.update rounds prio (decrement (rounds prio)) }
      else if prio < priorityKind then
        { sched with nextProc := (readyProcesses prio).firstElem sched.links, maxRounds := rounds }
      else { sched with nextProc := .null, maxRounds := rounds } := by
  unfold Scheduler.selectNext
  rw [← picked, hpicked]

theorem Settled.schedule_eq (hsettled : Settled sched started queue) :
    sched.schedule = (sched.setStatus sched.curProc .ready).selectNext.switchTo := by
  have hrunning := (hsettled.running_iff _ hsettled.cur_started).mpr rfl
  rw [Scheduler.schedule, Scheduler.leaveCurrent, if_pos hrunning]

theorem Settled.procYield_eq (hsettled : Settled sched started queue) :
    sched.procYield = sched.schedule := by
  rw [hsettled.schedule_eq, Scheduler.procYield, Scheduler.schedule, Scheduler.leaveCurrent]
  simp [Scheduler.setStatus]

/-- The queue of the current process is selected: its successor gets the turn, and
the turn counts as a round. -/
theorem Settled.schedule_again (hsettled : Settled sched started queue) {prio pos : Nat}
    {rounds : Nat → Nat} (hpicked : picked sched = (prio, rounds))
    (hcur : sched.priority sched.curProc = prio)
    (hpos : (queue prio)[pos % (queue prio).length]? = some sched.curProc) :
    (queue prio)[(pos + 1) % (queue prio).length]? = some sched.schedule.curProc ∧
      sched.schedule.maxRounds = Function.update rounds prio (decrement (rounds prio)) := by
  have hholds := hsettled.linked prio (hcur ▸ hsettled.priority_lt _ hsettled.cur_started)
  have hlt := (List.getElem?_eq_some_iff.mp hpos).1
  have hnextLt : (pos + 1) % (queue prio).length < (queue prio).length :=
    Nat.mod_lt _ (Nat.zero_lt_of_lt hlt)
  have hnext : (readyProcesses prio).nextElem sched.links (.elem sched.curProc) =
      .elem (queue prio)[(pos + 1) % (queue prio).length] := by
    have hsuccessor := hholds.getElem?_nextElem (by rw [List.getElem?_map, hpos, Option.map_some])
    rw [List.length_map, Nat.mod_add_mod, List.getElem?_map,
      List.getElem?_eq_getElem hnextLt] at hsuccessor
    exact (Option.some.inj hsuccessor).symm
  have hselect : (sched.setStatus sched.curProc .ready).selectNext =
      { sched.setStatus sched.curProc .ready with
        nextProc := .elem (queue prio)[(pos + 1) % (queue prio).length]
        maxRounds := Function.update rounds prio (decrement (rounds prio)) } := by
    rw [@selectNext_eq (sched.setStatus sched.curProc .ready) _ _ hpicked]
    exact (if_pos hcur).trans (by rw [← hnext]; rfl)
  rw [hsettled.schedule_eq, hselect]
  exact ⟨List.getElem?_eq_getElem hnextLt, rfl⟩

/-- Another queue is selected: its first member gets the turn. -/
theorem Settled.schedule_other (hsettled : Settled sched started queue) {prio : Nat}
    {rounds : Nat → Nat} (hpicked : picked sched = (prio, rounds))
    (hprio : prio < priorityKind) (hqueue : queue prio ≠ [])
    (hcur : sched.priority sched.curProc ≠ prio) :
    (queue prio)[0]? = some sched.schedule.curProc ∧ sched.schedule.maxRounds = rounds := by
  have hholds := hsettled.linked prio hprio
  obtain ⟨first, rest, hsplit⟩ := List.exists_cons_of_ne_nil hqueue
  have hfirst : (readyProcesses prio).firstElem sched.links = .elem first := by
    have hempty := (hsettled.isEmpty_iff hprio).not.mpr hqueue
    rw [CycleList.firstElem, if_neg hempty, hholds.next_head, hsplit]
    rfl
  have hselect : (sched.setStatus sched.curProc .ready).selectNext =
      { sched.setStatus sched.curProc .ready with nextProc := .elem first, maxRounds := rounds } := by
    rw [@selectNext_eq (sched.setStatus sched.curProc .ready) _ _ hpicked]
    exact (if_neg hcur).trans ((if_pos hprio).trans (by rw [← hfirst]; rfl))
  rw [hsettled.schedule_eq, hselect, hsplit]
  exact ⟨rfl, rfl⟩

theorem Consistent.priority_of_getElem? (hcons : Consistent sched started queue) {idx pos : Nat}
    {proc : Addr} (hproc : (queue idx)[pos]? = some proc) : sched.priority proc = idx :=
  ((hcons.mem_iff idx proc).mp (List.mem_of_getElem? hproc)).2.1

/-- Whatever queue has been selected, a member of it gets the turn, and only its
own rounds can go down. -/
theorem Settled.schedule_served (hsettled : Settled sched started queue) {prio : Nat}
    {rounds : Nat → Nat} (hpicked : picked sched = (prio, rounds)) (hprio : prio < priorityKind)
    (hqueue : queue prio ≠ []) :
    sched.schedule.priority sched.schedule.curProc = prio ∧
      (∀ idx, idx ≠ prio → sched.schedule.maxRounds idx = rounds idx) := by
  by_cases hcur : sched.priority sched.curProc = prio
  · obtain ⟨pos, hpos, hget⟩ := List.mem_iff_getElem.mp (hcur ▸ hsettled.cur_mem)
    have hat : (queue prio)[pos % (queue prio).length]? = some sched.curProc := by
      rw [Nat.mod_eq_of_lt hpos, List.getElem?_eq_getElem hpos, hget]
    obtain ⟨hserved, hrounds⟩ := hsettled.schedule_again hpicked hcur hat
    refine ⟨hsettled.schedule.priority_of_getElem? hserved, fun idx hne => ?_⟩
    rw [hrounds, Function.update_of_ne hne]
  · obtain ⟨hserved, hrounds⟩ := hsettled.schedule_other hpicked hprio hqueue hcur
    exact ⟨hsettled.schedule.priority_of_getElem? hserved, fun idx _ => by rw [hrounds]⟩

/-- The queues before the first that is not empty do not matter. -/
theorem picked_skip (hcons : Consistent sched started queue) {first : Nat}
    (hfirst : first < priorityKind) (hne : queue first ≠ [])
    (hempty : ∀ idx < first, queue idx = []) :
    ∃ rounds : Nat → Nat, (∀ idx, first ≤ idx → rounds idx = sched.maxRounds idx) ∧
      picked sched = Scheduler.pickPriority sched.links (priorityKind - first) first rounds := by
  have hmax := hcons.maxPriority_le first hfirst hne
  obtain ⟨rounds, hkept, hskip⟩ := pickPriority_skip hcons (priorityKind - first)
    (first - sched.maxPriority) sched.maxPriority (by omega)
    (fun idx _ hlt => hempty idx (by omega)) sched.maxRounds
  have hleft : priorityKind - sched.maxPriority =
      priorityKind - first + (first - sched.maxPriority) := by omega
  rw [Nat.add_sub_cancel' hmax] at hkept hskip
  exact ⟨rounds, fun idx hle => hkept idx (.inr hle), by rw [picked, hleft, hskip]⟩

theorem picked_stay (hcons : Consistent sched started queue) {first : Nat}
    (hfirst : first < priorityKind) (hne : queue first ≠ [])
    (hempty : ∀ idx < first, queue idx = []) (hrounds : sched.maxRounds first ≠ 0 ∨ 3 ≤ first) :
    ∃ rounds : Nat → Nat, (∀ idx, first ≤ idx → rounds idx = sched.maxRounds idx) ∧
      picked sched = (first, rounds) := by
  obtain ⟨rounds, hkept, hpicked⟩ := picked_skip hcons hfirst hne hempty
  have hleft : priorityKind - first = priorityKind - first - 1 + 1 := by omega
  refine ⟨rounds, hkept, ?_⟩
  rw [hpicked, hleft]
  apply pickPriority_stay hcons hfirst hne
  rwa [hkept first (Nat.le_refl first)]

theorem picked_spec (hcons : Consistent sched started queue) :
    (picked sched).1 < priorityKind ∧ queue (picked sched).1 ≠ [] ∧
      ((picked sched).1 < 3 → (picked sched).2 (picked sched).1 ≠ 0) := by
  have hmax : sched.maxPriority ≤ priorityE :=
    hcons.maxPriority_le priorityE (by decide) hcons.queue_init_ne_nil
  obtain ⟨hle, hne, -, hrounds⟩ := pickPriority_spec hcons (priorityKind - sched.maxPriority)
    sched.maxPriority sched.maxRounds (Nat.sub_add_cancel (hmax.trans (by decide))) hmax
    hcons.rounds_le
  exact ⟨Nat.lt_of_le_of_lt hle (by decide), hne, hrounds⟩

theorem Settled.iterate (hsettled : Settled sched started queue) (turns : Nat) :
    Settled (Scheduler.schedule^[turns] sched) started queue := by
  induction turns with
  | zero => exact hsettled
  | succ turns ih =>
      rw [Function.iterate_succ_apply']
      exact ih.schedule

/-! ## Counted priorities -/

/-- The first queue that is not empty has a counted priority; the next one that is
not empty follows it. -/
structure Counted (queue : Nat → List Addr) (first second : Nat) : Prop where
  first_lt : first < 3
  lt : first < second
  second_lt : second < priorityKind
  first_ne : queue first ≠ []
  second_ne : queue second ≠ []
  empty : ∀ idx < second, idx ≠ first → queue idx = []

/-- Who has the processor in a turn of the cycle of twelve turns. -/
def serving (queue : Nat → List Addr) (first second turn : Nat) : Option Addr :=
  if turn % 12 < 11 then (queue first)[turn % 12 % (queue first).length]? else (queue second)[0]?

/-- The scheduler is in a turn of the cycle. -/
structure OnTurn (sched : Scheduler) (queue : Nat → List Addr) (first second turn : Nat) :
    Prop where
  cur : serving queue first second turn = some sched.curProc
  rounds : sched.maxRounds first = if turn % 12 < 11 then 10 - turn % 12 else 10
  next_rounds : sched.maxRounds second ≠ 0 ∨ 3 ≤ second

variable {first second turn : Nat}

namespace Counted

theorem first_lt_kind (hcounted : Counted queue first second) : first < priorityKind :=
  hcounted.lt.trans hcounted.second_lt

theorem empty_before (hcounted : Counted queue first second) : ∀ idx < first, queue idx = [] :=
  fun idx hlt => hcounted.empty idx (hlt.trans hcounted.lt) (Nat.ne_of_lt hlt)

/-- Without rounds the first queue is passed over. -/
theorem picked_pass (hcounted : Counted queue first second)
    (hcons : Consistent sched started queue) (hrounds : sched.maxRounds first = 0) :
    ∃ rounds : Nat → Nat, rounds first = 10 ∧
      (∀ idx, second ≤ idx → rounds idx = sched.maxRounds idx) ∧
      picked sched = Scheduler.pickPriority sched.links (priorityKind - second) second rounds := by
  have hlt := hcounted.lt
  have hsecond := hcounted.second_lt
  obtain ⟨passed, hpassed, hpicked⟩ :=
    picked_skip hcons hcounted.first_lt_kind hcounted.first_ne hcounted.empty_before
  have hleft : priorityKind - first = priorityKind - (first + 1) + 1 := by omega
  rw [hleft, pickPriority_pass _ (by rw [hpassed first (Nat.le_refl first), hrounds])
    hcounted.first_lt] at hpicked
  obtain ⟨rounds, hkept, hskip⟩ := pickPriority_skip hcons (priorityKind - second)
    (second - (first + 1)) (first + 1) (by omega)
    (fun idx hle hidx => hcounted.empty idx (by omega) (by omega))
    (Function.update passed first 10)
  have hleft' : priorityKind - (first + 1) = priorityKind - second + (second - (first + 1)) := by
    omega
  rw [Nat.add_sub_cancel' hlt] at hkept hskip
  refine ⟨rounds, ?_, fun idx hle => ?_, by rw [hpicked, hleft', hskip]⟩
  · rw [hkept first (.inl (Nat.lt_succ_self first)), Function.update_self]
  · rw [hkept idx (.inr hle), Function.update_of_ne (by omega), hpassed idx (by omega)]

/-- Without rounds for the first queue a later queue gets the turn. Unless the
current process is already of a later queue, the second queue keeps a round. -/
theorem schedule_pass (hcounted : Counted queue first second)
    (hsettled : Settled sched started queue) (hrounds : sched.maxRounds first = 0) :
    sched.schedule.priority sched.schedule.curProc ≠ first ∧
      sched.schedule.maxRounds first = 10 ∧
      (sched.priority sched.curProc = first →
        sched.schedule.maxRounds second ≠ 0 ∨ 3 ≤ second) := by
  have hcons := hsettled.toConsistent
  obtain ⟨passed, hfirst, -, hpicked⟩ := hcounted.picked_pass hcons hrounds
  obtain ⟨hprio, hqueue, hleft⟩ := picked_spec hcons
  have hbehind : second ≤ (picked sched).1 ∧ (picked sched).2 first = 10 := by
    obtain ⟨hle, hkept⟩ := pickPriority_behind sched.links (priorityKind - second) second passed
    rw [hpicked]
    exact ⟨hle, (hkept first hcounted.lt).trans hfirst⟩
  have hsecond : (picked sched).2 second ≠ 0 ∨ 3 ≤ second := by
    have hsucc : priorityKind - second = priorityKind - second - 1 + 1 := by
      have hlt := hcounted.second_lt
      omega
    by_cases hpass : passed second = 0 ∧ second < 3
    · obtain ⟨-, hkept⟩ := pickPriority_behind sched.links (priorityKind - second - 1) (second + 1)
        (Function.update passed second 10)
      rw [hpicked, hsucc, pickPriority_pass sched.links hpass.1 hpass.2,
        hkept second (Nat.lt_succ_self second), Function.update_self]
      exact .inl (by decide)
    · rw [not_and_or, not_lt] at hpass
      rw [hpicked, hsucc, pickPriority_stay hcons hcounted.second_lt hcounted.second_ne hpass]
      exact hpass
  have hne : (picked sched).1 ≠ first := (Nat.ne_of_lt (hcounted.lt.trans_le hbehind.1)).symm
  obtain ⟨hserved, hkept⟩ := hsettled.schedule_served rfl hprio hqueue
  refine ⟨hserved.trans_ne hne, (hkept first hne.symm).trans hbehind.2, fun hcur => ?_⟩
  have hother : sched.priority sched.curProc ≠ (picked sched).1 := hcur.trans_ne hne.symm
  rw [(hsettled.schedule_other rfl hprio hqueue hother).2]
  exact hsecond

/-- With rounds left the first queue goes on. -/
theorem schedule_on (hcounted : Counted queue first second)
    (hsettled : Settled sched started queue) (hrounds : sched.maxRounds first ≠ 0) {pos : Nat}
    (hpos : (queue first)[pos % (queue first).length]? = some sched.curProc) :
    (queue first)[(pos + 1) % (queue first).length]? = some sched.schedule.curProc ∧
      sched.schedule.maxRounds first = sched.maxRounds first - 1 ∧
      sched.schedule.maxRounds second = sched.maxRounds second := by
  obtain ⟨rounds, hkept, hpicked⟩ := picked_stay hsettled.toConsistent hcounted.first_lt_kind
    hcounted.first_ne hcounted.empty_before (.inl hrounds)
  obtain ⟨hserved, hupdate⟩ :=
    hsettled.schedule_again hpicked (hsettled.priority_of_getElem? hpos) hpos
  have hle := hsettled.rounds_le first hcounted.first_lt
  have hlt := hcounted.lt
  refine ⟨hserved, ?_, ?_⟩
  · rw [hupdate, Function.update_self, hkept first (Nat.le_refl first)]
    unfold decrement
    omega
  · rw [hupdate, Function.update_of_ne (Nat.ne_of_gt hlt), hkept second (Nat.le_of_lt hlt)]

/-- With rounds left the first queue gets the processor back, at its first member. -/
theorem schedule_back (hcounted : Counted queue first second)
    (hsettled : Settled sched started queue) (hrounds : sched.maxRounds first ≠ 0)
    (hcur : sched.priority sched.curProc ≠ first) :
    (queue first)[0]? = some sched.schedule.curProc ∧
      sched.schedule.maxRounds first = sched.maxRounds first ∧
      sched.schedule.maxRounds second = sched.maxRounds second := by
  obtain ⟨rounds, hkept, hpicked⟩ := picked_stay hsettled.toConsistent hcounted.first_lt_kind
    hcounted.first_ne hcounted.empty_before (.inl hrounds)
  obtain ⟨hserved, hrounds'⟩ :=
    hsettled.schedule_other hpicked hcounted.first_lt_kind hcounted.first_ne hcur
  rw [hrounds']
  exact ⟨hserved, hkept first (Nat.le_refl first), hkept second (Nat.le_of_lt hcounted.lt)⟩

/-- One turn of the cycle follows the other. -/
theorem schedule_step (hcounted : Counted queue first second)
    (hsettled : Settled sched started queue) (hturn : OnTurn sched queue first second turn) :
    OnTurn sched.schedule queue first second (turn + 1) := by
  have hcons := hsettled.toConsistent
  have hcur := hturn.cur
  have hrounds := hturn.rounds
  have hnextRounds := hturn.next_rounds
  unfold serving at hcur
  have hmod : (turn + 1) % 12 = if turn % 12 < 11 then turn % 12 + 1 else 0 := by
    split <;> omega
  by_cases hin : turn % 12 < 11
  · rw [if_pos hin] at hcur hrounds hmod
    by_cases hlast : turn % 12 = 10
    · -- the rounds are used up, and the second queue gets its one turn
      obtain ⟨passed, hpassed, hkept, hpicked⟩ := hcounted.picked_pass hcons (by omega)
      have hsecond := hkept second (Nat.le_refl second)
      have hsucc : priorityKind - second = priorityKind - second - 1 + 1 := by
        have hlt := hcounted.second_lt
        omega
      rw [hsucc, pickPriority_stay hcons hcounted.second_lt hcounted.second_ne
        (by rwa [hsecond])] at hpicked
      have hne : sched.priority sched.curProc ≠ second :=
        (hsettled.priority_of_getElem? hcur).trans_ne (Nat.ne_of_lt hcounted.lt)
      obtain ⟨hserved, hrounds'⟩ :=
        hsettled.schedule_other hpicked hcounted.second_lt hcounted.second_ne hne
      have hmod' : ¬ (turn + 1) % 12 < 11 := by omega
      refine ⟨?_, ?_, ?_⟩
      · rw [serving, if_neg hmod', hserved]
      · rw [hrounds', if_neg hmod', hpassed]
      · rwa [hrounds', hsecond]
    · obtain ⟨hserved, hfirst, hsecond⟩ := hcounted.schedule_on hsettled (by omega) hcur
      have hmod' : (turn + 1) % 12 < 11 := by omega
      refine ⟨?_, ?_, ?_⟩
      · rw [serving, if_pos hmod', hmod, hserved]
      · rw [hfirst, if_pos hmod', hmod, hrounds]
        omega
      · rwa [hsecond]
  · rw [if_neg hin] at hcur hrounds hmod
    have hne : sched.priority sched.curProc ≠ first :=
      (hsettled.priority_of_getElem? hcur).trans_ne (Nat.ne_of_gt hcounted.lt)
    obtain ⟨hserved, hfirst, hsecond⟩ := hcounted.schedule_back hsettled (by omega) hne
    refine ⟨?_, ?_, ?_⟩
    · rw [serving, hmod, if_pos (by decide), Nat.zero_mod, hserved]
    · rw [hfirst, hmod, hrounds]
      rfl
    · rwa [hsecond]

/-! ### Into the cycle -/

theorem onTurn_of_back (hcounted : Counted queue first second)
    (hsettled : Settled sched started queue) (hrounds : sched.maxRounds first = 10)
    (hsecond : sched.maxRounds second ≠ 0 ∨ 3 ≤ second)
    (hcur : sched.priority sched.curProc ≠ first) :
    OnTurn sched.schedule queue first second 0 := by
  obtain ⟨hserved, hfirst, hkept⟩ := hcounted.schedule_back hsettled (by omega) hcur
  exact ⟨by rw [serving, if_pos (by decide), Nat.zero_mod, hserved],
    hfirst.trans hrounds, by rwa [hkept]⟩

/-- The first queue uses up its rounds, another queue gets a turn, and the cycle begins. -/
theorem onTurn_of_first (hcounted : Counted queue first second)
    (hsettled : Settled sched started queue)
    (hcur : sched.priority sched.curProc = first) :
    OnTurn (Scheduler.schedule^[sched.maxRounds first + 2] sched) queue first second 0 := by
  generalize hleft : sched.maxRounds first = left
  induction left generalizing sched with
  | zero =>
      obtain ⟨hne, hfirst, hsecond⟩ := hcounted.schedule_pass hsettled hleft
      exact hcounted.onTurn_of_back hsettled.schedule hfirst (hsecond hcur) hne
  | succ left ih =>
      obtain ⟨pos, hpos, hget⟩ := List.mem_iff_getElem.mp (hcur ▸ hsettled.cur_mem)
      have hat : (queue first)[pos % (queue first).length]? = some sched.curProc := by
        rw [Nat.mod_eq_of_lt hpos, List.getElem?_eq_getElem hpos, hget]
      obtain ⟨hserved, hfirst, -⟩ := hcounted.schedule_on hsettled (by omega) hat
      have hrest := ih hsettled.schedule (hsettled.schedule.priority_of_getElem? hserved)
        (by omega)
      exact hrest

theorem onTurn_of_rounds (hcounted : Counted queue first second)
    (hsettled : Settled sched started queue) (hrounds : sched.maxRounds first ≠ 0) :
    ∃ start ≤ 13, OnTurn (Scheduler.schedule^[start] sched) queue first second 0 := by
  have hle := hsettled.rounds_le first hcounted.first_lt
  by_cases hcur : sched.priority sched.curProc = first
  · exact ⟨_, by omega, hcounted.onTurn_of_first hsettled hcur⟩
  · obtain ⟨hserved, hfirst, -⟩ := hcounted.schedule_back hsettled hrounds hcur
    have hrest := hcounted.onTurn_of_first hsettled.schedule
      (hsettled.schedule.priority_of_getElem? hserved)
    exact ⟨sched.schedule.maxRounds first + 2 + 1, by omega, hrest⟩

/-- The cycle is reached from everywhere. -/
theorem exists_onTurn (hcounted : Counted queue first second)
    (hsettled : Settled sched started queue) :
    ∃ start ≤ 14, OnTurn (Scheduler.schedule^[start] sched) queue first second 0 := by
  by_cases hrounds : sched.maxRounds first = 0
  · obtain ⟨-, hfirst, -⟩ := hcounted.schedule_pass hsettled hrounds
    obtain ⟨start, hle, hturn⟩ := hcounted.onTurn_of_rounds hsettled.schedule (by omega)
    exact ⟨start + 1, by omega, hturn⟩
  · obtain ⟨start, hle, hturn⟩ := hcounted.onTurn_of_rounds hsettled hrounds
    exact ⟨start, by omega, hturn⟩

end Counted

/-- Without a counted priority every call goes round the first queue. -/
theorem Settled.schedule_round (hsettled : Settled sched started queue) {first : Nat}
    (hfirst : first < priorityKind) (huncounted : 3 ≤ first) (hne : queue first ≠ [])
    (hempty : ∀ idx < first, queue idx = []) :
    ∃ pos, ∀ turn, (queue first)[(pos + turn) % (queue first).length]? =
      some (Scheduler.schedule^[turn + 1] sched).curProc := by
  have hpicked : ∀ before : Scheduler, Settled before started queue →
      ∃ rounds : Nat → Nat, (∀ idx, first ≤ idx → rounds idx = before.maxRounds idx) ∧
        picked before = (first, rounds) :=
    fun before hbefore => picked_stay hbefore.toConsistent hfirst hne hempty (.inr huncounted)
  obtain ⟨rounds, -, hnow⟩ := hpicked sched hsettled
  have hserved := (hsettled.schedule_served hnow hfirst hne).1
  obtain ⟨pos, hpos, hget⟩ := List.mem_iff_getElem.mp (hserved ▸ hsettled.schedule.cur_mem)
  refine ⟨pos, fun turn => ?_⟩
  induction turn with
  | zero =>
      rw [Nat.add_zero, Nat.mod_eq_of_lt hpos, List.getElem?_eq_getElem hpos, hget]
      rfl
  | succ turn ih =>
      have hbefore : Settled (Scheduler.schedule^[turn + 1] sched) started queue :=
        hsettled.iterate (turn + 1)
      obtain ⟨rounds, -, hnow⟩ := hpicked _ hbefore
      rw [Function.iterate_succ_apply']
      exact (hbefore.schedule_again hnow (hbefore.priority_of_getElem? ih) ih).1

/-! ## Runs -/

/-- The same state with other time accounts. -/
def withTimes (sched : Scheduler) (ticks elapsedTicks : Addr → Nat) (timerTicks : Nat) :
    Scheduler :=
  { sched with ticks := ticks, elapsedTicks := elapsedTicks, timerTicks := timerTicks }

/-- The choices of `schedule` do not look at the time accounts. -/
theorem schedule_withTimes (sched : Scheduler) (ticks elapsedTicks : Addr → Nat)
    (timerTicks : Nat) :
    (withTimes sched ticks elapsedTicks timerTicks).schedule =
      withTimes sched.schedule ticks elapsedTicks timerTicks := by
  have hleave : ∀ before, (withTimes before ticks elapsedTicks timerTicks).leaveCurrent =
      withTimes before.leaveCurrent ticks elapsedTicks timerTicks := by
    intro before
    unfold Scheduler.leaveCurrent
    rw [apply_ite (withTimes · ticks elapsedTicks timerTicks),
      apply_ite (withTimes · ticks elapsedTicks timerTicks)]
    rfl
  have hselect : ∀ before, (withTimes before ticks elapsedTicks timerTicks).selectNext =
      withTimes before.selectNext ticks elapsedTicks timerTicks := by
    intro before
    rw [@selectNext_eq before _ _ rfl, apply_ite (withTimes · ticks elapsedTicks timerTicks),
      apply_ite (withTimes · ticks elapsedTicks timerTicks)]
    exact selectNext_eq rfl
  have hswitch : ∀ before, (withTimes before ticks elapsedTicks timerTicks).switchTo =
      withTimes before.switchTo ticks elapsedTicks timerTicks := by
    intro before
    cases hnext : before.nextProc <;>
      simp [Scheduler.switchTo, withTimes, Scheduler.setStatus, hnext]
  rw [Scheduler.schedule, hleave, hselect, hswitch, Scheduler.schedule]

/-- What a timer interrupt charges, and whether it goes on to `schedule`. -/
theorem timerHandler_eq (sched : Scheduler) :
    sched.timerHandler =
      if sched.ticks sched.curProc = 0 then
        withTimes sched.schedule sched.ticks (Function.update sched.elapsedTicks sched.curProc
          (sched.elapsedTicks sched.curProc + 1)) (sched.timerTicks + 1)
      else
        withTimes sched
          (Function.update sched.ticks sched.curProc (sched.ticks sched.curProc - 1))
          (Function.update sched.elapsedTicks sched.curProc
            (sched.elapsedTicks sched.curProc + 1)) (sched.timerTicks + 1) := by
  rw [← schedule_withTimes]
  rfl

theorem Settled.withTimes (hsettled : Settled sched started queue)
    (ticks elapsedTicks : Addr → Nat) (timerTicks : Nat) :
    Settled (withTimes sched ticks elapsedTicks timerTicks) started queue :=
  { hsettled with }

/-- One call is a number of turns, up to the time accounts. -/
theorem Settled.step_withTimes {sys next : SchedulerSystem} {op : SchedulerOp}
    (hsettled : Settled sys.sched sys.started queue) (hpreempts : op.Preempts)
    (hstep : sys.step op = some next) :
    ∃ ticks elapsedTicks timerTicks, next.started = sys.started ∧ next.sched =
      SchedulerSystem.withTimes (if sys.Switches op then sys.sched.schedule else sys.sched)
        ticks elapsedTicks timerTicks := by
  cases op with
  | timer =>
      cases hstep
      change ∃ ticks elapsedTicks timerTicks, sys.started = sys.started ∧
        sys.sched.timerHandler = _
      rw [timerHandler_eq]
      by_cases hticks : sys.sched.ticks sys.sched.curProc = 0
      · have hswitches : sys.Switches .timer := hticks
        rw [if_pos hticks, if_pos hswitches]
        exact ⟨_, _, _, rfl, rfl⟩
      · have hswitches : ¬ sys.Switches .timer := hticks
        rw [if_neg hticks, if_neg hswitches]
        exact ⟨_, _, _, rfl, rfl⟩
  | schedule =>
      cases hstep
      exact ⟨_, _, _, rfl, rfl⟩
  | procYield =>
      cases hstep
      exact ⟨_, _, _, rfl, hsettled.procYield_eq⟩
  | startProcess | selfBlock | unblockProc => exact hpreempts.elim

/-- A run of preemptions is as many turns as it has calls of `schedule`. -/
theorem Settled.run_withTimes {sys final : SchedulerSystem} {ops : List SchedulerOp}
    (hsettled : Settled sys.sched sys.started queue) (hrun : Preemption sys ops final) :
    ∃ ticks elapsedTicks timerTicks, final.started = sys.started ∧ final.sched =
      SchedulerSystem.withTimes (Scheduler.schedule^[sys.switches ops] sys.sched)
        ticks elapsedTicks timerTicks := by
  induction hrun with
  | nil => exact ⟨_, _, _, rfl, rfl⟩
  | @snoc ops before next op hbefore hpreempts hnext ih =>
      obtain ⟨ticks, elapsedTicks, timerTicks, hstarted, hsched⟩ := ih
      have hnow : Settled before.sched before.started queue := by
        rw [hsched, hstarted]
        exact (hsettled.iterate _).withTimes ticks elapsedTicks timerTicks
      obtain ⟨ticks', elapsedTicks', timerTicks', hstarted', hsched'⟩ :=
        hnow.step_withTimes hpreempts hnext
      refine ⟨ticks', elapsedTicks', timerTicks', hstarted'.trans hstarted, ?_⟩
      rw [hsched', switches, hbefore.occurrences_snoc hnext]
      split
      · rw [hsched, schedule_withTimes, Function.iterate_succ_apply']
        rfl
      · rw [hsched]
        rfl

/-- The first queue of a range that is not empty. -/
theorem exists_first_queue {below last : Nat} (hbelow : below ≤ last) (hlast : queue last ≠ []) :
    ∃ first, below ≤ first ∧ first ≤ last ∧ queue first ≠ [] ∧
      ∀ idx, below ≤ idx → idx < first → queue idx = [] := by
  have hexists : ∃ idx, below ≤ idx ∧ queue idx ≠ [] := ⟨last, hbelow, hlast⟩
  obtain ⟨hle, hne⟩ := Nat.find_spec hexists
  refine ⟨Nat.find hexists, hle, Nat.find_min' hexists ⟨hbelow, hlast⟩, hne, fun idx hidx hlt => ?_⟩
  by_contra hnot
  exact Nat.find_min hexists hlt ⟨hidx, hnot⟩

theorem Consistent.counted_or (hcons : Consistent sched started queue) :
    (∃ first second, Counted queue first second) ∨
      ∃ first, 3 ≤ first ∧ first < priorityKind ∧ queue first ≠ [] ∧
        ∀ idx < first, queue idx = [] := by
  have hlast := hcons.queue_init_ne_nil
  obtain ⟨first, -, hle, hfirst, hempty⟩ := exists_first_queue (Nat.zero_le priorityE) hlast
  by_cases hcounted : first < 3
  · obtain ⟨second, hlt, hle', hsecond, hbetween⟩ :=
      exists_first_queue (show first + 1 ≤ priorityE by simp only [priorityE]; omega) hlast
    refine .inl ⟨first, second, hcounted, hlt, ?_, hfirst, hsecond, fun idx hidx hne => ?_⟩
    · exact Nat.lt_of_le_of_lt hle' (by decide)
    · rcases Nat.lt_or_gt_of_ne hne with hbefore | hafter
      · exact hempty idx (Nat.zero_le idx) hbefore
      · exact hbetween idx hafter hidx
  · exact .inr ⟨first, Nat.not_lt.mp hcounted, Nat.lt_of_le_of_lt hle (by decide), hfirst,
      fun idx hlt => hempty idx (Nat.zero_le idx) hlt⟩

theorem Counted.onTurn_iterate (hcounted : Counted queue first second)
    (hsettled : Settled sched started queue) (hturn : OnTurn sched queue first second 0)
    (turn : Nat) : OnTurn (Scheduler.schedule^[turn] sched) queue first second turn := by
  induction turn with
  | zero => exact hturn
  | succ turn ih =>
      rw [Function.iterate_succ_apply']
      exact hcounted.schedule_step (hsettled.iterate turn) ih

/-- From every reachable state on, as long as processes are only preempted, the
processor goes round. If the first queue that is not empty has a counted priority,
then after at most fourteen calls of `schedule` the choices repeat in cycles of
twelve: eleven turns of that queue in order, from its first member on, and one turn
of the first member of the next queue that is not empty. Otherwise every call goes
on to the next member of the first queue that is not empty. -/
theorem schedule_goes_round (memory : Scheduler) (pid : Int) (ops : List SchedulerOp)
    (sys : SchedulerSystem) (hrun : Run step Admits (boot memory pid) ops sys) :
    ∃ queue : Nat → List Addr, Linked sys.sched queue ∧
      ((∃ first second, Counted queue first second ∧ ∃ start ≤ 14,
          ∀ more final, Preemption sys more final →
            ∀ turn, sys.switches more = start + turn →
              serving queue first second turn = some final.sched.curProc) ∨
        ∃ first, 3 ≤ first ∧ first < priorityKind ∧ queue first ≠ [] ∧
          (∀ idx < first, queue idx = []) ∧ ∃ pos,
          ∀ more final, Preemption sys more final →
            ∀ turn, sys.switches more = turn + 1 →
              (queue first)[(pos + turn) % (queue first).length]? = some final.sched.curProc) := by
  obtain ⟨queue, hsettled⟩ := run_settled hrun
  have hcur : ∀ {more : List SchedulerOp} {final : SchedulerSystem}, Preemption sys more final →
      final.sched.curProc = (Scheduler.schedule^[sys.switches more] sys.sched).curProc := by
    intro more final hmore
    obtain ⟨_, _, _, -, hsched⟩ := hsettled.run_withTimes hmore
    rw [hsched]
    rfl
  refine ⟨queue, hsettled.linked, ?_⟩
  rcases hsettled.counted_or with ⟨first, second, hcounted⟩ | ⟨first, huncounted, hlt, hne, hempty⟩
  · obtain ⟨start, hle, hstart⟩ := hcounted.exists_onTurn hsettled
    refine .inl ⟨first, second, hcounted, start, hle, fun more final hmore turn hswitches => ?_⟩
    have hturn := hcounted.onTurn_iterate (hsettled.iterate start) hstart turn
    rw [hcur hmore, hswitches, Nat.add_comm, Function.iterate_add_apply]
    exact hturn.cur
  · obtain ⟨pos, hround⟩ := hsettled.schedule_round hlt huncounted hne hempty
    refine .inr ⟨first, huncounted, hlt, hne, hempty, pos, fun more final hmore turn hswitches => ?_⟩
    rw [hcur hmore, hswitches]
    exact hround turn

/-- After a server of priority 1 has been started, the init process shares the
processor with it. -/
theorem schedule_goes_round_two :
    ∃ sys queue, Run step Admits (boot .zeroed 0) [.startProcess 0x91000 2 1] sys ∧
      Linked sys.sched queue ∧ sys.switches [.timer, .procYield, .schedule] = 2 := by
  have hrun := Run.of_exec step Admits (boot .zeroed 0) [.startProcess 0x91000 2 1] rfl
  obtain ⟨queue, hlinked, -⟩ := schedule_goes_round _ _ _ _ hrun
  exact ⟨_, queue, hrun, hlinked, by decide⟩

/-! ## Time slices -/

/-- A timer interrupt hits the process. -/
def Interrupts (proc : Addr) (sys : SchedulerSystem) : SchedulerOp → Prop
  | .timer => sys.sched.curProc = proc
  | .schedule | .procYield | .selfBlock _ | .startProcess .. | .unblockProc _ => False

instance (proc : Addr) (sys : SchedulerSystem) :
    (op : SchedulerOp) → Decidable (sys.Interrupts proc op)
  | .timer => inferInstanceAs (Decidable (sys.sched.curProc = proc))
  | .schedule | .procYield | .selfBlock _ | .startProcess .. | .unblockProc _ => .isFalse id

/-- How often the timer has interrupted a process. -/
def interruptions (proc : Addr) : SchedulerSystem → List SchedulerOp → Nat :=
  occurrences step fun sys op => sys.Interrupts proc op

theorem schedule_accounts (sched : Scheduler) :
    sched.schedule.ticks = sched.ticks ∧ sched.schedule.priority = sched.priority := by
  have hleave : sched.leaveCurrent.ticks = sched.ticks ∧
      sched.leaveCurrent.priority = sched.priority := by
    unfold Scheduler.leaveCurrent
    split
    · exact ⟨rfl, rfl⟩
    · split <;> exact ⟨rfl, rfl⟩
  have hselect : ∀ before : Scheduler, before.selectNext.ticks = before.ticks ∧
      before.selectNext.priority = before.priority := by
    intro before
    rw [@selectNext_eq before _ _ rfl]
    split
    · exact ⟨rfl, rfl⟩
    · split <;> exact ⟨rfl, rfl⟩
  have hswitch : ∀ before : Scheduler, before.switchTo.ticks = before.ticks ∧
      before.switchTo.priority = before.priority := by
    intro before
    unfold Scheduler.switchTo
    split <;> exact ⟨rfl, rfl⟩
  rw [Scheduler.schedule, (hswitch _).1, (hswitch _).2, (hselect _).1, (hselect _).2]
  exact hleave

theorem selfBlock_accounts (sched : Scheduler) (status : ProcessStatus) :
    (sched.selfBlock status).ticks = sched.ticks ∧
      (sched.selfBlock status).priority = sched.priority := by
  unfold Scheduler.selfBlock
  split <;> exact schedule_accounts _

theorem unblockProc_accounts (sched : Scheduler) (proc : Addr) :
    (sched.unblockProc proc).ticks = sched.ticks ∧
      (sched.unblockProc proc).priority = sched.priority := by
  unfold Scheduler.unblockProc
  dsimp only
  split <;> exact ⟨rfl, rfl⟩

/-- What a call leaves of the ticks of a process that has been started. -/
theorem step_ticks {sys next : SchedulerSystem} {op : SchedulerOp} {proc : Addr}
    (hadmits : sys.Admits op) (hproc : proc ∈ sys.started) (hstep : sys.step op = some next) :
    next.sched.priority proc = sys.sched.priority proc ∧
      next.sched.ticks proc = sys.sched.ticks proc - if sys.Interrupts proc op then 1 else 0 := by
  have hkept : ∀ sched : Scheduler,
      sched.ticks = sys.sched.ticks ∧ sched.priority = sys.sched.priority →
      ¬ sys.Interrupts proc op → sched.priority proc = sys.sched.priority proc ∧
        sched.ticks proc = sys.sched.ticks proc - if sys.Interrupts proc op then 1 else 0 := by
    rintro sched ⟨hticks, hpriority⟩ hnot
    rw [if_neg hnot, hticks, hpriority]
    exact ⟨rfl, rfl⟩
  cases op with
  | startProcess other pid priority =>
      cases hstep
      have hne : proc ≠ other := by
        rintro rfl
        exact hadmits.1 hproc
      exact ⟨Function.update_of_ne hne .., Function.update_of_ne hne ..⟩
  | timer =>
      cases hstep
      change sys.sched.timerHandler.priority proc = _ ∧ sys.sched.timerHandler.ticks proc =
        sys.sched.ticks proc - if sys.sched.curProc = proc then 1 else 0
      rw [timerHandler_eq]
      split
      next hticks =>
        refine ⟨congrFun (schedule_accounts sys.sched).2 proc, ?_⟩
        change sys.sched.ticks proc = _
        split
        next hcur => rw [← hcur, hticks]
        next hcur => rfl
      next hticks =>
        refine ⟨rfl, ?_⟩
        change Function.update sys.sched.ticks sys.sched.curProc _ proc = _
        split
        next hcur => rw [hcur, Function.update_self]
        next hcur => rw [Function.update_of_ne (Ne.symm hcur), Nat.sub_zero]
  | schedule =>
      cases hstep
      exact hkept _ (schedule_accounts sys.sched) id
  | procYield =>
      cases hstep
      exact hkept _ (schedule_accounts _) id
  | selfBlock status =>
      cases hstep
      exact hkept _ (selfBlock_accounts sys.sched status) id
  | unblockProc other =>
      cases hstep
      exact hkept _ (unblockProc_accounts sys.sched other) id

/-- A process keeps what it was given when it started, less one tick for every
interrupt. -/
def Charged (sys : SchedulerSystem) (interrupts : Addr → Nat) : Prop :=
  (∀ proc ∈ sys.started, sys.sched.ticks proc =
    Scheduler.priority2ticks (sys.sched.priority proc) - interrupts proc) ∧
  ∀ proc ∉ sys.started, interrupts proc = 0

theorem Charged.step {sys next : SchedulerSystem} {op : SchedulerOp} {interrupts : Addr → Nat}
    (hcharged : sys.Charged interrupts) (hcur : sys.sched.curProc ∈ sys.started)
    (hadmits : sys.Admits op) (hstep : sys.step op = some next) :
    next.Charged fun proc => interrupts proc + if sys.Interrupts proc op then 1 else 0 := by
  have hold : ∀ proc ∈ sys.started, next.sched.ticks proc =
      Scheduler.priority2ticks (next.sched.priority proc) -
        (interrupts proc + if sys.Interrupts proc op then 1 else 0) := by
    intro proc hproc
    obtain ⟨hpriority, hticks⟩ := step_ticks hadmits hproc hstep
    rw [hpriority, hticks, hcharged.1 proc hproc, Nat.sub_sub]
  have hfresh : ∀ proc ∉ sys.started,
      (interrupts proc + if sys.Interrupts proc op then 1 else 0) = 0 := by
    intro proc hproc
    rw [hcharged.2 proc hproc, Nat.zero_add, if_neg]
    intro hinterrupts
    cases op with
    | timer => exact hproc (hinterrupts ▸ hcur)
    | startProcess | schedule | procYield | selfBlock | unblockProc => exact hinterrupts
  cases op with
  | startProcess other pid priority =>
      cases hstep
      refine ⟨fun proc hproc => ?_, fun proc hproc => ?_⟩
      · rcases List.mem_cons.mp hproc with rfl | hproc
        · dsimp only
          rw [hfresh proc hadmits.1, Nat.sub_zero]
          change Function.update sys.sched.ticks proc (Scheduler.priority2ticks priority) proc =
            Scheduler.priority2ticks (Function.update sys.sched.priority proc priority proc)
          rw [Function.update_self, Function.update_self]
        · exact hold proc hproc
      · exact hfresh proc fun hmem => hproc (List.mem_cons_of_mem other hmem)
  | timer | schedule | procYield | selfBlock | unblockProc =>
      cases hstep
      exact ⟨hold, hfresh⟩

theorem boot_charged (memory : Scheduler) (pid : Int) :
    (boot memory pid).Charged fun _ => 0 := by
  refine ⟨fun proc hproc => ?_, fun _ _ => rfl⟩
  obtain rfl := List.mem_singleton.mp hproc
  change Function.update memory.ticks initProc (Scheduler.priority2ticks priorityE) initProc =
    Scheduler.priority2ticks (Function.update memory.priority initProc priorityE initProc) - 0
  rw [Function.update_self, Function.update_self, Nat.sub_zero]

theorem run_charged {memory : Scheduler} {pid : Int} {ops : List SchedulerOp}
    {sys : SchedulerSystem} (hrun : Run step Admits (boot memory pid) ops sys) :
    sys.Charged fun proc => interruptions proc (boot memory pid) ops := by
  induction hrun with
  | nil => exact boot_charged memory pid
  | snoc hbefore hadmits hnext ih =>
      obtain ⟨queue, hsettled⟩ := run_settled hbefore
      have hcharged := ih.step hsettled.cur_started hadmits hnext
      simpa only [interruptions, hbefore.occurrences_snoc hnext] using hcharged

/-- A time slice is given out once and never refilled: in every reachable state a
process has left what its priority gave it at its start, less one tick for every
timer interrupt since then, over all its turns. So once the timer has hit it that
often, every further interrupt takes the processor from it. -/
theorem slice_given_once (memory : Scheduler) (pid : Int) (ops : List SchedulerOp)
    (sys : SchedulerSystem) (hrun : Run step Admits (boot memory pid) ops sys) :
    (∀ proc ∈ sys.started, sys.sched.ticks proc =
      Scheduler.priority2ticks (sys.sched.priority proc) -
        interruptions proc (boot memory pid) ops) ∧
    (sys.Switches .timer ↔ Scheduler.priority2ticks (sys.sched.priority sys.sched.curProc) ≤
      interruptions sys.sched.curProc (boot memory pid) ops) := by
  obtain ⟨queue, hsettled⟩ := run_settled hrun
  have hcharged := (run_charged hrun).1
  refine ⟨hcharged, ?_⟩
  change sys.sched.ticks sys.sched.curProc = 0 ↔ _
  rw [hcharged _ hsettled.cur_started]
  exact Nat.sub_eq_zero_iff_le

/-- The init process starts with eight ticks; the ninth interrupt goes to `schedule`. -/
theorem slice_given_once_init :
    ∃ sys, Run step Admits (boot .zeroed 0) (List.replicate 8 .timer) sys ∧
      (sys.Switches .timer ↔ Scheduler.priority2ticks (sys.sched.priority sys.sched.curProc) ≤
        interruptions sys.sched.curProc (boot .zeroed 0) (List.replicate 8 .timer)) := by
  have hrun := Run.of_exec step Admits (boot .zeroed 0) (List.replicate 8 .timer) rfl
  exact ⟨_, hrun, (slice_given_once _ _ _ _ hrun).2⟩

end SchedulerSystem

end Shmily.Kernel
