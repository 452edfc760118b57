import Shmily.Foundation.Run
import Shmily.Kernel.Process

/-! # What the scheduler keeps over every run

A run starts after `init_pm` and `deal_init_process` and consists of process
starts, timer interrupts, yields, blockings of the current process and wake-ups
in any order. The ready queues, the status fields and the cached `max_priority`
agree in every state such a run reaches.
-/

namespace Shmily.Kernel

open Foundation Lib

/-- The process module together with the PCBs that have been started. -/
structure SchedulerSystem where
  sched : Scheduler
  started : List Addr

/-- The entry points of the process module. -/
inductive SchedulerOp
  | startProcess (proc : Addr) (pid : Int) (priority : Nat)
  | timer
  | schedule
  | procYield
  | selfBlock (status : ProcessStatus)
  | unblockProc (proc : Addr)

namespace SchedulerSystem

/-- The state after `init_pm` and `deal_init_process`, whatever the memory held
before. -/
def boot (memory : Scheduler) (pid : Int) : SchedulerSystem :=
  ⟨{ memory with nextProc := .null, console := [] }.initPm.dealInitProcess pid, [initProc]⟩

/-- What the callers guarantee: a PCB is started once and with one of the five
priorities, the init process never blocks, and only a process that is neither
ready nor running is woken up. -/
def Admits (sys : SchedulerSystem) : SchedulerOp → Prop
  | .startProcess proc _ priority => proc ∉ sys.started ∧ priority < priorityKind
  | .selfBlock status => sys.sched.curProc ≠ initProc ∧
      (status = .blocked ∨ status = .sendingMsg ∨ status = .waitingMsg)
  | .unblockProc proc => proc ∈ sys.started ∧ ¬ (sys.sched.status proc).Runnable
  | .timer | .schedule | .procYield => True

instance (sys : SchedulerSystem) : (op : SchedulerOp) → Decidable (sys.Admits op)
  | .startProcess proc _ priority =>
      inferInstanceAs (Decidable (proc ∉ sys.started ∧ priority < priorityKind))
  | .selfBlock status => inferInstanceAs (Decidable (sys.sched.curProc ≠ initProc ∧
      (status = .blocked ∨ status = .sendingMsg ∨ status = .waitingMsg)))
  | .unblockProc proc => inferInstanceAs (Decidable (proc ∈ sys.started ∧
      ¬ (sys.sched.status proc).Runnable))
  | .timer | .schedule | .procYield => inferInstanceAs (Decidable True)

/-- One call. -/
def step (sys : SchedulerSystem) : SchedulerOp → Option SchedulerSystem
  | .startProcess proc pid priority =>
      some ⟨sys.sched.startProcess proc pid priority, proc :: sys.started⟩
  | .timer => some { sys with sched := sys.sched.timerHandler }
  | .schedule => some { sys with sched := sys.sched.schedule }
  | .procYield => some { sys with sched := sys.sched.procYield }
  | .selfBlock status => some { sys with sched := sys.sched.selfBlock status }
  | .unblockProc proc => some { sys with sched := sys.sched.unblockProc proc }

/-- The links of the ready queues hold exactly the queues given. -/
def Linked (sched : Scheduler) (queue : Nat → List Addr) : Prop :=
  ∀ idx < priorityKind, (readyProcesses idx).Holds sched.links ((queue idx).map .elem)

/-- What holds at every point of every operation, also in the middle of
`schedule`: the queues are exactly the runnable processes by priority, and the
cached quantities are in range. -/
structure Consistent (sched : Scheduler) (started : List Addr) (queue : Nat → List Addr) :
    Prop where
  linked : Linked sched queue
  mem_iff : ∀ idx proc, proc ∈ queue idx ↔
    proc ∈ started ∧ sched.priority proc = idx ∧ (sched.status proc).Runnable
  priority_lt : ∀ proc ∈ started, sched.priority proc < priorityKind
  cur_started : sched.curProc ∈ started
  init_started : initProc ∈ started
  init_priority : sched.priority initProc = priorityE
  init_runnable : (sched.status initProc).Runnable
  maxPriority_le : ∀ idx < priorityKind, queue idx ≠ [] → sched.maxPriority ≤ idx
  rounds_le : ∀ idx < 3, sched.maxRounds idx ≤ 10
  console : sched.console = []

/-- What holds between two operations. -/
structure Settled (sched : Scheduler) (started : List Addr) (queue : Nat → List Addr) : Prop
    extends Consistent sched started queue where
  running_iff : ∀ proc ∈ started, sched.status proc = .running ↔ proc = sched.curProc
  selected : sched.nextProc = .null ∨ sched.nextProc = .elem sched.curProc

/-- What holds in the middle of `schedule`, when the process that gave up the
processor has been dealt with: nobody runs, and the `next` link of that process
still leads into its queue, even if it has just been taken off it. -/
structure Parked (sched : Scheduler) (started : List Addr) (queue : Nat → List Addr) : Prop
    extends Consistent sched started queue where
  not_running : ∀ proc ∈ started, sched.status proc ≠ .running
  cur_next : sched.links.next (.elem sched.curProc) = .tail (sched.priority sched.curProc) ∨
    ∃ proc ∈ queue (sched.priority sched.curProc),
      sched.links.next (.elem sched.curProc) = .elem proc

variable {sched : Scheduler} {started : List Addr} {queue : Nat → List Addr}

namespace Consistent

theorem queue_init_ne_nil (hcons : Consistent sched started queue) : queue priorityE ≠ [] :=
  List.ne_nil_of_mem ((hcons.mem_iff priorityE initProc).mpr
    ⟨hcons.init_started, hcons.init_priority, hcons.init_runnable⟩)

theorem isEmpty_iff (hcons : Consistent sched started queue) {idx : Nat}
    (hidx : idx < priorityKind) :
    (readyProcesses idx).isEmpty sched.links = true ↔ queue idx = [] := by
  rw [CycleList.isEmpty_iff (hcons.linked idx hidx), List.map_eq_nil_iff]

end Consistent

/-- The selection loop stops at a queue that is not empty, with rounds left if
its priority counts them. -/
theorem pickPriority_spec (hcons : Consistent sched started queue) (left prio : Nat)
    (rounds : Nat → Nat) (hleft : left + prio = priorityKind) (hprio : prio ≤ priorityE)
    (hrounds : ∀ idx < 3, rounds idx ≤ 10) :
    (Scheduler.pickPriority sched.links left prio rounds).1 ≤ priorityE ∧
      queue (Scheduler.pickPriority sched.links left prio rounds).1 ≠ [] ∧
      (∀ idx < 3, (Scheduler.pickPriority sched.links left prio rounds).2 idx ≤ 10) ∧
      ((Scheduler.pickPriority sched.links left prio rounds).1 < 3 →
        (Scheduler.pickPriority sched.links left prio rounds).2
          (Scheduler.pickPriority sched.links left prio rounds).1 ≠ 0) := by
  induction left generalizing prio rounds with
  | zero =>
      simp only [priorityKind, priorityE] at hleft hprio
      omega
  | succ left ih =>
      have hempty := hcons.isEmpty_iff (show prio < priorityKind by omega)
      unfold Scheduler.pickPriority
      split
      next hskip =>
        apply ih (prio + 1) _ (by omega) (by simp only [priorityE]; omega)
        intro idx hidx
        rw [Function.update_apply]
        split
        · exact Nat.le_refl 10
        · exact hrounds idx hidx
      next hskip =>
        split
        next hfound =>
          refine ⟨hprio, ?_, hrounds, fun hlt hzero => hskip ⟨hzero, hlt⟩⟩
          intro hnil
          simp [hempty.mpr hnil] at hfound
        next hfound =>
          have hnil : queue prio = [] := hempty.mp (by simpa using hfound)
          have hne : prio ≠ priorityE := by
            rintro rfl
            exact hcons.queue_init_ne_nil hnil
          exact ih (prio + 1) rounds (by omega) (by omega) hrounds

theorem decrement_le {value : Nat} (hpos : value ≠ 0) (hle : value ≤ 10) :
    decrement value ≤ 10 := by
  have hvalue : decrement value = value - 1 := by
    unfold decrement
    omega
  omega

/-- `schedule` selects a member of some ready queue. -/
theorem Parked.selectNext_eq (hparked : Parked sched started queue) :
    ∃ proc rounds, sched.selectNext = { sched with nextProc := .elem proc, maxRounds := rounds } ∧
      (∃ idx < priorityKind, proc ∈ queue idx) ∧ ∀ idx < 3, rounds idx ≤ 10 := by
  have hcons := hparked.toConsistent
  have hmax : sched.maxPriority ≤ priorityE :=
    hcons.maxPriority_le priorityE (by decide) hcons.queue_init_ne_nil
  have hpick := pickPriority_spec hcons (priorityKind - sched.maxPriority) sched.maxPriority
    sched.maxRounds (by simp only [priorityKind, priorityE] at hmax ⊢; omega) hmax hcons.rounds_le
  unfold Scheduler.selectNext
  generalize Scheduler.pickPriority sched.links (priorityKind - sched.maxPriority)
    sched.maxPriority sched.maxRounds = picked at hpick ⊢
  obtain ⟨prio, rounds⟩ := picked
  obtain ⟨hprio, hne, hrounds, hleft⟩ := hpick
  have hlt : prio < priorityKind := by simp only [priorityKind, priorityE] at hprio ⊢; omega
  have hholds := hcons.linked prio hlt
  have hneMap : (queue prio).map ReadyNode.elem ≠ [] := by simpa using hne
  dsimp only
  split
  next hcur =>
    have hnext : (readyProcesses prio).nextElem sched.links (.elem sched.curProc) ∈
        (queue prio).map ReadyNode.elem := by
      apply CycleList.nextElem_mem hholds hneMap
      rcases hparked.cur_next with htail | ⟨proc, hproc, heq⟩
      · exact .inl (by rw [htail, hcur]; rfl)
      · exact .inr (by rw [heq]; rw [hcur] at hproc; exact List.mem_map_of_mem hproc)
    obtain ⟨proc, hproc, heq⟩ := List.mem_map.mp hnext
    refine ⟨proc, _, by rw [← heq], ⟨prio, hlt, hproc⟩, ?_⟩
    intro idx hidx
    rw [Function.update_apply]
    split
    next heqIdx =>
      subst heqIdx
      exact decrement_le (hleft hidx) (hrounds _ hidx)
    next => exact hrounds idx hidx
  next hcur =>
    obtain ⟨first, rest, hqueue⟩ := List.exists_cons_of_ne_nil hne
    have hempty : (readyProcesses prio).isEmpty sched.links ≠ true := by
      rw [Ne, hcons.isEmpty_iff hlt]
      exact hne
    have hfirst : (readyProcesses prio).firstElem sched.links = .elem first := by
      rw [CycleList.firstElem, if_neg hempty, hholds.next_head, hqueue]
      rfl
    exact ⟨first, rounds, by rw [hfirst], ⟨prio, hlt, by simp [hqueue]⟩, hrounds⟩

/-- The second half of `schedule` restores the state between two operations. -/
theorem Parked.settle (hparked : Parked sched started queue) :
    Settled sched.selectNext.switchTo started queue := by
  obtain ⟨proc, rounds, heq, ⟨idx, -, hproc⟩, hrounds⟩ := hparked.selectNext_eq
  obtain ⟨hstarted, -, hrunnable⟩ := (hparked.mem_iff idx proc).mp hproc
  have hrunnableIff : ∀ other, ((Function.update sched.status proc .running) other).Runnable ↔
      (sched.status other).Runnable := by
    intro other
    rw [Function.update_apply]
    split
    next hother =>
      subst hother
      exact ⟨fun _ => hrunnable, fun _ => .inr rfl⟩
    next => rfl
  rw [heq]
  refine
    { linked := hparked.linked
      mem_iff := ?_
      priority_lt := hparked.priority_lt
      cur_started := hstarted
      init_started := hparked.init_started
      init_priority := hparked.init_priority
      init_runnable := (hrunnableIff initProc).mpr hparked.init_runnable
      maxPriority_le := hparked.maxPriority_le
      rounds_le := hrounds
      console := hparked.console
      running_iff := ?_
      selected := .inr rfl }
  · intro idx other
    rw [hparked.mem_iff idx other]
    exact and_congr_right fun _ => and_congr_right fun _ => (hrunnableIff other).symm
  · intro other hother
    change Function.update sched.status proc .running other = .running ↔ other = proc
    rw [Function.update_apply]
    split
    next heqOther => simp [heqOther]
    next hne =>
      exact ⟨fun hrun => absurd hrun (hparked.not_running other hother), fun h => absurd h hne⟩

/-! ## Editing the queues -/

theorem mem_readyProcesses_nodes {idx : Nat} {procs : List Addr} {node : ReadyNode} :
    node ∈ (readyProcesses idx).nodes (procs.map .elem) ↔
      node = .head idx ∨ (∃ proc ∈ procs, node = .elem proc) ∨ node = .tail idx := by
  simp only [CycleList.mem_nodes, readyProcesses, List.mem_map, eq_comm]

/-- Queues without a common member have no common node. -/
theorem notMem_nodes_of_ne {idx other : Nat} (hne : other ≠ idx)
    (hdisjoint : ∀ proc ∈ queue other, proc ∉ queue idx) {node : ReadyNode}
    (hnode : node ∈ (readyProcesses other).nodes ((queue other).map .elem)) :
    node ∉ (readyProcesses idx).nodes ((queue idx).map .elem) := by
  rw [mem_readyProcesses_nodes] at hnode ⊢
  rcases hnode with rfl | ⟨proc, hproc, rfl⟩ | rfl
  · simp [hne]
  · simpa using hdisjoint proc hproc
  · simp [hne]

theorem Consistent.disjoint (hcons : Consistent sched started queue) {idx other : Nat}
    (hne : other ≠ idx) : ∀ proc ∈ queue other, proc ∉ queue idx := by
  intro proc hother hidx
  have hleft := ((hcons.mem_iff other proc).mp hother).2.1
  have hright := ((hcons.mem_iff idx proc).mp hidx).2.1
  exact hne (hleft.symm.trans hright)

theorem Linked.enqueue (hlinked : Linked sched queue) {proc : Addr} {priority : Nat}
    (hpriority : priority < priorityKind)
    (hdisjoint : ∀ idx, idx ≠ priority → ∀ other ∈ queue idx, other ∉ queue priority)
    (hfresh : ∀ idx, proc ∉ queue idx) :
    Linked (sched.enqueue proc priority)
      (Function.update queue priority (queue priority ++ [proc])) := by
  have hfreshNode : ∀ idx, ReadyNode.elem proc ∉
      (readyProcesses idx).nodes ((queue idx).map .elem) := by
    intro idx hmem
    rcases mem_readyProcesses_nodes.mp hmem with heq | ⟨other, hother, heq⟩ | heq
    · cases heq
    · cases heq
      exact hfresh idx hother
    · cases heq
  intro idx hidx
  rw [Function.update_apply]
  split
  next heq =>
    subst heq
    rw [List.map_append]
    exact CycleList.append_holds (hlinked idx hidx) (hfreshNode idx)
  next hne =>
    refine (hlinked idx hidx).frame fun node hnode => ?_
    refine CycleList.append_frame (hlinked priority hpriority) (hfreshNode priority)
      (notMem_nodes_of_ne hne (hdisjoint idx hne) hnode) ?_
    rintro rfl
    exact hfreshNode idx hnode

theorem Linked.remove (hlinked : Linked sched queue) {proc : Addr} {priority : Nat}
    (hpriority : priority < priorityKind) (hproc : proc ∈ queue priority)
    (hdisjoint : ∀ idx, idx ≠ priority → ∀ other ∈ queue idx, other ∉ queue priority) :
    Linked { sched with links := CycleList.remove sched.links (.elem proc) }
      (Function.update queue priority ((queue priority).erase proc)) := by
  obtain ⟨front, back, hnotFront, hsplit, herase⟩ := List.exists_erase_eq hproc
  have hholds : (readyProcesses priority).Holds sched.links
      (front.map ReadyNode.elem ++ .elem proc :: back.map .elem) := by
    have hheld := hlinked priority hpriority
    rw [hsplit] at hheld
    simpa using hheld
  intro idx hidx
  rw [Function.update_apply]
  split
  next heq =>
    subst heq
    rw [herase, List.map_append]
    exact CycleList.remove_holds hholds
  next hne =>
    refine (hlinked idx hidx).frame fun node hnode => ?_
    refine CycleList.remove_frame hholds (.inr ?_)
    have houtside := notMem_nodes_of_ne hne (hdisjoint idx hne) hnode
    rw [hsplit] at houtside
    simpa using houtside

/-! ## The operations -/

namespace Settled

theorem cur_mem (hsettled : Settled sched started queue) :
    sched.curProc ∈ queue (sched.priority sched.curProc) :=
  (hsettled.mem_iff _ _).mpr ⟨hsettled.cur_started, rfl,
    .inr ((hsettled.running_iff _ hsettled.cur_started).mpr rfl)⟩

/-- The current process stays in its queue and gives up the processor. -/
theorem park (hsettled : Settled sched started queue) :
    Parked (sched.setStatus sched.curProc .ready) started queue := by
  have hrunnableIff : ∀ proc ∈ started,
      ((Function.update sched.status sched.curProc .ready) proc).Runnable ↔
        (sched.status proc).Runnable := by
    intro proc hproc
    rw [Function.update_apply]
    split
    next heq =>
      exact ⟨fun _ => .inr ((hsettled.running_iff proc hproc).mpr heq), fun _ => .inl rfl⟩
    next => rfl
  refine
    { linked := hsettled.linked
      mem_iff := ?_
      priority_lt := hsettled.priority_lt
      cur_started := hsettled.cur_started
      init_started := hsettled.init_started
      init_priority := hsettled.init_priority
      init_runnable := (hrunnableIff initProc hsettled.init_started).mpr hsettled.init_runnable
      maxPriority_le := hsettled.maxPriority_le
      rounds_le := hsettled.rounds_le
      console := hsettled.console
      not_running := ?_
      cur_next := ?_ }
  · intro idx proc
    rw [hsettled.mem_iff idx proc]
    exact and_congr_right fun hproc => and_congr_right fun _ => (hrunnableIff proc hproc).symm
  · intro proc hproc
    change Function.update sched.status sched.curProc .ready proc ≠ .running
    rw [Function.update_apply]
    split
    · simp
    next hne => exact fun hrun => hne ((hsettled.running_iff proc hproc).mp hrun)
  · have hholds := hsettled.linked _ (hsettled.priority_lt _ hsettled.cur_started)
    rcases hholds.next_mem (List.mem_map_of_mem hsettled.cur_mem) with htail | hmem
    · exact .inl htail
    · obtain ⟨proc, hproc, heq⟩ := List.mem_map.mp hmem
      exact .inr ⟨proc, hproc, heq.symm⟩

theorem schedule (hsettled : Settled sched started queue) :
    Settled sched.schedule started queue := by
  have hrunning := (hsettled.running_iff _ hsettled.cur_started).mpr rfl
  have hleave : sched.leaveCurrent = sched.setStatus sched.curProc .ready := by
    rw [Scheduler.leaveCurrent, if_pos hrunning]
  rw [Scheduler.schedule, hleave]
  exact hsettled.park.settle

theorem procYield (hsettled : Settled sched started queue) :
    Settled sched.procYield started queue := by
  have hleave : (sched.setStatus sched.curProc .ready).leaveCurrent =
      sched.setStatus sched.curProc .ready := by
    simp [Scheduler.leaveCurrent, Scheduler.setStatus]
  rw [Scheduler.procYield, Scheduler.schedule, hleave]
  exact hsettled.park.settle

theorem timerHandler (hsettled : Settled sched started queue) :
    Settled sched.timerHandler started queue := by
  have hticked : Settled { sched with
      timerTicks := sched.timerTicks + 1
      elapsedTicks := Function.update sched.elapsedTicks sched.curProc
        (sched.elapsedTicks sched.curProc + 1) } started queue :=
    { hsettled with }
  unfold Scheduler.timerHandler
  dsimp only
  split
  · exact hticked.schedule
  · exact { hticked with }

/-- The current process, not the init process, leaves its queue with a status
in which it cannot run. -/
theorem park_blocked (hsettled : Settled sched started queue) {status : ProcessStatus}
    (hinit : sched.curProc ≠ initProc) (hstatus : ¬ status.Runnable) :
    Parked (sched.unlinkCurrent status) started
      (Function.update queue (sched.priority sched.curProc)
        ((queue (sched.priority sched.curProc)).erase sched.curProc)) := by
  have hcur := hsettled.cur_mem
  have hpriority := hsettled.priority_lt _ hsettled.cur_started
  have hholds := hsettled.linked _ hpriority
  have hnodup : (queue (sched.priority sched.curProc)).Nodup := hholds.nodup.of_map
  have hmemIff : ∀ idx proc, proc ∈ (Function.update queue (sched.priority sched.curProc)
      ((queue (sched.priority sched.curProc)).erase sched.curProc)) idx ↔
        proc ∈ queue idx ∧ proc ≠ sched.curProc := by
    intro idx proc
    rw [Function.update_apply]
    split
    next heq =>
      subst heq
      rw [hnodup.mem_erase_iff]
      exact and_comm
    next hne =>
      refine ⟨fun hmem => ⟨hmem, ?_⟩, And.left⟩
      rintro rfl
      exact hsettled.disjoint hne _ hmem hcur
  refine
    { linked := hsettled.linked.remove hpriority hcur (fun idx hne => hsettled.disjoint hne)
      mem_iff := ?_
      priority_lt := hsettled.priority_lt
      cur_started := hsettled.cur_started
      init_started := hsettled.init_started
      init_priority := hsettled.init_priority
      init_runnable := ?_
      maxPriority_le := ?_
      rounds_le := hsettled.rounds_le
      console := hsettled.console
      not_running := ?_
      cur_next := ?_ }
  · intro idx proc
    rw [hmemIff, hsettled.mem_iff]
    change _ ↔ proc ∈ started ∧ sched.priority proc = idx ∧
      (Function.update sched.status sched.curProc status proc).Runnable
    rw [Function.update_apply]
    split
    next heq => simp [heq, hstatus]
    next hne => simp [hne]
  · change (Function.update sched.status sched.curProc status initProc).Runnable
    rw [Function.update_of_ne hinit.symm]
    exact hsettled.init_runnable
  · intro idx hidx hne
    obtain ⟨proc, hproc⟩ := List.exists_mem_of_ne_nil _ hne
    exact hsettled.maxPriority_le idx hidx (List.ne_nil_of_mem ((hmemIff idx proc).mp hproc).1)
  · intro proc hproc
    change Function.update sched.status sched.curProc status proc ≠ .running
    rw [Function.update_apply]
    split
    · exact fun hrun => hstatus (.inr hrun)
    next hne => exact fun hrun => hne ((hsettled.running_iff proc hproc).mp hrun)
  · -- the removed element keeps its own links, so they still lead into the queue
    obtain ⟨front, back, hsplit⟩ := List.append_of_mem hcur
    rw [hsplit, List.map_append, List.map_cons] at hholds
    have hkept := CycleList.remove_frame hholds (.inl rfl)
    obtain ⟨-, after, -, hafter⟩ := hholds.exists_around
    have hnext : sched.links.next (.elem sched.curProc) ∈
        back.map ReadyNode.elem ++ [(readyProcesses (sched.priority sched.curProc)).tail] := by
      simp [hafter]
    rcases List.mem_append.mp hnext with hback | htail
    · obtain ⟨proc, hproc, heq⟩ := List.mem_map.mp hback
      refine .inr ⟨proc, (hmemIff (sched.priority sched.curProc) proc).mpr
        ⟨by simp [hsplit, hproc], ?_⟩, hkept.1.trans heq.symm⟩
      rintro rfl
      rw [hsplit] at hnodup
      exact (List.nodup_cons.mp (List.nodup_append.mp hnodup).2.1).1 hproc
    · exact .inl (hkept.1.trans (List.mem_singleton.mp htail))

theorem selfBlock (hsettled : Settled sched started queue) {status : ProcessStatus}
    (hinit : sched.curProc ≠ initProc)
    (hstatus : status = .blocked ∨ status = .sendingMsg ∨ status = .waitingMsg) :
    ∃ queue', Settled (sched.selfBlock status) started queue' := by
  have hrunnable : ¬ status.Runnable := by
    rcases hstatus with rfl | rfl | rfl <;> decide
  have hleave : ∃ before : Scheduler, sched.selfBlock status = before.schedule ∧
      before.leaveCurrent = sched.unlinkCurrent status := by
    by_cases hwaiting : status = .waitingMsg
    · subst hwaiting
      refine ⟨sched.setStatus sched.curProc .waitingMid, by simp [Scheduler.selfBlock], ?_⟩
      simp [Scheduler.leaveCurrent, Scheduler.setStatus, Scheduler.unlinkCurrent]
    · refine ⟨sched.unlinkCurrent status, by rw [Scheduler.selfBlock, if_neg hwaiting], ?_⟩
      rcases hstatus with rfl | rfl | rfl <;>
        simp [Scheduler.leaveCurrent, Scheduler.unlinkCurrent]
  obtain ⟨before, heq, hbefore⟩ := hleave
  have hblocked := (hsettled.park_blocked hinit hrunnable).settle
  rw [← hbefore, ← Scheduler.schedule, ← heq] at hblocked
  exact ⟨_, hblocked⟩

/-- A process of a valid priority that is in no queue becomes ready. -/
theorem enqueue (hsettled : Settled sched started queue) {proc : Addr} {all : List Addr}
    (hall : ∀ other, other ∈ all ↔ other ∈ started ∨ other = proc)
    (hpriority : sched.priority proc < priorityKind) (hfresh : ∀ idx, proc ∉ queue idx) :
    Settled ((sched.setStatus proc .ready).enqueue proc (sched.priority proc)) all
      (Function.update queue (sched.priority proc) (queue (sched.priority proc) ++ [proc])) := by
  have hstopped : ¬ (proc ∈ started ∧ (sched.status proc).Runnable) := by
    rintro ⟨hstarted, hrunnable⟩
    exact hfresh _ ((hsettled.mem_iff _ _).mpr ⟨hstarted, rfl, hrunnable⟩)
  have hcur : sched.curProc ≠ proc := by
    rintro rfl
    exact hfresh _ hsettled.cur_mem
  have hstatus : ∀ other, ((sched.setStatus proc .ready).enqueue proc
      (sched.priority proc)).status other =
        if other = proc then .ready else sched.status other := by
    intro other
    exact Function.update_apply sched.status proc .ready other
  refine
    { linked := ?_
      mem_iff := ?_
      priority_lt := ?_
      cur_started := (hall _).mpr (.inl hsettled.cur_started)
      init_started := (hall _).mpr (.inl hsettled.init_started)
      init_priority := hsettled.init_priority
      init_runnable := ?_
      maxPriority_le := ?_
      rounds_le := hsettled.rounds_le
      console := hsettled.console
      running_iff := ?_
      selected := hsettled.selected }
  · have hlinked : Linked (sched.setStatus proc .ready) queue := hsettled.linked
    exact hlinked.enqueue hpriority (fun idx hne => hsettled.disjoint hne) hfresh
  · intro idx other
    rw [hstatus, hall]
    have hold := hsettled.mem_iff idx other
    change _ ↔ (other ∈ started ∨ other = proc) ∧ sched.priority other = idx ∧ _
    rw [Function.update_apply]
    by_cases heq : other = proc
    · subst heq
      by_cases hidx : idx = sched.priority other
      · subst hidx
        simp [ProcessStatus.Runnable]
      · simp [hidx, hfresh idx, Ne.symm hidx]
    · by_cases hidx : idx = sched.priority proc
      · subst hidx
        simp [heq, hold]
      · simp [heq, hidx, hold]
  · intro other hother
    rcases (hall other).mp hother with hother | rfl
    · exact hsettled.priority_lt other hother
    · exact hpriority
  · rw [hstatus]
    split
    · exact .inl rfl
    · exact hsettled.init_runnable
  · intro idx hidx hne
    change (if sched.priority proc < sched.maxPriority then sched.priority proc
      else sched.maxPriority) ≤ idx
    rw [Function.update_apply] at hne
    by_cases heq : idx = sched.priority proc
    · subst heq
      split <;> omega
    · rw [if_neg heq] at hne
      have hle := hsettled.maxPriority_le idx hidx hne
      split <;> omega
  · intro other hother
    rw [hstatus]
    change _ ↔ other = sched.curProc
    by_cases heq : other = proc
    · simp only [heq, if_true, reduceCtorEq, false_iff]
      exact hcur.symm
    · rw [if_neg heq]
      exact hsettled.running_iff other (((hall other).mp hother).resolve_right heq)

theorem unblockProc (hsettled : Settled sched started queue) {proc : Addr}
    (hstarted : proc ∈ started) (hstatus : ¬ (sched.status proc).Runnable) :
    ∃ queue', Settled (sched.unblockProc proc) started queue' := by
  have hnotMid : (sched.setStatus proc .ready).status proc ≠ .waitingMid := by
    simp [Scheduler.setStatus]
  have hfresh : ∀ idx, proc ∉ queue idx :=
    fun idx hmem => hstatus ((hsettled.mem_iff idx proc).mp hmem).2.2
  have hall : ∀ other, other ∈ started ↔ other ∈ started ∨ other = proc := by
    intro other
    refine ⟨.inl, ?_⟩
    rintro (hother | rfl)
    · exact hother
    · exact hstarted
  have hready := hsettled.enqueue hall (hsettled.priority_lt proc hstarted) hfresh
  rw [Scheduler.unblockProc, if_neg hnotMid]
  exact ⟨_, hready⟩

/-- Writing the bookkeeping fields of a PCB that is not started. -/
theorem initProcessInfo (hsettled : Settled sched started queue) {proc : Addr} (pid : Int)
    (priority : Nat) (hfresh : proc ∉ started) :
    Settled (sched.initProcessInfo proc pid priority) started queue := by
  have hpriority : ∀ other ∈ started,
      (sched.initProcessInfo proc pid priority).priority other = sched.priority other := by
    intro other hother
    refine Function.update_of_ne ?_ priority sched.priority
    rintro rfl
    exact hfresh hother
  refine
    { hsettled with
      linked := hsettled.linked
      mem_iff := ?_
      priority_lt := ?_
      init_priority := (hpriority _ hsettled.init_started).trans hsettled.init_priority }
  · intro idx other
    rw [hsettled.mem_iff idx other]
    exact and_congr_right fun hother => by rw [hpriority other hother]; rfl
  · intro other hother
    rw [hpriority other hother]
    exact hsettled.priority_lt other hother

theorem startProcess (hsettled : Settled sched started queue) {proc : Addr} {priority : Nat}
    (pid : Int) (hfresh : proc ∉ started) (hpriority : priority < priorityKind) :
    ∃ queue', Settled (sched.startProcess proc pid priority) (proc :: started) queue' := by
  have hlisted : Settled { sched with
      processes := (Scheduler.appendAllArray sched.processes proc pid).1 } started queue :=
    { hsettled with }
  have hinfo := hlisted.initProcessInfo
    (Scheduler.appendAllArray sched.processes proc pid).2 priority hfresh
  have hprio : Function.update sched.priority proc priority proc = priority :=
    Function.update_self ..
  have hnotMem : ∀ idx, proc ∉ queue idx :=
    fun idx hmem => hfresh ((hsettled.mem_iff idx proc).mp hmem).1
  have hall : ∀ other, other ∈ proc :: started ↔ other ∈ started ∨ other = proc :=
    fun other => by rw [List.mem_cons, or_comm]
  have hstart := hinfo.enqueue hall (hprio.trans_lt hpriority) hnotMem
  simp only [Scheduler.initProcessInfo, hprio] at hstart
  exact ⟨_, hstart⟩

end Settled

/-! ## Boot -/

theorem initQueues_holds (links : Links ReadyNode) (count : Nat) :
    ∀ idx < count, (readyProcesses idx).Holds (Scheduler.initQueues count links) [] := by
  induction count with
  | zero => intro idx hidx; omega
  | succ count ih =>
      intro idx hidx
      by_cases heq : idx = count
      · subst heq
        exact CycleList.initializeList_holds (by simp [readyProcesses])
      · refine (ih idx (by omega)).frame fun node hnode => ?_
        have hnode' : node = .head idx ∨ node = .tail idx := by
          simpa [CycleList.mem_nodes, readyProcesses] using hnode
        apply CycleList.initializeList_frame
        · rcases hnode' with rfl | rfl <;> simp [readyProcesses, heq]
        · rcases hnode' with rfl | rfl <;> simp [readyProcesses, heq]

theorem boot_settled (memory : Scheduler) (pid : Int) :
    Settled (boot memory pid).sched [initProc]
      (Function.update (fun _ => []) priorityE [initProc]) := by
  have hstatus : (boot memory pid).sched.status =
      Function.update memory.status initProc .running := rfl
  have hpriority : (boot memory pid).sched.priority =
      Function.update memory.priority initProc priorityE := rfl
  have hlinks : ∀ idx < priorityKind, (readyProcesses idx).Holds
      (Scheduler.initQueues priorityKind memory.links) [] :=
    initQueues_holds memory.links priorityKind
  refine
    { linked := ?_
      mem_iff := ?_
      priority_lt := ?_
      cur_started := List.mem_singleton.mpr rfl
      init_started := List.mem_singleton.mpr rfl
      init_priority := by rw [hpriority, Function.update_self]
      init_runnable := by rw [hstatus, Function.update_self]; exact .inr rfl
      maxPriority_le := ?_
      rounds_le := ?_
      console := rfl
      running_iff := ?_
      selected := .inl rfl }
  · have hempty : Linked memory.initPm (fun _ => []) := hlinks
    exact hempty.enqueue (by decide) (by simp) (by simp)
  · intro idx proc
    rw [Function.update_apply, hstatus, hpriority]
    by_cases hproc : proc = initProc
    · subst hproc
      simp [ProcessStatus.Runnable, eq_comm]
    · split <;> simp [hproc]
  · intro proc hproc
    rw [List.mem_singleton.mp hproc, hpriority, Function.update_self]
    decide
  · intro idx hidx hne
    have heq : idx = priorityE := by
      by_contra hother
      simp [hother] at hne
    rw [heq]
    exact Nat.le_refl priorityE
  · intro idx hidx
    change (if idx < priorityKind then 10 else memory.maxRounds idx) ≤ 10
    rw [if_pos (by simp only [priorityKind]; omega)]
  · intro proc hproc
    rw [List.mem_singleton.mp hproc, hstatus, Function.update_self]
    exact ⟨fun _ => rfl, fun _ => rfl⟩

/-! ## Runs -/

theorem step_settled {sys next : SchedulerSystem} {op : SchedulerOp}
    (hsettled : ∃ queue, Settled sys.sched sys.started queue) (hadmits : sys.Admits op)
    (hstep : sys.step op = some next) : ∃ queue, Settled next.sched next.started queue := by
  obtain ⟨queue, hsettled⟩ := hsettled
  cases op with
  | startProcess proc pid priority =>
      cases hstep
      exact hsettled.startProcess pid hadmits.1 hadmits.2
  | timer =>
      cases hstep
      exact ⟨queue, hsettled.timerHandler⟩
  | schedule =>
      cases hstep
      exact ⟨queue, hsettled.schedule⟩
  | procYield =>
      cases hstep
      exact ⟨queue, hsettled.procYield⟩
  | selfBlock status =>
      cases hstep
      exact hsettled.selfBlock hadmits.1 hadmits.2
  | unblockProc proc =>
      cases hstep
      exact hsettled.unblockProc hadmits.1 hadmits.2

theorem run_settled {memory : Scheduler} {pid : Int} {ops : List SchedulerOp}
    {sys : SchedulerSystem} (hrun : Run step Admits (boot memory pid) ops sys) :
    ∃ queue, Settled sys.sched sys.started queue :=
  hrun.invariant (fun sys => ∃ queue, Settled sys.sched sys.started queue)
    ⟨_, boot_settled memory pid⟩ (fun _ _ _ => step_settled)

/-- In every reachable state the ready queues are well linked; every started
process is linked exactly once in the queue of its priority if it is ready or
running, and in no queue otherwise; exactly the current process is running;
`max_priority` does not exceed the first queue that is not empty; the rounds of
the counted priorities stay within ten; `schedule` has always selected a member
of a ready queue, would do so again, and has never printed `NULL`. -/
theorem scheduler_keeps_queues (memory : Scheduler) (pid : Int) (ops : List SchedulerOp)
    (sys : SchedulerSystem) (hrun : Run step Admits (boot memory pid) ops sys) :
    ∃ queue : Nat → List Addr,
      (∀ idx < priorityKind,
        (readyProcesses idx).Holds sys.sched.links ((queue idx).map .elem)) ∧
      (∀ proc ∈ sys.started, (sys.sched.status proc).Runnable →
        sys.sched.priority proc < priorityKind ∧
        (queue (sys.sched.priority proc)).count proc = 1 ∧
        ∀ idx < priorityKind, idx ≠ sys.sched.priority proc → proc ∉ queue idx) ∧
      (∀ proc ∈ sys.started, ¬ (sys.sched.status proc).Runnable →
        ∀ idx < priorityKind, proc ∉ queue idx) ∧
      sys.sched.curProc ∈ sys.started ∧
      (∀ proc ∈ sys.started, sys.sched.status proc = .running ↔ proc = sys.sched.curProc) ∧
      (∀ idx < priorityKind, queue idx ≠ [] → sys.sched.maxPriority ≤ idx) ∧
      (∀ idx < 3, sys.sched.maxRounds idx ≤ 10) ∧
      (sys.sched.nextProc = .null ∨ ∃ idx < priorityKind, ∃ proc ∈ queue idx,
        sys.sched.nextProc = .elem proc) ∧
      (∃ idx < priorityKind, ∃ proc ∈ queue idx, sys.sched.schedule.nextProc = .elem proc) ∧
      sys.sched.console = [] := by
  obtain ⟨queue, hsettled⟩ := run_settled hrun
  have hselected : ∀ sched : Scheduler, Settled sched sys.started queue →
      ∃ idx < priorityKind, ∃ proc ∈ queue idx, ReadyNode.elem sched.curProc = .elem proc :=
    fun sched hsched =>
      ⟨_, hsched.priority_lt _ hsched.cur_started, _, hsched.cur_mem, rfl⟩
  refine ⟨queue, hsettled.linked, ?_, ?_, hsettled.cur_started, hsettled.running_iff,
    hsettled.maxPriority_le, hsettled.rounds_le, ?_, ?_, hsettled.console⟩
  · intro proc hproc hrunnable
    have hpriority := hsettled.priority_lt proc hproc
    have hmem := (hsettled.mem_iff _ proc).mpr ⟨hproc, rfl, hrunnable⟩
    refine ⟨hpriority, ?_, ?_⟩
    · exact List.count_eq_one_of_mem (hsettled.linked _ hpriority).nodup.of_map hmem
    · intro idx _ hne hidx
      exact hne ((hsettled.mem_iff idx proc).mp hidx).2.1.symm
  · intro proc _ hstopped idx _ hmem
    exact hstopped ((hsettled.mem_iff idx proc).mp hmem).2.2
  · rcases hsettled.selected with hnull | helem
    · exact .inl hnull
    · rw [helem]
      exact .inr (hselected _ hsettled)
  · have hrunning := (hsettled.running_iff _ hsettled.cur_started).mpr rfl
    have hleave : sys.sched.leaveCurrent =
        sys.sched.setStatus sys.sched.curProc .ready := by
      rw [Scheduler.leaveCurrent, if_pos hrunning]
    obtain ⟨proc, rounds, heq, ⟨idx, hidx, hproc⟩, -⟩ := hsettled.park.selectNext_eq
    refine ⟨idx, hidx, proc, hproc, ?_⟩
    rw [Scheduler.schedule, hleave, heq]
    rfl

/-- A server process of priority 1 is started, selected, blocks for a message,
and is woken up while the init process runs. -/
theorem scheduler_keeps_queues_on_wakeup :
    ∃ (sys : SchedulerSystem) (queue : Nat → List Addr), Run step Admits (boot .zeroed 0)
        [.startProcess 0x91000 2 1, .schedule, .selfBlock .waitingMsg, .unblockProc 0x91000] sys ∧
      (∀ idx < priorityKind,
        (readyProcesses idx).Holds sys.sched.links ((queue idx).map .elem)) ∧
      sys.sched.curProc = initProc ∧ sys.sched.status 0x91000 = .ready := by
  have hrun := Run.of_exec step Admits (boot .zeroed 0)
    [.startProcess 0x91000 2 1, .schedule, .selfBlock .waitingMsg, .unblockProc 0x91000] rfl
  obtain ⟨queue, hlinked, -⟩ := scheduler_keeps_queues _ _ _ _ hrun
  exact ⟨_, queue, hrun, hlinked, rfl, rfl⟩

end SchedulerSystem

end Shmily.Kernel
