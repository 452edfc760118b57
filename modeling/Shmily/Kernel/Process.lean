import Mathlib.Algebra.Order.Ring.Nat
import Shmily.Lib.CycleList

/-! # Processes and the priority scheduler

The fields of `struct pcb` are maps from PCB addresses, one map a field; the
globals of the process module are the remaining fields of the state. The
ready queues are `CycleList` objects threaded through the `ready_elem` member,
which is the first member of the PCB, so an element and its PCB have one
address. Names, page directories, stacks and the TSS do not take part.
-/

namespace Shmily.Kernel

open Foundation Lib

/-- Addresses of PCBs and of other kernel objects; `0` is the null pointer. -/
abbrev Addr := Nat

/-- `enum process_status`. -/
inductive ProcessStatus
  | running | ready | blocked | waiting | hanging | died | waitingMsg | sendingMsg | waitingMid
  deriving DecidableEq, Repr, Inhabited

namespace ProcessStatus

/-- The process can be chosen by the scheduler. -/
def Runnable (status : ProcessStatus) : Prop :=
  status = .ready ∨ status = .running

instance (status : ProcessStatus) : Decidable status.Runnable :=
  inferInstanceAs (Decidable (_ ∨ _))

theorem Runnable.ne_sending {status : ProcessStatus} (hrunnable : status.Runnable) :
    status ≠ .sendingMsg := by
  rcases hrunnable with rfl | rfl <;> simp

theorem Runnable.ne_waiting {status : ProcessStatus} (hrunnable : status.Runnable) :
    status ≠ .waitingMsg := by
  rcases hrunnable with rfl | rfl <;> simp

end ProcessStatus

/-- `PRIORITY_KIND`: the number of ready queues. -/
def priorityKind : Nat := 5

/-- `NR_PROC`: the length of the table of all processes. -/
def nrProc : Nat := 64

/-- `PRIORITY_E`, the priority of the init process. -/
def priorityE : Nat := 4

/-- The PCB of the init process. -/
def initProc : Addr := 0x80000

/-- Elements that can be linked in a ready queue: the sentinels of the queues,
and the `ready_elem` of a PCB. -/
inductive ReadyNode
  | null
  | head (idx : Nat)
  | tail (idx : Nat)
  | elem (proc : Addr)
  deriving DecidableEq, Repr

instance : Zero ReadyNode := ⟨.null⟩

/-- The state of the process module. -/
structure Scheduler where
  status : Addr → ProcessStatus
  priority : Addr → Nat
  pid : Addr → Int
  ticks : Addr → Nat
  elapsedTicks : Addr → Nat
  links : Links ReadyNode
  processes : Nat → Addr
  maxRounds : Nat → Nat
  maxPriority : Nat
  curProc : Addr
  nextProc : ReadyNode
  timerTicks : Nat
  /-- What the module has printed. -/
  console : List String

/-- The state of a kernel image whose memory is still zero. -/
def Scheduler.zeroed : Scheduler where
  status _ := .running
  priority _ := 0
  pid _ := 0
  ticks _ := 0
  elapsedTicks _ := 0
  links := ⟨fun _ => .null, fun _ => .null⟩
  processes _ := 0
  maxRounds _ := 0
  maxPriority := 0
  curProc := 0
  nextProc := .null
  timerTicks := 0
  console := []

/-- `ready_processes[idx]`. -/
def readyProcesses (idx : Nat) : CycleList ReadyNode :=
  ⟨.head idx, .tail idx⟩

/-- `unsigned int` subtraction of one. -/
def decrement (value : Nat) : Nat :=
  (value + (2 ^ 32 - 1)) % 2 ^ 32

namespace Scheduler

def setStatus (sched : Scheduler) (proc : Addr) (status : ProcessStatus) : Scheduler :=
  { sched with status := Function.update sched.status proc status }

/-- The loop of `init_pm` over the ready queues. -/
def initQueues : Nat → Links ReadyNode → Links ReadyNode
  | 0, links => links
  | idx + 1, links => (readyProcesses idx).initializeList (initQueues idx links)

/-- `init_pm`. -/
def initPm (sched : Scheduler) : Scheduler :=
  { sched with
    links := initQueues priorityKind sched.links
    maxRounds := fun idx => if idx < priorityKind then 10 else sched.maxRounds idx
    maxPriority := priorityKind + 1 }

/-- `priority2ticks`. -/
def priority2ticks (priority : Nat) : Nat :=
  (priorityKind - priority) * 8

/-- `init_process_info`. -/
def initProcessInfo (sched : Scheduler) (proc : Addr) (pid : Int) (priority : Nat) : Scheduler :=
  { sched with
    priority := Function.update sched.priority proc priority
    pid := Function.update sched.pid proc pid
    ticks := Function.update sched.ticks proc (priority2ticks priority)
    elapsedTicks := Function.update sched.elapsedTicks proc 0 }

/-- `append_all_array` on the table of all processes: a negative `pid` asks for
the first free entry. -/
def appendAllArray (processes : Nat → Addr) (proc : Addr) (pid : Int) : (Nat → Addr) × Int :=
  if 0 ≤ pid then (Function.update processes pid.toNat proc, pid)
  else match (List.range nrProc).find? (fun idx => processes idx = 0) with
    | some idx => (Function.update processes idx proc, idx)
    | none => (processes, -1)

/-- The common end of `start_process` and `start_userprocess`: the PCB is
appended to the ready queue of its priority. -/
def enqueue (sched : Scheduler) (proc : Addr) (priority : Nat) : Scheduler :=
  { sched with
    links := (readyProcesses priority).append sched.links (.elem proc)
    maxPriority := if priority < sched.maxPriority then priority else sched.maxPriority }

/-- `start_process` and `start_userprocess`; they differ in the saved stack and
entry point only. -/
def startProcess (sched : Scheduler) (proc : Addr) (pid : Int) (priority : Nat) : Scheduler :=
  let (processes, pid) := appendAllArray sched.processes proc pid
  let sched := { sched with processes := processes }.initProcessInfo proc pid priority
  (sched.setStatus proc .ready).enqueue proc priority

/-- `deal_init_process`; the PCB is entered in the table twice. -/
def dealInitProcess (sched : Scheduler) (pid : Int) : Scheduler :=
  let (processes, pid') := appendAllArray sched.processes initProc pid
  let sched := { sched with processes := processes }.initProcessInfo initProc pid' priorityE
  let sched := { sched with
    curProc := initProc
    status := Function.update sched.status initProc .running
    processes := (appendAllArray sched.processes initProc pid).1 }
  sched.enqueue initProc priorityE

/-- The selection loop of `schedule`, with `left` queues still to look at from
`prio` on. A priority below 3 that has used up its rounds gets them back and is
passed over once, even if its queue is not empty. -/
def pickPriority (links : Links ReadyNode) : Nat → Nat → (Nat → Nat) → Nat × (Nat → Nat)
  | 0, prio, rounds => (prio, rounds)
  | left + 1, prio, rounds =>
      if rounds prio = 0 ∧ prio < 3 then
        pickPriority links left (prio + 1) (Function.update rounds prio 10)
      else if !(readyProcesses prio).isEmpty links then (prio, rounds)
      else pickPriority links left (prio + 1) rounds

/-- The current process gets a new status and is unlinked from its ready queue. -/
def unlinkCurrent (sched : Scheduler) (status : ProcessStatus) : Scheduler :=
  { sched with
    status := Function.update sched.status sched.curProc status
    links := CycleList.remove sched.links (.elem sched.curProc) }

/-- The part of `schedule` before the selection: the running process becomes
ready, and a process in `WAITING_MID` is taken off its queue only now. -/
def leaveCurrent (sched : Scheduler) : Scheduler :=
  if sched.status sched.curProc = .running then sched.setStatus sched.curProc .ready
  else if sched.status sched.curProc = .waitingMid then sched.unlinkCurrent .waitingMsg
  else sched

/-- The selection of `schedule`. -/
def selectNext (sched : Scheduler) : Scheduler :=
  let (prio, rounds) := pickPriority sched.links (priorityKind - sched.maxPriority)
    sched.maxPriority sched.maxRounds
  if sched.priority sched.curProc = prio then
    { sched with
      nextProc := (readyProcesses prio).nextElem sched.links (.elem sched.curProc)
      maxRounds := Function.update rounds prio (decrement (rounds prio)) }
  else if prio < priorityKind then
    { sched with nextProc := (readyProcesses prio).firstElem sched.links, maxRounds := rounds }
  else { sched with nextProc := .null, maxRounds := rounds }

/-- The end of `schedule`: the selected process starts to run. -/
def switchTo (sched : Scheduler) : Scheduler :=
  match sched.nextProc with
  | .elem next => { sched.setStatus next .running with curProc := next }
  | _ => { sched with console := sched.console ++ ["NULL"] }

/-- `schedule`. -/
def schedule (sched : Scheduler) : Scheduler :=
  sched.leaveCurrent.selectNext.switchTo

/-- `self_block`. -/
def selfBlock (sched : Scheduler) (status : ProcessStatus) : Scheduler :=
  if status = .waitingMsg then (sched.setStatus sched.curProc .waitingMid).schedule
  else (sched.unlinkCurrent status).schedule

/-- `proc_yield`. -/
def procYield (sched : Scheduler) : Scheduler :=
  (sched.setStatus sched.curProc .ready).schedule

/-- `unblock_proc`. The status is overwritten before it is compared with
`WAITING_MID`, so the early return of the source is never taken. -/
def unblockProc (sched : Scheduler) (proc : Addr) : Scheduler :=
  let sched := sched.setStatus proc .ready
  if sched.status proc = .waitingMid then sched
  else sched.enqueue proc (sched.priority proc)

/-- `timer_handler`. -/
def timerHandler (sched : Scheduler) : Scheduler :=
  let sched := { sched with
    timerTicks := sched.timerTicks + 1
    elapsedTicks := Function.update sched.elapsedTicks sched.curProc
      (sched.elapsedTicks sched.curProc + 1) }
  if sched.ticks sched.curProc = 0 then sched.schedule
  else
    { sched with
      ticks := Function.update sched.ticks sched.curProc (sched.ticks sched.curProc - 1) }

end Scheduler

end Shmily.Kernel
