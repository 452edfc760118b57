import Shmily.Foundation.NullChain
import Shmily.Foundation.Run
import Shmily.Kernel.Ipc

/-! # Processes that exchange messages

Every process executes user code and enters the kernel through `int 0x99`. An
entry runs without interruption until it blocks or returns; a process that has
been made ready again continues where it was. Interrupt handlers send in the
name of the two interrupt PCBs. The kernel process calls `receive` with
interrupts enabled, so its call is split after the queue has been read.
-/

namespace Shmily.Kernel

open Foundation

/-- The type argument of `int 0x99`. -/
inductive SyscallType
  | send
  | recv
  | sendRecv
  deriving DecidableEq, Repr

/-- What a process does when it runs next. -/
inductive Continuation
  /-- It executes its own code. -/
  | user
  /-- It returns from a `SEND` entry. -/
  | sending
  /-- It goes on with the receive half of a `SEND_RECV` entry. -/
  | sendingRecv (this target : Addr)
  /-- It returns from a receive that had to wait, with its message in `this`. -/
  | receiving (this : Addr)
  /-- It has read the head `prev` of its queue in an interruptible `receive`. -/
  | checked (this want prev : Addr)
  deriving DecidableEq, Repr

/-- The object on which the process has entered the kernel and which it will use
again. -/
def Continuation.object : Continuation → Option Addr
  | .user | .sending => none
  | .sendingRecv this _ | .receiving this | .checked this .. => some this

/-- A message that has reached its receiver: who called `send`, the contents it
passed, and the contents of the receiver's object afterwards. -/
structure Delivery where
  sender : Addr
  receiver : Addr
  passed : Message
  obtained : Message

/-- The kernel state, what each process is doing, and a record of what happened:
for each process the number of its sends and the message and destination of the
last one, the deliveries, and the receives that returned to user code. -/
structure IpcSystem where
  ipc : Ipc
  cont : Addr → Continuation
  sends : Addr → Nat
  passed : Addr → Message
  target : Addr → Addr
  deliveries : List Delivery
  returned : List (Addr × Message)

/-- What can happen next. -/
inductive IpcEvent
  /-- `proc` fills in the object at `this` and executes `int 0x99`. -/
  | syscall (proc this : Addr) (message : Message) (type : SyscallType) (target : Addr)
  /-- `proc` continues after it has been made ready again. -/
  | resume (proc : Addr)
  /-- An interrupt handler sends `message`, whose source is an interrupt PCB. -/
  | interrupt (this : Addr) (message : Message) (dest : Addr)
  /-- The first half of an interruptible `receive`. -/
  | check (proc this : Addr) (message : Message) (want : Addr)
  /-- The second half. -/
  | finish (proc : Addr)

namespace IpcSystem

/-- All processes are ready, and no message has been sent yet. -/
def initial : IpcSystem where
  ipc :=
    { status := fun _ => .ready
      nextReady := fun _ => 0
      message := fun _ => 0
      sendings := fun _ => 0
      intrCnt := fun _ => 0
      msgs := fun _ => default }
  cont _ := .user
  sends _ := 0
  passed _ := default
  target _ := 0
  deliveries := []
  returned := []

def setCont (sys : IpcSystem) (proc : Addr) (cont : Continuation) : IpcSystem :=
  { sys with cont := Function.update sys.cont proc cont }

/-- The effect of a send on the record. -/
def recordSend (sys : IpcSystem) (sender this dest : Addr) (outcome : SendOutcome)
    (ipc : Ipc) : IpcSystem :=
  let message := sys.ipc.msgs this
  { sys with
    ipc := ipc
    sends := Function.update sys.sends sender (sys.sends sender + 1)
    passed := Function.update sys.passed sender message
    target := Function.update sys.target sender dest
    deliveries := if outcome = .delivered then sys.deliveries ++
        [⟨sender, dest, message, ipc.msgs (sys.ipc.message dest)⟩]
      else sys.deliveries }

/-- The send half of a kernel entry of `proc`. -/
def doSend (sys : IpcSystem) (proc this dest : Addr) : IpcSystem × SendOutcome :=
  let result := sys.ipc.send proc this dest
  (sys.recordSend proc this dest result.2 result.1, result.2)

theorem update_source (msgs : Addr → Message) {this : Addr} {message : Message}
    (hsource : message.source = (msgs this).source) (object : Addr) :
    (Function.update msgs this message object).source = (msgs object).source := by
  rw [Function.update_apply]
  split
  next heq => rw [hsource, heq]
  next => rfl

/-- No send changes the source of an object. -/
theorem doSend_source (sys : IpcSystem) (sender this dest object : Addr) :
    ((sys.doSend sender this dest).1.ipc.msgs object).source = (sys.ipc.msgs object).source := by
  rcases sys.ipc.send_cases sender this dest with ⟨-, -, heq⟩ | ⟨-, -, heq⟩ | ⟨-, -, heq⟩ |
    ⟨-, -, heq⟩ | ⟨-, -, -, heq⟩ <;> rw [doSend, heq]
  · rfl
  · exact update_source sys.ipc.msgs (by rfl) object
  · exact update_source sys.ipc.msgs (by rfl) object
  · rfl
  · rfl

/-- The effect of a receive of `proc` on the record, after it has left `ipc`. -/
def recordReceive (sys : IpcSystem) (proc this : Addr) (ipc : Ipc) : ReceiveOutcome → IpcSystem
  | .notified => { sys with
      ipc := ipc
      cont := Function.update sys.cont proc .user
      returned := sys.returned ++ [(proc, ipc.msgs this)] }
  | .taken sender => { sys with
      ipc := ipc
      cont := Function.update sys.cont proc .user
      deliveries := sys.deliveries ++ [⟨sender, proc, sys.passed sender, ipc.msgs this⟩]
      returned := sys.returned ++ [(proc, ipc.msgs this)] }
  | .blocked => { sys with ipc := ipc, cont := Function.update sys.cont proc (.receiving this) }

/-- What remains of a receive once the queue has been read. -/
def doReceive (sys : IpcSystem) (fuel : Nat) (proc this want prev : Addr) : Option IpcSystem :=
  (sys.ipc.receiveFrom fuel proc this want prev).map fun result =>
    sys.recordReceive proc this result.1 result.2

/-- What a receive can do: report an interrupt, block, or take the first sender of the
queue or one behind it. -/
inductive Received (sys : IpcSystem) (fuel : Nat) (proc this want prev : Addr) : IpcSystem → Prop
  | notified (hcount : sys.ipc.intrCnt (sys.ipc.msgs this).source ≠ 0) (hwant : want = anyProcess) :
      Received sys fuel proc this want prev (sys.recordReceive proc this
        ((sys.ipc.setMessage this { sys.ipc.msgs this with type := intrType }).setIntrCnt
          (sys.ipc.msgs this).source (sys.ipc.intrCnt (sys.ipc.msgs this).source - 1)) .notified)
  | blocked (hempty : prev = 0 ∨
        want ≠ anyProcess ∧ Ipc.traverse sys.ipc.nextReady want fuel prev = some none) :
      Received sys fuel proc this want prev (sys.recordReceive proc this
        (sys.ipc.waitMessage proc this (sys.ipc.msgs this).source want) .blocked)
  | first (hne : prev ≠ 0) (hwant : want = prev ∨ want = anyProcess) :
      Received sys fuel proc this want prev (sys.recordReceive proc this
        (sys.ipc.takeFirst this (sys.ipc.msgs this).source prev) (.taken prev))
  | behind (before : Addr) (hother : want ≠ prev) (hany : want ≠ anyProcess)
      (htraverse : Ipc.traverse sys.ipc.nextReady want fuel prev = some (some before)) :
      Received sys fuel proc this want prev (sys.recordReceive proc this
        (sys.ipc.takeBehind this want before) (.taken want))

theorem doReceive_cases {sys next : IpcSystem} {fuel : Nat} {proc this want prev : Addr}
    (hreceive : sys.doReceive fuel proc this want prev = some next) :
    sys.Received fuel proc this want prev next := by
  obtain ⟨⟨ipc, outcome⟩, hfrom, hnext⟩ := Option.map_eq_some_iff.mp hreceive
  subst hnext
  rcases Ipc.receiveFrom_cases hfrom with ⟨rfl, hcount, hwant, rfl⟩ | ⟨-, ⟨rfl, hempty, rfl⟩ |
    ⟨rfl, hne, hwant, rfl⟩ | ⟨rfl, hother, hany, before, htraverse, rfl⟩⟩
  · exact .notified hcount hwant
  · exact .blocked hempty
  · exact .first hne hwant
  · exact .behind before hother hany htraverse

/-- No receive changes the source of an object. -/
theorem doReceive_source {sys next : IpcSystem} {fuel : Nat} {proc this want prev : Addr}
    (hreceive : sys.doReceive fuel proc this want prev = some next) (object : Addr) :
    (next.ipc.msgs object).source = (sys.ipc.msgs object).source := by
  rcases doReceive_cases hreceive with _ | _ | _ | ⟨before, -, -, -⟩
  · exact update_source sys.ipc.msgs (by rfl) object
  · exact update_source sys.ipc.msgs (by rfl) object
  · simp only [recordReceive, Ipc.takeFirst, Ipc.releaseSender_msgs]
    exact update_source sys.ipc.msgs (by rfl) object
  · simp only [recordReceive, Ipc.takeBehind, Ipc.releaseSender_msgs]
    exact update_source sys.ipc.msgs (by rfl) object

theorem doReceive_cont {sys next : IpcSystem} {fuel : Nat} {proc this want prev : Addr}
    (hreceive : sys.doReceive fuel proc this want prev = some next) :
    next.cont = Function.update sys.cont proc .user ∨
      next.cont = Function.update sys.cont proc (.receiving this) := by
  obtain ⟨⟨ipc, outcome⟩, -, rfl⟩ := Option.map_eq_some_iff.mp hreceive
  cases outcome with
  | notified => exact .inl rfl
  | taken => exact .inl rfl
  | blocked => exact .inr rfl

/-- A receive sends nothing, and it returns at most once. -/
theorem doReceive_record {sys next : IpcSystem} {fuel : Nat} {proc this want prev : Addr}
    (hreceive : sys.doReceive fuel proc this want prev = some next) :
    next.sends = sys.sends ∧ next.passed = sys.passed ∧
      (next.returned = sys.returned ∨
        ∃ message, next.returned = sys.returned ++ [(proc, message)]) := by
  obtain ⟨⟨ipc, outcome⟩, -, rfl⟩ := Option.map_eq_some_iff.mp hreceive
  cases outcome with
  | notified => exact ⟨rfl, rfl, .inr ⟨_, rfl⟩⟩
  | taken => exact ⟨rfl, rfl, .inr ⟨_, rfl⟩⟩
  | blocked => exact ⟨rfl, rfl, .inl rfl⟩

/-- A receive makes nobody send. -/
theorem doReceive_sending {sys next : IpcSystem} {fuel : Nat} {proc this want prev other : Addr}
    (hreceive : sys.doReceive fuel proc this want prev = some next)
    (hsending : next.ipc.status other = .sendingMsg) : sys.ipc.status other = .sendingMsg := by
  rcases doReceive_cases hreceive with _ | _ | _ | ⟨before, -, -, -⟩
  · exact hsending
  · change Function.update sys.ipc.status proc .waitingMsg other = .sendingMsg at hsending
    rw [Function.update_apply] at hsending
    split at hsending
    next => cases hsending
    next => exact hsending
  · exact ((sys.ipc.takeFirst_sending_iff this _ prev other).mp hsending).1
  · exact ((sys.ipc.takeBehind_sending_iff this want before other).mp hsending).1

/-- The head of the queue that `receive` on the object at `this` looks at. -/
def queueHead (sys : IpcSystem) (this : Addr) : Addr :=
  sys.ipc.sendings (sys.ipc.msgs this).source

/-- The user code of `proc` writes the object, and the entry fills in its source. -/
def enter (sys : IpcSystem) (proc this : Addr) (message : Message) : IpcSystem :=
  { sys with ipc := (sys.ipc.setMessage this message).fillSource proc this }

/-- The source of a message on which `proc` enters the kernel. -/
def sourceOf (proc : Addr) (message : Message) : Addr :=
  if message.source = 0 then proc else message.source

theorem enter_eq (sys : IpcSystem) (proc this : Addr) (message : Message) :
    sys.enter proc this message = { sys with
      ipc := sys.ipc.setMessage this { message with source := sourceOf proc message } } := by
  rw [enter, Ipc.fillSource, Ipc.setMessage_msgs, Function.update_self, sourceOf]
  split <;> simp [Ipc.setMessage]

section

variable (sys : IpcSystem) (proc this dest : Addr)

/-- The state after `proc` has handed the object at `this` to the waiting `dest`. -/
@[simps! -fullyApplied]
def afterDeliver : IpcSystem :=
  sys.recordSend proc this dest .delivered (sys.ipc.deliver dest (sys.ipc.msgs this))

/-- The state after `proc` has been queued at `dest`. -/
@[simps! -fullyApplied]
def afterBlock : IpcSystem :=
  sys.recordSend proc this dest .blocked (((sys.ipc.storeMessage proc this).linkSender proc
    dest).selfBlock proc .sendingMsg)

/-- The state after `proc` has begun to wait for a message from `want`. -/
@[simps! -fullyApplied]
def afterWait (want : Addr) : IpcSystem :=
  sys.recordReceive proc this (sys.ipc.waitMessage proc this proc want) .blocked

/-- The state after `proc` has taken the message of `prev`, the first on its queue. -/
def afterTake (prev : Addr) : IpcSystem :=
  sys.recordReceive proc this (sys.ipc.takeFirst this proc prev) (.taken prev)

section

variable (prev : Addr)

@[simp]
theorem afterTake_ipc_status (other : Addr) : (sys.afterTake proc this prev).ipc.status other =
    if other = prev ∧ sys.ipc.status prev = .sendingMsg then .ready else sys.ipc.status other :=
  Ipc.releaseSender_status _ prev other

@[simp]
theorem afterTake_ipc_message : (sys.afterTake proc this prev).ipc.message = sys.ipc.message := by
  simp [afterTake, recordReceive, Ipc.takeFirst]

@[simp]
theorem afterTake_ipc_intrCnt : (sys.afterTake proc this prev).ipc.intrCnt = sys.ipc.intrCnt := by
  simp [afterTake, recordReceive, Ipc.takeFirst]

@[simp]
theorem afterTake_ipc_msgs : (sys.afterTake proc this prev).ipc.msgs =
    Function.update sys.ipc.msgs this { sys.ipc.msgs this with
      type := (sys.ipc.msgs (sys.ipc.message prev)).type
      context := (sys.ipc.msgs (sys.ipc.message prev)).context
      destination := prev } := by
  simp [afterTake, recordReceive, Ipc.takeFirst]

@[simp]
theorem afterTake_cont :
    (sys.afterTake proc this prev).cont = Function.update sys.cont proc .user := rfl

@[simp]
theorem afterTake_sends : (sys.afterTake proc this prev).sends = sys.sends := rfl

@[simp]
theorem afterTake_passed : (sys.afterTake proc this prev).passed = sys.passed := rfl

@[simp]
theorem afterTake_target : (sys.afterTake proc this prev).target = sys.target := rfl

theorem afterTake_returned : (sys.afterTake proc this prev).returned = sys.returned ++
    [(proc, (sys.afterTake proc this prev).ipc.msgs this)] := rfl

end

variable {sys proc this dest}

theorem doSend_of_accepts (hsource : (sys.ipc.msgs this).source ≠ interruptNetPcb)
    (haccepts : sys.ipc.Accepts dest (sys.ipc.msgs this)) :
    sys.doSend proc this dest = (sys.afterDeliver proc this dest, .delivered) := by
  rw [doSend, Ipc.send_of_accepts hsource haccepts]
  rfl

theorem doSend_of_refused (hsource : (sys.ipc.msgs this).source = proc)
    (hnet : proc ≠ interruptNetPcb) (hdisk : proc ≠ interruptPcb)
    (hrefused : ¬ sys.ipc.Accepts dest (sys.ipc.msgs this)) :
    sys.doSend proc this dest = (sys.afterBlock proc this dest, .blocked) := by
  rw [doSend, Ipc.send_of_refused (hsource ▸ hnet) (hsource ▸ hdisk) hrefused, hsource]
  rfl

variable {fuel : Nat} {want : Addr}

theorem doReceive_of_empty (hsource : (sys.ipc.msgs this).source = proc)
    (hcount : sys.ipc.intrCnt proc = 0) (hempty : sys.ipc.sendings proc = 0) :
    sys.doReceive fuel proc this want (sys.queueHead this) =
      some (sys.afterWait proc this want) := by
  rw [doReceive, queueHead, hsource, hempty, Ipc.receiveFrom_of_empty (hsource ▸ hcount), hsource]
  rfl

theorem doReceive_of_first (hsource : (sys.ipc.msgs this).source = proc)
    (hcount : sys.ipc.intrCnt proc = 0) (hne : sys.ipc.sendings proc ≠ 0)
    (hwant : want = sys.ipc.sendings proc ∨ want = anyProcess) :
    sys.doReceive fuel proc this want (sys.queueHead this) =
      some (sys.afterTake proc this (sys.ipc.sendings proc)) := by
  rw [doReceive, queueHead, hsource, Ipc.receiveFrom_of_first (hsource ▸ hcount) hne hwant, hsource]
  rfl

end

/-- `syscall_handler`. -/
def syscallHandler (sys : IpcSystem) (fuel : Nat) (proc this : Addr) (type : SyscallType)
    (target : Addr) : Option IpcSystem :=
  let sent := sys.doSend proc this target
  match type with
  | .send => some (if sent.2 = .blocked then sent.1.setCont proc .sending else sent.1)
  | .recv => sys.doReceive fuel proc this target (sys.queueHead this)
  | .sendRecv =>
      if sent.2 = .blocked then some (sent.1.setCont proc (.sendingRecv this target))
      else sent.1.doReceive fuel proc this target (sent.1.queueHead this)

/-- `proc` can run, and what it runs is `cont`. -/
def Runs (sys : IpcSystem) (proc : Addr) (cont : Continuation) : Prop :=
  (sys.ipc.status proc).Runnable ∧ sys.cont proc = cont

instance (sys : IpcSystem) (proc : Addr) (cont : Continuation) : Decidable (sys.Runs proc cont) :=
  inferInstanceAs (Decidable (_ ∧ _))

/-- A process continues after it has been made ready again. -/
def continueProc (sys : IpcSystem) (fuel : Nat) (proc : Addr) : Option IpcSystem :=
  match sys.cont proc with
  | .sending => some (sys.setCont proc .user)
  | .sendingRecv this target => sys.doReceive fuel proc this target (sys.queueHead this)
  | .receiving this => some { sys with
      cont := Function.update sys.cont proc .user
      returned := sys.returned ++ [(proc, sys.ipc.msgs this)] }
  | .user | .checked .. => none

/-- One step of the system; `fuel` bounds the traversals of `receive`. -/
def step (fuel : Nat) (sys : IpcSystem) : IpcEvent → Option IpcSystem
  | .syscall proc this message type target =>
      if sys.Runs proc .user then
        (sys.enter proc this message).syscallHandler fuel proc this type target
      else none
  | .resume proc =>
      if (sys.ipc.status proc).Runnable then sys.continueProc fuel proc else none
  | .interrupt this message dest =>
      let entered := { sys with ipc := sys.ipc.setMessage this message }
      some (entered.doSend message.source this dest).1
  | .check proc this message want =>
      if sys.Runs proc .user then
        let entered := sys.enter proc this message
        some (entered.setCont proc (.checked this want (entered.queueHead this)))
      else none
  | .finish proc =>
      match sys.cont proc with
      | .checked this want prev =>
          if (sys.ipc.status proc).Runnable then sys.doReceive fuel proc this want prev else none
      | _ => none

/-- What one step can do, one case for each way through the code. -/
inductive Stepped (fuel : Nat) (sys : IpcSystem) : IpcEvent → IpcSystem → Prop
  | entered {proc this target message type next} (hruns : sys.Runs proc .user)
      (hentry : (sys.enter proc this message).syscallHandler fuel proc this type target =
        some next) : Stepped fuel sys (.syscall proc this message type target) next
  | sent {proc} (hrunnable : (sys.ipc.status proc).Runnable) (hcont : sys.cont proc = .sending) :
      Stepped fuel sys (.resume proc) (sys.setCont proc .user)
  | sentFirst {proc this target next} (hrunnable : (sys.ipc.status proc).Runnable)
      (hcont : sys.cont proc = .sendingRecv this target)
      (hreceive : sys.doReceive fuel proc this target (sys.queueHead this) = some next) :
      Stepped fuel sys (.resume proc) next
  | received {proc this} (hrunnable : (sys.ipc.status proc).Runnable)
      (hcont : sys.cont proc = .receiving this) :
      Stepped fuel sys (.resume proc) { sys with
        cont := Function.update sys.cont proc .user
        returned := sys.returned ++ [(proc, sys.ipc.msgs this)] }
  | interrupted {this message dest} :
      Stepped fuel sys (.interrupt this message dest)
        (({ sys with ipc := sys.ipc.setMessage this message } : IpcSystem).doSend
          message.source this dest).1
  | checked {proc this message want} (hruns : sys.Runs proc .user) :
      Stepped fuel sys (.check proc this message want)
        ((sys.enter proc this message).setCont proc
          (.checked this want ((sys.enter proc this message).queueHead this)))
  | finished {proc this want prev next} (hrunnable : (sys.ipc.status proc).Runnable)
      (hcont : sys.cont proc = .checked this want prev)
      (hreceive : sys.doReceive fuel proc this want prev = some next) :
      Stepped fuel sys (.finish proc) next

theorem step_cases {fuel : Nat} {sys next : IpcSystem} {event : IpcEvent}
    (hstep : sys.step fuel event = some next) : Stepped fuel sys event next := by
  cases event with
  | syscall proc this message type target =>
      rw [step] at hstep
      split at hstep
      next hruns => exact .entered hruns hstep
      next => cases hstep
  | resume proc =>
      rw [step] at hstep
      split at hstep
      next hrunnable =>
        unfold continueProc at hstep
        split at hstep
        next hcont =>
          cases hstep
          exact .sent hrunnable hcont
        next this target hcont => exact .sentFirst hrunnable hcont hstep
        next this hcont =>
          cases hstep
          exact .received hrunnable hcont
        next => cases hstep
        next => cases hstep
      next => cases hstep
  | interrupt this message dest =>
      cases hstep
      exact .interrupted
  | check proc this message want =>
      rw [step] at hstep
      split at hstep
      next hruns =>
        cases hstep
        exact .checked hruns
      next => cases hstep
  | finish proc =>
      rw [step] at hstep
      split at hstep
      next this want prev hcont =>
        split at hstep
        next hrunnable => exact .finished hrunnable hcont hstep
        next => cases hstep
      next => cases hstep

end IpcSystem

end Shmily.Kernel
