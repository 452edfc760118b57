import Mathlib.Tactic.Simps.Basic
import Shmily.Kernel.Process

/-! # Messages between processes

`Message::send` and `Message::receive` as they run in the kernel. The fields of
`struct pcb` that they use are maps from PCB addresses, and `Message` objects
live at addresses of their own. Which process runs next is not decided here:
blocking and waking a process only change its status, and any process that is
ready may run next.
-/

namespace Shmily.Kernel

/-- `all_processes::ANY`. -/
def anyProcess : Addr := 0x0

/-- `all_processes::INTERRUPT`, the PCB in whose name disk interrupts send. -/
def interruptPcb : Addr := 0x98000

/-- `all_processes::INTERRUPT_NET`. -/
def interruptNetPcb : Addr := 0x98100

/-- `common::REPLY`. -/
def replyType : Nat := 0xfffffe

/-- `intr::INTR`. -/
def intrType : Nat := 0xffffff

/-- `struct _context`. -/
structure Context where
  con1 : Nat
  con2 : Nat
  con3 : Nat
  con4 : Nat
  deriving DecidableEq, Repr, Inhabited

/-- The members of class `Message`. -/
structure Message where
  source : Addr
  destination : Addr
  type : Nat
  context : Context
  deriving DecidableEq, Repr, Inhabited

/-- The PCB fields and the objects that message passing reads and writes. -/
structure Ipc where
  status : Addr → ProcessStatus
  nextReady : Addr → Addr
  message : Addr → Addr
  sendings : Addr → Addr
  intrCnt : Addr → UInt8
  msgs : Addr → Message

/-- How a call of `send` ended. -/
inductive SendOutcome
  | notified
  | delivered
  | linked
  | blocked
  deriving DecidableEq, Repr

/-- How a call of `receive` ended; `taken` names the PCB whose message was copied. -/
inductive ReceiveOutcome
  | notified
  | taken (sender : Addr)
  | blocked
  deriving DecidableEq, Repr

namespace Ipc

/-- `unblock_proc`, as far as the status goes. -/
@[simps -fullyApplied]
def unblockProc (ipc : Ipc) (proc : Addr) : Ipc :=
  { ipc with status := Function.update ipc.status proc .ready }

/-- `self_block`, as far as the status goes. -/
@[simps -fullyApplied]
def selfBlock (ipc : Ipc) (cur : Addr) (status : ProcessStatus) : Ipc :=
  { ipc with status := Function.update ipc.status cur status }

@[simps -fullyApplied]
def setMessage (ipc : Ipc) (this : Addr) (message : Message) : Ipc :=
  { ipc with msgs := Function.update ipc.msgs this message }

@[simps -fullyApplied]
def setIntrCnt (ipc : Ipc) (proc : Addr) (cnt : UInt8) : Ipc :=
  { ipc with intrCnt := Function.update ipc.intrCnt proc cnt }

/-- The `message` field of a PCB is made to point to the object at `this`. -/
@[simps -fullyApplied]
def storeMessage (ipc : Ipc) (proc this : Addr) : Ipc :=
  { ipc with message := Function.update ipc.message proc this }

/-- `sender` becomes the first entry of the queue of `dest`. -/
@[simps -fullyApplied]
def linkSender (ipc : Ipc) (sender dest : Addr) : Ipc :=
  { ipc with
    nextReady := Function.update ipc.nextReady sender (ipc.sendings dest)
    sendings := Function.update ipc.sendings dest sender }

@[simps -fullyApplied]
def setSendings (ipc : Ipc) (proc first : Addr) : Ipc :=
  { ipc with sendings := Function.update ipc.sendings proc first }

@[simps -fullyApplied]
def setNextReady (ipc : Ipc) (proc next : Addr) : Ipc :=
  { ipc with nextReady := Function.update ipc.nextReady proc next }

/-- The process waits for a message from anybody. -/
def WaitsForAny (ipc : Ipc) (proc : Addr) : Prop :=
  ipc.status proc = .waitingMsg ∧ (ipc.msgs (ipc.message proc)).destination = anyProcess

instance (ipc : Ipc) (proc : Addr) : Decidable (ipc.WaitsForAny proc) :=
  inferInstanceAs (Decidable (_ ∧ _))

/-- The test of `send` whether the destination takes this message at once. -/
def Accepts (ipc : Ipc) (dest : Addr) (message : Message) : Prop :=
  (ipc.status dest = .waitingMsg ∧
    ((ipc.msgs (ipc.message dest)).destination = anyProcess ∨
      message.source = (ipc.msgs (ipc.message dest)).destination)) ∨
  (ipc.status dest = .waitingMsg ∧ message.type = replyType)

instance (ipc : Ipc) (dest : Addr) (message : Message) : Decidable (ipc.Accepts dest message) :=
  inferInstanceAs (Decidable (_ ∨ _))

/-- The waiting process `dest` is told of an interrupt in its own object. -/
def notify (ipc : Ipc) (dest : Addr) : Ipc :=
  (ipc.setMessage (ipc.message dest)
    { ipc.msgs (ipc.message dest) with type := intrType }).unblockProc dest

/-- A message is copied into the object of the waiting process `dest`; the source
of that object is left alone. -/
def deliver (ipc : Ipc) (dest : Addr) (message : Message) : Ipc :=
  (ipc.setMessage (ipc.message dest)
    { ipc.msgs (ipc.message dest) with
      type := message.type, context := message.context, destination := message.source }).unblockProc
    dest

/-- `Message::send` on the object at `this`, called while `cur` is the current
process. -/
def send (ipc : Ipc) (cur this dest : Addr) : Ipc × SendOutcome :=
  let message := ipc.msgs this
  if message.source = interruptNetPcb then
    let counted := ipc.setIntrCnt dest (ipc.intrCnt dest + 1)
    if ipc.WaitsForAny dest then (counted.notify dest, .notified) else (counted, .notified)
  else if ipc.Accepts dest message then (ipc.deliver dest message, .delivered)
  else if message.source = interruptPcb then (ipc.linkSender interruptPcb dest, .linked)
  else
    -- the object is stored in the PCB of the source, but the current process is queued
    (((ipc.storeMessage message.source this).linkSender cur dest).selfBlock cur .sendingMsg, .blocked)

/-- The traversal loop of `receive`: the queued PCB before `want`, or `none` if
the end is met; no result if neither happens within `fuel` steps. -/
def traverse (nextReady : Addr → Addr) (want : Addr) : Nat → Addr → Option (Option Addr)
  | 0, _ => none
  | fuel + 1, prev =>
      if prev = 0 then some none
      else if want = nextReady prev then some (some prev)
      else traverse nextReady want fuel (nextReady prev)

/-- The contents of `message` are copied into the receiver's object at `this`. -/
@[simps! -fullyApplied]
def copyMessage (ipc : Ipc) (this : Addr) (message : Message) (destination : Addr) : Ipc :=
  ipc.setMessage this { ipc.msgs this with
    type := message.type, context := message.context, destination := destination }

/-- A sender is made ready again. -/
def releaseSender (ipc : Ipc) (sender : Addr) : Ipc :=
  if ipc.status sender = .sendingMsg then ipc.unblockProc sender else ipc

/-- `receive` takes the message of the first queued sender. -/
def takeFirst (ipc : Ipc) (this src prev : Addr) : Ipc :=
  let first := ipc.sendings src
  let rest := if ipc.nextReady first = first then 0 else ipc.nextReady first
  ((ipc.copyMessage this (ipc.msgs (ipc.message prev)) prev).setSendings src rest).releaseSender prev

/-- `receive` takes the message of `want`, which is queued behind `prev`. -/
def takeBehind (ipc : Ipc) (this want prev : Addr) : Ipc :=
  ((ipc.copyMessage this (ipc.msgs (ipc.message want)) prev).setNextReady prev
    (ipc.nextReady want)).releaseSender prev

/-- The end of `receive`: wait for the message. -/
def waitMessage (ipc : Ipc) (cur this src want : Addr) : Ipc :=
  ((ipc.setMessage this { ipc.msgs this with destination := want }).storeMessage src this).selfBlock
    cur .waitingMsg

/-- What `receive` does once it has read the head `prev` of the queue. -/
def receiveFrom (ipc : Ipc) (fuel : Nat) (cur this want prev : Addr) :
    Option (Ipc × ReceiveOutcome) :=
  let src := (ipc.msgs this).source
  if ipc.intrCnt src ≠ 0 ∧ want = anyProcess then
    some ((ipc.setMessage this { ipc.msgs this with type := intrType }).setIntrCnt src
      (ipc.intrCnt src - 1), .notified)
  else if prev = 0 then some (ipc.waitMessage cur this src want, .blocked)
  else if want = prev ∨ want = anyProcess then
    some (ipc.takeFirst this src prev, .taken prev)
  else match traverse ipc.nextReady want fuel prev with
    | none => none
    | some none => some (ipc.waitMessage cur this src want, .blocked)
    | some (some before) => some (ipc.takeBehind this want before, .taken want)

/-- `Message::receive` on the object at `this`. -/
def receive (ipc : Ipc) (fuel : Nat) (cur this want : Addr) : Option (Ipc × ReceiveOutcome) :=
  ipc.receiveFrom fuel cur this want (ipc.sendings (ipc.msgs this).source)

/-- The first lines of `syscall_handler`: an empty source is filled in. -/
def fillSource (ipc : Ipc) (cur this : Addr) : Ipc :=
  if (ipc.msgs this).source = 0 then ipc.setMessage this { ipc.msgs this with source := cur }
  else ipc

/-! ## What the operations can do -/

section

variable (ipc : Ipc) (cur this dest : Addr)

@[simp]
theorem releaseSender_nextReady (sender : Addr) :
    (ipc.releaseSender sender).nextReady = ipc.nextReady := by
  rw [releaseSender]
  split <;> rfl

@[simp]
theorem releaseSender_sendings (sender : Addr) :
    (ipc.releaseSender sender).sendings = ipc.sendings := by
  rw [releaseSender]
  split <;> rfl

@[simp]
theorem releaseSender_message (sender : Addr) :
    (ipc.releaseSender sender).message = ipc.message := by
  rw [releaseSender]
  split <;> rfl

@[simp]
theorem releaseSender_intrCnt (sender : Addr) :
    (ipc.releaseSender sender).intrCnt = ipc.intrCnt := by
  rw [releaseSender]
  split <;> rfl

@[simp]
theorem releaseSender_msgs (sender : Addr) : (ipc.releaseSender sender).msgs = ipc.msgs := by
  rw [releaseSender]
  split <;> rfl

theorem releaseSender_status (sender proc : Addr) :
    (ipc.releaseSender sender).status proc =
      if proc = sender ∧ ipc.status sender = .sendingMsg then .ready else ipc.status proc := by
  unfold releaseSender
  split
  next hsending => simp [hsending, Function.update_apply]
  next hsending => simp [hsending]

/-- Only the released sender stops sending. -/
theorem releaseSender_sending_iff (sender proc : Addr) :
    (ipc.releaseSender sender).status proc = .sendingMsg ↔
      ipc.status proc = .sendingMsg ∧ proc ≠ sender := by
  rw [releaseSender_status]
  split
  next hsender => simp [hsender.1]
  next hsender =>
    refine ⟨fun hproc => ⟨hproc, fun heq => hsender ⟨heq, ?_⟩⟩, And.left⟩
    exact heq ▸ hproc

theorem releaseSender_waiting_iff (sender proc : Addr) :
    (ipc.releaseSender sender).status proc = .waitingMsg ↔ ipc.status proc = .waitingMsg := by
  rw [releaseSender_status]
  split
  next hsender => simp [hsender.1, hsender.2]
  next => exact Iff.rfl

theorem takeFirst_sending_iff (src prev proc : Addr) :
    (ipc.takeFirst this src prev).status proc = .sendingMsg ↔
      ipc.status proc = .sendingMsg ∧ proc ≠ prev :=
  releaseSender_sending_iff _ prev proc

theorem takeFirst_waiting_iff (src prev proc : Addr) :
    (ipc.takeFirst this src prev).status proc = .waitingMsg ↔ ipc.status proc = .waitingMsg :=
  releaseSender_waiting_iff _ prev proc

theorem takeBehind_sending_iff (want prev proc : Addr) :
    (ipc.takeBehind this want prev).status proc = .sendingMsg ↔
      ipc.status proc = .sendingMsg ∧ proc ≠ prev :=
  releaseSender_sending_iff _ prev proc

theorem takeBehind_waiting_iff (want prev proc : Addr) :
    (ipc.takeBehind this want prev).status proc = .waitingMsg ↔ ipc.status proc = .waitingMsg :=
  releaseSender_waiting_iff _ prev proc

variable {ipc dest} in
theorem Accepts.waiting {message : Message} (haccepts : ipc.Accepts dest message) :
    ipc.status dest = .waitingMsg :=
  haccepts.elim And.left And.left

/-- Every way in which `send` can end. -/
theorem send_cases :
    ((ipc.msgs this).source = interruptNetPcb ∧ ¬ ipc.WaitsForAny dest ∧
      ipc.send cur this dest = (ipc.setIntrCnt dest (ipc.intrCnt dest + 1), .notified)) ∨
    ((ipc.msgs this).source = interruptNetPcb ∧ ipc.WaitsForAny dest ∧
      ipc.send cur this dest =
        ((ipc.setIntrCnt dest (ipc.intrCnt dest + 1)).notify dest, .notified)) ∨
    ((ipc.msgs this).source ≠ interruptNetPcb ∧ ipc.Accepts dest (ipc.msgs this) ∧
      ipc.send cur this dest = (ipc.deliver dest (ipc.msgs this), .delivered)) ∨
    ((ipc.msgs this).source = interruptPcb ∧ ¬ ipc.Accepts dest (ipc.msgs this) ∧
      ipc.send cur this dest = (ipc.linkSender interruptPcb dest, .linked)) ∨
    ((ipc.msgs this).source ≠ interruptNetPcb ∧ (ipc.msgs this).source ≠ interruptPcb ∧
      ¬ ipc.Accepts dest (ipc.msgs this) ∧
      ipc.send cur this dest = (((ipc.storeMessage (ipc.msgs this).source this).linkSender cur
        dest).selfBlock cur .sendingMsg, .blocked)) := by
  rw [send]
  by_cases hnet : (ipc.msgs this).source = interruptNetPcb
  · by_cases hwaits : ipc.WaitsForAny dest
    · exact .inr (.inl ⟨hnet, hwaits, by simp [hnet, hwaits]⟩)
    · exact .inl ⟨hnet, hwaits, by simp [hnet, hwaits]⟩
  · by_cases haccepts : ipc.Accepts dest (ipc.msgs this)
    · exact .inr (.inr (.inl ⟨hnet, haccepts, by simp [hnet, haccepts]⟩))
    · by_cases hintr : (ipc.msgs this).source = interruptPcb
      · have hne : interruptPcb ≠ interruptNetPcb := by decide
        exact .inr (.inr (.inr (.inl ⟨hintr, haccepts, by simp [hne, haccepts, hintr]⟩)))
      · exact .inr (.inr (.inr (.inr ⟨hnet, hintr, haccepts,
          by simp [hnet, haccepts, hintr]⟩)))

variable {ipc cur this dest}

theorem send_of_accepts (hnet : (ipc.msgs this).source ≠ interruptNetPcb)
    (haccepts : ipc.Accepts dest (ipc.msgs this)) :
    ipc.send cur this dest = (ipc.deliver dest (ipc.msgs this), .delivered) := by
  simp [send, hnet, haccepts]

theorem send_of_refused (hnet : (ipc.msgs this).source ≠ interruptNetPcb)
    (hdisk : (ipc.msgs this).source ≠ interruptPcb) (hrefused : ¬ ipc.Accepts dest (ipc.msgs this)) :
    ipc.send cur this dest = (((ipc.storeMessage (ipc.msgs this).source this).linkSender cur
      dest).selfBlock cur .sendingMsg, .blocked) := by
  simp [send, hnet, hdisk, hrefused]

variable {fuel : Nat} {want prev : Addr} {next : Ipc} {outcome : ReceiveOutcome}

theorem receiveFrom_of_empty (hcount : ipc.intrCnt (ipc.msgs this).source = 0) :
    ipc.receiveFrom fuel cur this want 0 =
      some (ipc.waitMessage cur this (ipc.msgs this).source want, .blocked) := by
  simp [receiveFrom, hcount]

theorem receiveFrom_of_first (hcount : ipc.intrCnt (ipc.msgs this).source = 0) (hne : prev ≠ 0)
    (hwant : want = prev ∨ want = anyProcess) :
    ipc.receiveFrom fuel cur this want prev =
      some (ipc.takeFirst this (ipc.msgs this).source prev, .taken prev) := by
  simp [receiveFrom, hcount, hne, hwant]

/-- Every way in which `receive` can end. -/
theorem receiveFrom_cases
    (hreceive : ipc.receiveFrom fuel cur this want prev = some (next, outcome)) :
    (outcome = .notified ∧ ipc.intrCnt (ipc.msgs this).source ≠ 0 ∧ want = anyProcess ∧
      next = (ipc.setMessage this { ipc.msgs this with type := intrType }).setIntrCnt
        (ipc.msgs this).source (ipc.intrCnt (ipc.msgs this).source - 1)) ∨
    (¬ (ipc.intrCnt (ipc.msgs this).source ≠ 0 ∧ want = anyProcess) ∧
      ((outcome = .blocked ∧
        (prev = 0 ∨ want ≠ anyProcess ∧ traverse ipc.nextReady want fuel prev = some none) ∧
        next = ipc.waitMessage cur this (ipc.msgs this).source want) ∨
      (outcome = .taken prev ∧ prev ≠ 0 ∧ (want = prev ∨ want = anyProcess) ∧
        next = ipc.takeFirst this (ipc.msgs this).source prev) ∨
      (outcome = .taken want ∧ want ≠ prev ∧ want ≠ anyProcess ∧ ∃ before,
        traverse ipc.nextReady want fuel prev = some (some before) ∧
        next = ipc.takeBehind this want before))) := by
  rw [receiveFrom] at hreceive
  split at hreceive
  next hcount =>
    cases hreceive
    exact .inl ⟨rfl, hcount.1, hcount.2, rfl⟩
  next hcount =>
    refine .inr ⟨hcount, ?_⟩
    split at hreceive
    next hzero =>
      cases hreceive
      exact .inl ⟨rfl, .inl hzero, rfl⟩
    next hzero =>
      split at hreceive
      next hwant =>
        cases hreceive
        exact .inr (.inl ⟨rfl, hzero, hwant, rfl⟩)
      next hwant =>
        rw [not_or] at hwant
        split at hreceive
        next => cases hreceive
        next htraverse =>
          cases hreceive
          exact .inl ⟨rfl, .inr ⟨hwant.2, htraverse⟩, rfl⟩
        next before htraverse =>
          cases hreceive
          exact .inr (.inr ⟨rfl, hwant.1, hwant.2, before, htraverse, rfl⟩)

end

end Ipc

end Shmily.Kernel
