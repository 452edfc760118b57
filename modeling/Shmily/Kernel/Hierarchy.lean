import Shmily.Foundation.Rendezvous
import Shmily.Kernel.RequestReply

/-! # Servers that call servers

The memory manager, the disk driver, the file system, the network and the terminal
are processes of one kind: each loops over `receive(ANY)` on one object and answers
the requests that expect it, and while it serves one it calls servers below it with
objects of its own. The driver waits for the disk in between. The kernel process,
which does not enter the kernel through the gate, is not among them, and neither are
requests that are put off, as `ACCEPT` is.
-/

namespace Shmily.Kernel

open Foundation

/-- The order of the processes, the object of each main loop, the owners of all
objects, and which types of request each server answers. -/
structure Hierarchy where
  rank : Addr → Nat
  object : Addr → Addr
  owner : Addr → Addr
  answers : Addr → Nat → Bool
  driver : Addr
  driver_process : IsProcess driver
  object_owner : ∀ proc, owner (object proc) = proc
  intr_unanswered : ∀ proc, answers proc intrType = false

/-- The processes, and for each the client to whose request its main loop has come. -/
structure HierarchyState where
  sys : IpcSystem
  serving : Addr → Option Addr

inductive HierarchyEvent
  /-- `proc` calls `send_then_recv`. -/
  | call (proc this : Addr) (message : Message) (server : Addr)
  /-- `proc` calls `send` with a request that is not answered. -/
  | post (proc this : Addr) (message : Message) (server : Addr)
  /-- The main loop of `proc` calls `receive(ANY)`. -/
  | receive (proc : Addr)
  /-- `proc` has put `context` into the object of its main loop and calls `reply`. -/
  | reply (proc : Addr) (context : Context)
  /-- The driver calls `receive(INTERRUPT)`. -/
  | await (this : Addr) (message : Message)
  /-- A process that was blocked continues. -/
  | resume (proc : Addr)
  /-- `disk_handler` sends to the driver. -/
  | disk (this : Addr) (message : Message)
  /-- `ne2k_handler` sends to the process at `dest`. -/
  | network (this : Addr) (message : Message) (dest : Addr)

namespace Hierarchy

variable (h : Hierarchy)

def initial : HierarchyState where
  sys := .initial
  serving _ := none

/-- The client that has to be answered when the main loop has got the message that is
now in its object. -/
def obtained (sys : IpcSystem) (proc : Addr) : Option Addr :=
  let message := sys.ipc.msgs (h.object proc)
  if h.answers proc message.type then some message.destination else none

/-- `reply`: the type is set, and the message goes back where the last one came from. -/
def replyMessage (sys : IpcSystem) (proc : Addr) (context : Context) : Message :=
  { sys.ipc.msgs (h.object proc) with type := replyType, context := context }

/-- What the kernel is asked to do. -/
def ipcEvent (sys : IpcSystem) : HierarchyEvent → IpcEvent
  | .call proc this message server => .syscall proc this message .sendRecv server
  | .post proc this message server => .syscall proc this message .send server
  | .receive proc =>
      .syscall proc (h.object proc) (sys.ipc.msgs (h.object proc)) .recv anyProcess
  | .reply proc context => .syscall proc (h.object proc) (h.replyMessage sys proc context) .send
      (sys.ipc.msgs (h.object proc)).destination
  | .await this message => .syscall h.driver this message .recv interruptPcb
  | .resume proc => .resume proc
  | .disk this message => .interrupt this message h.driver
  | .network this message dest => .interrupt this message dest

/-- Whom the main loops serve after the event, which leads to `next`. -/
def servingAfter (st : HierarchyState) (next : IpcSystem) : HierarchyEvent → Addr → Option Addr
  | .receive proc => if next.cont proc = .user then
      Function.update st.serving proc (h.obtained next proc) else st.serving
  | .reply proc _ => Function.update st.serving proc none
  | .resume proc => if st.sys.cont proc = .receiving (h.object proc) then
      Function.update st.serving proc (h.obtained next proc) else st.serving
  | .call .. | .post .. | .await .. | .disk .. | .network .. => st.serving

/-- One step. -/
def step (fuel : Nat) (st : HierarchyState) (event : HierarchyEvent) : Option HierarchyState :=
  (st.sys.step fuel (h.ipcEvent st.sys event)).map fun sys =>
    ⟨sys, h.servingAfter st sys event⟩

/-- What a process that calls or posts has filled in. -/
def Sends (proc this : Addr) (message : Message) (server : Addr) : Prop :=
  IsProcess proc ∧ IsProcess server ∧ h.rank server < h.rank proc ∧ h.owner this = proc ∧
    this ≠ h.object proc ∧ (message.source = 0 ∨ message.source = proc) ∧
    message.type ≠ replyType

instance (proc this : Addr) (message : Message) (server : Addr) :
    Decidable (h.Sends proc this message server) :=
  inferInstanceAs (Decidable (_ ∧ _))

/-- If a message of `want` is queued at `proc`, it is the first one. -/
def FindsFirst (sys : IpcSystem) (proc want : Addr) : Prop :=
  sys.ipc.status want = .sendingMsg → sys.target want = proc → sys.ipc.sendings proc = want

instance (sys : IpcSystem) (proc want : Addr) : Decidable (FindsFirst sys proc want) :=
  inferInstanceAs (Decidable (_ → _))

/-- An interrupt of the disk is queued. -/
def DiskPending (sys : IpcSystem) : Prop :=
  sys.sends interruptPcb ≠ sys.delivered interruptPcb

instance (sys : IpcSystem) : Decidable (DiskPending sys) :=
  inferInstanceAs (Decidable (_ ≠ _))

/-- What a process needs that goes on in this way: an answer that is queued is the first. -/
def GoesOn (sys : IpcSystem) (proc : Addr) : Continuation → Prop
  | .sendingRecv _ server => FindsFirst sys proc server
  | .user | .sending | .receiving _ | .checked .. => True

instance (sys : IpcSystem) (proc : Addr) (cont : Continuation) :
    Decidable (GoesOn sys proc cont) := by
  cases cont <;> unfold GoesOn <;> infer_instance

/-- How the processes are written. They call only servers below them, a main loop
receives when it has answered, and a caller that goes on finds its answer first. The
disk interrupts once for each time it is waited for, while a request is served. -/
def Admits (st : HierarchyState) : HierarchyEvent → Prop
  | .call proc this message server =>
      h.Sends proc this message server ∧ h.answers server message.type = true
  | .post proc this message server =>
      h.Sends proc this message server ∧ h.answers server message.type = false
  | .receive proc => IsProcess proc ∧ st.serving proc = none ∧
      st.sys.ipc.sendings proc ≠ interruptPcb
  | .reply proc _ => IsProcess proc ∧ st.serving proc ≠ none
  | .await this message => h.owner this = h.driver ∧ this ≠ h.object h.driver ∧
      (message.source = 0 ∨ message.source = h.driver) ∧
      (DiskPending st.sys → st.sys.ipc.sendings h.driver = interruptPcb)
  | .resume proc => GoesOn st.sys proc (st.sys.cont proc)
  | .disk this message => h.owner this = interruptPcb ∧ message.source = interruptPcb ∧
      message.type ≠ replyType ∧ st.serving h.driver ≠ none ∧ ¬ DiskPending st.sys
  | .network this message dest => h.owner this = interruptNetPcb ∧
      message.source = interruptNetPcb ∧ IsProcess dest

instance (st : HierarchyState) (event : HierarchyEvent) : Decidable (h.Admits st event) := by
  cases event <;> unfold Admits <;> infer_instance

/-! ## What a kernel entry leaves alone -/

/-- Everything about `proc` is the same in both states; of an interrupt PCB only what it
does is. -/
structure SameProcess (proc : Addr) (sys next : IpcSystem) : Prop where
  status : next.ipc.status proc = sys.ipc.status proc
  cont : next.cont proc = sys.cont proc
  target : IsProcess proc → next.target proc = sys.target proc
  passed : IsProcess proc → next.passed proc = sys.passed proc
  message : next.ipc.message proc = sys.ipc.message proc
  objects : IsProcess proc → ∀ object, h.owner object = proc →
    next.ipc.msgs object = sys.ipc.msgs object

section

variable {h} {sys middle next : IpcSystem} {watched proc this dest : Addr}

theorem SameProcess.trans (hfirst : h.SameProcess watched sys middle)
    (hsecond : h.SameProcess watched middle next) : h.SameProcess watched sys next where
  status := hsecond.status.trans hfirst.status
  cont := hsecond.cont.trans hfirst.cont
  target hproc := (hsecond.target hproc).trans (hfirst.target hproc)
  passed hproc := (hsecond.passed hproc).trans (hfirst.passed hproc)
  message := hsecond.message.trans hfirst.message
  objects hproc object howner :=
    (hsecond.objects hproc object howner).trans (hfirst.objects hproc object howner)

@[simp]
theorem object_inj : h.object proc = h.object dest ↔ proc = dest := by
  refine ⟨fun heq => ?_, congrArg h.object⟩
  rw [← h.object_owner proc, heq, h.object_owner]

theorem owned_ne {object other : Addr} (hobject : h.owner object = watched)
    (hother : h.owner other = proc) (hne : watched ≠ proc) : object ≠ other := by
  rintro rfl
  exact hne (hobject.symm.trans hother)

theorem written_same (hne : IsProcess watched → watched ≠ proc) (howner : h.owner this = proc)
    (message : Message) : h.SameProcess watched sys (Service.written sys proc this message) where
  status := rfl
  cont := rfl
  target _ := rfl
  passed _ := rfl
  message := rfl
  objects hproc object hobject := by simp [owned_ne hobject howner (hne hproc)]

theorem recordSend_same {ipc : Ipc} {outcome : SendOutcome}
    (hne : IsProcess watched → watched ≠ proc)
    (hstatus : ipc.status watched = sys.ipc.status watched)
    (hmessage : ipc.message watched = sys.ipc.message watched)
    (hobjects : ∀ object, h.owner object = watched → ipc.msgs object = sys.ipc.msgs object) :
    h.SameProcess watched sys (sys.recordSend proc this dest outcome ipc) where
  status := hstatus
  cont := rfl
  target hproc := Function.update_of_ne (hne hproc) ..
  passed hproc := Function.update_of_ne (hne hproc) ..
  message := hmessage
  objects _ := hobjects

theorem notified_same {ipc : Ipc} (hne : watched ≠ proc)
    (hstatus : ipc.status watched = sys.ipc.status watched)
    (hmessage : ipc.message watched = sys.ipc.message watched)
    (hobjects : ∀ object, h.owner object = watched → ipc.msgs object = sys.ipc.msgs object) :
    h.SameProcess watched sys (sys.recordReceive proc this ipc .notified) where
  status := hstatus
  cont := Function.update_of_ne hne ..
  target _ := rfl
  passed _ := rfl
  message := hmessage
  objects _ := hobjects

theorem afterDeliver_same (hne : IsProcess watched → watched ≠ proc) (hdest : watched ≠ dest)
    (hheld : h.owner (sys.ipc.message dest) = dest) :
    h.SameProcess watched sys (sys.afterDeliver proc this dest) where
  status := by simp [hdest]
  cont := rfl
  target hproc := by simp [hne hproc]
  passed hproc := by simp [hne hproc]
  message := rfl
  objects _ object hobject := by simp [owned_ne hobject hheld hdest]

theorem afterBlock_same (hne : watched ≠ proc) :
    h.SameProcess watched sys (sys.afterBlock proc this dest) where
  status := by simp [hne]
  cont := rfl
  target _ := by simp [hne]
  passed _ := by simp [hne]
  message := by simp [hne]
  objects _ _ _ := rfl

theorem afterWait_same (hne : watched ≠ proc) (howner : h.owner this = proc) (want : Addr) :
    h.SameProcess watched sys (sys.afterWait proc this want) where
  status := by simp [hne]
  cont := by simp [hne]
  target _ := rfl
  passed _ := rfl
  message := by simp [hne]
  objects _ object hobject := by simp [owned_ne hobject howner hne]

theorem afterTake_same {prev : Addr} (hne : watched ≠ proc) (howner : h.owner this = proc)
    (hprev : watched = prev → sys.ipc.status prev ≠ .sendingMsg) :
    h.SameProcess watched sys (sys.afterTake proc this prev) where
  status := by
    rw [IpcSystem.afterTake_ipc_status, if_neg fun hboth => hprev hboth.1 hboth.2]
  cont := by simp [hne]
  target _ := rfl
  passed _ := rfl
  message := by simp
  objects _ object hobject := by simp [owned_ne hobject howner hne]

theorem setCont_same (hne : watched ≠ proc) (cont : Continuation) :
    h.SameProcess watched sys (sys.setCont proc cont) where
  status := rfl
  cont := Function.update_of_ne hne ..
  target _ := rfl
  passed _ := rfl
  message := rfl
  objects _ _ _ := rfl

/-- A process that is queued with its message concerns nobody else. -/
theorem queued_same (hne : watched ≠ proc) (howner : h.owner this = proc) (message : Message)
    (cont : Continuation) : h.SameProcess watched sys
      (((Service.written sys proc this message).afterBlock proc this dest).setCont proc cont) :=
  ((written_same (fun _ => hne) howner message).trans (afterBlock_same hne)).trans
    (setCont_same hne cont)

theorem afterReturn_same (hne : watched ≠ proc) :
    h.SameProcess watched sys (Service.afterReturn sys proc this) where
  status := rfl
  cont := by simp [hne]
  target _ := rfl
  passed _ := rfl
  message := rfl
  objects _ _ _ := rfl

end

/-! ## What a receive finds -/

section

variable {sys next : IpcSystem} {queue : Addr → List Addr} {fuel : Nat} {proc this want : Addr}

/-- Nothing of the wanted sender is queued. -/
theorem receive_waits (haccounted : sys.Accounted queue)
    (hsource : (sys.ipc.msgs this).source = proc) (hany : want ≠ anyProcess)
    (hnot : want ∉ queue proc)
    (hreceive : sys.doReceive fuel proc this want (sys.queueHead this) = some next) :
    next = sys.afterWait proc this want := by
  have hchain := haccounted.queues.chain proc
  have hhead : sys.queueHead this = sys.ipc.sendings proc := by rw [IpcSystem.queueHead, hsource]
  rw [hhead] at hreceive
  rcases IpcSystem.doReceive_cases hreceive with ⟨-, hwant⟩ | _ | ⟨hne, hwant⟩ |
    ⟨before, -, -, htraverse⟩
  · exact absurd hwant hany
  · rw [hsource]
    rfl
  · obtain ⟨rest, hqueue⟩ := hchain.exists_cons hne
    have hmem : sys.ipc.sendings proc ∈ queue proc := hqueue ▸ List.mem_cons_self
    exact absurd (hwant.resolve_right hany ▸ hmem) hnot
  · exact absurd (Ipc.traverse_mem hchain hany htraverse) hnot

/-- The wanted sender is the first one on the queue. -/
theorem receive_takes (hsource : (sys.ipc.msgs this).source = proc) (hany : want ≠ anyProcess)
    (hfirst : sys.ipc.sendings proc = want)
    (hreceive : sys.doReceive fuel proc this want (sys.queueHead this) = some next) :
    next = sys.afterTake proc this want := by
  have hhead : sys.queueHead this = want := by rw [IpcSystem.queueHead, hsource, hfirst]
  have hne : want ≠ 0 := hany
  have htake : sys.ipc.receiveFrom fuel proc this want want =
      some (sys.ipc.takeFirst this proc want, .taken want) := by
    simp [Ipc.receiveFrom, hany, hne, hsource]
  rw [hhead, IpcSystem.doReceive, htake] at hreceive
  exact (Option.some.inj hreceive).symm

/-- A receive from anybody reports an interrupt, waits, or takes the first message. -/
theorem receive_any (haccounted : sys.Accounted queue)
    (hsource : (sys.ipc.msgs this).source = proc)
    (hreceive : sys.doReceive fuel proc this anyProcess (sys.queueHead this) = some next) :
    (∃ cnt, next = sys.recordReceive proc this ((sys.ipc.setMessage this
        { sys.ipc.msgs this with type := intrType }).setIntrCnt proc cnt) .notified) ∨
      (next = sys.afterWait proc this anyProcess ∧ queue proc = []) ∨
      (next = sys.afterTake proc this (sys.ipc.sendings proc) ∧
        sys.ipc.sendings proc ∈ queue proc) := by
  have hchain := haccounted.queues.chain proc
  have hhead : sys.queueHead this = sys.ipc.sendings proc := by rw [IpcSystem.queueHead, hsource]
  rw [hhead] at hreceive
  rcases IpcSystem.doReceive_cases hreceive with _ | ⟨hempty⟩ | ⟨hne, -⟩ | ⟨before, -, hany, -⟩
  · rw [hsource]
    exact .inl ⟨_, rfl⟩
  · rw [hsource]
    refine .inr (.inl ⟨rfl, hchain.eq_nil_iff.mpr (hempty.resolve_right ?_)⟩)
    exact fun hother => hother.1 rfl
  · rw [hsource]
    obtain ⟨rest, hqueue⟩ := hchain.exists_cons hne
    exact .inr (.inr ⟨rfl, hqueue ▸ List.mem_cons_self⟩)
  · exact absurd rfl hany

end

/-! ## What a send does -/

section

variable {sys next : IpcSystem} {fuel : Nat} {proc this dest : Addr}

/-- A message that is not accepted is queued. -/
theorem send_queued (hsource : (sys.ipc.msgs this).source = proc) (hproc : IsProcess proc)
    (hrefused : ¬ sys.ipc.Accepts dest (sys.ipc.msgs this))
    (hsend : sys.syscallHandler fuel proc this .send dest = some next) :
    next = (sys.afterBlock proc this dest).setCont proc .sending := by
  rw [IpcSystem.syscallHandler,
    IpcSystem.doSend_of_refused hsource hproc.2.2 hproc.2.1 hrefused] at hsend
  simpa using hsend.symm

/-- A message that is accepted is passed on at once. -/
theorem send_delivered (hsource : (sys.ipc.msgs this).source = proc) (hproc : IsProcess proc)
    (haccepts : sys.ipc.Accepts dest (sys.ipc.msgs this))
    (hsend : sys.syscallHandler fuel proc this .send dest = some next) :
    next = sys.afterDeliver proc this dest := by
  rw [IpcSystem.syscallHandler,
    IpcSystem.doSend_of_accepts (hsource ▸ hproc.2.2) haccepts] at hsend
  simpa using hsend.symm

/-- The request of a call that is not accepted is queued, and the receive is still to come. -/
theorem call_queued (hsource : (sys.ipc.msgs this).source = proc) (hproc : IsProcess proc)
    (hrefused : ¬ sys.ipc.Accepts dest (sys.ipc.msgs this))
    (hcall : sys.syscallHandler fuel proc this .sendRecv dest = some next) :
    next = (sys.afterBlock proc this dest).setCont proc (.sendingRecv this dest) := by
  rw [IpcSystem.syscallHandler,
    IpcSystem.doSend_of_refused hsource hproc.2.2 hproc.2.1 hrefused] at hcall
  simpa using hcall.symm

/-- After a request that is accepted the caller waits, unless its server is queued at it. -/
theorem call_delivered {queue : Addr → List Addr} (hsource : (sys.ipc.msgs this).source = proc)
    (hproc : IsProcess proc) (hdest : dest ≠ anyProcess)
    (haccounted : (sys.afterDeliver proc this dest).Accounted queue) (hnot : dest ∉ queue proc)
    (hkept : ((sys.afterDeliver proc this dest).ipc.msgs this).source = proc)
    (haccepts : sys.ipc.Accepts dest (sys.ipc.msgs this))
    (hcall : sys.syscallHandler fuel proc this .sendRecv dest = some next) :
    next = (sys.afterDeliver proc this dest).afterWait proc this dest := by
  rw [IpcSystem.syscallHandler,
    IpcSystem.doSend_of_accepts (hsource ▸ hproc.2.2) haccepts] at hcall
  exact receive_waits haccounted hkept hdest hnot (by simpa using hcall)

end

/-! ## Phases -/

/-- What the state of a process is in each phase. -/
def InPhase (sys : IpcSystem) (proc : Addr) : Phase Addr → Prop
  | .running => sys.Runs proc .user
  | .calling server => sys.ipc.status proc = .sendingMsg ∧ sys.target proc = server ∧
      IsProcess server ∧ h.answers server (sys.passed proc).type = true ∧
      ∃ this, this ≠ h.object proc ∧ sys.cont proc = .sendingRecv this server
  | .called server => (sys.ipc.status proc).Runnable ∧ IsProcess server ∧
      ∃ this, this ≠ h.object proc ∧ sys.cont proc = .sendingRecv this server
  | .waiting server => sys.ipc.status proc = .waitingMsg ∧ IsProcess server ∧
      sys.cont proc = .receiving (sys.ipc.message proc) ∧
      sys.ipc.message proc ≠ h.object proc ∧
      (sys.ipc.msgs (sys.ipc.message proc)).destination = server
  | .posting server => sys.ipc.status proc = .sendingMsg ∧ sys.target proc = server ∧
      IsProcess server ∧ h.answers server (sys.passed proc).type = false ∧
      sys.cont proc = .sending
  | .answering client => sys.ipc.status proc = .sendingMsg ∧ sys.target proc = client ∧
      sys.cont proc = .sending
  | .listening => sys.ipc.status proc = .waitingMsg ∧
      sys.cont proc = .receiving (h.object proc) ∧ sys.ipc.message proc = h.object proc ∧
      (sys.ipc.msgs (h.object proc)).destination = anyProcess
  | .woken client => (sys.ipc.status proc).Runnable ∧
      sys.cont proc = .receiving (h.object proc) ∧ h.obtained sys proc = client
  | .awaiting => proc = h.driver ∧ sys.ipc.status proc = .waitingMsg ∧
      sys.cont proc = .receiving (sys.ipc.message proc) ∧
      sys.ipc.message proc ≠ h.object proc ∧
      (sys.ipc.msgs (sys.ipc.message proc)).destination = interruptPcb
  | .resuming => (sys.ipc.status proc).Runnable ∧ (sys.cont proc = .sending ∨
      ∃ this, this ≠ h.object proc ∧ sys.cont proc = .receiving this)

section

variable {h} {sys next : IpcSystem} {proc : Addr} {phase : Phase Addr}

/-- A process about which nothing changes stays in its phase. -/
theorem InPhase.keep (hphase : h.InPhase sys proc phase) (hheld : sys.Held h.owner)
    (hsame : h.SameProcess proc sys next) (hproc : phase ≠ .running → IsProcess proc) :
    h.InPhase next proc phase := by
  by_cases hrunning : phase = .running
  · subst hrunning
    rw [InPhase, IpcSystem.Runs, hsame.status, hsame.cont]
    exact hphase
  replace hproc := hproc hrunning
  have hobject := hsame.objects hproc (h.object proc) (h.object_owner proc)
  cases phase with
  | running => exact absurd rfl hrunning
  | calling | called | posting | answering | resuming =>
      simp only [InPhase, hsame.status, hsame.target hproc, hsame.passed hproc, hsame.cont]
      exact hphase
  | waiting server =>
      have howner := hheld.waiting proc hphase.1
      rw [InPhase, hsame.status, hsame.cont, hsame.message, hsame.objects hproc _ howner]
      exact hphase
  | listening =>
      rw [InPhase, hsame.status, hsame.cont, hsame.message, hobject]
      exact hphase
  | woken client =>
      rw [InPhase, hsame.status, hsame.cont, obtained, hobject]
      exact hphase
  | awaiting =>
      have howner := hheld.waiting proc hphase.2.1
      rw [InPhase, hsame.status, hsame.cont, hsame.message, hsame.objects hproc _ howner]
      exact hphase

end

/-- The state of every process fits its phase; only processes take part. -/
structure Represents (st : HierarchyState) (meeting : Meeting Addr) : Prop where
  sound : st.sys.Sound h.owner
  named : ∀ proc, IsProcess proc → (st.sys.ipc.msgs (h.object proc)).source = 0 ∨
    (st.sys.ipc.msgs (h.object proc)).source = proc
  phases : ∀ proc, h.InPhase st.sys proc (meeting.phase proc)
  others : ∀ proc, ¬ IsProcess proc → meeting.phase proc = .running
  serving : st.serving = meeting.serving
  client : ∀ proc client, IsProcess proc → st.serving proc = some client →
    (st.sys.ipc.msgs (h.object proc)).destination = client
  orderly : meeting.Orderly h.rank

namespace Represents

variable {h} {st : HierarchyState} {meeting : Meeting Addr} {proc other : Addr}
  {queue : Addr → List Addr}

theorem phase (hrep : h.Represents st meeting) {phase : Phase Addr}
    (hphase : meeting.phase proc = phase) : h.InPhase st.sys proc phase :=
  hphase ▸ hrep.phases proc

/-- Who is in another phase than `running` is a process. -/
theorem isProcess (hrep : h.Represents st meeting) (hphase : meeting.phase proc ≠ .running) :
    IsProcess proc := by
  by_contra hnot
  exact hphase (hrep.others proc hnot)

theorem sending (hrep : h.Represents st meeting)
    (hsending : st.sys.ipc.status proc = .sendingMsg) :
    meeting.phase proc = .calling (st.sys.target proc) ∨
      meeting.phase proc = .posting (st.sys.target proc) ∨
      meeting.phase proc = .answering (st.sys.target proc) := by
  have his := hrep.phases proc
  cases hphase : meeting.phase proc with
  | running | called | resuming | woken =>
      rw [hphase] at his
      exact absurd hsending his.1.ne_sending
  | waiting | listening =>
      rw [hphase] at his
      cases his.1.symm.trans hsending
  | awaiting =>
      rw [hphase] at his
      cases his.2.1.symm.trans hsending
  | calling =>
      rw [hphase] at his
      exact .inl (congrArg Phase.calling his.2.1.symm)
  | posting =>
      rw [hphase] at his
      exact .inr (.inl (congrArg Phase.posting his.2.1.symm))
  | answering =>
      rw [hphase] at his
      exact .inr (.inr (congrArg Phase.answering his.2.1.symm))

/-- A process that waits has its message in an object that says for whom. -/
theorem waiting (hrep : h.Represents st meeting)
    (hwaiting : st.sys.ipc.status proc = .waitingMsg) :
    meeting.phase proc = .listening ∨
      (meeting.phase proc = .waiting (st.sys.ipc.msgs (st.sys.ipc.message proc)).destination) ∨
      (meeting.phase proc = .awaiting ∧
        (st.sys.ipc.msgs (st.sys.ipc.message proc)).destination = interruptPcb) := by
  have his := hrep.phases proc
  cases hphase : meeting.phase proc with
  | running | called | resuming | woken =>
      rw [hphase] at his
      exact absurd hwaiting his.1.ne_waiting
  | calling | posting | answering =>
      rw [hphase] at his
      cases his.1.symm.trans hwaiting
  | waiting =>
      rw [hphase] at his
      exact .inr (.inl (congrArg Phase.waiting his.2.2.2.2.symm))
  | listening => exact .inl rfl
  | awaiting =>
      rw [hphase] at his
      exact .inr (.inr ⟨rfl, his.2.2.2.2⟩)

theorem user (hrep : h.Represents st meeting) (hruns : st.sys.Runs proc .user) :
    meeting.phase proc = .running := by
  have his := hrep.phases proc
  cases hphase : meeting.phase proc with
  | running => rfl
  | calling | posting | answering =>
      rw [hphase] at his
      exact absurd his.1 hruns.1.ne_sending
  | waiting | listening =>
      rw [hphase] at his
      exact absurd his.1 hruns.1.ne_waiting
  | awaiting =>
      rw [hphase] at his
      exact absurd his.2.1 hruns.1.ne_waiting
  | called =>
      rw [hphase] at his
      obtain ⟨-, -, this, -, hcont⟩ := his
      cases hcont.symm.trans hruns.2
  | woken =>
      rw [hphase] at his
      cases his.2.1.symm.trans hruns.2
  | resuming =>
      rw [hphase] at his
      obtain ⟨-, hcont | ⟨this, -, hcont⟩⟩ := his <;> cases hcont.symm.trans hruns.2

/-- A process that goes on between the halves of its call. -/
theorem sendingRecv (hrep : h.Represents st meeting) {this server : Addr}
    (hrunnable : (st.sys.ipc.status proc).Runnable)
    (hcont : st.sys.cont proc = .sendingRecv this server) :
    meeting.phase proc = .called server ∧ this ≠ h.object proc := by
  have his := hrep.phases proc
  cases hphase : meeting.phase proc with
  | running =>
      rw [hphase] at his
      cases his.2.symm.trans hcont
  | calling | posting | answering =>
      rw [hphase] at his
      exact absurd his.1 hrunnable.ne_sending
  | waiting | listening =>
      rw [hphase] at his
      exact absurd his.1 hrunnable.ne_waiting
  | awaiting =>
      rw [hphase] at his
      exact absurd his.2.1 hrunnable.ne_waiting
  | called =>
      rw [hphase] at his
      obtain ⟨-, -, object, hobject, hother⟩ := his
      cases hother.symm.trans hcont
      exact ⟨rfl, hobject⟩
  | woken =>
      rw [hphase] at his
      cases his.2.1.symm.trans hcont
  | resuming =>
      rw [hphase] at his
      obtain ⟨-, hother | ⟨object, -, hother⟩⟩ := his <;> cases hother.symm.trans hcont

/-- What is on the queue of a process. -/
theorem queued (hrep : h.Represents st meeting) (haccounted : st.sys.Accounted queue)
    (hne : other ≠ interruptPcb) (hmem : other ∈ queue proc) :
    meeting.phase other = .calling proc ∨ meeting.phase other = .posting proc ∨
      meeting.phase other = .answering proc := by
  obtain ⟨hsending, rfl⟩ := (haccounted.queues.mem_iff proc other hne).mp hmem
  exact hrep.sending hsending

theorem mem_queue (hrep : h.Represents st meeting) (haccounted : st.sys.Accounted queue)
    (hphase : meeting.phase other = .calling proc ∨ meeting.phase other = .posting proc ∨
      meeting.phase other = .answering proc) : other ∈ queue proc := by
  have his := hrep.phases other
  have hproc := hrep.isProcess (show meeting.phase other ≠ .running by
    rcases hphase with hphase | hphase | hphase <;> simp [hphase])
  apply (haccounted.queues.mem_iff proc other hproc.2.1).mpr
  rcases hphase with hphase | hphase | hphase <;> rw [hphase] at his
  · exact ⟨his.1, his.2.1⟩
  · exact ⟨his.1, his.2.1⟩
  · exact ⟨his.1, his.2.1⟩

/-- A server is not queued at a client that does not wait for its answer. -/
theorem server_notMem (hrep : h.Represents st meeting) (haccounted : st.sys.Accounted queue)
    {server : Addr} (hserver : IsProcess server) (hrank : h.rank server < h.rank proc)
    (hanswer : meeting.phase server ≠ .answering proc) : server ∉ queue proc := by
  intro hmem
  have hup : ¬ (meeting.phase server).Below proc := fun hbelow =>
    absurd (hrep.orderly.ranked server proc hbelow) (Nat.lt_asymm hrank)
  rcases hrep.queued haccounted hserver.2.1 hmem with hphase | hphase | hphase
  · exact hup (by rw [hphase]; rfl)
  · exact hup (by rw [hphase]; rfl)
  · exact hanswer hphase

/-- A message from above that is no answer is taken at once just by a main loop. -/
theorem accepts_iff (hrep : h.Represents st meeting) {sys : IpcSystem} {server : Addr}
    {message : Message} (hsame : h.SameProcess server st.sys sys) (hproc : IsProcess proc)
    (hserver : IsProcess server)
    (hrank : h.rank server < h.rank proc) (hsource : message.source = proc)
    (htype : message.type ≠ replyType) :
    sys.ipc.Accepts server message ↔ meeting.phase server = .listening := by
  constructor
  · intro haccepts
    have hwaiting : st.sys.ipc.status server = .waitingMsg :=
      hsame.status.symm.trans haccepts.waiting
    have hobject := hsame.objects hserver _ (hrep.sound.held.waiting server hwaiting)
    have hwanted : (sys.ipc.msgs (sys.ipc.message server)).destination = anyProcess ∨
        message.source = (sys.ipc.msgs (sys.ipc.message server)).destination :=
      haccepts.elim And.right fun hreply => absurd hreply.2 htype
    rw [hsame.message, hobject, hsource] at hwanted
    rcases hrep.waiting hwaiting with hphase | hphase | ⟨hphase, hdisk⟩
    · exact hphase
    · have hupper := (hrep.phase hphase).2.1
      rcases hwanted with hany | hsender
      · exact absurd hany hupper.1
      · rw [← hsender] at hphase
        have hup := hrep.orderly.ranked server proc (by rw [hphase]; rfl)
        exact absurd hup (Nat.lt_asymm hrank)
    · rw [hdisk] at hwanted
      rcases hwanted with hany | hsender
      · exact absurd hany (by decide)
      · exact absurd hsender hproc.2.1
  · intro hphase
    obtain ⟨hwaiting, -, hmessage, hdestination⟩ := hrep.phase hphase
    refine .inl ⟨hsame.status.trans hwaiting, .inl ?_⟩
    rw [hsame.message, hmessage, hsame.objects hserver _ (h.object_owner server)]
    exact hdestination

/-- One step of the system that is a step of the meeting, or none, and concerns two
processes. -/
theorem advance (hrep : h.Represents st meeting) {next : HierarchyState} {after : Meeting Addr}
    {first second : Addr} (hstep : meeting.Step h.rank after ∨ after = meeting)
    (hgood : next.sys.Sound h.owner ∧
      ∀ proc, IsProcess proc → (next.sys.ipc.msgs (h.object proc)).source = 0 ∨
        (next.sys.ipc.msgs (h.object proc)).source = proc)
    (hprocesses : IsProcess first ∧ IsProcess second)
    (hserving : next.serving = after.serving)
    (hfirst : h.InPhase next.sys first (after.phase first))
    (hsecond : h.InPhase next.sys second (after.phase second))
    (hkept : ∀ proc, proc ≠ first → proc ≠ second → after.phase proc = meeting.phase proc ∧
      next.serving proc = st.serving proc ∧ h.SameProcess proc st.sys next.sys)
    (hclient : ∀ proc client, proc = first ∨ proc = second → next.serving proc = some client →
      (next.sys.ipc.msgs (h.object proc)).destination = client) :
    h.Represents next after where
  sound := hgood.1
  named := hgood.2
  phases proc := by
    by_cases hproc : proc = first
    · exact hproc ▸ hfirst
    · by_cases hother : proc = second
      · exact hother ▸ hsecond
      · obtain ⟨hphase, -, hsame⟩ := hkept proc hproc hother
        rw [hphase]
        exact (hrep.phases proc).keep hrep.sound.held hsame hrep.isProcess
  others proc hproc := by
    have hne : proc ≠ first := fun heq => hproc (heq ▸ hprocesses.1)
    have hother : proc ≠ second := fun heq => hproc (heq ▸ hprocesses.2)
    exact (hkept proc hne hother).1.trans (hrep.others proc hproc)
  serving := hserving
  client proc client hproc hserved := by
    by_cases hactor : proc = first ∨ proc = second
    · exact hclient proc client hactor hserved
    · rw [not_or] at hactor
      obtain ⟨-, hsameServing, hsame⟩ := hkept proc hactor.1 hactor.2
      rw [hsame.objects hproc _ (h.object_owner proc)]
      exact hrep.client proc client hproc (hsameServing ▸ hserved)
  orderly := by
    rcases hstep with hstep | rfl
    · exact hstep.orderly hrep.orderly
    · exact hrep.orderly

/-- One step of the system that is a step of the meeting, or none, and concerns one
process. -/
theorem advance_one (hrep : h.Represents st meeting) {next : HierarchyState}
    {after : Meeting Addr} {actor : Addr} (hstep : meeting.Step h.rank after ∨ after = meeting)
    (hgood : next.sys.Sound h.owner ∧
      ∀ proc, IsProcess proc → (next.sys.ipc.msgs (h.object proc)).source = 0 ∨
        (next.sys.ipc.msgs (h.object proc)).source = proc)
    (hprocess : IsProcess actor) (hserving : next.serving = after.serving)
    (hactor : h.InPhase next.sys actor (after.phase actor))
    (hkept : ∀ proc, proc ≠ actor → after.phase proc = meeting.phase proc ∧
      next.serving proc = st.serving proc ∧ h.SameProcess proc st.sys next.sys)
    (hclient : ∀ client, next.serving actor = some client →
      (next.sys.ipc.msgs (h.object actor)).destination = client) :
    h.Represents next after := by
  apply hrep.advance hstep hgood ⟨hprocess, hprocess⟩ hserving hactor hactor
  · exact fun proc hne _ => hkept proc hne
  · rintro proc client (rfl | rfl) hserved
    · exact hclient client hserved
    · exact hclient client hserved

/-- One step of the system that concerns no process. -/
theorem unchanged (hrep : h.Represents st meeting) {next : HierarchyState}
    (hgood : next.sys.Sound h.owner ∧
      ∀ proc, IsProcess proc → (next.sys.ipc.msgs (h.object proc)).source = 0 ∨
        (next.sys.ipc.msgs (h.object proc)).source = proc)
    (hserving : next.serving = st.serving)
    (hsame : ∀ proc, h.SameProcess proc st.sys next.sys) : h.Represents next meeting := by
  have hdriver := (hrep.phases h.driver).keep hrep.sound.held (hsame h.driver) hrep.isProcess
  apply hrep.advance_one (.inr rfl) hgood h.driver_process (hserving.trans hrep.serving) hdriver
  · exact fun proc _ => ⟨rfl, congrFun hserving proc, hsame proc⟩
  · intro client hserved
    rw [(hsame h.driver).objects h.driver_process _ (h.object_owner h.driver)]
    exact hrep.client _ client h.driver_process ((congrFun hserving _).symm.trans hserved)

/-- A main loop that waits or has just been woken serves nobody. -/
theorem serving_of_idle (hrep : h.Represents st meeting) (hidle : (meeting.phase proc).Idle) :
    st.serving proc = none := by
  rw [hrep.serving]
  exact hrep.orderly.idle proc hidle

end Represents

/-! ## What every step keeps -/

section

variable {owner : Addr → Addr} {sys next : IpcSystem} {fuel : Nat} {proc this target : Addr}
  {message : Message} {type : SyscallType}

theorem not_pending {queue : Addr → List Addr} (haccounted : sys.Accounted queue)
    (hpending : ¬ DiskPending sys) (dest : Addr) : interruptPcb ∉ queue dest := by
  intro hmem
  have hcount := haccounted.pending interruptPcb dest hmem
  rw [not_not.mp hpending] at hcount
  omega

/-- A kernel entry names in an object at most the owner of the object. -/
theorem step_source {event : IpcEvent} (hparticipates : sys.Participates owner event)
    (hhonest : sys.Honest event) (hstep : sys.step fuel event = some next) (object : Addr) :
    (next.ipc.msgs object).source = (sys.ipc.msgs object).source ∨
      (next.ipc.msgs object).source = owner object := by
  -- the object that is written names its owner, and nothing else changes a source
  have hwritten : ∀ (this : Addr) (message : Message), message.source = owner this →
      (Function.update sys.ipc.msgs this message object).source = (sys.ipc.msgs object).source ∨
        (Function.update sys.ipc.msgs this message object).source = owner object := by
    intro this message hsource
    rw [Function.update_apply]
    split
    next heq => exact .inr (heq ▸ hsource)
    next => exact .inl rfl
  cases IpcSystem.step_cases hstep with
  | @entered proc this target message type _ hruns hentry =>
      rw [IpcSystem.enter_eq, IpcSystem.sourceOf_eq hhonest] at hentry
      have hobject := hwritten this { message with source := proc } hparticipates.2.symm
      cases type with
      | send =>
          cases hentry
          split
          · rw [IpcSystem.setCont, IpcSystem.doSend_source]
            exact hobject
          · rw [IpcSystem.doSend_source]
            exact hobject
      | recv =>
          rw [IpcSystem.doReceive_source hentry]
          exact hobject
      | sendRecv =>
          rw [IpcSystem.syscallHandler] at hentry
          split at hentry
          next =>
            cases hentry
            rw [IpcSystem.setCont, IpcSystem.doSend_source]
            exact hobject
          next =>
            rw [IpcSystem.doReceive_source hentry, IpcSystem.doSend_source]
            exact hobject
  | sent => exact .inl rfl
  | sentFirst hrunnable hcont hreceive => exact .inl (IpcSystem.doReceive_source hreceive object)
  | received => exact .inl rfl
  | @interrupted this message dest =>
      rw [IpcSystem.doSend_source]
      exact hwritten this message hparticipates.1.symm
  | @checked proc this message want hruns =>
      rw [IpcSystem.enter_eq, IpcSystem.sourceOf_eq (.inr hparticipates.2.2)]
      exact hwritten this { message with source := proc } hparticipates.2.1.symm
  | finished hrunnable hcont hreceive => exact .inl (IpcSystem.doReceive_source hreceive object)

/-- What a kernel entry of an honest process does. -/
theorem step_entry (hhonest : message.source = 0 ∨ message.source = proc)
    (hstep : sys.step fuel (.syscall proc this message type target) = some next) :
    sys.Runs proc .user ∧ (Service.written sys proc this message).syscallHandler fuel proc this
      type target = some next := by
  rw [IpcSystem.step] at hstep
  split at hstep
  next hruns =>
    rw [IpcSystem.enter_eq, IpcSystem.sourceOf_eq hhonest] at hstep
    exact ⟨hruns, hstep⟩
  next => cases hstep

end

namespace Represents

variable {h} {st next : HierarchyState} {meeting : Meeting Addr} {proc this : Addr} {fuel : Nat}
  {event : HierarchyEvent}

/-- A receive that finds first what it wants uses the queue in an orderly way. -/
theorem takesFirst (hrep : h.Represents st meeting) {want : Addr}
    (hfirst : ∀ queue, st.sys.Accounted queue → want ∈ queue proc →
      st.sys.ipc.sendings proc = want) : st.sys.ipc.TakesFirst proc want := by
  obtain ⟨queue, haccounted⟩ := hrep.sound.accounted
  by_cases hmem : want ∈ queue proc
  · exact .inr (.inl (hfirst queue haccounted hmem).symm)
  · refine .inr (.inr fun nodes hchain hnodes => hmem ?_)
    rwa [hchain.unique (haccounted.queues.chain proc)] at hnodes

/-- A running process is queued nowhere, and no server above which it stands is queued at it. -/
theorem caller_takesFirst (hrep : h.Represents st meeting) {server : Addr}
    (hruns : st.sys.Runs proc .user) (hserver : IsProcess server)
    (hrank : h.rank server < h.rank proc) : st.sys.ipc.TakesFirst proc server := by
  apply hrep.takesFirst
  intro queue haccounted hmem
  refine absurd hmem (hrep.server_notMem haccounted hserver hrank fun hanswering => ?_)
  cases (hrep.user hruns).symm.trans (hrep.orderly.answering server proc hanswering)

/-- What the kernel is asked to do is what processes may do. -/
theorem ipc_admits (hrep : h.Represents st meeting) (hadmits : h.Admits st event)
    {sys : IpcSystem} (hstep : st.sys.step fuel (h.ipcEvent st.sys event) = some sys) :
    st.sys.Participates h.owner (h.ipcEvent st.sys event) ∧
      st.sys.Honest (h.ipcEvent st.sys event) ∧ st.sys.Orderly (h.ipcEvent st.sys event) := by
  cases event with
  | call proc this message server =>
      obtain ⟨⟨hproc, hserver, hrank, howner, -, hhonest, -⟩, -⟩ := hadmits
      have hruns := (step_entry hhonest hstep).1
      exact IpcSystem.syscall_orderly hproc howner hhonest
        fun _ => hrep.caller_takesFirst hruns hserver hrank
  | post proc this message server =>
      obtain ⟨⟨hproc, -, -, howner, -, hhonest, -⟩, -⟩ := hadmits
      exact IpcSystem.syscall_orderly hproc howner hhonest fun hsend => absurd rfl hsend
  | receive proc =>
      exact IpcSystem.syscall_orderly hadmits.1 (h.object_owner proc) (hrep.named proc hadmits.1)
        fun _ => .inl rfl
  | reply proc context =>
      exact IpcSystem.syscall_orderly hadmits.1 (h.object_owner proc) (hrep.named proc hadmits.1)
        fun hsend => absurd rfl hsend
  | await this message =>
      obtain ⟨howner, -, hhonest, hfirst⟩ := hadmits
      refine IpcSystem.syscall_orderly h.driver_process howner hhonest fun _ => ?_
      apply hrep.takesFirst
      intro queue haccounted hmem
      apply hfirst
      intro hnone
      exact not_pending haccounted (not_not.mpr hnone) _ hmem
  | resume proc =>
      refine ⟨trivial, trivial, fun this server hcont => ?_⟩
      obtain ⟨-, -, hsource⟩ := hrep.sound.entered proc this (by rw [hcont]; rfl)
      rw [hsource]
      apply hrep.takesFirst
      intro queue haccounted hmem
      change GoesOn st.sys proc (st.sys.cont proc) at hadmits
      rw [hcont] at hadmits
      have hrunnable : (st.sys.ipc.status proc).Runnable := by
        by_contra hblocked
        change (if _ then _ else _) = _ at hstep
        rw [if_neg hblocked] at hstep
        cases hstep
      obtain ⟨hserver, -⟩ := (hrep.phase (hrep.sendingRecv hrunnable hcont).1).2
      obtain ⟨hsending, htarget⟩ := (haccounted.queues.mem_iff proc server hserver.2.1).mp hmem
      exact hadmits hsending htarget
  | disk this message =>
      obtain ⟨howner, hsource, -, -, hpending⟩ := hadmits
      obtain ⟨queue, haccounted⟩ := hrep.sound.accounted
      refine ⟨⟨howner.trans hsource.symm, .inl hsource⟩, trivial, .inr ⟨hsource, ?_⟩⟩
      intro other nodes hchain hmem
      rw [hchain.unique (haccounted.queues.chain other)] at hmem
      exact not_pending haccounted hpending other hmem
  | network this message dest =>
      obtain ⟨howner, hsource, -⟩ := hadmits
      exact ⟨⟨howner.trans hsource.symm, .inr hsource⟩, trivial, .inl hsource⟩

/-- Every step keeps the queues in order and the names of the main loops. -/
theorem kept (hrep : h.Represents st meeting) (hadmits : h.Admits st event)
    (hstep : h.step fuel st event = some next) : next.sys.Sound h.owner ∧
      ∀ proc, IsProcess proc → (next.sys.ipc.msgs (h.object proc)).source = 0 ∨
        (next.sys.ipc.msgs (h.object proc)).source = proc := by
  obtain ⟨sys, hsys, rfl⟩ := Option.map_eq_some_iff.mp hstep
  obtain ⟨hparticipates, hhonest, horderly⟩ := hrep.ipc_admits hadmits hsys
  refine ⟨IpcSystem.step_sound hrep.sound hparticipates hhonest horderly hsys, fun proc hproc => ?_⟩
  rcases step_source hparticipates hhonest hsys (h.object proc) with hold | hnew
  · rw [hold]
    exact hrep.named proc hproc
  · exact .inr (hnew.trans (h.object_owner proc))

/-- The main loop of `server` is woken by a message. -/
theorem woken_of_listening {sys : IpcSystem} {server : Addr}
    (hlistening : h.InPhase sys server .listening) (hsource : (sys.ipc.msgs this).source = proc) :
    h.InPhase (sys.afterDeliver proc this server) server
      (.woken (if h.answers server (sys.ipc.msgs this).type then some proc else none)) := by
  obtain ⟨-, hcont, hmessage, -⟩ := hlistening
  refine ⟨by simp [ProcessStatus.Runnable], by simpa using hcont, ?_⟩
  simp [obtained, hmessage, hsource]

/-- A running process has filled in an object of its own. -/
theorem written_sound (hrep : h.Represents st meeting) (hruns : st.sys.Runs proc .user)
    (howner : h.owner this = proc) (message : Message) :
    (Service.written st.sys proc this message).Sound h.owner :=
  hrep.sound.write (by rw [hruns.2]; rfl) hruns.1.ne_sending howner _

theorem written_source (sys : IpcSystem) (proc this : Addr) (message : Message) :
    ((Service.written sys proc this message).ipc.msgs this).source = proc := by
  simp

theorem written_accounted {sys : IpcSystem} {queue : Addr → List Addr}
    (haccounted : sys.Accounted queue) (proc this : Addr) (message : Message) :
    (Service.written sys proc this message).Accounted queue :=
  haccounted.setMessage this _

/-- The send half of its kernel entry. -/
theorem sent_sound {sys : IpcSystem} (hsound : sys.Sound h.owner) (hproc : IsProcess proc)
    (hruns : sys.Runs proc .user) (howner : h.owner this = proc)
    (hsource : (sys.ipc.msgs this).source = proc) (dest : Addr) :
    (sys.doSend proc this dest).1.Sound h.owner := by
  refine IpcSystem.doSend_sound hsound (fun _ _ => ?_) howner hsource
  apply IpcSystem.MaySend.process hproc hruns.1.ne_sending
  · rw [hsource]
    exact hproc.2.1
  · rw [hsource]
    exact hproc.2.2

end Represents

end Hierarchy

end Shmily.Kernel
