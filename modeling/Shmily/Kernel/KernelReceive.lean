import Shmily.Kernel.Authenticity

/-! # The receive of the kernel process

The kernel process does not enter through `int 0x99`: a timer interrupt may let
other processes run after its `receive` has read the queue and before it blocks.
-/

namespace Shmily.Kernel

open Foundation

/-- `all_processes::KR`. -/
def krPcb : Addr := 0x93000

namespace IpcSystem

variable {owner : Addr → Addr} {sys next : IpcSystem} {fuel : Nat} {proc this target want prev : Addr}

/-! ## The kernel process -/

variable (owner) in
/-- The kernel process receives from anybody, in two steps; between these and at
any other time the other processes enter the kernel to send, to receive from
anybody, or to send to the kernel process and wait for its answer. -/
def KernelInterleaving (_ : IpcSystem) : IpcEvent → Prop
  | .syscall proc this message type target =>
      IsProcess proc ∧ owner this = proc ∧ proc ≠ krPcb ∧
        (message.source = 0 ∨ message.source = proc) ∧
        (type = .send ∨ type = .recv ∧ target = anyProcess ∨ type = .sendRecv ∧ target = krPcb)
  | .check proc this message want =>
      proc = krPcb ∧ owner this = krPcb ∧ message.source = krPcb ∧ want = anyProcess
  | .resume _ => True
  | .finish proc => proc = krPcb
  | .interrupt .. => False

instance (sys : IpcSystem) : (event : IpcEvent) → Decidable (sys.KernelInterleaving owner event)
  | .syscall .. | .check .. => inferInstanceAs (Decidable (_ ∧ _))
  | .resume _ => inferInstanceAs (Decidable True)
  | .finish _ => inferInstanceAs (Decidable (_ = _))
  | .interrupt .. => inferInstanceAs (Decidable False)

/-- The kernel process has read its queue and not yet acted upon it. -/
def Inside (sys : IpcSystem) : Prop :=
  match sys.cont krPcb with
  | .checked .. => True
  | _ => False

instance (sys : IpcSystem) : Decidable sys.Inside := by
  unfold Inside
  split <;> infer_instance

/-- Nobody sends to the kernel process while it is between the two steps. -/
def NoSendInside (sys : IpcSystem) : IpcEvent → Prop
  | .syscall _ _ _ type target => type ≠ .recv → target = krPcb → ¬ sys.Inside
  | _ => True

instance (sys : IpcSystem) : (event : IpcEvent) → Decidable (sys.NoSendInside event)
  | .syscall .. => inferInstanceAs (Decidable (_ → _))
  | .resume _ | .interrupt .. | .check .. | .finish _ => inferInstanceAs (Decidable True)

/-- The kernel process has read the present head of its queue, and it waits only
for anybody and with an empty queue; who waits for an answer waits for it. -/
structure Attentive (sys : IpcSystem) : Prop where
  not_sending : sys.ipc.status krPcb ≠ .sendingMsg
  checked : ∀ this want prev, sys.cont krPcb = .checked this want prev →
    want = anyProcess ∧ prev = sys.ipc.sendings krPcb
  waiting : sys.ipc.status krPcb = .waitingMsg →
    (sys.ipc.msgs (sys.ipc.message krPcb)).destination = anyProcess ∧
      sys.ipc.sendings krPcb = 0
  answers : ∀ proc this target, sys.cont proc = .sendingRecv this target →
    target = krPcb ∧ proc ≠ krPcb

/-- Steps of other processes that leave alone what the kernel process depends on. -/
theorem Attentive.untouched (hattentive : sys.Attentive) (hheld : sys.Held owner)
    (huntouched : Untouched owner krPcb sys next)
    (hcont : next.cont krPcb = sys.cont krPcb)
    (hanswers : ∀ proc this target, next.cont proc = .sendingRecv this target →
      target = krPcb ∧ proc ≠ krPcb) : next.Attentive where
  not_sending hsending := hattentive.not_sending (huntouched.sending hsending)
  checked this want prev hchecked := by
    rw [huntouched.sendings]
    exact hattentive.checked this want prev (hcont ▸ hchecked)
  waiting hwaiting := by
    rw [huntouched.waiting] at hwaiting
    rw [huntouched.message, huntouched.objects _ (hheld.waiting krPcb hwaiting),
      huntouched.sendings]
    exact hattentive.waiting hwaiting
  answers := hanswers

theorem takesFirst_kernel (hattentive : sys.Attentive) {queue : Addr → List Addr}
    (haccounted : sys.Accounted queue) (src : Addr) : sys.ipc.TakesFirst src krPcb := by
  refine .inr (.inr fun nodes hchain hmem => ?_)
  rw [hchain.unique (haccounted.queues.chain src)] at hmem
  exact hattentive.not_sending ((haccounted.queues.mem_iff src krPcb (by decide)).mp hmem).1

/-- Another process sends to the kernel process, which is not inside its receive. -/
theorem doSend_attentive (hattentive : sys.Attentive) (hproc : IsProcess proc) (hne : proc ≠ krPcb)
    (hsource : (sys.ipc.msgs this).source = proc) (hinside : ¬ sys.Inside) :
    (sys.doSend proc this krPcb).1.Attentive where
  not_sending := by
    rcases sys.ipc.send_cases proc this krPcb with ⟨-, -, heq⟩ | ⟨-, -, heq⟩ | ⟨-, -, heq⟩ |
      ⟨-, -, heq⟩ | ⟨-, -, -, heq⟩ <;> rw [doSend, heq]
    · exact hattentive.not_sending
    · simp [recordSend, Ipc.notify]
    · simp [recordSend, Ipc.deliver]
    · exact hattentive.not_sending
    · simpa [recordSend, Function.update_of_ne hne.symm] using hattentive.not_sending
  checked this want prev hchecked := by
    change sys.cont krPcb = .checked this want prev at hchecked
    simp [Inside, hchecked] at hinside
  waiting hwaiting := by
    rcases sys.ipc.send_cases proc this krPcb with ⟨hnet, -, -⟩ | ⟨hnet, -, -⟩ | ⟨-, -, heq⟩ |
      ⟨hdisk, -, -⟩ | ⟨-, -, hrefused, heq⟩
    · exact absurd (hsource.symm.trans hnet) hproc.2.2
    · exact absurd (hsource.symm.trans hnet) hproc.2.2
    · rw [doSend, heq] at hwaiting
      simp [recordSend, Ipc.deliver] at hwaiting
    · exact absurd (hsource.symm.trans hdisk) hproc.2.1
    · -- a kernel process that waits for anybody accepts the message
      rw [doSend, heq] at hwaiting
      have hwaiting : sys.ipc.status krPcb = .waitingMsg := by
        simpa [recordSend, Function.update_of_ne hne.symm] using hwaiting
      exact absurd (.inl ⟨hwaiting, .inl (hattentive.waiting hwaiting).1⟩) hrefused
  answers := hattentive.answers

theorem Attentive.setCont (hattentive : sys.Attentive) {cont : Continuation}
    (hchecked : proc = krPcb → ∀ this want prev, cont ≠ .checked this want prev)
    (hanswers : ∀ this target, cont = .sendingRecv this target → target = krPcb ∧ proc ≠ krPcb) :
    (sys.setCont proc cont).Attentive where
  not_sending := hattentive.not_sending
  checked this want prev hkernel := by
    change Function.update sys.cont proc cont krPcb = .checked this want prev at hkernel
    rw [Function.update_apply] at hkernel
    split at hkernel
    next heq => exact absurd hkernel (hchecked heq.symm this want prev)
    next => exact hattentive.checked this want prev hkernel
  waiting := hattentive.waiting
  answers other this target hother := by
    change Function.update sys.cont proc cont other = .sendingRecv this target at hother
    rw [Function.update_apply] at hother
    split at hother
    next heq => exact heq ▸ hanswers this target hother
    next => exact hattentive.answers other this target hother

/-- A receive of another process. -/
theorem doReceive_attentive (hattentive : sys.Attentive) (hheld : sys.Held owner)
    (howner : owner this = proc) (hsource : (sys.ipc.msgs this).source = proc)
    (hproc : proc ≠ krPcb) (hreceive : sys.doReceive fuel proc this want prev = some next) :
    next.Attentive := by
  apply hattentive.untouched hheld
    (doReceive_untouched howner hsource hproc hreceive)
  · rcases doReceive_cont hreceive with hcont | hcont <;> rw [hcont]
    · exact Function.update_of_ne hproc.symm _ _
    · exact Function.update_of_ne hproc.symm _ _
  · intro other object target hother
    rcases doReceive_cont hreceive with hcont | hcont <;>
      rw [hcont, Function.update_apply] at hother <;> split at hother
    next => cases hother
    next => exact hattentive.answers other object target hother
    next => cases hother
    next => exact hattentive.answers other object target hother

/-- The second step of the kernel's receive. -/
theorem finish_attentive (hattentive : sys.Attentive)
    (hrunnable : (sys.ipc.status krPcb).Runnable) (hsource : (sys.ipc.msgs this).source = krPcb)
    (hreceive : sys.doReceive fuel krPcb this anyProcess (sys.ipc.sendings krPcb) = some next) :
    next.Attentive := by
  have hcont := doReceive_cont hreceive
  constructor
  case not_sending =>
    rcases doReceive_cases hreceive with _ | _ | _ | ⟨before, -, hany, -⟩
    · exact hattentive.not_sending
    · simp [recordReceive, Ipc.waitMessage]
    · intro hsending
      exact hattentive.not_sending ((sys.ipc.takeFirst_sending_iff this _ _ krPcb).mp hsending).1
    · exact absurd rfl hany
  case checked =>
    intro object want prev hchecked
    rcases hcont with hcont | hcont <;> rw [hcont, Function.update_self] at hchecked <;>
      cases hchecked
  case waiting =>
    rcases doReceive_cases hreceive with _ | hempty | _ | ⟨before, -, hany, -⟩
    · exact fun hwaiting => absurd hwaiting hrunnable.ne_waiting
    · intro _
      have hzero : sys.ipc.sendings krPcb = 0 := hempty.resolve_right fun h => h.1 rfl
      simp [recordReceive, Ipc.waitMessage, hsource, hzero]
    · intro hwaiting
      exact absurd ((sys.ipc.takeFirst_waiting_iff this _ _ krPcb).mp hwaiting)
        hrunnable.ne_waiting
    · exact absurd rfl hany
  case answers =>
    intro other object target hother
    rcases hcont with hcont | hcont <;> rw [hcont, Function.update_apply] at hother <;>
      split at hother
    next => cases hother
    next => exact hattentive.answers other object target hother
    next => cases hother
    next => exact hattentive.answers other object target hother

/-- The events considered here use the queues in an orderly way. -/
theorem KernelInterleaving.orderly {event : IpcEvent} (hsound : sys.Sound owner)
    (hattentive : sys.Attentive) (hallowed : sys.KernelInterleaving owner event) :
    sys.Participates owner event ∧ sys.Honest event ∧ sys.Orderly event := by
  obtain ⟨queue, haccounted⟩ := hsound.accounted
  cases event with
  | syscall proc this message type target =>
      obtain ⟨hproc, howner, -, hhonest, htype⟩ := hallowed
      apply syscall_orderly hproc howner hhonest
      intro hreceives
      rcases htype with htype | ⟨-, hany⟩ | ⟨-, hkernel⟩
      · exact absurd htype hreceives
      · exact .inl hany
      · exact hkernel ▸ takesFirst_kernel hattentive haccounted _
  | resume proc =>
      refine ⟨trivial, trivial, fun this target hcont => ?_⟩
      rw [(hattentive.answers proc this target hcont).1]
      exact takesFirst_kernel hattentive haccounted _
  | interrupt => exact hallowed.elim
  | check proc this message want =>
      obtain ⟨rfl, howner, hsource, -⟩ := hallowed
      exact ⟨⟨by decide, howner, hsource⟩, trivial, trivial⟩
  | finish proc =>
      refine ⟨trivial, trivial, fun this want prev hcont => ?_⟩
      have hkernel : proc = krPcb := hallowed
      subst hkernel
      obtain ⟨hany, hhead⟩ := hattentive.checked this want prev hcont
      obtain ⟨-, -, hsource⟩ := hsound.entered krPcb this (by rw [hcont]; rfl)
      exact ⟨by rw [queueHead, hsource, hhead], .inl hany⟩

variable {message : Message} {type : SyscallType}

/-- A kernel entry of another process. -/
theorem syscallHandler_attentive (hsound : sys.Sound owner) (hattentive : sys.Attentive)
    (hproc : IsProcess proc) (hne : proc ≠ krPcb) (hrunnable : (sys.ipc.status proc).Runnable)
    (howner : owner this = proc) (hsource : (sys.ipc.msgs this).source = proc)
    (htype : type = .sendRecv → target = krPcb)
    (hinside : type ≠ .recv → target = krPcb → ¬ sys.Inside)
    (hstep : sys.syscallHandler fuel proc this type target = some next) : next.Attentive := by
  have hsent : type ≠ .recv → (sys.doSend proc this target).1.Attentive := by
    intro hsends
    by_cases htarget : target = krPcb
    · subst htarget
      exact doSend_attentive hattentive hproc hne hsource (hinside hsends rfl)
    · exact hattentive.untouched hsound.held (doSend_untouched hsound.held hsource hne htarget)
        rfl hattentive.answers
  cases type with
  | send =>
      cases hstep
      split
      · exact (hsent (by simp)).setCont (fun h => absurd h hne) (by simp)
      · exact hsent (by simp)
  | recv => exact doReceive_attentive hattentive hsound.held howner hsource hne hstep
  | sendRecv =>
      rw [syscallHandler] at hstep
      split at hstep
      next =>
        cases hstep
        apply (hsent (by simp)).setCont (fun h => absurd h hne)
        intro object goal hcont
        cases hcont
        exact ⟨htype rfl, hne⟩
      next =>
        have hheld : (sys.doSend proc this target).1.Held owner :=
          doSend_held hsound.held hrunnable.ne_sending howner hsource
        apply doReceive_attentive (hsent (by simp)) hheld howner _ hne hstep
        rw [doSend_source, hsource]

theorem step_attentive {event : IpcEvent} (hsound : sys.Sound owner) (hattentive : sys.Attentive)
    (hallowed : sys.KernelInterleaving owner event) (hinside : sys.NoSendInside event)
    (hstep : sys.step fuel event = some next) : next.Attentive := by
  cases step_cases hstep with
  | @entered proc this target message type _ hruns hentry =>
      obtain ⟨hproc, howner, hne, hhonest, htype⟩ := hallowed
      have hcont : (sys.cont proc).object = none := by rw [hruns.2]; rfl
      rw [enter_eq, sourceOf_eq hhonest] at hentry
      have huntouched : Untouched owner krPcb sys _ :=
        write_untouched howner hne { message with source := proc }
      apply syscallHandler_attentive (hsound.write hcont hruns.1.ne_sending howner _)
        (hattentive.untouched hsound.held huntouched rfl hattentive.answers) hproc hne hruns.1
        howner (by simp) _ hinside hentry
      intro hboth
      simpa [hboth] using htype
  | sent => exact hattentive.setCont (by simp) (by simp)
  | @sentFirst proc this target _ _ hcont hreceive =>
      obtain ⟨-, howner, hsource⟩ := hsound.entered proc this (by rw [hcont]; rfl)
      exact doReceive_attentive hattentive hsound.held howner hsource
        (hattentive.answers proc this target hcont).2 hreceive
  | @received proc =>
      have hcontinued : (sys.setCont proc .user).Attentive :=
        hattentive.setCont (by simp) (by simp)
      exact ⟨hcontinued.not_sending, hcontinued.checked, hcontinued.waiting, hcontinued.answers⟩
  | interrupted => exact hallowed.elim
  | checked hruns =>
      obtain ⟨rfl, howner, hsource, hany⟩ := hallowed
      rw [enter_eq, sourceOf_eq (.inr hsource)]
      constructor
      case not_sending => exact hruns.1.ne_sending
      case checked =>
        intro object goal head hchecked
        simp only [setCont, Function.update_self, Continuation.checked.injEq] at hchecked
        obtain ⟨-, rfl, rfl⟩ := hchecked
        simp [queueHead, setCont, hany]
      case waiting => exact fun hwaiting => absurd hwaiting hruns.1.ne_waiting
      case answers =>
        intro other object target hother
        simp only [setCont, Function.update_apply] at hother
        split at hother
        next => cases hother
        next => exact hattentive.answers other object target hother
  | @finished proc this want prev _ hrunnable hcont hreceive =>
      have hkernel : proc = krPcb := hallowed
      subst hkernel
      obtain ⟨rfl, rfl⟩ := hattentive.checked this want prev hcont
      obtain ⟨-, -, hsource⟩ := hsound.entered krPcb this (by rw [hcont]; rfl)
      exact finish_attentive hattentive hrunnable hsource hreceive

/-- As long as nobody sends to the kernel process between the two steps of its
receive, it never waits for anybody while a process is blocked in a send to it. -/
theorem kernel_never_misses_sender (owner : Addr → Addr) (fuel : Nat) (events : List IpcEvent)
    (sys : IpcSystem)
    (hrun : Run (step fuel)
      (fun sys event => sys.KernelInterleaving owner event ∧ sys.NoSendInside event)
      initial events sys) :
    ¬ (sys.ipc.WaitsForAny krPcb ∧
      ∃ proc, sys.ipc.status proc = .sendingMsg ∧ sys.target proc = krPcb) := by
  have hgood : sys.Sound owner ∧ sys.Attentive := by
    apply hrun.invariant (fun sys => sys.Sound owner ∧ sys.Attentive)
    · refine ⟨initial_sound owner, ?_⟩
      exact ⟨by simp [initial], fun _ _ _ h => (by cases h), fun h => (by cases h),
        fun _ _ _ h => (by cases h)⟩
    · intro before event after hbefore hadmits hstep
      obtain ⟨hsound, hattentive⟩ := hbefore
      obtain ⟨hparticipates, hhonest, horderly⟩ := hadmits.1.orderly hsound hattentive
      exact ⟨step_sound hsound hparticipates hhonest horderly hstep,
        step_attentive hsound hattentive hadmits.1 hadmits.2 hstep⟩
  obtain ⟨hsound, hattentive⟩ := hgood
  obtain ⟨queue, haccounted⟩ := hsound.accounted
  rintro ⟨hwaits, proc, hsending, htarget⟩
  have hproc := haccounted.queues.sender_process proc hsending
  have hmem := (haccounted.queues.mem_iff krPcb proc hproc.2.1).mpr ⟨hsending, htarget⟩
  have hempty := (haccounted.queues.chain krPcb).eq_nil_iff.mpr (hattentive.waiting hwaits.1).2
  rw [hempty] at hmem
  cases hmem

/-- The objects of the kernel process and of the terminal. -/
def kernelOwner (object : Addr) : Addr :=
  if object = 0x6f000 then 0x96000 else krPcb

/-- The terminal sends between two receives of the kernel process, which takes the
message and waits for the next one. -/
theorem kernel_never_misses_sender_of_terminal :
    ∃ sys : IpcSystem, Run (step 0)
        (fun sys event => sys.KernelInterleaving kernelOwner event ∧ sys.NoSendInside event) initial
        [.syscall 0x96000 0x6f000 ⟨0, 0, 2, default⟩ .send krPcb,
          .check krPcb 0x9e000 ⟨krPcb, 0, 0, default⟩ anyProcess, .finish krPcb,
          .check krPcb 0x9e000 ⟨krPcb, 0, 0, default⟩ anyProcess, .finish krPcb] sys ∧
      sys.ipc.WaitsForAny krPcb ∧ sys.delivered 0x96000 = 1 ∧
      ¬ ∃ proc, sys.ipc.status proc = .sendingMsg ∧ sys.target proc = krPcb := by
  have hrun := Run.of_exec (step 0)
    (fun sys event => sys.KernelInterleaving kernelOwner event ∧ sys.NoSendInside event) initial
    [.syscall 0x96000 0x6f000 ⟨0, 0, 2, default⟩ .send krPcb,
      .check krPcb 0x9e000 ⟨krPcb, 0, 0, default⟩ anyProcess, .finish krPcb,
      .check krPcb 0x9e000 ⟨krPcb, 0, 0, default⟩ anyProcess, .finish krPcb] rfl
  exact ⟨_, hrun, ⟨rfl, rfl⟩, rfl,
    fun hmissed => kernel_never_misses_sender _ _ _ _ hrun ⟨⟨rfl, rfl⟩, hmissed⟩⟩

/-- The terminal sends after the kernel process has found its queue empty: both
block, and the kernel process waits for anybody. -/
theorem send_inside_receive_missed :
    ¬ ∀ (owner : Addr → Addr) (fuel : Nat) (events : List IpcEvent) (sys : IpcSystem),
      Run (step fuel) (KernelInterleaving owner) initial events sys →
      ¬ (sys.ipc.WaitsForAny krPcb ∧
        ∃ proc, sys.ipc.status proc = .sendingMsg ∧ sys.target proc = krPcb) := by
  intro hnever
  have hrun := Run.of_exec (step 0) (KernelInterleaving kernelOwner) initial
    [.check krPcb 0x9e000 ⟨krPcb, 0, 0, default⟩ anyProcess,
      .syscall 0x96000 0x6f000 ⟨0, 0, 2, default⟩ .send krPcb, .finish krPcb] rfl
  exact hnever _ _ _ _ hrun ⟨⟨rfl, rfl⟩, 0x96000, rfl, rfl⟩

end IpcSystem

end Shmily.Kernel
