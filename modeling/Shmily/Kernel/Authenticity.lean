import Shmily.Kernel.SenderQueue

/-! # Who sent a message

A receiver learns the sender of a message from the `destination` field of its
own object. Objects belong to processes; only the owner and the kernel write
them.
-/

namespace Shmily.Kernel

open Foundation

/-- The receiver has obtained what the sender passed, under the sender's name. -/
def Delivery.Authentic (delivery : Delivery) : Prop :=
  delivery.obtained.destination = delivery.sender ∧
    delivery.obtained.type = delivery.passed.type ∧
    delivery.obtained.context = delivery.passed.context

namespace IpcSystem

variable (owner : Addr → Addr)

/-- The message pointers of blocked processes: a sender points to an object of
its own with the contents it passed, and a waiting process to an object of its
own. -/
structure Held (sys : IpcSystem) : Prop where
  sending : ∀ proc, sys.ipc.status proc = .sendingMsg → owner (sys.ipc.message proc) = proc ∧
    (sys.ipc.msgs (sys.ipc.message proc)).type = (sys.passed proc).type ∧
    (sys.ipc.msgs (sys.ipc.message proc)).context = (sys.passed proc).context
  waiting : ∀ proc, sys.ipc.status proc = .waitingMsg → owner (sys.ipc.message proc) = proc

/-- A process inside the kernel works on an object of its own that names it. -/
def Entered (sys : IpcSystem) : Prop :=
  ∀ proc this, (sys.cont proc).object = some this →
    IsProcess proc ∧ owner this = proc ∧ (sys.ipc.msgs this).source = proc

variable {owner} {sys next : IpcSystem}

namespace Held

/-- Writing an object that no blocked sender owns. -/
theorem write (hheld : sys.Held owner) {this : Addr}
    (howner : sys.ipc.status (owner this) ≠ .sendingMsg) (message : Message) :
    { sys with ipc := sys.ipc.setMessage this message }.Held owner where
  sending proc hsending := by
    have hproc := hheld.sending proc hsending
    have hne : sys.ipc.message proc ≠ this := by
      intro heq
      rw [← heq, hproc.1] at howner
      exact howner hsending
    change owner (sys.ipc.message proc) = proc ∧
      (Function.update sys.ipc.msgs this message (sys.ipc.message proc)).type = _ ∧
      (Function.update sys.ipc.msgs this message (sys.ipc.message proc)).context = _
    rw [Function.update_of_ne hne]
    exact hproc
  waiting := hheld.waiting

/-- What `Held` depends on. -/
theorem congr (hheld : sys.Held owner) (hmessage : next.ipc.message = sys.ipc.message)
    (hmsgs : next.ipc.msgs = sys.ipc.msgs)
    (hsending : ∀ proc, next.ipc.status proc = .sendingMsg →
      sys.ipc.status proc = .sendingMsg ∧ next.passed proc = sys.passed proc)
    (hwaiting : ∀ proc, next.ipc.status proc = .waitingMsg → sys.ipc.status proc = .waitingMsg) :
    next.Held owner where
  sending proc hproc := by
    obtain ⟨hstatus, hpassed⟩ := hsending proc hproc
    rw [hmessage, hmsgs, hpassed]
    exact hheld.sending proc hstatus
  waiting proc hproc := by
    rw [hmessage]
    exact hheld.waiting proc (hwaiting proc hproc)

end Held

section

variable {sender this dest : Addr}

theorem doSend_held (hheld : sys.Held owner) (hstatus : sys.ipc.status sender ≠ .sendingMsg)
    (howner : owner this = sender) (hsource : (sys.ipc.msgs this).source = sender) :
    (sys.doSend sender this dest).1.Held owner := by
  have hpassed : ∀ proc, sys.ipc.status proc = .sendingMsg →
      Function.update sys.passed sender (sys.ipc.msgs this) proc = sys.passed proc := by
    intro proc hproc
    apply Function.update_of_ne
    intro heq
    exact hstatus (heq ▸ hproc)
  have hready : ∀ proc status, status ≠ .ready →
      Function.update sys.ipc.status dest .ready proc = status → sys.ipc.status proc = status := by
    intro proc status hne hproc
    rw [Function.update_apply] at hproc
    split at hproc
    next => exact absurd hproc.symm hne
    next => exact hproc
  -- a waiting destination owns the object that is written
  have hwrite : ∀ message, sys.ipc.status dest = .waitingMsg →
      { sys with ipc := sys.ipc.setMessage (sys.ipc.message dest) message }.Held owner := by
    intro message hwaiting
    apply hheld.write
    rw [hheld.waiting dest hwaiting, hwaiting]
    simp
  rcases sys.ipc.send_cases sender this dest with ⟨-, -, heq⟩ | ⟨-, hwaits, heq⟩ |
    ⟨-, haccepts, heq⟩ | ⟨-, -, heq⟩ | ⟨-, -, -, heq⟩ <;> rw [doSend, heq]
  · exact hheld.congr rfl rfl (fun proc hproc => ⟨hproc, hpassed proc hproc⟩) (fun _ h => h)
  · refine (hwrite _ hwaits.1).congr rfl rfl (fun proc hproc => ?_)
      (fun proc hproc => hready proc _ (by simp) hproc)
    have hsending := hready proc _ (by simp) hproc
    exact ⟨hsending, hpassed proc hsending⟩
  · refine (hwrite _ haccepts.waiting).congr rfl rfl (fun proc hproc => ?_)
      (fun proc hproc => hready proc _ (by simp) hproc)
    have hsending := hready proc _ (by simp) hproc
    exact ⟨hsending, hpassed proc hsending⟩
  · exact hheld.congr rfl rfl (fun proc hproc => ⟨hproc, hpassed proc hproc⟩) (fun _ h => h)
  · constructor
    case sending =>
      intro proc hproc
      simp only [recordSend, Ipc.selfBlock_status, Ipc.selfBlock_message, Ipc.selfBlock_msgs,
        Ipc.linkSender_status, Ipc.linkSender_message, Ipc.linkSender_msgs,
        Ipc.storeMessage_status, Ipc.storeMessage_message, Ipc.storeMessage_msgs, hsource]
        at hproc ⊢
      by_cases hsender : proc = sender
      · subst hsender
        simp [howner]
      · simp only [Function.update_of_ne hsender] at hproc ⊢
        exact hheld.sending proc hproc
    case waiting =>
      intro proc hproc
      simp only [recordSend, Ipc.selfBlock_status, Ipc.selfBlock_message, Ipc.linkSender_status,
        Ipc.linkSender_message, Ipc.storeMessage_status, Ipc.storeMessage_message, hsource]
        at hproc ⊢
      by_cases hsender : proc = sender
      · subst hsender
        simp at hproc
      · simp only [Function.update_of_ne hsender] at hproc ⊢
        exact hheld.waiting proc hproc

variable {fuel : Nat} {proc want prev : Addr}

theorem doReceive_held (hheld : sys.Held owner) (hrunnable : (sys.ipc.status proc).Runnable)
    (howner : owner this = proc) (hsource : (sys.ipc.msgs this).source = proc)
    (hreceive : sys.doReceive fuel proc this want prev = some next) : next.Held owner := by
  have hwrite : ∀ message, { sys with ipc := sys.ipc.setMessage this message }.Held owner := by
    intro message
    apply hheld.write
    rw [howner]
    exact hrunnable.ne_sending
  rcases doReceive_cases hreceive with _ | _ | _ | ⟨before, -, -, -⟩
  · exact (hwrite _).congr rfl rfl (fun _ h => ⟨h, rfl⟩) (fun _ h => h)
  · rw [hsource]
    constructor
    case sending =>
      intro other hother
      have hne : other ≠ proc := by
        rintro rfl
        simp [recordReceive, Ipc.waitMessage] at hother
      have hheld := (hwrite { sys.ipc.msgs this with destination := want }).sending other
      simp only [recordReceive, Ipc.waitMessage, Ipc.selfBlock_status, Ipc.storeMessage_status,
        Ipc.selfBlock_message, Ipc.storeMessage_message, Function.update_of_ne hne] at hother ⊢
      exact hheld hother
    case waiting =>
      intro other hother
      simp only [recordReceive, Ipc.waitMessage, Ipc.selfBlock_status, Ipc.storeMessage_status,
        Ipc.selfBlock_message, Ipc.storeMessage_message] at hother ⊢
      by_cases hne : other = proc
      · subst hne
        simpa using howner
      · simp only [Function.update_of_ne hne] at hother ⊢
        exact hheld.waiting other hother
  · refine (hwrite _).congr (by simp [recordReceive, Ipc.takeFirst])
      (by simp [recordReceive, Ipc.takeFirst]; rfl) (fun other hother => ?_)
      (fun other hother => (sys.ipc.takeFirst_waiting_iff this _ prev other).mp hother)
    exact ⟨((sys.ipc.takeFirst_sending_iff this _ prev other).mp hother).1, rfl⟩
  · refine (hwrite _).congr (by simp [recordReceive, Ipc.takeBehind])
      (by simp [recordReceive, Ipc.takeBehind]; rfl) (fun other hother => ?_)
      (fun other hother => (sys.ipc.takeBehind_waiting_iff this want before other).mp hother)
    exact ⟨((sys.ipc.takeBehind_sending_iff this want before other).mp hother).1, rfl⟩

end

variable (owner) in
/-- Everything that holds between two events: the queues, the message pointers,
the objects of processes inside the kernel, and the deliveries so far. -/
structure Sound (sys : IpcSystem) : Prop where
  accounted : ∃ queue, sys.Accounted queue
  held : sys.Held owner
  entered : sys.Entered owner
  authentic : ∀ delivery ∈ sys.deliveries, IsProcess delivery.sender → delivery.Authentic

section

variable {sender this dest : Addr}

theorem doSend_authentic
    (hauthentic : ∀ delivery ∈ sys.deliveries, IsProcess delivery.sender → delivery.Authentic)
    (hsource : (sys.ipc.msgs this).source = sender) :
    ∀ delivery ∈ (sys.doSend sender this dest).1.deliveries, IsProcess delivery.sender →
      delivery.Authentic := by
  intro delivery hdelivery hprocess
  rcases sys.ipc.send_cases sender this dest with ⟨-, -, heq⟩ | ⟨-, -, heq⟩ | ⟨-, -, heq⟩ |
    ⟨-, -, heq⟩ | ⟨-, -, -, heq⟩ <;> rw [doSend, heq] at hdelivery
  · exact hauthentic delivery hdelivery hprocess
  · exact hauthentic delivery hdelivery hprocess
  · rcases List.mem_append.mp hdelivery with hold | hnew
    · exact hauthentic delivery hold hprocess
    · rw [List.mem_singleton.mp hnew]
      simp [Delivery.Authentic, Ipc.deliver, hsource]
  · exact hauthentic delivery hdelivery hprocess
  · exact hauthentic delivery hdelivery hprocess

theorem doSend_sound (hsound : sys.Sound owner)
    (hmay : ∀ queue, sys.Accounted queue → sys.MaySend queue sender this)
    (howner : owner this = sender) (hsource : (sys.ipc.msgs this).source = sender) :
    (sys.doSend sender this dest).1.Sound owner := by
  obtain ⟨queue, haccounted⟩ := hsound.accounted
  have hmay := hmay queue haccounted
  constructor
  case accounted => exact doSend_accounted haccounted hmay dest
  case held => exact doSend_held hsound.held (hmay.status_ne haccounted.queues) howner hsource
  case entered =>
    intro proc object hobject
    obtain ⟨hproc, hobjectOwner, hobjectSource⟩ := hsound.entered proc object hobject
    exact ⟨hproc, hobjectOwner, (sys.doSend_source sender this dest object).trans hobjectSource⟩
  case authentic => exact doSend_authentic hsound.authentic hsource

variable {fuel : Nat} {proc want : Addr}

theorem doReceive_authentic {queue : Addr → List Addr} (haccounted : sys.Accounted queue)
    (hheld : sys.Held owner)
    (hauthentic : ∀ delivery ∈ sys.deliveries, IsProcess delivery.sender → delivery.Authentic)
    (htakes : sys.ipc.TakesFirst (sys.ipc.msgs this).source want)
    (hreceive : sys.doReceive fuel proc this want (sys.queueHead this) = some next) :
    ∀ delivery ∈ next.deliveries, IsProcess delivery.sender → delivery.Authentic := by
  intro delivery hdelivery hprocess
  have hchain := haccounted.queues.chain (sys.ipc.msgs this).source
  rcases doReceive_cases hreceive with _ | _ | ⟨hne, -⟩ | ⟨before, hother, hany, htraverse⟩
  · exact hauthentic delivery hdelivery hprocess
  · exact hauthentic delivery hdelivery hprocess
  · rcases List.mem_append.mp hdelivery with hold | hnew
    · exact hauthentic delivery hold hprocess
    · rw [List.mem_singleton.mp hnew] at hprocess ⊢
      have hmem : sys.queueHead this ∈ queue (sys.ipc.msgs this).source := by
        obtain ⟨rest, hsrc⟩ := hchain.exists_cons hne
        rw [hsrc]
        exact List.mem_cons_self
      have hsending := ((haccounted.queues.mem_iff _ _ hprocess.2.1).mp hmem).1
      obtain ⟨-, htype, hcontext⟩ := hheld.sending _ hsending
      simp [Delivery.Authentic, Ipc.takeFirst, htype, hcontext]
  · rcases htakes with hwant | hwant | hwant
    · exact absurd hwant hany
    · exact absurd hwant hother
    · exact absurd (Ipc.traverse_mem hchain hany htraverse) (hwant _ hchain)

theorem doReceive_sound (hsound : sys.Sound owner) (hproc : IsProcess proc)
    (hrunnable : (sys.ipc.status proc).Runnable) (howner : owner this = proc)
    (hsource : (sys.ipc.msgs this).source = proc) (htakes : sys.ipc.TakesFirst proc want)
    (hreceive : sys.doReceive fuel proc this want (sys.queueHead this) = some next) :
    next.Sound owner := by
  obtain ⟨queue, haccounted⟩ := hsound.accounted
  rw [← hsource] at htakes
  constructor
  case accounted => exact doReceive_accounted haccounted htakes hrunnable.ne_sending hreceive
  case held => exact doReceive_held hsound.held hrunnable howner hsource hreceive
  case entered =>
    intro other object hobject
    have hold : (sys.cont other).object = some object ∨ other = proc ∧ object = this := by
      rcases doReceive_cont hreceive with hcont | hcont <;>
        rw [hcont, Function.update_apply] at hobject <;> split at hobject
      next => cases hobject
      next => exact .inl hobject
      next heq => exact .inr ⟨heq, (Option.some.inj hobject).symm⟩
      next => exact .inl hobject
    rw [doReceive_source hreceive]
    rcases hold with hold | ⟨rfl, rfl⟩
    · exact hsound.entered other object hold
    · exact ⟨hproc, howner, hsource⟩
  case authentic =>
    exact doReceive_authentic haccounted hsound.held hsound.authentic htakes hreceive

end

section

variable {fuel : Nat} {proc this target : Addr} {message : Message} {type : SyscallType}

/-- An object of `proc`, which is not inside the kernel, is written. -/
theorem Sound.write (hsound : sys.Sound owner) (hcont : (sys.cont proc).object = none)
    (hstatus : sys.ipc.status proc ≠ .sendingMsg) (howner : owner this = proc)
    (message : Message) : { sys with ipc := sys.ipc.setMessage this message }.Sound owner where
  accounted := by
    obtain ⟨queue, haccounted⟩ := hsound.accounted
    exact ⟨queue, haccounted.setMessage this message⟩
  held := hsound.held.write (howner ▸ hstatus) message
  entered other object hobject := by
    obtain ⟨hother, hobjectOwner, hobjectSource⟩ := hsound.entered other object hobject
    have hne : object ≠ this := by
      rintro rfl
      rw [howner] at hobjectOwner
      rw [← hobjectOwner] at hobject
      cases hcont.symm.trans hobject
    refine ⟨hother, hobjectOwner, ?_⟩
    rwa [Ipc.setMessage_msgs, Function.update_of_ne hne]
  authentic := hsound.authentic

theorem Sound.setCont (hsound : sys.Sound owner) (cont : Continuation)
    (hcont : ∀ this, cont.object = some this →
      IsProcess proc ∧ owner this = proc ∧ (sys.ipc.msgs this).source = proc) :
    (sys.setCont proc cont).Sound owner where
  accounted := by
    obtain ⟨queue, haccounted⟩ := hsound.accounted
    exact ⟨queue, haccounted.setCont proc cont⟩
  held := hsound.held.congr rfl rfl (fun _ h => ⟨h, rfl⟩) (fun _ h => h)
  entered other object hobject := by
    change (Function.update sys.cont proc cont other).object = some object at hobject
    rw [Function.update_apply] at hobject
    split at hobject
    next heq => exact heq ▸ hcont object hobject
    next => exact hsound.entered other object hobject
  authentic := hsound.authentic

theorem Sound.setReturned (hsound : sys.Sound owner) (returned : List (Addr × Message)) :
    { sys with returned := returned }.Sound owner where
  accounted := by
    obtain ⟨queue, haccounted⟩ := hsound.accounted
    exact ⟨queue, haccounted.congr haccounted.queues (fun _ _ => rfl) rfl⟩
  held := hsound.held.congr rfl rfl (fun _ h => ⟨h, rfl⟩) (fun _ h => h)
  entered := hsound.entered
  authentic := hsound.authentic

theorem syscallHandler_sound (hsound : sys.Sound owner) (hproc : IsProcess proc)
    (hrunnable : (sys.ipc.status proc).Runnable) (howner : owner this = proc)
    (hsource : (sys.ipc.msgs this).source = proc)
    (htakes : type ≠ .send → sys.ipc.TakesFirst proc target)
    (hstep : sys.syscallHandler fuel proc this type target = some next) : next.Sound owner := by
  have hdisk : (sys.ipc.msgs this).source ≠ interruptPcb := hsource ▸ hproc.2.1
  have hnet : (sys.ipc.msgs this).source ≠ interruptNetPcb := hsource ▸ hproc.2.2
  have hsent : (sys.doSend proc this target).1.Sound owner :=
    doSend_sound hsound (fun _ _ => .process hproc hrunnable.ne_sending hdisk hnet) howner hsource
  have hkept := (sys.doSend_source proc this target this).trans hsource
  cases type with
  | send =>
      cases hstep
      split
      · exact hsent.setCont .sending (fun _ h => by cases h)
      · exact hsent
  | recv => exact doReceive_sound hsound hproc hrunnable howner hsource (htakes (by simp)) hstep
  | sendRecv =>
      rw [syscallHandler] at hstep
      split at hstep
      next =>
        cases hstep
        apply hsent.setCont
        intro object hobject
        cases hobject
        exact ⟨hproc, howner, hkept⟩
      next hblocked =>
        obtain ⟨hlinks, hsendings, -⟩ := doSend_frame hdisk hblocked
        have hstill := doSend_runnable hrunnable hblocked
        apply doReceive_sound hsent hproc hstill howner hkept _ hstep
        rw [Ipc.TakesFirst, hlinks, hsendings]
        exact htakes (by simp)

variable (owner) in
/-- Processes use their own objects, and so do the interrupt handlers. The kernel
process names itself in the object of its interruptible receive. -/
def Participates (_ : IpcSystem) : IpcEvent → Prop
  | .syscall proc this _ _ _ => IsProcess proc ∧ owner this = proc
  | .interrupt this message _ => owner this = message.source ∧
      (message.source = interruptPcb ∨ message.source = interruptNetPcb)
  | .check proc this message _ => IsProcess proc ∧ owner this = proc ∧ message.source = proc
  | .resume _ | .finish _ => True

instance (sys : IpcSystem) : (event : IpcEvent) → Decidable (sys.Participates owner event)
  | .syscall .. | .interrupt .. | .check .. => inferInstanceAs (Decidable (_ ∧ _))
  | .resume _ | .finish _ => inferInstanceAs (Decidable True)

/-- A process leaves the source of its message open or names itself. -/
def Honest (_ : IpcSystem) : IpcEvent → Prop
  | .syscall proc _ message _ _ => message.source = 0 ∨ message.source = proc
  | _ => True

theorem sourceOf_eq (hhonest : message.source = 0 ∨ message.source = proc) :
    sourceOf proc message = proc := by
  unfold sourceOf
  split
  next => rfl
  next hne => exact hhonest.resolve_left hne

theorem step_sound {event : IpcEvent} (hsound : sys.Sound owner)
    (hparticipates : sys.Participates owner event) (hhonest : sys.Honest event)
    (horderly : sys.Orderly event) (hstep : sys.step fuel event = some next) :
    next.Sound owner := by
  cases step_cases hstep with
  | @entered proc this target message type _ hruns hentry =>
      obtain ⟨hproc, howner⟩ := hparticipates
      obtain ⟨-, -, -, htakes⟩ := horderly
      have hsource := sourceOf_eq hhonest
      have hcont : (sys.cont proc).object = none := by rw [hruns.2]; rfl
      rw [enter_eq, hsource] at hentry
      rw [hsource] at htakes
      apply syscallHandler_sound (hsound.write hcont hruns.1.ne_sending howner _) hproc hruns.1
        howner _ _ hentry
      · simp
      · simpa [Ipc.TakesFirst] using htakes
  | sent => exact hsound.setCont .user (fun _ h => by cases h)
  | @sentFirst proc this target _ hrunnable hcont hreceive =>
      obtain ⟨hproc, howner, hsource⟩ := hsound.entered proc this (by rw [hcont]; rfl)
      have htakes := horderly this target hcont
      rw [hsource] at htakes
      exact doReceive_sound hsound hproc hrunnable howner hsource htakes hreceive
  | received => exact (hsound.setCont .user (fun _ h => by cases h)).setReturned _
  | @interrupted this message dest =>
      obtain ⟨howner, hsource⟩ := hparticipates
      have hprocess : ¬ IsProcess message.source := fun hprocess =>
        hsource.elim hprocess.2.1 hprocess.2.2
      have hcont : (sys.cont message.source).object = none := by
        rw [Option.eq_none_iff_forall_ne_some]
        exact fun object hobject => hprocess (hsound.entered _ object hobject).1
      have hstatus : sys.ipc.status message.source ≠ .sendingMsg := by
        obtain ⟨queue, haccounted⟩ := hsound.accounted
        exact fun hsending => hprocess (haccounted.queues.sender_process _ hsending)
      apply doSend_sound (hsound.write hcont hstatus howner message) _ howner (by simp)
      intro queue haccounted
      rcases horderly with hnet | ⟨hdisk, hfree⟩
      · exact .net hnet (by simpa using hnet)
      · exact .disk hdisk (by simpa using hdisk)
          (fun other => hfree other _ (haccounted.queues.chain other))
  | @checked proc _ _ _ hruns =>
      obtain ⟨hproc, howner, hself⟩ := hparticipates
      have hcont : (sys.cont proc).object = none := by rw [hruns.2]; rfl
      rw [enter_eq, sourceOf_eq (.inr hself)]
      apply (hsound.write hcont hruns.1.ne_sending howner _).setCont
      intro object hobject
      cases hobject
      exact ⟨hproc, howner, by simp⟩
  | @finished proc this want prev _ hrunnable hcont hreceive =>
      obtain ⟨hproc, howner, hsource⟩ := hsound.entered proc this (by rw [hcont]; rfl)
      obtain ⟨hhead, htakes⟩ := horderly this want prev hcont
      rw [hhead] at hreceive
      rw [hsource] at htakes
      exact doReceive_sound hsound hproc hrunnable howner hsource htakes hreceive

theorem honest_ne {intr : Addr} (hhonest : message.source = 0 ∨ message.source = proc)
    (hzero : intr ≠ 0) (hproc : proc ≠ intr) : message.source ≠ intr := by
  rcases hhonest with h | h <;> rw [h]
  · exact hzero.symm
  · exact hproc

/-- What is needed of a kernel entry of a process. -/
theorem syscall_orderly (hproc : IsProcess proc) (howner : owner this = proc)
    (hhonest : message.source = 0 ∨ message.source = proc)
    (htakes : type ≠ .send → sys.ipc.TakesFirst proc target) :
    sys.Participates owner (.syscall proc this message type target) ∧
      sys.Honest (.syscall proc this message type target) ∧
      sys.Orderly (.syscall proc this message type target) := by
  refine ⟨⟨hproc, howner⟩, hhonest, hproc, honest_ne hhonest (by decide) hproc.2.1,
    honest_ne hhonest (by decide) hproc.2.2, ?_⟩
  rwa [sourceOf_eq hhonest]

theorem syscall_sound (hsound : sys.Sound owner) (hproc : IsProcess proc)
    (howner : owner this = proc) (hhonest : message.source = 0 ∨ message.source = proc)
    (htakes : type ≠ .send → sys.ipc.TakesFirst proc target)
    (hstep : sys.step fuel (.syscall proc this message type target) = some next) :
    next.Sound owner := by
  obtain ⟨hparticipates, hhonest, horderly⟩ := syscall_orderly hproc howner hhonest htakes
  exact step_sound hsound hparticipates hhonest horderly hstep

theorem resume_sound (hsound : sys.Sound owner)
    (htakes : ∀ this target, sys.cont proc = .sendingRecv this target →
      sys.ipc.TakesFirst (sys.ipc.msgs this).source target)
    (hstep : sys.step fuel (.resume proc) = some next) : next.Sound owner :=
  have hparticipates : sys.Participates owner (.resume proc) := trivial
  have hhonest : sys.Honest (.resume proc) := trivial
  step_sound hsound hparticipates hhonest htakes hstep

end

theorem initial_sound (owner : Addr → Addr) : initial.Sound owner where
  accounted := ⟨_, initial_accounted⟩
  held := ⟨fun _ h => (by cases h), fun _ h => (by cases h)⟩
  entered _ _ h := by cases h
  authentic _ h := by cases h

section

variable {fuel : Nat} {proc this target : Addr} {message : Message} {type : SyscallType}

theorem doSend_message (hsource : (sys.ipc.msgs this).source = proc) {other : Addr}
    (hother : other ≠ proc) :
    (sys.doSend proc this target).1.ipc.message other = sys.ipc.message other := by
  rcases sys.ipc.send_cases proc this target with ⟨-, -, heq⟩ | ⟨-, -, heq⟩ | ⟨-, -, heq⟩ |
    ⟨-, -, heq⟩ | ⟨-, -, -, heq⟩ <;> rw [doSend, heq]
  · rfl
  · rfl
  · rfl
  · rfl
  · change Function.update sys.ipc.message (sys.ipc.msgs this).source this other = _
    rw [hsource, Function.update_of_ne hother]

theorem doReceive_message {want prev : Addr} (hsource : (sys.ipc.msgs this).source = proc)
    (hreceive : sys.doReceive fuel proc this want prev = some next) {other : Addr}
    (hother : other ≠ proc) : next.ipc.message other = sys.ipc.message other := by
  rcases doReceive_cases hreceive with _ | _ | _ | ⟨before, -, -, -⟩
  · rfl
  · change Function.update sys.ipc.message (sys.ipc.msgs this).source this other = _
    rw [hsource, Function.update_of_ne hother]
  · simp [recordReceive, Ipc.takeFirst]
  · simp [recordReceive, Ipc.takeBehind]

/-- An honest kernel entry changes the message pointer of no other process. -/
theorem step_message (hhonest : message.source = 0 ∨ message.source = proc)
    (hstep : sys.step fuel (.syscall proc this message type target) = some next) {other : Addr}
    (hother : other ≠ proc) : next.ipc.message other = sys.ipc.message other := by
  rw [step] at hstep
  split at hstep
  next =>
    rw [enter_eq, sourceOf_eq hhonest] at hstep
    cases type with
    | send =>
        cases hstep
        split
        · exact doSend_message (by simp) hother
        · exact doSend_message (by simp) hother
    | recv => exact doReceive_message (by simp) hstep hother
    | sendRecv =>
        rw [syscallHandler] at hstep
        split at hstep
        next =>
          cases hstep
          exact doSend_message (by simp) hother
        next =>
          rw [doReceive_message (by rw [doSend_source]; simp) hstep hother]
          exact doSend_message (by simp) hother
  next => cases hstep

end

/-! ## What other processes leave alone -/

section

variable {watched proc this target : Addr}

variable (owner) in
/-- What the process `watched` depends on is the same in both states, except
that its message may have been taken off a queue. -/
structure Untouched (watched : Addr) (sys next : IpcSystem) : Prop where
  waiting : next.ipc.status watched = .waitingMsg ↔ sys.ipc.status watched = .waitingMsg
  sending : next.ipc.status watched = .sendingMsg → sys.ipc.status watched = .sendingMsg
  sendings : next.ipc.sendings watched = sys.ipc.sendings watched
  message : next.ipc.message watched = sys.ipc.message watched
  intrCnt : next.ipc.intrCnt watched = sys.ipc.intrCnt watched
  objects : ∀ object, owner object = watched → next.ipc.msgs object = sys.ipc.msgs object

theorem write_untouched (howner : owner this = proc) (hproc : proc ≠ watched) (message : Message) :
    Untouched owner watched sys { sys with ipc := sys.ipc.setMessage this message } where
  waiting := Iff.rfl
  sending h := h
  sendings := rfl
  message := rfl
  intrCnt := rfl
  objects object hobject := by
    apply Function.update_of_ne
    rintro rfl
    exact hproc (howner.symm.trans hobject)

theorem doSend_status_of_ne (hproc : watched ≠ proc) (htarget : watched ≠ target) :
    (sys.doSend proc this target).1.ipc.status watched = sys.ipc.status watched := by
  rcases sys.ipc.send_cases proc this target with ⟨-, -, heq⟩ | ⟨-, -, heq⟩ | ⟨-, -, heq⟩ |
    ⟨-, -, heq⟩ | ⟨-, -, -, heq⟩ <;> rw [doSend, heq]
  · rfl
  · exact Function.update_of_ne htarget _ _
  · exact Function.update_of_ne htarget _ _
  · rfl
  · exact Function.update_of_ne hproc _ _

/-- A send to somebody else. -/
theorem doSend_untouched (hheld : sys.Held owner) (hsource : (sys.ipc.msgs this).source = proc)
    (hproc : proc ≠ watched) (htarget : target ≠ watched) :
    Untouched owner watched sys (sys.doSend proc this target).1 where
  message := doSend_message hsource hproc.symm
  waiting := by rw [doSend_status_of_ne hproc.symm htarget.symm]
  sending := by
    rw [doSend_status_of_ne hproc.symm htarget.symm]
    exact fun h => h
  sendings := by
    rcases sys.ipc.send_cases proc this target with ⟨-, -, heq⟩ | ⟨-, -, heq⟩ | ⟨-, -, heq⟩ |
      ⟨-, -, heq⟩ | ⟨-, -, -, heq⟩ <;> rw [doSend, heq]
    · rfl
    · rfl
    · rfl
    · exact Function.update_of_ne htarget.symm _ _
    · exact Function.update_of_ne htarget.symm _ _
  intrCnt := by
    rcases sys.ipc.send_cases proc this target with ⟨-, -, heq⟩ | ⟨-, -, heq⟩ | ⟨-, -, heq⟩ |
      ⟨-, -, heq⟩ | ⟨-, -, -, heq⟩ <;> rw [doSend, heq]
    · exact Function.update_of_ne htarget.symm _ _
    · exact Function.update_of_ne htarget.symm _ _
    · rfl
    · rfl
    · rfl
  objects object hobject := by
    -- the object written belongs to the destination
    have hother : ∀ message, sys.ipc.status target = .waitingMsg →
        Function.update sys.ipc.msgs (sys.ipc.message target) message object =
          sys.ipc.msgs object := by
      intro message hwaiting
      apply Function.update_of_ne
      rintro rfl
      exact htarget ((hheld.waiting target hwaiting).symm.trans hobject)
    rcases sys.ipc.send_cases proc this target with ⟨-, -, heq⟩ | ⟨-, hwaits, heq⟩ |
      ⟨-, haccepts, heq⟩ | ⟨-, -, heq⟩ | ⟨-, -, -, heq⟩ <;> rw [doSend, heq]
    · rfl
    · exact hother _ hwaits.1
    · exact hother _ haccepts.waiting
    · rfl
    · rfl

variable {fuel : Nat} {want prev : Addr}

/-- A receive of another process. -/
theorem doReceive_untouched (howner : owner this = proc)
    (hsource : (sys.ipc.msgs this).source = proc) (hproc : proc ≠ watched)
    (hreceive : sys.doReceive fuel proc this want prev = some next) :
    Untouched owner watched sys next where
  message := doReceive_message hsource hreceive hproc.symm
  waiting := by
    rcases doReceive_cases hreceive with _ | _ | _ | ⟨before, -, -, -⟩
    · exact Iff.rfl
    · simp [recordReceive, Ipc.waitMessage, Function.update_of_ne hproc.symm]
    · exact sys.ipc.takeFirst_waiting_iff this _ prev watched
    · exact sys.ipc.takeBehind_waiting_iff this want before watched
  sending := doReceive_sending hreceive
  sendings := by
    rcases doReceive_cases hreceive with _ | _ | _ | ⟨before, -, -, -⟩
    · rfl
    · rfl
    · simp [recordReceive, Ipc.takeFirst, hsource, Function.update_of_ne hproc.symm]
    · simp [recordReceive, Ipc.takeBehind]
  intrCnt := by
    rcases doReceive_cases hreceive with _ | _ | _ | ⟨before, -, -, -⟩
    · simp [recordReceive, hsource, Function.update_of_ne hproc.symm]
    · rfl
    · simp [recordReceive, Ipc.takeFirst]
    · simp [recordReceive, Ipc.takeBehind]
  objects object hobject := by
    have hne : object ≠ this := by
      rintro rfl
      exact hproc (howner.symm.trans hobject)
    rcases doReceive_cases hreceive with _ | _ | _ | ⟨before, -, -, -⟩
    · exact Function.update_of_ne hne _ _
    · exact Function.update_of_ne hne _ _
    · simp [recordReceive, Ipc.takeFirst, hne]
    · simp [recordReceive, Ipc.takeBehind, hne]

end

/-- In the given state all messages of processes have been delivered as they were
passed and under the name of their sender, and no kernel entry that may happen
next changes the message pointer of another process. -/
def Authenticates (admits : IpcSystem → IpcEvent → Prop) (fuel : Nat) (sys : IpcSystem) : Prop :=
  (∀ delivery ∈ sys.deliveries, IsProcess delivery.sender → delivery.Authentic) ∧
  ∀ proc this message type target next, admits sys (.syscall proc this message type target) →
    sys.step fuel (.syscall proc this message type target) = some next →
    ∀ other, other ≠ proc → next.ipc.message other = sys.ipc.message other

/-- Messages are authentic as long as every process names itself or nobody as the
source, and the queues are used in an orderly way. -/
theorem messages_authentic (owner : Addr → Addr) (fuel : Nat) (events : List IpcEvent)
    (sys : IpcSystem)
    (hrun : Run (step fuel)
      (fun sys event => sys.Participates owner event ∧ sys.Honest event ∧ sys.Orderly event)
      initial events sys) :
    sys.Authenticates
      (fun sys event => sys.Participates owner event ∧ sys.Honest event ∧ sys.Orderly event)
      fuel := by
  have hsound : sys.Sound owner := by
    apply hrun.invariant (Sound owner)
    · exact initial_sound owner
    · intro before event after hbefore hadmits hstep
      exact step_sound hbefore hadmits.1 hadmits.2.1 hadmits.2.2 hstep
  refine ⟨hsound.authentic, ?_⟩
  intro proc this message type target next hadmits hstep other hother
  exact step_message hadmits.2.1 hstep hother

/-- The objects at these addresses belong to the terminal and to the network
process. -/
def stackOwner (object : Addr) : Addr :=
  if object = 0x6f000 then 0x96000 else 0x95000

/-- The network process waits for anybody and gets a request of the terminal. -/
theorem messages_authentic_on_request :
    ∃ sys : IpcSystem, Run (step 0)
        (fun sys event => sys.Participates stackOwner event ∧ sys.Honest event ∧ sys.Orderly event)
        initial
        [.syscall 0x95000 0x5f000 default .recv anyProcess,
          .syscall 0x96000 0x6f000 ⟨0, 0, 3, ⟨1, 2, 3, 4⟩⟩ .send 0x95000, .resume 0x95000] sys ∧
      sys.returned = [(0x95000, ⟨0x95000, 0x96000, 3, ⟨1, 2, 3, 4⟩⟩)] ∧
      ∀ delivery ∈ sys.deliveries, IsProcess delivery.sender → delivery.Authentic := by
  have hwaiting : Run (step 0)
      (fun sys event => sys.Participates stackOwner event ∧ sys.Honest event ∧ sys.Orderly event)
      initial [.syscall 0x95000 0x5f000 default .recv anyProcess] _ :=
    .snoc .nil ⟨by decide, .inl rfl, by decide, by decide, by decide, fun _ => .inl rfl⟩ rfl
  have hsent : Run (step 0)
      (fun sys event => sys.Participates stackOwner event ∧ sys.Honest event ∧ sys.Orderly event)
      initial [.syscall 0x95000 0x5f000 default .recv anyProcess,
        .syscall 0x96000 0x6f000 ⟨0, 0, 3, ⟨1, 2, 3, 4⟩⟩ .send 0x95000] _ :=
    hwaiting.snoc ⟨by decide, .inl rfl, by decide, by decide, by decide, fun h => absurd rfl h⟩ rfl
  have hresumed : Run (step 0)
      (fun sys event => sys.Participates stackOwner event ∧ sys.Honest event ∧ sys.Orderly event)
      initial [.syscall 0x95000 0x5f000 default .recv anyProcess,
        .syscall 0x96000 0x6f000 ⟨0, 0, 3, ⟨1, 2, 3, 4⟩⟩ .send 0x95000, .resume 0x95000] _ :=
    hsent.snoc ⟨trivial, trivial, fun _ _ h => by cases h⟩ rfl
  exact ⟨_, hresumed, rfl, (messages_authentic _ _ _ _ hresumed).1⟩

/-- The terminal sends to the waiting network process and writes the PCB of the
memory manager into the source field: the network process is told that the
memory manager has sent the message. -/
theorem forged_source_delivered :
    ¬ ∀ (owner : Addr → Addr) (fuel : Nat) (events : List IpcEvent) (sys : IpcSystem),
      Run (step fuel) (Participates owner) initial events sys →
      sys.Authenticates (Participates owner) fuel := by
  intro hauthentic
  have hrun := Run.of_exec (step 0) (Participates stackOwner) initial
    [.syscall 0x95000 0x5f000 default .recv anyProcess,
      .syscall 0x96000 0x6f000 ⟨0x91000, 0, 3, ⟨1, 2, 3, 4⟩⟩ .send 0x95000] rfl
  have hdelivery := (hauthentic _ _ _ _ hrun).1 _ (List.mem_singleton.mpr rfl) (by decide)
  exact absurd hdelivery.1 (by decide)

end IpcSystem

end Shmily.Kernel
