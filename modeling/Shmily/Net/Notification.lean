import Shmily.Kernel.Authenticity
import Shmily.Lib.IndirectRingBuffer

/-! # Notifications of the network process

`ne2k_handler` stores a packet in the ring and sends in the name of the network
interrupt PCB; the main loop of the network process receives from anybody and
takes one packet out of the ring for each message of type `INTR`.
-/

namespace Shmily.Net

open Foundation Kernel Lib

/-- `all_processes::NET`. -/
def netPcb : Addr := 0x95000

/-- How many receives of the network process have returned type `INTR`. -/
def intrReturns (sys : IpcSystem) : Nat :=
  sys.returned.countP fun entry => entry.1 = netPcb ∧ entry.2.type = intrType

/-- The counter holds the notifications that have not been returned yet. Nobody
else has sent a message of type `INTR`, and a receive of the network process that
was woken up has not got one. -/
structure Notified (sys : IpcSystem) : Prop where
  diskless : sys.sends interruptPcb = 0
  plain : ∀ sender, sys.ipc.status sender = .sendingMsg → (sys.passed sender).type ≠ intrType
  woken : ∀ this, sys.cont netPcb = .receiving this →
    (sys.ipc.status netPcb = .waitingMsg ∧ sys.ipc.message netPcb = this) ∨
      (sys.ipc.msgs this).type ≠ intrType
  counted : intrReturns sys + (sys.ipc.intrCnt netPcb).toNat = sys.sends interruptNetPcb

section

variable {owner : Addr → Addr} {sys next : IpcSystem} {fuel : Nat} {proc this target : Addr}

theorem Notified.interrupt_notMem (hnotified : Notified sys) {queue : Addr → List Addr}
    (haccounted : sys.Accounted queue) (dest : Addr) : interruptPcb ∉ queue dest := by
  intro hmem
  have hpending := haccounted.pending interruptPcb dest hmem
  rw [hnotified.diskless] at hpending
  omega

theorem intrReturns_append (entry : Addr × Message)
    (hreturned : next.returned = sys.returned ++ [entry]) :
    intrReturns next =
      intrReturns sys + if entry.1 = netPcb ∧ entry.2.type = intrType then 1 else 0 := by
  rw [intrReturns, hreturned, List.countP_append, List.countP_singleton]
  simp [intrReturns]

/-- A step of another process that leaves the network process alone. -/
theorem Notified.untouched (hnotified : Notified sys) (hentered : sys.Entered owner)
    (huntouched : IpcSystem.Untouched owner netPcb sys next)
    (hcont : next.cont netPcb = sys.cont netPcb)
    (hsends : ∀ intr, ¬ IsProcess intr → next.sends intr = sys.sends intr)
    (hplain : ∀ sender, next.ipc.status sender = .sendingMsg →
      (next.passed sender).type ≠ intrType)
    (hreturns : intrReturns next = intrReturns sys) : Notified next where
  diskless := (hsends interruptPcb (by decide)).trans hnotified.diskless
  plain := hplain
  woken this hreceiving := by
    rw [hcont] at hreceiving
    obtain ⟨-, howner, -⟩ := hentered netPcb this (by rw [hreceiving]; rfl)
    rw [huntouched.waiting, huntouched.message, huntouched.objects this howner]
    exact hnotified.woken this hreceiving
  counted := by
    rw [hreturns, huntouched.intrCnt, hsends interruptNetPcb (by decide)]
    exact hnotified.counted

/-- A process sends a message of another type. -/
theorem doSend_notified (hsound : sys.Sound owner) (hnotified : Notified sys)
    (hproc : IsProcess proc) (hcont : proc = netPcb → sys.cont netPcb = .user)
    (hsource : (sys.ipc.msgs this).source = proc)
    (htype : (sys.ipc.msgs this).type ≠ intrType) :
    Notified (sys.doSend proc this target).1 := by
  have hne : ∀ intr, ¬ IsProcess intr →
      Function.update sys.sends proc (sys.sends proc + 1) intr = sys.sends intr := by
    intro intr hintr
    apply Function.update_of_ne
    rintro rfl
    exact hintr hproc
  have hplain : ∀ sender, (sys.doSend proc this target).1.ipc.status sender = .sendingMsg →
      (Function.update sys.passed proc (sys.ipc.msgs this) sender).type ≠ intrType := by
    intro sender hsending
    rw [Function.update_apply]
    split
    next => exact htype
    next hother => exact hnotified.plain sender (IpcSystem.doSend_sending_of_ne hother hsending)
  constructor
  case diskless => exact (hne interruptPcb (by decide)).trans hnotified.diskless
  case plain => exact hplain
  case woken =>
    intro object hreceiving
    change sys.cont netPcb = .receiving object at hreceiving
    have hself : proc ≠ netPcb := by
      intro heq
      cases (hcont heq).symm.trans hreceiving
    obtain ⟨-, howner, -⟩ := hsound.entered netPcb object (by rw [hreceiving]; rfl)
    have hwoken := hnotified.woken object hreceiving
    by_cases htarget : target = netPcb
    · subst htarget
      rcases sys.ipc.send_cases proc this netPcb with ⟨hnet, -, -⟩ | ⟨hnet, -, -⟩ | ⟨-, -, heq⟩ |
        ⟨hdisk, -, -⟩ | ⟨-, -, -, heq⟩
      · exact absurd (hsource.symm.trans hnet) hproc.2.2
      · exact absurd (hsource.symm.trans hnet) hproc.2.2
      · -- the message is copied into the object on which the network process waits
        right
        rw [IpcSystem.doSend, heq]
        change (Function.update sys.ipc.msgs (sys.ipc.message netPcb) _ object).type ≠ intrType
        rw [Function.update_apply]
        split
        next => exact htype
        next hother => exact hwoken.resolve_left fun hleft => hother hleft.2.symm
      · exact absurd (hsource.symm.trans hdisk) hproc.2.1
      · rw [IpcSystem.doSend, heq]
        simpa [IpcSystem.recordSend, hsource, Function.update_of_ne (Ne.symm hself)] using hwoken
    · have huntouched := IpcSystem.doSend_untouched hsound.held hsource hself htarget
      rw [huntouched.waiting, huntouched.message, huntouched.objects object howner]
      exact hwoken
  case counted =>
    rw [IpcSystem.doSend_intrCnt (hsource ▸ hproc.2.2)]
    exact hnotified.counted.trans (hne interruptNetPcb (by decide)).symm

/-- A receive of another process. -/
theorem doReceive_notified (hsound : sys.Sound owner) (hnotified : Notified sys)
    (hself : proc ≠ netPcb) (howner : owner this = proc)
    (hsource : (sys.ipc.msgs this).source = proc) {want prev : Addr}
    (hreceive : sys.doReceive fuel proc this want prev = some next) : Notified next := by
  have huntouched := IpcSystem.doReceive_untouched howner hsource hself hreceive
  obtain ⟨hsends, hpassed, hreturned⟩ := IpcSystem.doReceive_record hreceive
  apply hnotified.untouched hsound.entered huntouched
  · rcases IpcSystem.doReceive_cont hreceive with hcont | hcont <;> rw [hcont]
    · exact Function.update_of_ne (Ne.symm hself) _ _
    · exact Function.update_of_ne (Ne.symm hself) _ _
  · intro intr _
    rw [hsends]
  · intro sender hsending
    rw [hpassed]
    exact hnotified.plain sender (IpcSystem.doReceive_sending hreceive hsending)
  · rcases hreturned with hreturned | ⟨message, hreturned⟩
    · rw [intrReturns, hreturned]
      rfl
    · rw [intrReturns_append _ hreturned, if_neg fun h => hself h.1, Nat.add_zero]

theorem toNat_sub_one {count : UInt8} (hcount : count ≠ 0) :
    (count - 1).toNat + 1 = count.toNat := by
  have hpos : count.toNat ≠ 0 := fun h => hcount (UInt8.toNat_inj.mp h)
  have hle : (1 : UInt8) ≤ count := by
    rw [UInt8.le_iff_toNat_le]
    exact Nat.one_le_iff_ne_zero.mpr hpos
  rw [UInt8.toNat_sub_of_le _ _ hle]
  exact Nat.sub_add_cancel (Nat.one_le_iff_ne_zero.mpr hpos)

/-- The network process receives from anybody. -/
theorem net_receive_notified (hsound : sys.Sound owner) (hnotified : Notified sys)
    (hsource : (sys.ipc.msgs this).source = netPcb)
    (hreceive : sys.doReceive fuel netPcb this anyProcess (sys.queueHead this) = some next) :
    Notified next := by
  obtain ⟨queue, haccounted⟩ := hsound.accounted
  obtain ⟨hsends, hpassed, -⟩ := IpcSystem.doReceive_record hreceive
  have hplain : ∀ sender, next.ipc.status sender = .sendingMsg →
      (next.passed sender).type ≠ intrType := by
    intro sender hsending
    rw [hpassed]
    exact hnotified.plain sender (IpcSystem.doReceive_sending hreceive hsending)
  have hdiskless : next.sends interruptPcb = 0 := hsends ▸ hnotified.diskless
  rcases IpcSystem.doReceive_cases hreceive with hcount | _ | hne | ⟨before, -, hany, -⟩
  · refine ⟨hdiskless, hplain, fun object hreceiving => ?_, ?_⟩
    · simp [IpcSystem.recordReceive] at hreceiving
    · rw [hsource] at hcount
      have hless := toNat_sub_one hcount
      rw [intrReturns_append _ rfl, if_pos (by simp)]
      simp only [IpcSystem.recordReceive, hsource, Ipc.setIntrCnt_intrCnt, Function.update_self]
      have hcounted := hnotified.counted
      omega
  · refine ⟨hdiskless, hplain, fun object hreceiving => .inl ?_, hnotified.counted⟩
    simp only [IpcSystem.recordReceive, Function.update_self,
      Continuation.receiving.injEq] at hreceiving
    subst hreceiving
    simp [IpcSystem.recordReceive, Ipc.waitMessage, hsource]
  · refine ⟨hdiskless, hplain, fun object hreceiving => ?_, ?_⟩
    · simp [IpcSystem.recordReceive] at hreceiving
    · -- the message taken is one of a process
      have hmem : sys.queueHead this ∈ queue netPcb := by
        have hchain := haccounted.queues.chain netPcb
        rw [IpcSystem.queueHead, hsource] at hne ⊢
        obtain ⟨rest, hqueue⟩ := hchain.exists_cons hne
        rw [hqueue]
        exact List.mem_cons_self
      have hprocess : sys.queueHead this ≠ interruptPcb := by
        intro heq
        exact hnotified.interrupt_notMem haccounted netPcb (heq ▸ hmem)
      have hsending := ((haccounted.queues.mem_iff netPcb _ hprocess).mp hmem).1
      have htype := (hsound.held.sending _ hsending).2.1
      have hother := hnotified.plain _ hsending
      rw [← htype] at hother
      rw [intrReturns_append _ rfl, if_neg (by simp [Ipc.takeFirst, hother])]
      simpa [IpcSystem.recordReceive, Ipc.takeFirst] using hnotified.counted
  · exact absurd rfl hany

/-! ## Events -/

variable (owner) in
/-- Processes send messages of other types than `INTR` and receive from anybody,
and the network interrupt sends to the network process. -/
def NetTraffic : IpcEvent → Prop
  | .syscall proc this message type target =>
      IsProcess proc ∧ owner this = proc ∧ (message.source = 0 ∨ message.source = proc) ∧
        (type = .send ∧ message.type ≠ intrType ∨ type = .recv ∧ target = anyProcess)
  | .resume _ => True
  | .interrupt this message dest =>
      owner this = interruptNetPcb ∧ message.source = interruptNetPcb ∧ dest = netPcb
  | .check .. | .finish _ => False

instance : (event : IpcEvent) → Decidable (NetTraffic owner event)
  | .syscall .. | .interrupt .. => inferInstanceAs (Decidable (_ ∧ _))
  | .resume _ => inferInstanceAs (Decidable True)
  | .check .. | .finish _ => inferInstanceAs (Decidable False)

/-- A notification finds the network process not waiting for anybody, and room
in the counter. -/
def NotifiedBusy (sys : IpcSystem) : IpcEvent → Prop
  | .interrupt .. => ¬ sys.ipc.WaitsForAny netPcb ∧ sys.ipc.intrCnt netPcb ≠ 255
  | _ => True

instance (sys : IpcSystem) : (event : IpcEvent) → Decidable (NotifiedBusy sys event)
  | .interrupt .. => inferInstanceAs (Decidable (_ ∧ _))
  | .syscall .. | .resume _ | .check .. | .finish _ => inferInstanceAs (Decidable True)

variable {event : IpcEvent}

theorem NetTraffic.orderly (hsingle : sys.SingleEntries) (hallowed : NetTraffic owner event) :
    sys.Participates owner event ∧ sys.Honest event ∧ sys.Orderly event := by
  cases event with
  | syscall proc this message type target =>
      obtain ⟨hproc, howner, hhonest, htype⟩ := hallowed
      apply IpcSystem.syscall_orderly hproc howner hhonest
      intro hreceives
      exact .inl (htype.resolve_left fun hsend => hreceives hsend.1).2
  | resume proc =>
      exact ⟨trivial, trivial, fun this target hcont => absurd hcont (hsingle proc this target)⟩
  | interrupt this message dest =>
      obtain ⟨howner, hsource, -⟩ := hallowed
      exact ⟨⟨howner.trans hsource.symm, .inr hsource⟩, trivial, .inl hsource⟩
  | check => exact hallowed.elim
  | finish => exact hallowed.elim

theorem Notified.setCont (hnotified : Notified sys) (cont : Continuation)
    (hcont : ∀ this, cont ≠ .receiving this) : Notified (sys.setCont proc cont) where
  diskless := hnotified.diskless
  plain := hnotified.plain
  woken this hreceiving := by
    change Function.update sys.cont proc cont netPcb = .receiving this at hreceiving
    rw [Function.update_apply] at hreceiving
    split at hreceiving
    next => exact absurd hreceiving (hcont this)
    next => exact hnotified.woken this hreceiving
  counted := hnotified.counted

/-- A network interrupt that finds the network process busy is counted. -/
theorem interrupt_notified (hsound : sys.Sound owner) (hnotified : Notified sys)
    (howner : owner this = interruptNetPcb) {message : Message}
    (hsource : message.source = interruptNetPcb) (hbusy : ¬ sys.ipc.WaitsForAny netPcb)
    (hroom : sys.ipc.intrCnt netPcb ≠ 255) :
    Notified ({ sys with ipc := sys.ipc.setMessage this message }.doSend interruptNetPcb this
      netPcb).1 := by
  have hobject : ∀ object, owner object = netPcb →
      Function.update sys.ipc.msgs this message object = sys.ipc.msgs object := by
    intro object hobject
    apply Function.update_of_ne
    rintro rfl
    exact absurd (hobject.symm.trans howner) (by decide)
  have hstill : ¬ (sys.ipc.setMessage this message).WaitsForAny netPcb := by
    rintro ⟨hwaiting, hany⟩
    refine hbusy ⟨hwaiting, ?_⟩
    rwa [Ipc.setMessage_msgs, Ipc.setMessage_message, hobject _ (hsound.held.waiting netPcb hwaiting)] at hany
  have hnet : ((sys.ipc.setMessage this message).msgs this).source = interruptNetPcb := by
    simpa using hsource
  have hmore : (sys.ipc.intrCnt netPcb + 1).toNat = (sys.ipc.intrCnt netPcb).toNat + 1 := by
    have hne : (sys.ipc.intrCnt netPcb).toNat ≠ 255 := fun h => hroom (UInt8.toNat_inj.mp h)
    have hlt := (sys.ipc.intrCnt netPcb).toNat_lt
    rw [UInt8.toNat_add, Nat.mod_eq_of_lt]
    · rfl
    · change _ + 1 < 256
      omega
  rcases (sys.ipc.setMessage this message).send_cases interruptNetPcb this netPcb with
    ⟨-, -, heq⟩ | ⟨-, hwaits, -⟩ | ⟨hother, -, -⟩ | ⟨hdisk, -, -⟩ | ⟨hother, -, -, -⟩
  · rw [IpcSystem.doSend, heq]
    constructor
    case diskless =>
      have hne : interruptPcb ≠ interruptNetPcb := by decide
      simpa [IpcSystem.recordSend, hne] using hnotified.diskless
    case plain =>
      intro sender hsending
      have hprocess : sender ≠ interruptNetPcb := by
        obtain ⟨queue, haccounted⟩ := hsound.accounted
        exact (haccounted.queues.sender_process sender hsending).2.2
      simpa [IpcSystem.recordSend, hprocess] using hnotified.plain sender hsending
    case woken =>
      intro object hreceiving
      obtain ⟨-, hobjectOwner, -⟩ := hsound.entered netPcb object
        (by rw [show sys.cont netPcb = _ from hreceiving]; rfl)
      simpa [IpcSystem.recordSend, hobject object hobjectOwner] using
        hnotified.woken object hreceiving
    case counted =>
      have hcounted := hnotified.counted
      simp only [IpcSystem.recordSend, Ipc.setIntrCnt_intrCnt, Ipc.setMessage_intrCnt,
        Function.update_self, hmore]
      change intrReturns sys + _ = _
      omega
  · exact absurd hwaits hstill
  · exact absurd hnet hother
  · exact absurd (hnet.symm.trans hdisk) (by decide)
  · exact absurd hnet hother

/-- The network process, or another process, returns from a receive in which it
had to wait. -/
theorem return_notified (hnotified : Notified sys) (hrunnable : (sys.ipc.status proc).Runnable)
    (hcont : sys.cont proc = .receiving this) :
    Notified { sys with
      cont := Function.update sys.cont proc .user
      returned := sys.returned ++ [(proc, sys.ipc.msgs this)] } where
  diskless := hnotified.diskless
  plain := hnotified.plain
  woken := by
    have hcontinued : Notified (sys.setCont proc .user) := hnotified.setCont .user (by simp)
    exact hcontinued.woken
  counted := by
    rw [intrReturns_append _ rfl, if_neg, Nat.add_zero]
    · exact hnotified.counted
    · rintro ⟨rfl, htype⟩
      rcases hnotified.woken this hcont with hwaiting | hother
      · exact hrunnable.ne_waiting hwaiting.1
      · exact hother htype

theorem step_notified (hsound : sys.Sound owner) (hsingle : sys.SingleEntries)
    (hnotified : Notified sys) (hallowed : NetTraffic owner event) (hbusy : NotifiedBusy sys event)
    (hstep : sys.step fuel event = some next) : Notified next := by
  cases IpcSystem.step_cases hstep with
  | @entered proc this target message type _ hruns hentry =>
      obtain ⟨hproc, howner, hhonest, htype⟩ := hallowed
      rw [IpcSystem.enter_eq, IpcSystem.sourceOf_eq hhonest] at hentry
      have hcont : (sys.cont proc).object = none := by rw [hruns.2]; rfl
      have hentered := hsound.write hcont hruns.1.ne_sending howner { message with source := proc }
      have hwritten : Notified { sys with
          ipc := sys.ipc.setMessage this { message with source := proc } } := by
        refine ⟨hnotified.diskless, hnotified.plain, fun object hreceiving => ?_,
          hnotified.counted⟩
        have hne : object ≠ this := by
          rintro rfl
          obtain ⟨-, hobject, -⟩ := hsound.entered netPcb object
            (by rw [show sys.cont netPcb = _ from hreceiving]; rfl)
          rw [howner] at hobject
          subst hobject
          cases hruns.2.symm.trans hreceiving
        simpa [hne] using hnotified.woken object hreceiving
      rcases htype with ⟨rfl, hplain⟩ | ⟨rfl, rfl⟩
      · have hsent : Notified (IpcSystem.doSend _ proc this target).1 :=
          doSend_notified hentered hwritten hproc (fun heq => heq ▸ hruns.2) (by simp)
            (by simpa using hplain)
        cases hentry
        split
        · exact hsent.setCont .sending (by simp)
        · exact hsent
      · by_cases hself : proc = netPcb
        · subst hself
          exact net_receive_notified hentered hwritten (by simp) hentry
        · exact doReceive_notified hentered hwritten hself howner (by simp) hentry
  | sent => exact hnotified.setCont .user (by simp)
  | @sentFirst proc this target _ _ hcont => exact absurd hcont (hsingle proc this target)
  | received hrunnable hcont => exact return_notified hnotified hrunnable hcont
  | interrupted =>
      obtain ⟨howner, hsource, rfl⟩ := hallowed
      rw [hsource]
      exact interrupt_notified hsound hnotified howner hsource hbusy.1 hbusy.2
  | checked => exact hallowed.elim
  | finished => exact hallowed.elim

end

/-! ## The ring of packets -/

/-- The processes and the ring of packets. `buffered` counts the packets that were
stored and `fetched` the calls of `get_first_used_buffer`. -/
structure NetSystem where
  sys : IpcSystem
  ring : IndirectRingBuffer
  buffered : Nat
  fetched : Nat

inductive NetEvent
  /-- `ne2k_handler` stores a packet and sends `message`. -/
  | packet (this : Addr) (message : Message)
  | ipc (event : IpcEvent)
  /-- The main loop handles a message of type `INTR`. -/
  | fetch

namespace NetSystem

def initial (buf : Nat → Nat) : NetSystem where
  sys := .initial
  ring := .initializeRing buf
  buffered := 0
  fetched := 0

def step (fuel : Nat) (net : NetSystem) : NetEvent → Option NetSystem
  | .packet this message =>
      (net.sys.step fuel (.interrupt this message netPcb)).map fun sys =>
        { sys := sys
          ring := net.ring.getFirstFreeBuffer.2
          buffered := net.buffered + if net.ring.isFull then 0 else 1
          fetched := net.fetched }
  | .ipc event => (net.sys.step fuel event).map fun sys => { net with sys := sys }
  | .fetch =>
      if net.fetched < intrReturns net.sys then
        some { net with ring := net.ring.getFirstUsedBuffer.2, fetched := net.fetched + 1 }
      else none

/-- The main loop takes a packet for each `INTR` before it enters the kernel again,
and every network interrupt comes from `ne2k_handler`. -/
def Loops (net : NetSystem) : IpcEvent → Prop
  | .syscall proc .. => proc = netPcb → net.fetched = intrReturns net.sys
  | .interrupt .. => False
  | _ => True

instance (net : NetSystem) : (event : IpcEvent) → Decidable (net.Loops event)
  | .syscall .. => inferInstanceAs (Decidable (_ → _))
  | .interrupt .. => inferInstanceAs (Decidable False)
  | .resume _ | .check .. | .finish _ => inferInstanceAs (Decidable True)

/-- All orders of network interrupts, receives and other messages. -/
def Interleaving (owner : Addr → Addr) (net : NetSystem) : NetEvent → Prop
  | .packet this message => NetTraffic owner (.interrupt this message netPcb)
  | .ipc event => NetTraffic owner event ∧ net.Loops event
  | .fetch => True

instance (owner : Addr → Addr) (net : NetSystem) (event : NetEvent) :
    Decidable (net.Interleaving owner event) := by
  cases event <;> unfold Interleaving <;> infer_instance

/-- Every notification finds the network process busy and room in the counter. -/
def FindsBusy (net : NetSystem) : NetEvent → Prop
  | .packet this message => NotifiedBusy net.sys (.interrupt this message netPcb)
  | _ => True

instance (net : NetSystem) (event : NetEvent) : Decidable (net.FindsBusy event) := by
  cases event <;> unfold FindsBusy <;> infer_instance

/-- Each notification is returned once or still counted; and if one packet was
stored for each of them, the main loop finds one whenever it looks for one. -/
def ExactlyOnce (net : NetSystem) : Prop :=
  intrReturns net.sys + (net.sys.ipc.intrCnt netPcb).toNat = net.sys.sends interruptNetPcb ∧
  (net.buffered = net.sys.sends interruptNetPcb → net.fetched < intrReturns net.sys →
    net.ring.isEmpty = false)

/-- What holds between two events. -/
structure Steady (owner : Addr → Addr) (net : NetSystem) : Prop where
  sound : net.sys.Sound owner
  single : net.sys.SingleEntries
  notified : Notified net.sys
  wellFormed : net.ring.WellFormed
  stored : ∃ taken ≤ net.fetched, net.ring.used + taken = net.buffered

variable {owner : Addr → Addr} {net next : NetSystem} {fuel : Nat}

theorem ipc_steady {event : IpcEvent} (hsteady : net.Steady owner)
    (hallowed : NetTraffic owner event) (hbusy : NotifiedBusy net.sys event) {sys : IpcSystem}
    (hstep : net.sys.step fuel event = some sys) :
    sys.Sound owner ∧ sys.SingleEntries ∧ Notified sys := by
  obtain ⟨hparticipates, hhonest, horderly⟩ := hallowed.orderly hsteady.single
  have htype : ∀ proc this message target,
      event ≠ .syscall proc this message .sendRecv target := by
    rintro proc this message target rfl
    simp [NetTraffic] at hallowed
  exact ⟨IpcSystem.step_sound hsteady.sound hparticipates hhonest horderly hstep,
    IpcSystem.step_singleEntries hsteady.single htype hstep,
    step_notified hsteady.sound hsteady.single hsteady.notified hallowed hbusy hstep⟩

theorem step_steady {event : NetEvent} (hsteady : net.Steady owner)
    (hallowed : net.Interleaving owner event) (hbusy : net.FindsBusy event)
    (hstep : net.step fuel event = some next) : next.Steady owner := by
  obtain ⟨taken, hle, hstored⟩ := hsteady.stored
  cases event with
  | packet this message =>
      rw [step] at hstep
      obtain ⟨sys, hsys, rfl⟩ := Option.map_eq_some_iff.mp hstep
      have htraffic : NetTraffic owner (.interrupt this message netPcb) := hallowed
      obtain ⟨hsound, hsingle, hnotified⟩ := ipc_steady hsteady htraffic hbusy hsys
      refine ⟨hsound, hsingle, hnotified,
        IndirectRingBuffer.getFirstFreeBuffer_wellFormed hsteady.wellFormed, taken, hle, ?_⟩
      have hused := IndirectRingBuffer.used_getFirstFreeBuffer hsteady.wellFormed
      dsimp only
      omega
  | ipc event =>
      rw [step] at hstep
      obtain ⟨sys, hsys, rfl⟩ := Option.map_eq_some_iff.mp hstep
      have hquiet : NotifiedBusy net.sys event := by
        cases event with
        | interrupt => exact hallowed.2.elim
        | _ => trivial
      obtain ⟨hsound, hsingle, hnotified⟩ := ipc_steady hsteady hallowed.1 hquiet hsys
      exact ⟨hsound, hsingle, hnotified, hsteady.wellFormed, taken, hle, hstored⟩
  | fetch =>
      rw [step] at hstep
      split at hstep
      next =>
        cases hstep
        have hused := IndirectRingBuffer.used_getFirstUsedBuffer hsteady.wellFormed
        refine ⟨hsteady.sound, hsteady.single, hsteady.notified,
          IndirectRingBuffer.getFirstUsedBuffer_wellFormed hsteady.wellFormed,
          taken + (if net.ring.isEmpty then 0 else 1), ?_, ?_⟩
        · dsimp only
          split <;> omega
        · dsimp only
          omega
      next => cases hstep

theorem initial_steady (owner : Addr → Addr) (buf : Nat → Nat) : (initial buf).Steady owner where
  sound := IpcSystem.initial_sound owner
  single _ _ _ := Continuation.noConfusion
  notified := ⟨rfl, fun _ h => (by cases h), fun _ h => (by cases h), rfl⟩
  wellFormed := IndirectRingBuffer.initializeRing_wellFormed buf
  stored := ⟨0, Nat.le_refl 0, by simp [initial, IndirectRingBuffer.used,
    IndirectRingBuffer.initializeRing]⟩

theorem Steady.exactlyOnce (hsteady : net.Steady owner) : net.ExactlyOnce := by
  refine ⟨hsteady.notified.counted, fun hbuffered hpending => ?_⟩
  obtain ⟨taken, hle, hstored⟩ := hsteady.stored
  have hcounted := hsteady.notified.counted
  rw [Bool.eq_false_iff]
  intro hempty
  have hzero := (IndirectRingBuffer.isEmpty_iff hsteady.wellFormed).mp hempty
  omega

/-- If every notification finds the network process busy, and the counter below
its maximum, then each is delivered exactly once. -/
theorem notifications_exactly_once (owner : Addr → Addr) (fuel : Nat) (buf : Nat → Nat)
    (events : List NetEvent) (net : NetSystem)
    (hrun : Run (step fuel) (fun net event => net.Interleaving owner event ∧ net.FindsBusy event)
      (initial buf) events net) : net.ExactlyOnce := by
  have hsteady : net.Steady owner := by
    apply hrun.invariant (Steady owner)
    · exact initial_steady owner buf
    · intro before event after hbefore hadmits hstep
      exact step_steady hbefore hadmits.1 hadmits.2 hstep
  exact hsteady.exactlyOnce

/-- The objects of the network interrupt and of the network process. -/
def netOwner (object : Addr) : Addr :=
  if object = 0x9f000 then interruptNetPcb else netPcb

/-- Two packets arrive before the network process asks for them. -/
theorem notifications_exactly_once_when_busy :
    ∃ net : NetSystem, Run (step 0)
        (fun net event => net.Interleaving netOwner event ∧ net.FindsBusy event)
        (initial fun idx => 0x80000 + idx)
        [.packet 0x9f000 ⟨interruptNetPcb, 0, 1, default⟩,
          .packet 0x9f000 ⟨interruptNetPcb, 0, 1, default⟩,
          .ipc (.syscall netPcb 0x5f000 default .recv anyProcess), .fetch,
          .ipc (.syscall netPcb 0x5f000 default .recv anyProcess)] net ∧
      net.ExactlyOnce ∧ intrReturns net.sys = 2 ∧ net.ring.isEmpty = false := by
  have hrun := Run.of_exec (step 0)
    (fun net event => net.Interleaving netOwner event ∧ net.FindsBusy event)
    (initial fun idx => 0x80000 + idx)
    [.packet 0x9f000 ⟨interruptNetPcb, 0, 1, default⟩,
      .packet 0x9f000 ⟨interruptNetPcb, 0, 1, default⟩,
      .ipc (.syscall netPcb 0x5f000 default .recv anyProcess), .fetch,
      .ipc (.syscall netPcb 0x5f000 default .recv anyProcess)] rfl
  exact ⟨_, hrun, notifications_exactly_once _ _ _ _ _ hrun, rfl, rfl⟩

/-- A packet wakes the waiting network process and is counted as well: it is
returned twice, the second time with an empty ring. -/
theorem wakeup_notified_twice :
    ¬ ∀ (owner : Addr → Addr) (fuel : Nat) (buf : Nat → Nat) (events : List NetEvent)
      (net : NetSystem), Run (step fuel) (Interleaving owner) (initial buf) events net →
      net.ExactlyOnce := by
  intro honce
  have hrun := Run.of_exec (step 0) (Interleaving netOwner) (initial fun idx => 0x80000 + idx)
    [.ipc (.syscall netPcb 0x5f000 default .recv anyProcess),
      .packet 0x9f000 ⟨interruptNetPcb, 0, 1, default⟩, .ipc (.resume netPcb), .fetch,
      .ipc (.syscall netPcb 0x5f000 default .recv anyProcess)] rfl
  exact absurd ((honce _ _ _ _ _ hrun).2 rfl (by decide)) (by decide)

end NetSystem

end Shmily.Net
