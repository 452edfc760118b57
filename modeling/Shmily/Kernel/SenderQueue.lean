import Shmily.Kernel.IpcSystem

/-! # The queues of blocked senders

The PCBs that wait to deliver a message to a process hang on its `sendings`
field, linked through `next_ready`. A sender is on exactly one such queue as long
as it is blocked, and the interrupt PCB on at most one.
-/

namespace Shmily.Kernel

open Foundation

/-- The address of the PCB of a process: not null and not an interrupt PCB. -/
def IsProcess (proc : Addr) : Prop :=
  proc ≠ anyProcess ∧ proc ≠ interruptPcb ∧ proc ≠ interruptNetPcb

instance (proc : Addr) : Decidable (IsProcess proc) :=
  inferInstanceAs (Decidable (_ ∧ _))

namespace Ipc

/-- `queue` lists the senders of each destination; a process that is blocked in
a send to `dest` has `target` equal to `dest`. -/
structure Queues (ipc : Ipc) (target : Addr → Addr) (queue : Addr → List Addr) : Prop where
  chain : ∀ dest, NullChain ipc.nextReady (ipc.sendings dest) (queue dest)
  mem_iff : ∀ dest proc, proc ≠ interruptPcb →
    (proc ∈ queue dest ↔ ipc.status proc = .sendingMsg ∧ target proc = dest)
  interrupt_unique : ∀ dest other, interruptPcb ∈ queue dest → interruptPcb ∈ queue other →
    dest = other
  sender_process : ∀ proc, ipc.status proc = .sendingMsg → IsProcess proc

namespace Queues

variable {ipc next : Ipc} {target : Addr → Addr} {queue : Addr → List Addr}

theorem unique (hqueues : ipc.Queues target queue) {proc dest other : Addr}
    (hdest : proc ∈ queue dest) (hother : proc ∈ queue other) : dest = other := by
  by_cases hproc : proc = interruptPcb
  · subst hproc
    exact hqueues.interrupt_unique dest other hdest hother
  · have htarget := ((hqueues.mem_iff dest proc hproc).mp hdest).2
    exact htarget.symm.trans ((hqueues.mem_iff other proc hproc).mp hother).2

theorem notMem_of_runnable (hqueues : ipc.Queues target queue) {proc : Addr}
    (hproc : IsProcess proc) (hstatus : ipc.status proc ≠ .sendingMsg) (dest : Addr) :
    proc ∉ queue dest :=
  fun hmem => hstatus ((hqueues.mem_iff dest proc hproc.2.1).mp hmem).1

theorem ne_net (hqueues : ipc.Queues target queue) {proc dest : Addr} (hmem : proc ∈ queue dest) :
    proc ≠ interruptNetPcb := by
  by_cases hproc : proc = interruptPcb
  · rw [hproc]
    decide
  · exact (hqueues.sender_process proc ((hqueues.mem_iff dest proc hproc).mp hmem).1).2.2

/-- The queues depend on the links, on which processes are blocked in a send,
and on where these processes send. -/
theorem congr {goal : Addr → Addr} (hqueues : ipc.Queues target queue)
    (hnext : next.nextReady = ipc.nextReady) (hsendings : next.sendings = ipc.sendings)
    (hstatus : ∀ proc, next.status proc = .sendingMsg ↔ ipc.status proc = .sendingMsg)
    (hgoal : ∀ proc, ipc.status proc = .sendingMsg → goal proc = target proc) :
    next.Queues goal queue where
  chain dest := by
    rw [hnext, hsendings]
    exact hqueues.chain dest
  mem_iff dest proc hproc := by
    rw [hqueues.mem_iff dest proc hproc, hstatus proc]
    apply and_congr_right
    intro hsending
    rw [hgoal proc hsending]
  interrupt_unique := hqueues.interrupt_unique
  sender_process proc hsending := hqueues.sender_process proc ((hstatus proc).mp hsending)

/-- Changing the status of a process that is not blocked in a send to another
such status. -/
theorem update_status (hqueues : ipc.Queues target queue) {proc : Addr} {status : ProcessStatus}
    (hbefore : ipc.status proc ≠ .sendingMsg) (hafter : status ≠ .sendingMsg) :
    (ipc.selfBlock proc status).Queues target queue := by
  refine hqueues.congr rfl rfl (fun other => ?_) (fun _ _ => rfl)
  rw [selfBlock_status, Function.update_apply]
  split
  next heq => exact iff_of_false hafter (heq ▸ hbefore)
  next => exact Iff.rfl

/-- The chains after `sender`, which was on no queue, has been put in front of
the queue of `dest`. -/
theorem link_chain (hqueues : ipc.Queues target queue) {sender : Addr} (dest : Addr)
    (hnot : ∀ other, sender ∉ queue other) (hne : sender ≠ 0) (other : Addr) :
    NullChain (ipc.linkSender sender dest).nextReady ((ipc.linkSender sender dest).sendings other)
      (Function.update queue dest (sender :: queue dest) other) := by
  rw [linkSender_nextReady, linkSender_sendings, Function.update_apply, Function.update_apply]
  split
  next => exact (hqueues.chain dest).push (hnot dest) hne
  next => exact (hqueues.chain other).update_of_notMem (hnot other)

/-- A process blocks in a send to `dest`. -/
theorem block (hqueues : ipc.Queues target queue) {sender : Addr} (dest : Addr)
    (hsender : IsProcess sender) (hstatus : ipc.status sender ≠ .sendingMsg) :
    ((ipc.linkSender sender dest).selfBlock sender .sendingMsg).Queues
      (Function.update target sender dest)
      (Function.update queue dest (sender :: queue dest)) where
  chain := hqueues.link_chain dest (hqueues.notMem_of_runnable hsender hstatus) hsender.1
  mem_iff other proc hproc := by
    rw [selfBlock_status, Function.update_apply, Function.update_apply, Function.update_apply]
    have hmem := hqueues.mem_iff other proc hproc
    have hnot := hqueues.notMem_of_runnable hsender hstatus other
    by_cases heq : proc = sender
    · subst heq
      by_cases hother : other = dest
      · simp [hother]
      · simp [hother, hnot, Ne.symm hother]
    · by_cases hother : other = dest
      · subst hother
        simp [heq, hmem]
      · simp [hother, heq, hmem]
  interrupt_unique first second := by
    have hintr : interruptPcb ≠ sender := Ne.symm hsender.2.1
    have hmem : ∀ other, interruptPcb ∈ Function.update queue dest (sender :: queue dest) other →
        interruptPcb ∈ queue other := by
      intro other hother
      rw [Function.update_apply] at hother
      split at hother
      next heq => exact heq ▸ List.mem_of_ne_of_mem hintr hother
      next => exact hother
    exact fun hfirst hsecond =>
      hqueues.interrupt_unique first second (hmem first hfirst) (hmem second hsecond)
  sender_process proc hsending := by
    rw [selfBlock_status, Function.update_apply] at hsending
    split at hsending
    next heq => exact heq ▸ hsender
    next => exact hqueues.sender_process proc hsending

/-- The interrupt PCB, which is on no queue, is put on the queue of `dest`. -/
theorem linkInterrupt (hqueues : ipc.Queues target queue) (dest : Addr)
    (hnot : ∀ other, interruptPcb ∉ queue other) :
    (ipc.linkSender interruptPcb dest).Queues target
      (Function.update queue dest (interruptPcb :: queue dest)) where
  chain := hqueues.link_chain dest hnot (by decide)
  mem_iff other proc hproc := by
    rw [linkSender_status, ← hqueues.mem_iff other proc hproc, Function.update_apply]
    split
    next heq => simp [heq, hproc]
    next => exact Iff.rfl
  interrupt_unique := by
    have honly : ∀ other, interruptPcb ∈
        Function.update queue dest (interruptPcb :: queue dest) other → other = dest := by
      intro other hother
      rw [Function.update_apply] at hother
      split at hother
      next heq => exact heq
      next => exact absurd hother (hnot other)
    exact fun first second hfirst hsecond => (honly first hfirst).trans (honly second hsecond).symm
  sender_process := hqueues.sender_process

/-- The first sender has been taken off the queue of `src`. -/
theorem takeFirst (hqueues : ipc.Queues target queue) {src prev : Addr} {rest : List Addr}
    (this : Addr) (hsrc : queue src = prev :: rest) :
    (ipc.takeFirst this src prev).Queues target (Function.update queue src rest) := by
  have hchain := hqueues.chain src
  rw [hsrc] at hchain
  have hhead : ipc.sendings src = prev := hchain.1
  have hlink : ipc.nextReady prev ≠ prev := hchain.next_ne
  have hfresh : prev ∉ rest := (List.nodup_cons.mp hchain.nodup).1
  have hmem : ∀ dest proc, proc ∈ Function.update queue src rest dest ↔
      proc ∈ queue dest ∧ proc ≠ prev := by
    intro dest proc
    rw [Function.update_apply]
    split
    next heq =>
      subst heq
      rw [hsrc, List.mem_cons, or_and_right, and_not_self_iff, false_or]
      exact ⟨fun hproc => ⟨hproc, fun heq => hfresh (heq ▸ hproc)⟩, And.left⟩
    next hne =>
      refine ⟨fun hproc => ⟨hproc, fun heq => hne ?_⟩, And.left⟩
      exact hqueues.unique (heq ▸ hproc) (hsrc ▸ List.mem_cons_self)
  have hstatus : ∀ proc, (ipc.takeFirst this src prev).status proc = .sendingMsg ↔
      ipc.status proc = .sendingMsg ∧ proc ≠ prev :=
    ipc.takeFirst_sending_iff this src prev
  have hnext : (ipc.takeFirst this src prev).nextReady = ipc.nextReady := by
    simp [Ipc.takeFirst]
  have hsendings : (ipc.takeFirst this src prev).sendings =
      Function.update ipc.sendings src (ipc.nextReady prev) := by
    simp [Ipc.takeFirst, hhead, hlink]
  constructor
  case chain =>
    intro dest
    rw [hnext, hsendings, Function.update_apply, Function.update_apply]
    split
    next => exact hchain.2.2
    next => exact hqueues.chain dest
  case mem_iff =>
    intro dest proc hproc
    rw [hmem, hqueues.mem_iff dest proc hproc, hstatus proc, and_right_comm]
  case interrupt_unique =>
    intro dest other hdest hother
    exact hqueues.interrupt_unique dest other ((hmem dest _).mp hdest).1 ((hmem other _).mp hother).1
  case sender_process =>
    intro proc hsending
    exact hqueues.sender_process proc ((hstatus proc).mp hsending).1

end Queues

/-! ## The traversal -/

section

variable {nextReady : Addr → Addr} {want prev before : Addr} {nodes : List Addr} {fuel : Nat}

/-- What the traversal finds is on the queue. -/
theorem traverse_mem (hchain : NullChain nextReady prev nodes) (hwant : want ≠ 0)
    (htraverse : traverse nextReady want fuel prev = some (some before)) : want ∈ nodes := by
  induction fuel generalizing prev nodes with
  | zero => cases htraverse
  | succ fuel ih =>
      unfold traverse at htraverse
      split at htraverse
      next => cases htraverse
      next hne =>
        obtain ⟨rest, rfl⟩ := hchain.exists_cons hne
        have hrest := hchain.2.2
        split at htraverse
        next hfound =>
          rw [← hfound] at hrest
          obtain ⟨tail, rfl⟩ := hrest.exists_cons hwant
          simp
        next => exact List.mem_cons_of_mem _ (ih hrest htraverse)

/-- The traversal of a well-formed queue ends after one step for each sender. -/
theorem traverse_terminates (hchain : NullChain nextReady prev nodes)
    (hfuel : nodes.length < fuel) : traverse nextReady want fuel prev ≠ none := by
  induction fuel generalizing prev nodes with
  | zero => cases hfuel
  | succ fuel ih =>
      unfold traverse
      split
      next => exact Option.some_ne_none _
      next hne =>
        obtain ⟨rest, rfl⟩ := hchain.exists_cons hne
        split
        next => exact Option.some_ne_none _
        next =>
          apply ih hchain.2.2
          rw [List.length_cons] at hfuel
          omega

end

/-- A receive from `want` on the queue of `src` either takes the first queued
message or none. -/
def TakesFirst (ipc : Ipc) (src want : Addr) : Prop :=
  want = anyProcess ∨ want = ipc.sendings src ∨
    ∀ nodes, NullChain ipc.nextReady (ipc.sendings src) nodes → want ∉ nodes

end Ipc

namespace IpcSystem

/-- How many messages of `proc` have reached a receiver. -/
def delivered (sys : IpcSystem) (proc : Addr) : Nat :=
  (sys.deliveries.map Delivery.sender).count proc

/-- The queues are well formed, and every message that was sent has been
delivered exactly once or is still queued. Network notifications are counted in
another way. -/
structure Accounted (sys : IpcSystem) (queue : Addr → List Addr) : Prop where
  queues : sys.ipc.Queues sys.target queue
  pending : ∀ proc dest, proc ∈ queue dest → sys.sends proc = sys.delivered proc + 1
  settled : ∀ proc, proc ≠ interruptNetPcb → (∀ dest, proc ∉ queue dest) →
    sys.sends proc = sys.delivered proc

namespace Accounted

variable {sys next : IpcSystem} {queue : Addr → List Addr} {sender : Addr}

theorem congr (haccounted : sys.Accounted queue) (hqueues : next.ipc.Queues next.target queue)
    (hsends : ∀ proc, proc ≠ interruptNetPcb → next.sends proc = sys.sends proc)
    (hdeliveries : next.deliveries = sys.deliveries) : next.Accounted queue where
  queues := hqueues
  pending proc dest hmem := by
    rw [hsends proc (haccounted.queues.ne_net hmem), delivered, hdeliveries]
    exact haccounted.pending proc dest hmem
  settled proc hproc hnot := by
    rw [hsends proc hproc, delivered, hdeliveries]
    exact haccounted.settled proc hproc hnot

/-- A message of `sender` has been delivered at once. -/
theorem deliver (haccounted : sys.Accounted queue) (hqueues : next.ipc.Queues next.target queue)
    (hfree : ∀ dest, sender ∉ queue dest)
    (hsends : next.sends = Function.update sys.sends sender (sys.sends sender + 1))
    (hdeliveries : next.deliveries.map Delivery.sender =
      sys.deliveries.map Delivery.sender ++ [sender]) :
    next.Accounted queue where
  queues := hqueues
  pending proc dest hmem := by
    have hne : proc ≠ sender := fun heq => hfree dest (heq ▸ hmem)
    have hcount := haccounted.pending proc dest hmem
    rw [delivered] at hcount
    simp [delivered, hsends, hdeliveries, hne, Ne.symm hne, hcount]
  settled proc hproc hnot := by
    have hcount := haccounted.settled proc hproc hnot
    rw [delivered] at hcount
    by_cases heq : proc = sender
    · subst heq
      simp [delivered, hsends, hdeliveries, hcount]
    · simp [delivered, hsends, hdeliveries, heq, Ne.symm heq, hcount]

/-- A message of `sender` has been queued. -/
theorem link (haccounted : sys.Accounted queue) {dest : Addr}
    (hqueues : next.ipc.Queues next.target (Function.update queue dest (sender :: queue dest)))
    (hne : sender ≠ interruptNetPcb) (hfree : ∀ dest, sender ∉ queue dest)
    (hsends : next.sends = Function.update sys.sends sender (sys.sends sender + 1))
    (hdeliveries : next.deliveries = sys.deliveries) :
    next.Accounted (Function.update queue dest (sender :: queue dest)) where
  queues := hqueues
  pending proc other hmem := by
    rw [delivered, hdeliveries, hsends, Function.update_apply]
    rw [Function.update_apply] at hmem
    split
    next heq =>
      rw [haccounted.settled sender hne hfree, heq]
      rfl
    next heq =>
      split at hmem
      next => exact haccounted.pending proc dest (List.mem_of_ne_of_mem heq hmem)
      next => exact haccounted.pending proc other hmem
  settled proc hproc hnot := by
    have hsender : proc ≠ sender := by
      intro heq
      apply hnot dest
      rw [Function.update_self, heq]
      exact List.mem_cons_self
    rw [delivered, hdeliveries, hsends, Function.update_of_ne hsender]
    apply haccounted.settled proc hproc
    intro other hmem
    apply hnot other
    rw [Function.update_apply]
    split
    next heq => exact List.mem_cons_of_mem _ (heq ▸ hmem)
    next => exact hmem

/-- The message of the first sender on the queue of `src` has been taken. -/
theorem take (haccounted : sys.Accounted queue) {src prev : Addr} {rest : List Addr}
    (hqueues : next.ipc.Queues next.target (Function.update queue src rest))
    (hsrc : queue src = prev :: rest) (hsends : next.sends = sys.sends)
    (hdeliveries : next.deliveries.map Delivery.sender =
      sys.deliveries.map Delivery.sender ++ [prev]) :
    next.Accounted (Function.update queue src rest) where
  queues := hqueues
  pending proc dest hmem := by
    have hchain := haccounted.queues.chain src
    rw [hsrc] at hchain
    have hold : proc ∈ queue dest ∧ proc ≠ prev := by
      rw [Function.update_apply] at hmem
      split at hmem
      next heq =>
        subst heq
        rw [hsrc]
        refine ⟨List.mem_cons_of_mem _ hmem, fun heq => ?_⟩
        exact (List.nodup_cons.mp hchain.nodup).1 (heq ▸ hmem)
      next hne =>
        refine ⟨hmem, fun heq => hne ?_⟩
        exact haccounted.queues.unique (heq ▸ hmem) (hsrc ▸ List.mem_cons_self)
    have hcount := haccounted.pending proc dest hold.1
    rw [delivered] at hcount
    simp [delivered, hsends, hdeliveries, hcount, Ne.symm hold.2]
  settled proc hproc hnot := by
    by_cases heq : proc = prev
    · subst heq
      have hcount := haccounted.pending proc src (hsrc ▸ List.mem_cons_self)
      rw [delivered] at hcount
      simp [delivered, hsends, hdeliveries, hcount]
    · have hcount := haccounted.settled proc hproc (fun dest hmem => hnot dest ?_)
      · rw [delivered] at hcount
        simp [delivered, hsends, hdeliveries, hcount, Ne.symm heq]
      · rw [Function.update_apply]
        split
        next hdest =>
          rw [hdest, hsrc] at hmem
          exact List.mem_of_ne_of_mem heq hmem
        next => exact hmem

end Accounted

/-- The kernel may be asked to send the object at `this` in the name of `sender`:
by a process that does not pretend to be an interrupt, or by one of the
interrupt handlers, of which the disk's must not be queued already. -/
inductive MaySend (sys : IpcSystem) (queue : Addr → List Addr) (sender this : Addr) : Prop
  | process (hsender : IsProcess sender) (hstatus : sys.ipc.status sender ≠ .sendingMsg)
      (hdisk : (sys.ipc.msgs this).source ≠ interruptPcb)
      (hnet : (sys.ipc.msgs this).source ≠ interruptNetPcb)
  | disk (hsender : sender = interruptPcb) (hdisk : (sys.ipc.msgs this).source = interruptPcb)
      (hfree : ∀ dest, interruptPcb ∉ queue dest)
  | net (hsender : sender = interruptNetPcb)
      (hnet : (sys.ipc.msgs this).source = interruptNetPcb)

section

variable {sys next : IpcSystem} {queue : Addr → List Addr} {sender this dest : Addr}

theorem MaySend.free (hmay : sys.MaySend queue sender this)
    (hqueues : sys.ipc.Queues sys.target queue) (dest : Addr) : sender ∉ queue dest := by
  cases hmay with
  | process hsender hstatus => exact hqueues.notMem_of_runnable hsender hstatus dest
  | disk hsender _ hfree => exact hsender ▸ hfree dest
  | net hsender _ => exact fun hmem => hqueues.ne_net hmem hsender

theorem MaySend.status_ne (hmay : sys.MaySend queue sender this)
    (hqueues : sys.ipc.Queues sys.target queue) : sys.ipc.status sender ≠ .sendingMsg := by
  cases hmay with
  | process _ hstatus _ _ => exact hstatus
  | disk hsender _ _ => exact fun h => (hqueues.sender_process _ h).2.1 hsender
  | net hsender _ => exact fun h => (hqueues.sender_process _ h).2.2 hsender

theorem MaySend.eq_net (hmay : sys.MaySend queue sender this)
    (hnet : (sys.ipc.msgs this).source = interruptNetPcb) : sender = interruptNetPcb := by
  cases hmay with
  | process _ _ _ hother => exact absurd hnet hother
  | disk _ hdisk _ => exact absurd (hdisk.symm.trans hnet) (by decide)
  | net hsender _ => exact hsender

theorem MaySend.eq_disk (hmay : sys.MaySend queue sender this)
    (hdisk : (sys.ipc.msgs this).source = interruptPcb) : sender = interruptPcb := by
  cases hmay with
  | process _ _ hother _ => exact absurd hdisk hother
  | disk hsender _ _ => exact hsender
  | net _ hnet => exact absurd (hdisk.symm.trans hnet) (by decide)

theorem MaySend.is_process (hmay : sys.MaySend queue sender this)
    (hdisk : (sys.ipc.msgs this).source ≠ interruptPcb)
    (hnet : (sys.ipc.msgs this).source ≠ interruptNetPcb) :
    IsProcess sender ∧ sys.ipc.status sender ≠ .sendingMsg := by
  cases hmay with
  | process hsender hstatus _ _ => exact ⟨hsender, hstatus⟩
  | disk _ hother _ => exact absurd hother hdisk
  | net _ hother => exact absurd hother hnet

theorem doSend_accounted (haccounted : sys.Accounted queue) (hmay : sys.MaySend queue sender this)
    (dest : Addr) : ∃ queue, (sys.doSend sender this dest).1.Accounted queue := by
  have hqueues := haccounted.queues
  have hfree := hmay.free hqueues
  -- the new target does not matter for the processes that are already queued
  have htarget : ∀ proc, sys.ipc.status proc = .sendingMsg →
      Function.update sys.target sender dest proc = sys.target proc := by
    intro proc hsending
    apply Function.update_of_ne
    intro heq
    have hmem := (hqueues.mem_iff (sys.target proc) proc
      (hqueues.sender_process proc hsending).2.1).mpr ⟨hsending, rfl⟩
    exact hfree _ (heq ▸ hmem)
  have hwoken : sys.ipc.status dest = .waitingMsg → ∀ proc,
      Function.update sys.ipc.status dest .ready proc = .sendingMsg ↔
        sys.ipc.status proc = .sendingMsg := by
    intro hwaiting proc
    rw [Function.update_apply]
    split
    next heq => simp [heq, hwaiting]
    next => exact Iff.rfl
  have hcounted : sender = interruptNetPcb → ∀ proc, proc ≠ interruptNetPcb →
      Function.update sys.sends sender (sys.sends sender + 1) proc = sys.sends proc :=
    fun hsender proc hproc => Function.update_of_ne (hsender ▸ hproc) _ _
  rcases sys.ipc.send_cases sender this dest with ⟨hnet, -, heq⟩ | ⟨hnet, hwaits, heq⟩ |
    ⟨-, haccepts, heq⟩ | ⟨hdisk, -, heq⟩ | ⟨hnet, hdisk, -, heq⟩ <;>
    rw [doSend, heq]
  · have hsender : sender = interruptNetPcb := hmay.eq_net hnet
    exact ⟨queue, haccounted.congr (hqueues.congr rfl rfl (fun _ => Iff.rfl) htarget)
      (hcounted hsender) rfl⟩
  · have hsender : sender = interruptNetPcb := hmay.eq_net hnet
    exact ⟨queue, haccounted.congr (hqueues.congr rfl rfl (hwoken hwaits.1) htarget)
      (hcounted hsender) rfl⟩
  · exact ⟨queue, haccounted.deliver
      (hqueues.congr rfl rfl (hwoken haccepts.waiting) htarget) hfree rfl (by simp [recordSend])⟩
  · have hsender : sender = interruptPcb := hmay.eq_disk hdisk
    subst hsender
    have hlinked := hqueues.linkInterrupt dest hfree
    exact ⟨_, haccounted.link (hlinked.congr rfl rfl (fun _ => Iff.rfl) htarget) (by decide)
      hfree rfl rfl⟩
  · obtain ⟨hsender, hstatus⟩ := hmay.is_process hdisk hnet
    have hblocked := hqueues.block dest hsender hstatus
    exact ⟨_, haccounted.link (hblocked.congr rfl rfl (fun _ => Iff.rfl) (fun _ _ => rfl))
      hsender.2.2 hfree rfl rfl⟩

/-- A process that sends and does not block leaves the links alone, and no
process has become blocked in a send. -/
theorem doSend_frame (hdisk : (sys.ipc.msgs this).source ≠ interruptPcb)
    (hblocked : (sys.doSend sender this dest).2 ≠ .blocked) :
    (sys.doSend sender this dest).1.ipc.nextReady = sys.ipc.nextReady ∧
      (sys.doSend sender this dest).1.ipc.sendings = sys.ipc.sendings ∧
      ∀ proc, sys.ipc.status proc ≠ .sendingMsg →
        (sys.doSend sender this dest).1.ipc.status proc ≠ .sendingMsg := by
  have hready : ∀ proc, sys.ipc.status proc ≠ .sendingMsg →
      Function.update sys.ipc.status dest .ready proc ≠ .sendingMsg := by
    intro proc hproc
    rw [Function.update_apply]
    split
    next => simp
    next => exact hproc
  rcases sys.ipc.send_cases sender this dest with ⟨-, -, heq⟩ | ⟨-, -, heq⟩ | ⟨-, -, heq⟩ |
    ⟨hother, -, -⟩ | ⟨-, -, -, heq⟩
  · rw [doSend, heq]
    exact ⟨rfl, rfl, fun _ hproc => hproc⟩
  · rw [doSend, heq]
    exact ⟨rfl, rfl, hready⟩
  · rw [doSend, heq]
    exact ⟨rfl, rfl, hready⟩
  · exact absurd hother hdisk
  · rw [doSend, heq] at hblocked
    exact absurd rfl hblocked

/-- A send makes nobody else send. -/
theorem doSend_sending_of_ne {other : Addr} (hother : other ≠ sender)
    (hsending : (sys.doSend sender this dest).1.ipc.status other = .sendingMsg) :
    sys.ipc.status other = .sendingMsg := by
  have hready : Function.update sys.ipc.status dest .ready other = .sendingMsg →
      sys.ipc.status other = .sendingMsg := by
    intro hupdated
    rw [Function.update_apply] at hupdated
    split at hupdated
    next => cases hupdated
    next => exact hupdated
  rcases sys.ipc.send_cases sender this dest with ⟨-, -, heq⟩ | ⟨-, -, heq⟩ | ⟨-, -, heq⟩ |
    ⟨-, -, heq⟩ | ⟨-, -, -, heq⟩ <;> rw [doSend, heq] at hsending
  · exact hsending
  · exact hready hsending
  · exact hready hsending
  · exact hsending
  · rwa [← Function.update_of_ne hother ProcessStatus.sendingMsg sys.ipc.status]

/-- Only the network interrupt is counted. -/
theorem doSend_intrCnt (hnet : (sys.ipc.msgs this).source ≠ interruptNetPcb) :
    (sys.doSend sender this dest).1.ipc.intrCnt = sys.ipc.intrCnt := by
  rcases sys.ipc.send_cases sender this dest with ⟨hsource, -, -⟩ | ⟨hsource, -, -⟩ |
    ⟨-, -, heq⟩ | ⟨-, -, heq⟩ | ⟨-, -, -, heq⟩
  · exact absurd hsource hnet
  · exact absurd hsource hnet
  · rw [doSend, heq]
    rfl
  · rw [doSend, heq]
    rfl
  · rw [doSend, heq]
    rfl

/-- A process that does not block in its send can go on. -/
theorem doSend_runnable (hrunnable : (sys.ipc.status sender).Runnable)
    (hblocked : (sys.doSend sender this dest).2 ≠ .blocked) :
    ((sys.doSend sender this dest).1.ipc.status sender).Runnable := by
  have hready : (Function.update sys.ipc.status dest .ready sender).Runnable := by
    rw [Function.update_apply]
    split
    next => exact .inl rfl
    next => exact hrunnable
  rcases sys.ipc.send_cases sender this dest with ⟨-, -, heq⟩ | ⟨-, -, heq⟩ | ⟨-, -, heq⟩ |
    ⟨-, -, heq⟩ | ⟨-, -, -, heq⟩ <;> rw [doSend, heq] at hblocked ⊢
  · exact hrunnable
  · exact hready
  · exact hready
  · exact hrunnable
  · exact absurd rfl hblocked

variable {fuel : Nat} {proc want : Addr}

theorem doReceive_accounted (haccounted : sys.Accounted queue)
    (htakes : sys.ipc.TakesFirst (sys.ipc.msgs this).source want)
    (hstatus : sys.ipc.status proc ≠ .sendingMsg)
    (hreceive : sys.doReceive fuel proc this want (sys.queueHead this) = some next) :
    ∃ queue, next.Accounted queue := by
  have hqueues := haccounted.queues
  have hchain := hqueues.chain (sys.ipc.msgs this).source
  rcases doReceive_cases hreceive with _ | _ | ⟨hne, -⟩ | ⟨before, hother, hany, htraverse⟩
  · exact ⟨queue, haccounted.congr (hqueues.congr rfl rfl (fun _ => Iff.rfl) (fun _ _ => rfl))
      (fun _ _ => rfl) rfl⟩
  · have hwaiting := hqueues.update_status hstatus (ProcessStatus.noConfusion : .waitingMsg ≠ _)
    exact ⟨queue, haccounted.congr
      (hwaiting.congr rfl rfl (fun _ => Iff.rfl) (fun _ _ => rfl)) (fun _ _ => rfl) rfl⟩
  · obtain ⟨rest, hsrc⟩ := hchain.exists_cons hne
    exact ⟨_, haccounted.take (hqueues.takeFirst this hsrc) hsrc rfl
      (by simp [recordReceive, queueHead])⟩
  · -- the wanted sender would have to be queued behind another one
    rcases htakes with hwant | hwant | hwant
    · exact absurd hwant hany
    · exact absurd hwant hother
    · exact absurd (Ipc.traverse_mem hchain hany htraverse) (hwant _ hchain)

end

/-- Conditions under which an event keeps the queues well formed: processes do
not pretend to be an interrupt, the disk's PCB is not linked while it is queued,
no receive takes a message from behind another one, and a receive that was
interrupted still finds the head that it has read. -/
def Orderly (sys : IpcSystem) : IpcEvent → Prop
  | .syscall proc _ message type target =>
      IsProcess proc ∧ message.source ≠ interruptPcb ∧ message.source ≠ interruptNetPcb ∧
        (type ≠ .send → sys.ipc.TakesFirst (sourceOf proc message) target)
  | .resume proc => ∀ this target, sys.cont proc = .sendingRecv this target →
      sys.ipc.TakesFirst (sys.ipc.msgs this).source target
  | .interrupt _ message _ =>
      message.source = interruptNetPcb ∨ message.source = interruptPcb ∧
        ∀ other nodes, NullChain sys.ipc.nextReady (sys.ipc.sendings other) nodes →
          interruptPcb ∉ nodes
  | .check .. => True
  | .finish proc => ∀ this want prev, sys.cont proc = .checked this want prev →
      prev = sys.queueHead this ∧ sys.ipc.TakesFirst (sys.ipc.msgs this).source want

section

variable {sys next : IpcSystem} {queue : Addr → List Addr} {fuel : Nat} {proc this target : Addr}
  {message : Message} {type : SyscallType}

/-- Writing an object does not touch the queues. -/
theorem Accounted.setMessage (haccounted : sys.Accounted queue) (this : Addr) (message : Message) :
    { sys with ipc := sys.ipc.setMessage this message }.Accounted queue :=
  haccounted.congr (haccounted.queues.congr rfl rfl (fun _ => Iff.rfl) (fun _ _ => rfl))
    (fun _ _ => rfl) rfl

theorem Accounted.setCont (haccounted : sys.Accounted queue) (proc : Addr) (cont : Continuation) :
    (sys.setCont proc cont).Accounted queue :=
  haccounted.congr haccounted.queues (fun _ _ => rfl) rfl

theorem syscallHandler_accounted (haccounted : sys.Accounted queue) (hproc : IsProcess proc)
    (hstatus : (sys.ipc.status proc).Runnable)
    (hdisk : (sys.ipc.msgs this).source ≠ interruptPcb)
    (hnet : (sys.ipc.msgs this).source ≠ interruptNetPcb)
    (htakes : type ≠ .send → sys.ipc.TakesFirst (sys.ipc.msgs this).source target)
    (hstep : sys.syscallHandler fuel proc this type target = some next) :
    ∃ queue, next.Accounted queue := by
  have hsending : sys.ipc.status proc ≠ .sendingMsg := hstatus.ne_sending
  obtain ⟨queue, hsent⟩ := doSend_accounted haccounted (.process hproc hsending hdisk hnet) target
  cases type with
  | send =>
      cases hstep
      split
      · exact ⟨queue, hsent.setCont proc .sending⟩
      · exact ⟨queue, hsent⟩
  | recv => exact doReceive_accounted haccounted (htakes (by simp)) hsending hstep
  | sendRecv =>
      rw [syscallHandler] at hstep
      split at hstep
      next =>
        cases hstep
        exact ⟨queue, hsent.setCont proc _⟩
      next hblocked =>
        obtain ⟨hlinks, hsendings, hfree⟩ := doSend_frame hdisk hblocked
        apply doReceive_accounted hsent _ (hfree proc hsending) hstep
        rw [doSend_source, Ipc.TakesFirst, hlinks, hsendings]
        exact htakes (by simp)

/-- An orderly event keeps the account of the messages. -/
theorem step_accounted {event : IpcEvent} (haccounted : ∃ queue, sys.Accounted queue)
    (horderly : sys.Orderly event) (hstep : sys.step fuel event = some next) :
    ∃ queue, next.Accounted queue := by
  obtain ⟨queue, haccounted⟩ := haccounted
  cases step_cases hstep with
  | @entered proc this target message type _ hruns hentry =>
      obtain ⟨hproc, hdisk, hnet, htakes⟩ := horderly
      have hsource : ∀ intr, proc ≠ intr → message.source ≠ intr →
          sourceOf proc message ≠ intr := by
        intro intr hproc hmessage
        rw [sourceOf]
        split <;> assumption
      rw [enter_eq] at hentry
      apply syscallHandler_accounted (haccounted.setMessage _ _) hproc hruns.1 _ _ _ hentry
      · simpa using hsource _ hproc.2.1 hdisk
      · simpa using hsource _ hproc.2.2 hnet
      · intro htype
        simpa [Ipc.TakesFirst] using htakes htype
  | @sent proc => exact ⟨queue, haccounted.setCont proc .user⟩
  | @sentFirst proc this target _ hrunnable hcont hreceive =>
      exact doReceive_accounted haccounted (horderly this target hcont)
        hrunnable.ne_sending hreceive
  | received => exact ⟨queue, haccounted.congr haccounted.queues (fun _ _ => rfl) rfl⟩
  | @interrupted this message dest =>
      apply doSend_accounted (haccounted.setMessage this message)
      rcases horderly with hnet | ⟨hdisk, hfree⟩
      · exact .net hnet (by simpa using hnet)
      · exact .disk hdisk (by simpa using hdisk)
          (fun other => hfree other _ (haccounted.queues.chain other))
  | @checked proc =>
      rw [enter_eq]
      exact ⟨queue, (haccounted.setMessage _ _).setCont proc _⟩
  | @finished proc this want prev _ hrunnable hcont hreceive =>
      obtain ⟨hhead, htakes⟩ := horderly this want prev hcont
      rw [hhead] at hreceive
      exact doReceive_accounted haccounted htakes hrunnable.ne_sending hreceive

theorem initial_accounted : initial.Accounted (fun _ => []) where
  queues :=
    { chain := fun _ => NullChain.nil
      mem_iff := fun _ _ _ => by simp [initial]
      interrupt_unique := fun _ _ h => by cases h
      sender_process := fun _ h => by cases h }
  pending _ _ h := by cases h
  settled _ _ _ := rfl

theorem run_accounted {events : List IpcEvent}
    (hrun : Run (step fuel) Orderly initial events sys) : ∃ queue, sys.Accounted queue :=
  hrun.invariant (fun sys => ∃ queue, sys.Accounted queue) ⟨_, initial_accounted⟩
    (fun _ _ _ => step_accounted)

end

/-! ## Sends, disk interrupts and receives from anybody -/

/-- Processes send to any destination and receive from anybody, in any order, and
the disk's interrupt handler sends in the name of the interrupt PCB. -/
def Interleaving (_ : IpcSystem) : IpcEvent → Prop
  | .syscall proc _ message type target =>
      IsProcess proc ∧ message.source ≠ interruptPcb ∧ message.source ≠ interruptNetPcb ∧
        (type = .send ∨ type = .recv ∧ target = anyProcess)
  | .resume _ => True
  | .interrupt _ message _ => message.source = interruptPcb
  | .check .. | .finish _ => False

instance (sys : IpcSystem) : (event : IpcEvent) → Decidable (sys.Interleaving event)
  | .syscall .. => inferInstanceAs (Decidable (_ ∧ _))
  | .resume _ => inferInstanceAs (Decidable True)
  | .interrupt .. => inferInstanceAs (Decidable (_ = _))
  | .check .. | .finish _ => inferInstanceAs (Decidable False)

/-- An interrupt finds the interrupt PCB on no queue. -/
def InterruptUnlinked (sys : IpcSystem) : IpcEvent → Prop
  | .interrupt .. => ∀ dest nodes,
      NullChain sys.ipc.nextReady (sys.ipc.sendings dest) nodes → interruptPcb ∉ nodes
  | _ => True

/-- What the queue of every destination is for: it is a list that ends, names
nobody twice and names every process that is blocked in a send to that
destination; every message sent is either queued or has been received exactly
once; and every traversal ends. -/
structure Intact (sys : IpcSystem) (queue : Addr → List Addr) : Prop where
  listed : ∀ dest, NullChain sys.ipc.nextReady (sys.ipc.sendings dest) (queue dest)
  nodup : ∀ dest, (queue dest).Nodup
  complete : ∀ dest proc, sys.ipc.status proc = .sendingMsg → sys.target proc = dest →
    proc ∈ queue dest
  pending : ∀ dest, ∀ sender ∈ queue dest, sys.sends sender = sys.delivered sender + 1
  settled : ∀ sender, sender ≠ interruptNetPcb → (∀ dest, sender ∉ queue dest) →
    sys.sends sender = sys.delivered sender
  traversal : ∀ dest want, ∃ fuel,
    Ipc.traverse sys.ipc.nextReady want fuel (sys.ipc.sendings dest) ≠ none

theorem Accounted.intact {sys : IpcSystem} {queue : Addr → List Addr}
    (haccounted : sys.Accounted queue) : sys.Intact queue where
  listed := haccounted.queues.chain
  nodup dest := (haccounted.queues.chain dest).nodup
  complete dest proc hsending htarget := by
    have hproc := haccounted.queues.sender_process proc hsending
    exact (haccounted.queues.mem_iff dest proc hproc.2.1).mpr ⟨hsending, htarget⟩
  pending dest sender hmem := haccounted.pending sender dest hmem
  settled := haccounted.settled
  traversal dest want :=
    ⟨(queue dest).length + 1,
      Ipc.traverse_terminates (haccounted.queues.chain dest) (Nat.lt_succ_self _)⟩

/-- No process is between the halves of a send-and-receive entry. -/
def SingleEntries (sys : IpcSystem) : Prop :=
  ∀ proc this target, sys.cont proc ≠ .sendingRecv this target

theorem step_singleEntries {sys next : IpcSystem} {fuel : Nat} {event : IpcEvent}
    (hsingle : sys.SingleEntries)
    (hevent : ∀ proc this message target, event ≠ .syscall proc this message .sendRecv target)
    (hstep : sys.step fuel event = some next) : next.SingleEntries := by
  have hupdate : ∀ (proc : Addr) (cont : Continuation),
      (∀ this target, cont ≠ .sendingRecv this target) → ∀ other this target,
      Function.update sys.cont proc cont other ≠ .sendingRecv this target := by
    intro proc cont hcont other this target
    rw [Function.update_apply]
    split
    next => exact hcont this target
    next => exact hsingle other this target
  have hreceived : ∀ {entered : IpcSystem} {proc this want prev : Addr},
      entered.cont = sys.cont → entered.doReceive fuel proc this want prev = some next →
      next.SingleEntries := by
    intro entered proc this want prev hcont hreceive other object target
    rcases doReceive_cont hreceive with hnext | hnext <;> rw [hnext, hcont]
    · exact hupdate proc _ (by simp) other object target
    · exact hupdate proc _ (by simp) other object target
  cases step_cases hstep with
  | @entered proc this target message type _ hruns hentry =>
      rw [enter_eq] at hentry
      cases type with
      | send =>
          cases hentry
          split
          · exact hupdate proc .sending (by simp)
          · exact hsingle
      | recv =>
          apply hreceived _ hentry
          rfl
      | sendRecv => exact absurd rfl (hevent proc this message target)
  | @sent proc => exact hupdate proc .user (by simp)
  | @sentFirst proc this target _ _ hcont => exact absurd hcont (hsingle proc this target)
  | @received proc => exact hupdate proc .user (by simp)
  | interrupted => exact hsingle
  | @checked proc =>
      rw [enter_eq]
      exact hupdate proc _ (by simp)
  | finished _ _ hreceive => exact hreceived rfl hreceive

/-- As long as no interrupt finds the interrupt PCB still queued, the queues of
senders stay intact in every order of sends, interrupts and receives. -/
theorem sender_queues_intact (fuel : Nat) (events : List IpcEvent) (sys : IpcSystem)
    (hrun : Run (step fuel) (fun sys event => sys.Interleaving event ∧ sys.InterruptUnlinked event)
      initial events sys) : ∃ queue, sys.Intact queue := by
  have hgood : (∃ queue, sys.Accounted queue) ∧ sys.SingleEntries := by
    apply hrun.invariant (fun sys => (∃ queue, sys.Accounted queue) ∧ sys.SingleEntries)
    · exact ⟨⟨_, initial_accounted⟩, fun _ _ _ => Continuation.noConfusion⟩
    · intro before event after hbefore hadmits hstep
      obtain ⟨haccounted, hsingle⟩ := hbefore
      obtain ⟨hallowed, hunlinked⟩ := hadmits
      have htype : ∀ proc this message target,
          event ≠ .syscall proc this message .sendRecv target := by
        rintro proc this message target rfl
        simp [Interleaving] at hallowed
      refine ⟨step_accounted haccounted ?_ hstep, step_singleEntries hsingle htype hstep⟩
      cases event with
      | syscall proc this message type target =>
          obtain ⟨hproc, hdisk, hnet, htype⟩ := hallowed
          refine ⟨hproc, hdisk, hnet, fun hreceives => .inl ?_⟩
          exact (htype.resolve_left hreceives).2
      | resume proc =>
          intro this target hcont
          exact absurd hcont (hsingle proc this target)
      | interrupt this message dest => exact .inr ⟨hallowed, hunlinked⟩
      | check => exact hallowed.elim
      | finish => exact hallowed.elim
  obtain ⟨queue, haccounted⟩ := hgood.1
  exact ⟨queue, haccounted.intact⟩

/-- The state after the file system has sent to the driver, which is busy. -/
def requestQueued : IpcSystem :=
  ((initial.enter 0x92000 0x70000 ⟨0, 0, 3, default⟩).doSend 0x92000 0x70000 0x94000).1.setCont
    0x92000 .sending

theorem requestQueued_unlinked (dest : Addr) (nodes : List Addr)
    (hchain : NullChain requestQueued.ipc.nextReady (requestQueued.ipc.sendings dest) nodes) :
    interruptPcb ∉ nodes := by
  by_cases hdest : dest = 0x94000
  · have hknown : NullChain requestQueued.ipc.nextReady (requestQueued.ipc.sendings dest)
        [0x92000] := by
      rw [hdest]
      exact ⟨rfl, by decide, rfl⟩
    rw [hchain.unique hknown]
    decide
  · have hempty : requestQueued.ipc.sendings dest = 0 := by
      change Function.update (fun _ => 0) 0x94000 0x92000 dest = 0
      rw [Function.update_of_ne hdest]
    rw [hchain.eq_nil_iff.mpr hempty]
    exact List.not_mem_nil

/-- A request to the busy driver is queued, an interrupt comes in, and the driver
receives both messages. -/
theorem sender_queues_intact_on_interrupt :
    ∃ (sys : IpcSystem) (queue : Addr → List Addr),
      Run (step 0) (fun sys event => sys.Interleaving event ∧ sys.InterruptUnlinked event) initial
        [.syscall 0x92000 0x70000 ⟨0, 0, 3, default⟩ .send 0x94000,
          .interrupt 0x71000 ⟨interruptPcb, 0, 0, default⟩ 0x94000,
          .syscall 0x94000 0x72000 default .recv anyProcess,
          .syscall 0x94000 0x72000 default .recv anyProcess] sys ∧
      sys.Intact queue ∧ sys.delivered interruptPcb = 1 ∧ sys.delivered 0x92000 = 1 := by
  have hsent : Run (step 0)
      (fun sys event => sys.Interleaving event ∧ sys.InterruptUnlinked event) initial
      [.syscall 0x92000 0x70000 ⟨0, 0, 3, default⟩ .send 0x94000] requestQueued :=
    .snoc .nil ⟨by decide, trivial⟩ rfl
  have hinterrupted : Run (step 0)
      (fun sys event => sys.Interleaving event ∧ sys.InterruptUnlinked event) initial
      [.syscall 0x92000 0x70000 ⟨0, 0, 3, default⟩ .send 0x94000,
        .interrupt 0x71000 ⟨interruptPcb, 0, 0, default⟩ 0x94000] _ :=
    hsent.snoc ⟨by decide, requestQueued_unlinked⟩ rfl
  have hfirst : Run (step 0)
      (fun sys event => sys.Interleaving event ∧ sys.InterruptUnlinked event) initial
      [.syscall 0x92000 0x70000 ⟨0, 0, 3, default⟩ .send 0x94000,
        .interrupt 0x71000 ⟨interruptPcb, 0, 0, default⟩ 0x94000,
        .syscall 0x94000 0x72000 default .recv anyProcess] _ :=
    hinterrupted.snoc ⟨by decide, trivial⟩ rfl
  have hsecond : Run (step 0)
      (fun sys event => sys.Interleaving event ∧ sys.InterruptUnlinked event) initial
      [.syscall 0x92000 0x70000 ⟨0, 0, 3, default⟩ .send 0x94000,
        .interrupt 0x71000 ⟨interruptPcb, 0, 0, default⟩ 0x94000,
        .syscall 0x94000 0x72000 default .recv anyProcess,
        .syscall 0x94000 0x72000 default .recv anyProcess] _ :=
    hfirst.snoc ⟨by decide, trivial⟩ rfl
  obtain ⟨queue, hintact⟩ := sender_queues_intact _ _ _ hsecond
  exact ⟨_, queue, hsecond, hintact, rfl, rfl⟩

/-- A second interrupt links the queued interrupt PCB to itself, and the receive
that takes it off drops the request behind it: the file system stays blocked in
its send, and the queue of the driver is empty. -/
theorem second_interrupt_loses_sender :
    ¬ ∀ (fuel : Nat) (events : List IpcEvent) (sys : IpcSystem),
      Run (step fuel) Interleaving initial events sys → ∃ queue, sys.Intact queue := by
  intro hintact
  have hrun := Run.of_exec (step 0) Interleaving initial
    [.syscall 0x92000 0x70000 ⟨0, 0, 3, default⟩ .send 0x94000,
      .interrupt 0x71000 ⟨interruptPcb, 0, 0, default⟩ 0x94000,
      .interrupt 0x71000 ⟨interruptPcb, 0, 0, default⟩ 0x94000,
      .syscall 0x94000 0x72000 default .recv anyProcess] rfl
  obtain ⟨queue, hqueue⟩ := hintact _ _ _ hrun
  have hempty : queue 0x94000 = [] := (hqueue.listed 0x94000).eq_nil_iff.mpr rfl
  have hmem : 0x92000 ∈ queue 0x94000 := hqueue.complete 0x94000 0x92000 rfl rfl
  rw [hempty] at hmem
  cases hmem

end IpcSystem

end Shmily.Kernel
