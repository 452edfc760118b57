import Shmily.Kernel.Authenticity

/-! # A server and its clients

A server loops over `receive(ANY)` and `reply()` on one object; its clients call
`send_then_recv` on it. A request reaches the server directly or through its
queue, and a reply reaches the client directly or through the queue of the
client; the phases below say which of these is under way.
-/

namespace Shmily.Kernel

open Foundation

/-- A server process with the object that it uses, and the owners of all objects. -/
structure Service where
  server : Addr
  object : Addr
  owner : Addr → Addr
  server_process : IsProcess server
  object_owner : owner object = server

/-- The processes, the calls of `send_then_recv` with the message passed, and the
calls of `reply` with the destination and the context passed. -/
structure ServiceState where
  sys : IpcSystem
  requested : List (Addr × Message)
  replied : List (Addr × Context)

inductive ServiceEvent
  /-- `client` calls `send_then_recv` on the object at `this`. -/
  | request (client this : Addr) (message : Message)
  /-- The server calls `receive(ANY)`. -/
  | receive
  /-- The server has put `context` into its object and calls `reply`. -/
  | reply (context : Context)
  /-- A process that was blocked continues. -/
  | resume (proc : Addr)

/-- What a receiver obtains of a message besides its sender. -/
def Message.contents (message : Message) : Nat × Context :=
  (message.type, message.context)

namespace Service

variable (svc : Service)

def initial : ServiceState where
  sys := .initial
  requested := []
  replied := []

/-- How many receives of the server have returned. -/
def returns (st : ServiceState) : Nat :=
  st.sys.returned.countP fun entry => entry.1 = svc.server

/-- `reply`: the type is set, and the message goes back where the last one came
from. -/
def replyMessage (st : ServiceState) (context : Context) : Message :=
  { st.sys.ipc.msgs svc.object with type := replyType, context := context }

/-- One step. The server calls `receive` after each reply, and `reply` after each
receive. -/
def step (fuel : Nat) (st : ServiceState) : ServiceEvent → Option ServiceState
  | .request client this message =>
      (st.sys.step fuel (.syscall client this message .sendRecv svc.server)).map fun sys =>
        { st with sys := sys, requested := st.requested ++ [(client, message)] }
  | .receive =>
      if svc.returns st = st.replied.length then
        (st.sys.step fuel (.syscall svc.server svc.object (st.sys.ipc.msgs svc.object) .recv
          anyProcess)).map fun sys => { st with sys := sys }
      else none
  | .reply context =>
      if svc.returns st = st.replied.length + 1 then
        let dest := (st.sys.ipc.msgs svc.object).destination
        (st.sys.step fuel (.syscall svc.server svc.object (svc.replyMessage st context) .send
          dest)).map fun sys =>
            { st with sys := sys, replied := st.replied ++ [(dest, context)] }
      else none
  | .resume proc => (st.sys.step fuel (.resume proc)).map fun sys => { st with sys := sys }

/-- Clients are processes other than the server, use their own objects and name
themselves or nobody as the source. -/
def Admits (_ : ServiceState) : ServiceEvent → Prop
  | .request client this message =>
      IsProcess client ∧ client ≠ svc.server ∧ svc.owner this = client ∧
        (message.source = 0 ∨ message.source = client)
  | _ => True

instance (st : ServiceState) (event : ServiceEvent) : Decidable (svc.Admits st event) := by
  cases event <;> unfold Admits <;> infer_instance

/-! ## The record of each client -/

/-- What the client has sent to the server, in order. -/
def requests (st : ServiceState) (client : Addr) : List (Nat × Context) :=
  st.requested.filterMap fun entry =>
    if entry.1 = client then some entry.2.contents else none

/-- What the server has received under the name of the client, in order. -/
def received (st : ServiceState) (client : Addr) : List (Nat × Context) :=
  st.sys.returned.filterMap fun entry =>
    if entry.1 = svc.server ∧ entry.2.destination = client then some entry.2.contents else none

/-- The contexts that the server has passed to `reply` for the client. -/
def replies (st : ServiceState) (client : Addr) : List Context :=
  st.replied.filterMap fun entry => if entry.1 = client then some entry.2 else none

/-- The contexts that the completed calls of the client have returned. -/
def completed (st : ServiceState) (client : Addr) : List Context :=
  st.sys.returned.filterMap fun entry =>
    if entry.1 = client then some entry.2.context else none

/-! ## Phases -/

/-- What the server is doing. -/
inductive ServerPhase
  | free
  | blocked
  | woken (client : Addr)
  | holding (client : Addr)
  | replying (client : Addr)
  | released

/-- The client whose request the server has got and not yet answered. -/
def ServerPhase.partner : ServerPhase → Option Addr
  | .woken client | .holding client | .replying client => some client
  | .free | .blocked | .released => none

/-- What a client is doing. -/
inductive ClientPhase
  | idle
  | queued
  | taken
  | waiting
  | answered

/-- How far the last request of a client has come. -/
inductive Progress
  /-- It has been answered and the answer has been returned, or there is none. -/
  | settled
  /-- It has been sent. -/
  | asked (contents : Nat × Context)
  /-- The server has received it. -/
  | served
  /-- The server has answered it. -/
  | answered (context : Context)

def Tallies (st : ServiceState) (client : Addr) : Progress → Prop
  | .settled => requests st client = svc.received st client ∧
      replies st client = completed st client ∧
      (svc.received st client).length = (replies st client).length
  | .asked contents => requests st client = svc.received st client ++ [contents] ∧
      replies st client = completed st client ∧
      (svc.received st client).length = (replies st client).length
  | .served => requests st client = svc.received st client ∧
      replies st client = completed st client ∧
      (svc.received st client).length = (replies st client).length + 1
  | .answered context => requests st client = svc.received st client ∧
      replies st client = completed st client ++ [context] ∧
      (svc.received st client).length = (replies st client).length

def ServerIs (st : ServiceState) : ServerPhase → Prop
  | .free => (st.sys.ipc.status svc.server).Runnable ∧ st.sys.cont svc.server = .user ∧
      svc.returns st = st.replied.length
  | .blocked => st.sys.ipc.status svc.server = .waitingMsg ∧
      st.sys.cont svc.server = .receiving svc.object ∧
      st.sys.ipc.message svc.server = svc.object ∧
      (st.sys.ipc.msgs svc.object).destination = anyProcess ∧ svc.returns st = st.replied.length
  | .woken client => (st.sys.ipc.status svc.server).Runnable ∧
      st.sys.cont svc.server = .receiving svc.object ∧
      (st.sys.ipc.msgs svc.object).destination = client ∧ client ≠ svc.server ∧
      svc.returns st = st.replied.length
  | .holding client => (st.sys.ipc.status svc.server).Runnable ∧ st.sys.cont svc.server = .user ∧
      (st.sys.ipc.msgs svc.object).destination = client ∧ client ≠ svc.server ∧
      svc.returns st = st.replied.length + 1
  | .replying client => st.sys.ipc.status svc.server = .sendingMsg ∧
      st.sys.cont svc.server = .sending ∧ st.sys.target svc.server = client ∧
      client ≠ svc.server ∧ svc.returns st = st.replied.length
  | .released => (st.sys.ipc.status svc.server).Runnable ∧ st.sys.cont svc.server = .sending ∧
      svc.returns st = st.replied.length

def ClientIs (st : ServiceState) (server : ServerPhase) (client : Addr) : ClientPhase → Prop
  | .idle => (st.sys.ipc.status client).Runnable ∧ st.sys.cont client = .user ∧
      svc.Tallies st client .settled
  | .queued => st.sys.ipc.status client = .sendingMsg ∧ st.sys.target client = svc.server ∧
      (∃ this, st.sys.cont client = .sendingRecv this svc.server) ∧
      svc.Tallies st client (.asked (st.sys.passed client).contents)
  | .taken => (st.sys.ipc.status client).Runnable ∧
      (∃ this, st.sys.cont client = .sendingRecv this svc.server) ∧
      ((server = .holding client ∧ svc.Tallies st client .served) ∨
        (server = .replying client ∧
          svc.Tallies st client (.answered (st.sys.passed svc.server).context)))
  | .waiting => st.sys.ipc.status client = .waitingMsg ∧
      st.sys.cont client = .receiving (st.sys.ipc.message client) ∧
      (st.sys.ipc.msgs (st.sys.ipc.message client)).destination = svc.server ∧
      ((server = .woken client ∧
          svc.Tallies st client (.asked (st.sys.ipc.msgs svc.object).contents)) ∨
        (server = .holding client ∧ svc.Tallies st client .served))
  | .answered => (st.sys.ipc.status client).Runnable ∧
      ∃ this, st.sys.cont client = .receiving this ∧
        svc.Tallies st client (.answered (st.sys.ipc.msgs this).context)

/-- The phase of the server's partner agrees with that of the server. -/
def Engaged (clients : Addr → ClientPhase) : ServerPhase → Prop
  | .blocked => ∀ client, client ≠ svc.server →
      clients client = .idle ∨ clients client = .answered
  | .woken client => clients client = .waiting
  | .holding client => clients client = .taken ∨ clients client = .waiting
  | .replying client => clients client = .taken
  | .free | .released => True

/-- The state of the processes fits the given phases. -/
structure Phases (st : ServiceState) (server : ServerPhase) (clients : Addr → ClientPhase) :
    Prop where
  sound : st.sys.Sound svc.owner
  quiet : ∀ proc, st.sys.ipc.intrCnt proc = 0
  diskless : st.sys.sends interruptPcb = 0
  source : (st.sys.ipc.msgs svc.object).source = 0 ∨
    (st.sys.ipc.msgs svc.object).source = svc.server
  serverIs : svc.ServerIs st server
  clientIs : ∀ client, client ≠ svc.server → svc.ClientIs st server client (clients client)
  engaged : svc.Engaged clients server

/-! ## What a step leaves alone -/

section

variable {svc} {st next : ServiceState} {client : Addr}

variable (svc) in
/-- Everything about `client` is the same in both states. -/
structure SameClient (client : Addr) (st next : ServiceState) : Prop where
  status : next.sys.ipc.status client = st.sys.ipc.status client
  cont : next.sys.cont client = st.sys.cont client
  target : next.sys.target client = st.sys.target client
  passed : next.sys.passed client = st.sys.passed client
  message : next.sys.ipc.message client = st.sys.ipc.message client
  objects : ∀ object, svc.owner object = client →
    next.sys.ipc.msgs object = st.sys.ipc.msgs object
  requests : requests next client = requests st client
  received : svc.received next client = svc.received st client
  replies : replies next client = replies st client
  completed : completed next client = completed st client

theorem SameClient.tallies (hsame : svc.SameClient client st next) (progress : Progress) :
    svc.Tallies next client progress ↔ svc.Tallies st client progress := by
  cases progress <;>
    simp only [Tallies, hsame.requests, hsame.received, hsame.replies, hsame.completed]

theorem ClientIs.partner {server : ServerPhase} {phase : ClientPhase}
    (hclient : svc.ClientIs st server client phase) (hphase : phase = .taken ∨ phase = .waiting) :
    server.partner = some client := by
  rcases hphase with rfl | rfl
  · obtain ⟨-, -, ⟨rfl, -⟩ | ⟨rfl, -⟩⟩ := hclient <;> rfl
  · obtain ⟨-, -, -, ⟨rfl, -⟩ | ⟨rfl, -⟩⟩ := hclient <;> rfl

/-- A client about which nothing changes stays in its phase; if it is the partner
of the server, nothing that matters may change about the server either. -/
theorem ClientIs.keep {server server' : ServerPhase} {phase : ClientPhase}
    (hclient : svc.ClientIs st server client phase) (hsound : st.sys.Sound svc.owner)
    (hsame : svc.SameClient client st next)
    (hserver : server.partner = some client → server' = server ∧
      next.sys.passed svc.server = st.sys.passed svc.server ∧
      next.sys.ipc.msgs svc.object = st.sys.ipc.msgs svc.object) :
    svc.ClientIs next server' client phase := by
  cases phase with
  | idle =>
      rw [ClientIs, hsame.status, hsame.cont, hsame.tallies]
      exact hclient
  | queued =>
      rw [ClientIs, hsame.status, hsame.cont, hsame.target, hsame.passed, hsame.tallies]
      exact hclient
  | taken =>
      obtain ⟨rfl, hpassed, -⟩ := hserver (hclient.partner (.inl rfl))
      rw [ClientIs, hsame.status, hsame.cont, hpassed, hsame.tallies, hsame.tallies]
      exact hclient
  | waiting =>
      obtain ⟨rfl, -, hobject⟩ := hserver (hclient.partner (.inr rfl))
      have howner := hsound.held.waiting client hclient.1
      rw [ClientIs, hsame.status, hsame.cont, hsame.message, hsame.objects _ howner, hobject,
        hsame.tallies, hsame.tallies]
      exact hclient
  | answered =>
      obtain ⟨hrunnable, this, hcont, htallies⟩ := hclient
      obtain ⟨-, howner, -⟩ := hsound.entered client this (by rw [hcont]; rfl)
      refine ⟨hsame.status ▸ hrunnable, this, hsame.cont.trans hcont, ?_⟩
      rw [hsame.objects this howner, hsame.tallies]
      exact htallies

theorem requests_append {proc : Addr} {message : Message}
    (hrequested : next.requested = st.requested ++ [(proc, message)]) :
    requests next client =
      requests st client ++ if proc = client then [message.contents] else [] := by
  rw [requests, hrequested, List.filterMap_append]
  split <;> simp_all [requests]

theorem replies_append {proc : Addr} {context : Context}
    (hreplied : next.replied = st.replied ++ [(proc, context)]) :
    replies next client = replies st client ++ if proc = client then [context] else [] := by
  rw [replies, hreplied, List.filterMap_append]
  split <;> simp_all [replies]

theorem received_append {proc : Addr} {message : Message}
    (hreturned : next.sys.returned = st.sys.returned ++ [(proc, message)]) :
    svc.received next client = svc.received st client ++
      if proc = svc.server ∧ message.destination = client then [message.contents] else [] := by
  rw [received, hreturned, List.filterMap_append]
  split <;> simp_all [received]

theorem completed_append {proc : Addr} {message : Message}
    (hreturned : next.sys.returned = st.sys.returned ++ [(proc, message)]) :
    completed next client =
      completed st client ++ if proc = client then [message.context] else [] := by
  rw [completed, hreturned, List.filterMap_append]
  split <;> simp_all [completed]

theorem returns_append {proc : Addr} {message : Message}
    (hreturned : next.sys.returned = st.sys.returned ++ [(proc, message)]) :
    svc.returns next = svc.returns st + if proc = svc.server then 1 else 0 := by
  rw [returns, hreturned, List.countP_append, List.countP_singleton]
  simp [returns]

theorem requests_append_of_ne {proc : Addr} {message : Message}
    (hrequested : next.requested = st.requested ++ [(proc, message)]) (hne : proc ≠ client) :
    requests next client = requests st client := by
  rw [requests_append hrequested, if_neg hne, List.append_nil]

theorem replies_append_of_ne {proc : Addr} {context : Context}
    (hreplied : next.replied = st.replied ++ [(proc, context)]) (hne : proc ≠ client) :
    replies next client = replies st client := by
  rw [replies_append hreplied, if_neg hne, List.append_nil]

theorem received_append_of_ne {proc : Addr} {message : Message}
    (hreturned : next.sys.returned = st.sys.returned ++ [(proc, message)])
    (hother : proc = svc.server → message.destination ≠ client) :
    svc.received next client = svc.received st client := by
  rw [received_append hreturned, if_neg fun hboth => hother hboth.1 hboth.2, List.append_nil]

theorem completed_append_of_ne {proc : Addr} {message : Message}
    (hreturned : next.sys.returned = st.sys.returned ++ [(proc, message)]) (hne : proc ≠ client) :
    completed next client = completed st client := by
  rw [completed_append hreturned, if_neg hne, List.append_nil]

end

/-! ## The queues of the server and of its clients -/

namespace Phases

variable {svc} {st : ServiceState} {server : ServerPhase} {clients : Addr → ClientPhase}
  {client : Addr} {queue : Addr → List Addr}

theorem server_sending (hphases : svc.Phases st server clients)
    (hsending : st.sys.ipc.status svc.server = .sendingMsg) :
    server = .replying (st.sys.target svc.server) := by
  have hserver := hphases.serverIs
  cases server with
  | free => exact absurd hsending hserver.1.ne_sending
  | blocked => exact absurd (hserver.1.symm.trans hsending) (by simp)
  | woken => exact absurd hsending hserver.1.ne_sending
  | holding => exact absurd hsending hserver.1.ne_sending
  | replying => rw [hserver.2.2.1]
  | released => exact absurd hsending hserver.1.ne_sending

theorem client_sending (hphases : svc.Phases st server clients) (hclient : client ≠ svc.server)
    (hsending : st.sys.ipc.status client = .sendingMsg) : clients client = .queued := by
  have his := hphases.clientIs client hclient
  cases hphase : clients client with
  | idle =>
      rw [hphase] at his
      exact absurd hsending his.1.ne_sending
  | queued => rfl
  | taken =>
      rw [hphase] at his
      exact absurd hsending his.1.ne_sending
  | waiting =>
      rw [hphase] at his
      exact absurd (his.1.symm.trans hsending) (by simp)
  | answered =>
      rw [hphase] at his
      exact absurd hsending his.1.ne_sending

theorem client_runnable (hphases : svc.Phases st server clients) (hclient : client ≠ svc.server)
    (hrunnable : (st.sys.ipc.status client).Runnable) :
    clients client = .idle ∨ clients client = .taken ∨ clients client = .answered := by
  have his := hphases.clientIs client hclient
  cases hphase : clients client with
  | idle => exact .inl rfl
  | queued =>
      rw [hphase] at his
      exact absurd his.1 hrunnable.ne_sending
  | taken => exact .inr (.inl rfl)
  | waiting =>
      rw [hphase] at his
      exact absurd his.1 hrunnable.ne_waiting
  | answered => exact .inr (.inr rfl)

theorem interrupt_notMem (hphases : svc.Phases st server clients)
    (haccounted : st.sys.Accounted queue) (dest : Addr) : interruptPcb ∉ queue dest := by
  intro hmem
  have hpending := haccounted.pending interruptPcb dest hmem
  rw [hphases.diskless] at hpending
  omega

/-- Only the server is ever on the queue of a client. -/
theorem queue_client (hphases : svc.Phases st server clients)
    (haccounted : st.sys.Accounted queue) (hclient : client ≠ svc.server) {proc : Addr}
    (hmem : proc ∈ queue client) : proc = svc.server ∧ server = .replying client := by
  have hne : proc ≠ interruptPcb := fun heq =>
    hphases.interrupt_notMem haccounted client (heq ▸ hmem)
  obtain ⟨hsending, htarget⟩ := (haccounted.queues.mem_iff client proc hne).mp hmem
  by_cases hproc : proc = svc.server
  · subst hproc
    exact ⟨rfl, htarget ▸ hphases.server_sending hsending⟩
  · have his := hphases.clientIs proc hproc
    rw [hphases.client_sending hproc hsending] at his
    exact absurd (htarget.symm.trans his.2.1) hclient

/-- The head of the queue of a client. -/
theorem sendings_client (hphases : svc.Phases st server clients) (hclient : client ≠ svc.server) :
    (server = .replying client ∧ st.sys.ipc.sendings client = svc.server) ∨
      (server ≠ .replying client ∧ st.sys.ipc.sendings client = 0) := by
  obtain ⟨queue, haccounted⟩ := hphases.sound.accounted
  have hchain := haccounted.queues.chain client
  by_cases hzero : st.sys.ipc.sendings client = 0
  · refine .inr ⟨fun heq => ?_, hzero⟩
    have hserver := hphases.serverIs
    rw [heq] at hserver
    have hmem := (haccounted.queues.mem_iff client svc.server svc.server_process.2.1).mpr
      ⟨hserver.1, hserver.2.2.1⟩
    rw [hchain.eq_nil_iff.mpr hzero] at hmem
    cases hmem
  · obtain ⟨rest, hqueue⟩ := hchain.exists_cons hzero
    have hmem : st.sys.ipc.sendings client ∈ queue client := hqueue ▸ List.mem_cons_self
    obtain ⟨hhead, hserver⟩ := hphases.queue_client haccounted hclient hmem
    exact .inl ⟨hserver, hhead⟩

/-- The head of the queue of the server. -/
theorem sendings_server (hphases : svc.Phases st server clients) :
    (st.sys.ipc.sendings svc.server = 0 ∧
      ∀ client, client ≠ svc.server → clients client ≠ .queued) ∨
    (st.sys.ipc.sendings svc.server ≠ 0 ∧ st.sys.ipc.sendings svc.server ≠ svc.server ∧
      clients (st.sys.ipc.sendings svc.server) = .queued) := by
  obtain ⟨queue, haccounted⟩ := hphases.sound.accounted
  have hchain := haccounted.queues.chain svc.server
  by_cases hzero : st.sys.ipc.sendings svc.server = 0
  · refine .inl ⟨hzero, fun client hclient hqueued => ?_⟩
    have his := hphases.clientIs client hclient
    rw [hqueued] at his
    have hproc := haccounted.queues.sender_process client his.1
    have hmem := (haccounted.queues.mem_iff svc.server client hproc.2.1).mpr ⟨his.1, his.2.1⟩
    rw [hchain.eq_nil_iff.mpr hzero] at hmem
    cases hmem
  · obtain ⟨rest, hqueue⟩ := hchain.exists_cons hzero
    have hmem : st.sys.ipc.sendings svc.server ∈ queue svc.server := hqueue ▸ List.mem_cons_self
    have hintr : st.sys.ipc.sendings svc.server ≠ interruptPcb := fun heq =>
      hphases.interrupt_notMem haccounted svc.server (heq ▸ hmem)
    obtain ⟨hsending, htarget⟩ := (haccounted.queues.mem_iff svc.server _ hintr).mp hmem
    have hne : st.sys.ipc.sendings svc.server ≠ svc.server := by
      intro heq
      rw [heq] at hsending htarget
      have hserver := hphases.serverIs
      rw [hphases.server_sending hsending] at hserver
      exact hserver.2.2.2.1 htarget
    exact .inr ⟨hzero, hne, hphases.client_sending hne hsending⟩

/-- A receive of a client from the server uses its queue in an orderly way. -/
theorem takesFirst (hphases : svc.Phases st server clients) (hclient : client ≠ svc.server) :
    st.sys.ipc.TakesFirst client svc.server := by
  rcases hphases.sendings_client hclient with ⟨-, hhead⟩ | ⟨-, hzero⟩
  · exact .inr (.inl hhead.symm)
  · refine .inr (.inr fun nodes hchain hmem => ?_)
    rw [hchain.eq_nil_iff.mpr hzero] at hmem
    cases hmem

end Phases

/-! ## Steps -/

section

variable {svc} {st next : ServiceState} {server : ServerPhase} {clients : Addr → ClientPhase}
  {fuel : Nat} {client this : Addr} {message : Message}

/-- `proc` writes the object at `this`, whose source becomes `proc`. -/
@[simps! -fullyApplied]
def written (sys : IpcSystem) (proc this : Addr) (message : Message) : IpcSystem :=
  { sys with ipc := sys.ipc.setMessage this { message with source := proc } }

/-- A client that is inside the kernel between the halves of its entry asks for a
message of the server. -/
theorem Phases.cont_sendingRecv (hphases : svc.Phases st server clients) {proc target : Addr}
    (hcont : st.sys.cont proc = .sendingRecv this target) :
    proc ≠ svc.server ∧ target = svc.server := by
  have hne : proc ≠ svc.server := by
    rintro rfl
    have hserver := hphases.serverIs
    cases server with
    | free => cases hserver.2.1.symm.trans hcont
    | blocked => cases hserver.2.1.symm.trans hcont
    | woken => cases hserver.2.1.symm.trans hcont
    | holding => cases hserver.2.1.symm.trans hcont
    | replying => cases hserver.2.1.symm.trans hcont
    | released => cases hserver.2.1.symm.trans hcont
  refine ⟨hne, ?_⟩
  have his := hphases.clientIs proc hne
  cases hphase : clients proc with
  | idle =>
      rw [hphase] at his
      cases his.2.1.symm.trans hcont
  | queued =>
      rw [hphase] at his
      obtain ⟨-, -, ⟨other, hother⟩, -⟩ := his
      cases hother.symm.trans hcont
      rfl
  | taken =>
      rw [hphase] at his
      obtain ⟨-, ⟨other, hother⟩, -⟩ := his
      cases hother.symm.trans hcont
      rfl
  | waiting =>
      rw [hphase] at his
      cases his.2.1.symm.trans hcont
  | answered =>
      rw [hphase] at his
      obtain ⟨-, other, hother, -⟩ := his
      cases hother.symm.trans hcont

/-- Every step uses the queues in an orderly way. -/
theorem step_sound {event : ServiceEvent} (hphases : svc.Phases st server clients)
    (hadmits : svc.Admits st event) (hstep : svc.step fuel st event = some next) :
    next.sys.Sound svc.owner := by
  have hsound := hphases.sound
  cases event with
  | request client this message =>
      obtain ⟨hclient, hne, howner, hhonest⟩ := hadmits
      obtain ⟨sys, hsys, rfl⟩ := Option.map_eq_some_iff.mp hstep
      exact IpcSystem.syscall_sound hsound hclient howner hhonest
        (fun _ => hphases.takesFirst hne) hsys
  | receive =>
      rw [step] at hstep
      split at hstep
      next =>
        obtain ⟨sys, hsys, rfl⟩ := Option.map_eq_some_iff.mp hstep
        exact IpcSystem.syscall_sound hsound svc.server_process svc.object_owner hphases.source
          (fun _ => .inl rfl) hsys
      next => cases hstep
  | reply context =>
      rw [step] at hstep
      split at hstep
      next =>
        obtain ⟨sys, hsys, rfl⟩ := Option.map_eq_some_iff.mp hstep
        have hhonest : (svc.replyMessage st context).source = 0 ∨
            (svc.replyMessage st context).source = svc.server := hphases.source
        exact IpcSystem.syscall_sound hsound svc.server_process svc.object_owner hhonest
          (fun h => absurd rfl h) hsys
      next => cases hstep
  | resume proc =>
      obtain ⟨sys, hsys, rfl⟩ := Option.map_eq_some_iff.mp hstep
      apply IpcSystem.resume_sound hsound _ hsys
      intro this target hcont
      obtain ⟨-, -, hsource⟩ := hsound.entered proc this (by rw [hcont]; rfl)
      obtain ⟨hne, rfl⟩ := hphases.cont_sendingRecv hcont
      rw [hsource]
      exact hphases.takesFirst hne

theorem Phases.server_waiting (hphases : svc.Phases st server clients)
    (hwaiting : st.sys.ipc.status svc.server = .waitingMsg) : server = .blocked := by
  have hserver := hphases.serverIs
  cases server with
  | free => exact absurd hwaiting hserver.1.ne_waiting
  | blocked => rfl
  | woken => exact absurd hwaiting hserver.1.ne_waiting
  | holding => exact absurd hwaiting hserver.1.ne_waiting
  | replying => exact absurd (hserver.1.symm.trans hwaiting) (by simp)
  | released => exact absurd hwaiting hserver.1.ne_waiting

theorem Phases.client_user (hphases : svc.Phases st server clients) (hclient : client ≠ svc.server)
    (hrunnable : (st.sys.ipc.status client).Runnable) (hcont : st.sys.cont client = .user) :
    clients client = .idle := by
  have his := hphases.clientIs client hclient
  rcases hphases.client_runnable hclient hrunnable with hphase | hphase | hphase
  · exact hphase
  · rw [hphase] at his
    obtain ⟨-, ⟨object, hother⟩, -⟩ := his
    cases hother.symm.trans hcont
  · rw [hphase] at his
    obtain ⟨-, object, hother, -⟩ := his
    cases hother.symm.trans hcont

/-- A client that is not engaged with the server is not its partner. -/
theorem Phases.partner_ne (hphases : svc.Phases st server clients)
    (hphase : clients client ≠ .taken ∧ clients client ≠ .waiting) :
    server.partner ≠ some client := by
  have hengaged := hphases.engaged
  intro hpartner
  cases server with
  | free => cases hpartner
  | blocked => cases hpartner
  | woken =>
      cases hpartner
      exact hphase.2 hengaged
  | holding =>
      cases hpartner
      exact hengaged.elim hphase.1 hphase.2
  | replying =>
      cases hpartner
      exact hphase.1 hengaged
  | released => cases hpartner

/-- A step that concerns the server and at most the one client `actor`, which
reaches `phase`. -/
theorem Phases.advance (hphases : svc.Phases st server clients) {server' : ServerPhase}
    {actor : Addr} {phase : ClientPhase} (hsound : next.sys.Sound svc.owner)
    (hquiet : next.sys.ipc.intrCnt = st.sys.ipc.intrCnt)
    (hdiskless : next.sys.sends interruptPcb = st.sys.sends interruptPcb)
    (hsource : (next.sys.ipc.msgs svc.object).source = svc.server ∨
      (next.sys.ipc.msgs svc.object).source = (st.sys.ipc.msgs svc.object).source)
    (hserver : svc.ServerIs next server')
    (hactor : actor ≠ svc.server → svc.ClientIs next server' actor phase)
    (hothers : ∀ client, client ≠ svc.server → client ≠ actor → svc.SameClient client st next)
    (hpartner : ∀ client, client ≠ actor → server.partner = some client → server' = server ∧
      next.sys.passed svc.server = st.sys.passed svc.server ∧
      next.sys.ipc.msgs svc.object = st.sys.ipc.msgs svc.object)
    (hengaged : svc.Engaged (Function.update clients actor phase) server') :
    svc.Phases next server' (Function.update clients actor phase) where
  sound := hsound
  quiet proc := by
    rw [hquiet]
    exact hphases.quiet proc
  diskless := hdiskless.trans hphases.diskless
  source := by
    rcases hsource with hsource | hsource
    · exact .inr hsource
    · rw [hsource]
      exact hphases.source
  serverIs := hserver
  clientIs client hclient := by
    rw [Function.update_apply]
    split
    next heq =>
      subst heq
      exact hactor hclient
    next hother =>
      exact (hphases.clientIs client hclient).keep hphases.sound (hothers client hclient hother)
        (hpartner client hother)
  engaged := hengaged

theorem owner_ne {object other : Addr} (hobject : svc.owner object = client)
    (hother : svc.owner other ≠ client) : object ≠ other := by
  rintro rfl
  exact hother hobject

theorem object_ne (hne : client ≠ svc.server) (howner : svc.owner this = client) :
    svc.object ≠ this := by
  rintro rfl
  exact hne (howner.symm.trans svc.object_owner)

/-- The server was waiting: it gets the request at once, and the client waits. -/
theorem request_delivered (hphases : svc.Phases st .blocked clients) (hproc : IsProcess client)
    (hne : client ≠ svc.server) (howner : svc.owner this = client) (hidle : clients client = .idle)
    (hnext : next = { st with
      sys := ((written st.sys client this message).afterDeliver client this
        svc.server).afterWait client this svc.server
      requested := st.requested ++ [(client, message)] })
    (hsound : next.sys.Sound svc.owner) :
    svc.Phases next (.woken client) (Function.update clients client .waiting) := by
  have hobject : svc.object ≠ this := object_ne hne howner
  obtain ⟨hwaiting, hcont, hmessage, -, hreturns⟩ := hphases.serverIs
  have hclient := hphases.clientIs client hne
  rw [hidle] at hclient
  obtain ⟨-, -, hrequests, hreplies, hlength⟩ := hclient
  subst hnext
  apply hphases.advance hsound
  · simp
  · simp [Ne.symm hproc.2.1]
  · right
    simp [hobject, hmessage]
  · simp [ServerIs, ProcessStatus.Runnable, hne.symm, hcont, hmessage, hobject, hne]
    exact hreturns
  · intro _
    refine ⟨by simp, by simp, by simp, .inl ⟨rfl, ?_, hreplies, hlength⟩⟩
    rw [requests_append rfl, if_pos rfl, hrequests]
    simp [hobject, hmessage, Message.contents]
    rfl
  · intro other hserver hother
    constructor
    case requests => exact requests_append_of_ne rfl hother.symm
    case objects =>
      intro object hownerObject
      have hthis := owner_ne hownerObject (howner ▸ hother.symm)
      have hserverObject := owner_ne hownerObject (svc.object_owner ▸ hserver.symm)
      simp [hthis, hmessage, hserverObject]
    all_goals first | rfl | simp [hother, hserver]
  · intro other _ hpartner
    cases hpartner
  · simp [Engaged]

/-- The phase of the server depends on these only. -/
theorem ServerIs.keep (hserver : svc.ServerIs st server)
    (hstatus : next.sys.ipc.status svc.server = st.sys.ipc.status svc.server)
    (hcont : next.sys.cont svc.server = st.sys.cont svc.server)
    (htarget : next.sys.target svc.server = st.sys.target svc.server)
    (hmessage : next.sys.ipc.message svc.server = st.sys.ipc.message svc.server)
    (hobject : next.sys.ipc.msgs svc.object = st.sys.ipc.msgs svc.object)
    (hreturns : svc.returns next = svc.returns st)
    (hreplied : next.replied = st.replied) : svc.ServerIs next server := by
  cases server <;>
    simp only [ServerIs, hstatus, hcont, htarget, hmessage, hobject, hreturns, hreplied] <;>
    exact hserver

/-- The phase of a client that is not the partner may change. -/
theorem Engaged.update (hengaged : svc.Engaged clients server) (hpartner : server.partner ≠ some client)
    {phase : ClientPhase} (hblocked : server = .blocked → phase = .idle ∨ phase = .answered) :
    svc.Engaged (Function.update clients client phase) server := by
  cases server with
  | free => trivial
  | blocked =>
      intro other hother
      rw [Function.update_apply]
      split
      next => exact hblocked rfl
      next => exact hengaged other hother
  | woken other =>
      have hne : other ≠ client := fun heq => hpartner (congrArg some heq)
      simpa [Engaged, hne] using hengaged
  | holding other =>
      have hne : other ≠ client := fun heq => hpartner (congrArg some heq)
      simpa [Engaged, hne] using hengaged
  | replying other =>
      have hne : other ≠ client := fun heq => hpartner (congrArg some heq)
      simpa [Engaged, hne] using hengaged
  | released => trivial

/-- The server was not waiting: the client is queued. -/
theorem request_queued (hphases : svc.Phases st server clients) (hproc : IsProcess client)
    (hne : client ≠ svc.server) (howner : svc.owner this = client) (hidle : clients client = .idle)
    (hbusy : server ≠ .blocked)
    (hnext : next = { st with
      sys := ((written st.sys client this message).afterBlock client this svc.server).setCont
        client (.sendingRecv this svc.server)
      requested := st.requested ++ [(client, message)] })
    (hsound : next.sys.Sound svc.owner) :
    svc.Phases next server (Function.update clients client .queued) := by
  have hobject : svc.object ≠ this := object_ne hne howner
  have hclient := hphases.clientIs client hne
  have hpartner : server.partner ≠ some client := hphases.partner_ne (by simp [hidle])
  rw [hidle] at hclient
  obtain ⟨-, -, hrequests, hreplies, hlength⟩ := hclient
  subst hnext
  apply hphases.advance hsound
  · simp [IpcSystem.setCont]
  · simp [IpcSystem.setCont, Ne.symm hproc.2.1]
  · right
    simp [IpcSystem.setCont, hobject]
  · apply hphases.serverIs.keep
    all_goals first | rfl | simp [IpcSystem.setCont, hne.symm, hobject]
  · intro _
    refine ⟨by simp [IpcSystem.setCont], by simp [IpcSystem.setCont],
      ⟨this, by simp [IpcSystem.setCont]⟩, ?_, hreplies, hlength⟩
    rw [requests_append rfl, if_pos rfl, hrequests]
    simp [IpcSystem.setCont, Message.contents]
    rfl
  · intro other hserver hother
    constructor
    case requests => exact requests_append_of_ne rfl hother.symm
    case objects =>
      intro object hownerObject
      have hthis := owner_ne hownerObject (howner ▸ hother.symm)
      simp [IpcSystem.setCont, hthis]
    all_goals first | rfl | simp [IpcSystem.setCont, hother]
  · intro other _ _
    simp [IpcSystem.setCont, hne.symm, hobject]
  · exact hphases.engaged.update hpartner (fun h => absurd h hbusy)

/-- The server finds no request and waits. -/
theorem receive_blocked (hphases : svc.Phases st .free clients)
    (hempty : ∀ client, client ≠ svc.server → clients client ≠ .queued)
    (hnext : next = { st with
      sys := (written st.sys svc.server svc.object (st.sys.ipc.msgs svc.object)).afterWait
        svc.server svc.object anyProcess })
    (hsound : next.sys.Sound svc.owner) :
    svc.Phases next .blocked (Function.update clients svc.server (clients svc.server)) := by
  obtain ⟨-, -, hreturns⟩ := hphases.serverIs
  subst hnext
  apply hphases.advance hsound
  · simp
  · simp
  · simp
  · simp [ServerIs]
    exact hreturns
  · exact fun h => absurd rfl h
  · intro other hserver _
    constructor
    case objects =>
      intro object hownerObject
      have hthis := owner_ne hownerObject (svc.object_owner ▸ hserver.symm)
      simp [hthis]
    all_goals first | rfl | simp [hserver]
  · intro other _ hpartner
    cases hpartner
  · intro other hother
    rw [Function.update_of_ne hother]
    cases hphase : clients other with
    | idle => exact .inl rfl
    | queued => exact absurd hphase (hempty other hother)
    | taken =>
        have hclient := hphases.clientIs other hother
        cases (hphase ▸ hclient).partner (.inl rfl)
    | waiting =>
        have hclient := hphases.clientIs other hother
        cases (hphase ▸ hclient).partner (.inr rfl)
    | answered => exact .inr rfl

/-- The server takes the request of a queued client. -/
theorem receive_taken (hphases : svc.Phases st .free clients) (hne : client ≠ svc.server)
    (hqueued : clients client = .queued)
    (hnext : next = { st with
      sys := (written st.sys svc.server svc.object (st.sys.ipc.msgs svc.object)).afterTake
        svc.server svc.object client })
    (hsound : next.sys.Sound svc.owner) :
    svc.Phases next (.holding client) (Function.update clients client .taken) := by
  obtain ⟨hrunnable, hcont, hreturns⟩ := hphases.serverIs
  have hclient := hphases.clientIs client hne
  rw [hqueued] at hclient
  obtain ⟨hsending, -, ⟨this, hthis⟩, hrequests, hreplies, hlength⟩ := hclient
  obtain ⟨howner, htype, hcontext⟩ := hphases.sound.held.sending client hsending
  have hobject : st.sys.ipc.message client ≠ svc.object :=
    owner_ne howner (svc.object_owner ▸ hne.symm)
  subst hnext
  have hreturned := IpcSystem.afterTake_returned
    (written st.sys svc.server svc.object (st.sys.ipc.msgs svc.object)) svc.server svc.object client
  have hcontents : (((written st.sys svc.server svc.object
      (st.sys.ipc.msgs svc.object)).afterTake svc.server svc.object client).ipc.msgs
        svc.object).contents = (st.sys.passed client).contents := by
    simp [Message.contents, hobject, htype, hcontext]
  apply hphases.advance hsound
  · simp
  · simp
  · simp
  · refine ⟨?_, by simp, by simp, hne, ?_⟩
    · simpa [hne.symm] using hrunnable
    · rw [returns_append hreturned, if_pos rfl]
      exact congrArg (· + 1) hreturns
  · intro _
    refine ⟨by simp [hsending, ProcessStatus.Runnable], ⟨this, by simp [hne, hthis]⟩,
      .inl ⟨rfl, ?_, ?_, ?_⟩⟩
    · rw [received_append hreturned, if_pos ⟨rfl, by simp⟩, hcontents]
      exact hrequests
    · rw [completed_append_of_ne hreturned hne.symm]
      exact hreplies
    · rw [received_append hreturned, if_pos ⟨rfl, by simp⟩, List.length_append]
      exact congrArg (· + 1) hlength
  · intro other hserver hother
    constructor
    case objects =>
      intro object hownerObject
      have hthis := owner_ne hownerObject (svc.object_owner ▸ hserver.symm)
      simp [hthis]
    case received => exact received_append_of_ne hreturned fun _ => by simpa using hother.symm
    case completed =>
      exact completed_append_of_ne hreturned hserver.symm
    all_goals first | rfl | simp [hserver, hother]
  · intro other _ hpartner
    cases hpartner
  · simp [Engaged]

/-- The client waits for the reply and gets it at once. -/
theorem reply_delivered {context : Context} (hphases : svc.Phases st (.holding client) clients)
    (hwaiting : clients client = .waiting)
    (hnext : next = { st with
      sys := (written st.sys svc.server svc.object (svc.replyMessage st context)).afterDeliver
        svc.server svc.object client
      replied := st.replied ++ [(client, context)] })
    (hsound : next.sys.Sound svc.owner) :
    svc.Phases next .free (Function.update clients client .answered) := by
  obtain ⟨hrunnable, hcont, -, hne, hreturns⟩ := hphases.serverIs
  have hclient := hphases.clientIs client hne
  rw [hwaiting] at hclient
  obtain ⟨hstatus, hreceiving, -, ⟨hwoken, -⟩ | ⟨-, hrequests, hreplies, hlength⟩⟩ := hclient
  · cases hwoken
  have howner := hphases.sound.held.waiting client hstatus
  have hobject : st.sys.ipc.message client ≠ svc.object :=
    owner_ne howner (svc.object_owner ▸ hne.symm)
  subst hnext
  apply hphases.advance hsound
  · simp
  · simp [Ne.symm svc.server_process.2.1]
  · left
    simp [hobject.symm]
  · refine ⟨?_, by simpa using hcont, ?_⟩
    · simpa [hne.symm] using hrunnable
    · rw [List.length_append]
      exact hreturns
  · intro _
    refine ⟨by simp [ProcessStatus.Runnable], _, by simpa using hreceiving, hrequests, ?_, ?_⟩
    · rw [replies_append rfl, if_pos rfl, hreplies]
      simp [replyMessage]
      rfl
    · rw [replies_append rfl, if_pos rfl, List.length_append]
      exact hlength
  · intro other hserver hother
    constructor
    case replies => exact replies_append_of_ne rfl hother.symm
    case objects =>
      intro object hownerObject
      have hthis := owner_ne hownerObject (svc.object_owner ▸ hserver.symm)
      have hmessage := owner_ne hownerObject (howner ▸ hother.symm)
      simp [hthis, hmessage]
    all_goals first | rfl | simp [hserver, hother]
  · intro other hother hpartner
    exact absurd (Option.some.inj hpartner).symm hother
  · trivial

/-- The client does not wait yet: the reply is queued. -/
theorem reply_queued {context : Context} (hphases : svc.Phases st (.holding client) clients)
    (htaken : clients client = .taken)
    (hnext : next = { st with
      sys := ((written st.sys svc.server svc.object (svc.replyMessage st context)).afterBlock
        svc.server svc.object client).setCont svc.server .sending
      replied := st.replied ++ [(client, context)] })
    (hsound : next.sys.Sound svc.owner) :
    svc.Phases next (.replying client) (Function.update clients client .taken) := by
  obtain ⟨-, -, -, hne, hreturns⟩ := hphases.serverIs
  have hclient := hphases.clientIs client hne
  rw [htaken] at hclient
  obtain ⟨hrunnable, ⟨this, hthis⟩, ⟨-, hrequests, hreplies, hlength⟩ | ⟨hreplying, -⟩⟩ := hclient
  swap
  · cases hreplying
  subst hnext
  apply hphases.advance hsound
  · simp [IpcSystem.setCont]
  · simp [IpcSystem.setCont, Ne.symm svc.server_process.2.1]
  · left
    simp [IpcSystem.setCont]
  · refine ⟨by simp [IpcSystem.setCont], by simp [IpcSystem.setCont],
      by simp [IpcSystem.setCont], hne, ?_⟩
    rw [List.length_append]
    exact hreturns
  · intro _
    refine ⟨by simpa [IpcSystem.setCont, hne] using hrunnable,
      ⟨this, by simpa [IpcSystem.setCont, hne] using hthis⟩, .inr ⟨rfl, hrequests, ?_, ?_⟩⟩
    · rw [replies_append rfl, if_pos rfl, hreplies]
      simp [IpcSystem.setCont, replyMessage]
      rfl
    · rw [replies_append rfl, if_pos rfl, List.length_append]
      exact hlength
  · intro other hserver hother
    constructor
    case replies => exact replies_append_of_ne rfl hother.symm
    case objects =>
      intro object hownerObject
      have hthis := owner_ne hownerObject (svc.object_owner ▸ hserver.symm)
      simp [IpcSystem.setCont, hthis]
    all_goals first | rfl | simp [IpcSystem.setCont, hserver]
  · intro other hother hpartner
    exact absurd (Option.some.inj hpartner).symm hother
  · simp [Engaged]

/-- The state after `proc` has returned from a receive in which it had to wait. -/
@[simps! -fullyApplied]
def afterReturn (sys : IpcSystem) (proc this : Addr) : IpcSystem :=
  { sys with
    cont := Function.update sys.cont proc .user
    returned := sys.returned ++ [(proc, sys.ipc.msgs this)] }

/-- The server returns with the request that woke it up. -/
theorem server_returns (hphases : svc.Phases st (.woken client) clients)
    (hnext : next = { st with sys := afterReturn st.sys svc.server svc.object })
    (hsound : next.sys.Sound svc.owner) :
    svc.Phases next (.holding client) (Function.update clients client .waiting) := by
  obtain ⟨hrunnable, -, hdestination, hne, hreturns⟩ := hphases.serverIs
  have hclient := hphases.clientIs client hne
  rw [hphases.engaged] at hclient
  obtain ⟨hstatus, hreceiving, hserver, ⟨-, hrequests, hreplies, hlength⟩ | ⟨hholding, -⟩⟩ := hclient
  swap
  · cases hholding
  subst hnext
  have hreturned : (afterReturn st.sys svc.server svc.object).returned =
      st.sys.returned ++ [(svc.server, st.sys.ipc.msgs svc.object)] := rfl
  apply hphases.advance hsound
  · rfl
  · rfl
  · exact .inr rfl
  · refine ⟨hrunnable, by simp, hdestination, hne, ?_⟩
    rw [returns_append hreturned, if_pos rfl]
    exact congrArg (· + 1) hreturns
  · intro _
    refine ⟨hstatus, by simpa [hne] using hreceiving, hserver, .inr ⟨rfl, ?_, ?_, ?_⟩⟩
    · rw [received_append hreturned, if_pos ⟨rfl, hdestination⟩]
      exact hrequests
    · rw [completed_append_of_ne hreturned hne.symm]
      exact hreplies
    · rw [received_append hreturned, if_pos ⟨rfl, hdestination⟩, List.length_append]
      exact congrArg (· + 1) hlength
  · intro other hserver hother
    constructor
    case received =>
      have hdifferent : (st.sys.ipc.msgs svc.object).destination ≠ other :=
        fun heq => hother (heq.symm.trans hdestination)
      exact received_append_of_ne hreturned fun _ => hdifferent
    case completed =>
      exact completed_append_of_ne hreturned hserver.symm
    case objects => exact fun _ _ => rfl
    all_goals first | rfl | simp [hserver]
  · intro other hother hpartner
    exact absurd (Option.some.inj hpartner).symm hother
  · simp [Engaged]

/-- The server goes on after its reply has been taken. -/
theorem server_continues (hphases : svc.Phases st .released clients)
    (hnext : next = { st with sys := st.sys.setCont svc.server .user })
    (hsound : next.sys.Sound svc.owner) :
    svc.Phases next .free (Function.update clients svc.server (clients svc.server)) := by
  obtain ⟨hrunnable, -, hreturns⟩ := hphases.serverIs
  subst hnext
  apply hphases.advance hsound
  · rfl
  · rfl
  · exact .inr rfl
  · exact ⟨hrunnable, by simp [IpcSystem.setCont], hreturns⟩
  · exact fun h => absurd rfl h
  · intro other hserver _
    constructor
    case objects => exact fun _ _ => rfl
    all_goals first | rfl | simp [IpcSystem.setCont, hserver]
  · intro other _ hpartner
    cases hpartner
  · trivial

/-- The client takes the reply off its queue. -/
theorem client_takes (hphases : svc.Phases st (.replying client) clients)
    (howner : svc.owner this = client)
    (hnext : next = { st with sys := st.sys.afterTake client this svc.server })
    (hsound : next.sys.Sound svc.owner) :
    svc.Phases next .released (Function.update clients client .idle) := by
  obtain ⟨hsending, hcont, -, hne, hreturns⟩ := hphases.serverIs
  have hclient := hphases.clientIs client hne
  rw [hphases.engaged] at hclient
  obtain ⟨hrunnable, -, ⟨hholding, -⟩ | ⟨-, hrequests, hreplies, hlength⟩⟩ := hclient
  · cases hholding
  have hobject : svc.object ≠ this := object_ne hne howner
  obtain ⟨-, -, hcontext⟩ := hphases.sound.held.sending svc.server hsending
  subst hnext
  have hreturned := st.sys.afterTake_returned client this svc.server
  apply hphases.advance hsound
  · simp
  · rfl
  · right
    simp [hobject]
  · refine ⟨by simp [hsending, ProcessStatus.Runnable], by simpa [hne.symm] using hcont, ?_⟩
    rw [returns_append hreturned, if_neg hne]
    exact hreturns
  · intro _
    refine ⟨by simpa [hne] using hrunnable, by simp, ?_, ?_, ?_⟩
    · rw [received_append_of_ne hreturned fun heq => absurd heq hne]
      exact hrequests
    · rw [completed_append hreturned, if_pos rfl]
      simp only [IpcSystem.afterTake_ipc_msgs, Function.update_self, hcontext]
      exact hreplies
    · rw [received_append_of_ne hreturned fun heq => absurd heq hne]
      exact hlength
  · intro other hserver hother
    constructor
    case received => exact received_append_of_ne hreturned fun heq => absurd heq hne
    case completed => exact completed_append_of_ne hreturned hother.symm
    case objects =>
      intro object hownerObject
      have hthis := owner_ne hownerObject (howner ▸ hother.symm)
      simp [hthis]
    all_goals first | rfl | simp [hserver, hother]
  · intro other hother hpartner
    exact absurd (Option.some.inj hpartner).symm hother
  · trivial

/-- The client finds no reply yet and waits. -/
theorem client_waits (hphases : svc.Phases st server clients) (hne : client ≠ svc.server)
    (htaken : clients client = .taken) (hreplying : server ≠ .replying client)
    (howner : svc.owner this = client)
    (hnext : next = { st with sys := st.sys.afterWait client this svc.server })
    (hsound : next.sys.Sound svc.owner) :
    svc.Phases next server (Function.update clients client .waiting) := by
  have hclient := hphases.clientIs client hne
  rw [htaken] at hclient
  obtain ⟨-, -, ⟨rfl, htallies⟩ | ⟨hother, -⟩⟩ := hclient
  swap
  · exact absurd hother hreplying
  have hobject : svc.object ≠ this := object_ne hne howner
  subst hnext
  apply hphases.advance hsound
  · simp
  · rfl
  · right
    simp [hobject]
  · apply hphases.serverIs.keep
    all_goals first | rfl | simp [hne.symm, hobject]
  · intro _
    exact ⟨by simp, by simp, by simp, .inr ⟨rfl, htallies⟩⟩
  · intro other hserver hother
    constructor
    case objects =>
      intro object hownerObject
      have hthis := owner_ne hownerObject (howner ▸ hother.symm)
      simp [hthis]
    all_goals first | rfl | simp [hother]
  · intro other hother hpartner
    exact absurd (Option.some.inj hpartner).symm hother
  · simp [Engaged]

/-- The client returns with the reply that woke it up. -/
theorem client_returns (hphases : svc.Phases st server clients) (hne : client ≠ svc.server)
    (hanswered : clients client = .answered) (hcont : st.sys.cont client = .receiving this)
    (hnext : next = { st with sys := afterReturn st.sys client this })
    (hsound : next.sys.Sound svc.owner) :
    svc.Phases next server (Function.update clients client .idle) := by
  have hclient := hphases.clientIs client hne
  have hpartner : server.partner ≠ some client := hphases.partner_ne (by simp [hanswered])
  rw [hanswered] at hclient
  obtain ⟨hrunnable, object, hobject, hrequests, hreplies, hlength⟩ := hclient
  cases hobject.symm.trans hcont
  subst hnext
  have hreturned : (afterReturn st.sys client this).returned =
      st.sys.returned ++ [(client, st.sys.ipc.msgs this)] := rfl
  apply hphases.advance hsound
  · rfl
  · rfl
  · exact .inr rfl
  · apply hphases.serverIs.keep
    case hreturns =>
      rw [returns_append hreturned, if_neg hne]
      rfl
    all_goals first | rfl | simp [hne.symm]
  · intro _
    refine ⟨hrunnable, by simp, ?_, ?_, ?_⟩
    · rw [received_append_of_ne hreturned fun heq => absurd heq hne]
      exact hrequests
    · rw [completed_append hreturned, if_pos rfl]
      exact hreplies
    · rw [received_append_of_ne hreturned fun heq => absurd heq hne]
      exact hlength
  · intro other hserver hother
    constructor
    case received => exact received_append_of_ne hreturned fun heq => absurd heq hne
    case completed => exact completed_append_of_ne hreturned hother.symm
    case objects => exact fun _ _ => rfl
    all_goals first | rfl | simp [hother]
  · intro other _ _
    exact ⟨rfl, rfl, rfl⟩
  · exact hphases.engaged.update hpartner (fun _ => .inl rfl)

theorem request_phases (hphases : svc.Phases st server clients)
    (hadmits : svc.Admits st (.request client this message))
    (hstep : svc.step fuel st (.request client this message) = some next) :
    ∃ server clients, svc.Phases next server clients := by
  have hsound := step_sound hphases hadmits hstep
  obtain ⟨hproc, hne, howner, hhonest⟩ := hadmits
  have hobject : svc.object ≠ this := object_ne hne howner
  obtain ⟨sys, hsys, hnext⟩ := Option.map_eq_some_iff.mp hstep
  rw [IpcSystem.step] at hsys
  split at hsys
  next hruns =>
    have hidle := hphases.client_user hne hruns.1 hruns.2
    rw [IpcSystem.enter_eq, IpcSystem.sourceOf_eq hhonest] at hsys
    change (written st.sys client this message).syscallHandler fuel client this .sendRecv
      svc.server = some sys at hsys
    have hsource : ((written st.sys client this message).ipc.msgs this).source = client := by
      simp
    by_cases hblocked : server = .blocked
    · subst hblocked
      obtain ⟨hwaiting, -, hmessage, hany, -⟩ := hphases.serverIs
      have haccepts : (written st.sys client this message).ipc.Accepts svc.server
          ((written st.sys client this message).ipc.msgs this) :=
        .inl ⟨hwaiting, .inl (by simpa [hmessage, hobject] using hany)⟩
      have hempty : st.sys.ipc.sendings client = 0 := by
        rcases hphases.sendings_client hne with ⟨hreplying, -⟩ | ⟨-, hzero⟩
        · cases hreplying
        · exact hzero
      have hwait : ((written st.sys client this message).afterDeliver client this
          svc.server).doReceive fuel client this svc.server _ = _ :=
        IpcSystem.doReceive_of_empty (by simp [hmessage, hobject.symm])
          (by simpa using hphases.quiet client) (by simpa using hempty)
      have hnet : ((written st.sys client this message).ipc.msgs this).source ≠
          interruptNetPcb := by
        rw [hsource]
        exact hproc.2.2
      simp only [IpcSystem.syscallHandler, IpcSystem.doSend_of_accepts hnet haccepts, reduceCtorEq,
        if_false, hwait, Option.some.injEq] at hsys
      subst hsys
      exact ⟨_, _, request_delivered hphases hproc hne howner hidle hnext.symm hsound⟩
    · have hrefused : ¬ (written st.sys client this message).ipc.Accepts svc.server
          ((written st.sys client this message).ipc.msgs this) :=
        fun haccepts => hblocked (hphases.server_waiting haccepts.waiting)
      simp only [IpcSystem.syscallHandler,
        IpcSystem.doSend_of_refused hsource hproc.2.2 hproc.2.1 hrefused, if_true,
        Option.some.injEq] at hsys
      subst hsys
      exact ⟨_, _, request_queued hphases hproc hne howner hidle hblocked hnext.symm hsound⟩
  next => cases hsys

/-- A server that runs its own code is between two exchanges, or it holds a
request. -/
theorem Phases.server_user (hphases : svc.Phases st server clients)
    (hcont : st.sys.cont svc.server = .user) :
    (server = .free ∧ svc.returns st = st.replied.length) ∨
      ∃ client, server = .holding client ∧ svc.returns st = st.replied.length + 1 := by
  have hserver := hphases.serverIs
  cases server with
  | free => exact .inl ⟨rfl, hserver.2.2⟩
  | blocked => cases hserver.2.1.symm.trans hcont
  | woken => cases hserver.2.1.symm.trans hcont
  | holding client => exact .inr ⟨client, rfl, hserver.2.2.2.2⟩
  | replying => cases hserver.2.1.symm.trans hcont
  | released => cases hserver.2.1.symm.trans hcont

theorem receive_phases (hphases : svc.Phases st server clients)
    (hstep : svc.step fuel st .receive = some next) :
    ∃ server clients, svc.Phases next server clients := by
  have hadmits : svc.Admits st .receive := trivial
  have hsound := step_sound hphases hadmits hstep
  rw [step] at hstep
  split at hstep
  next hloop =>
    obtain ⟨sys, hsys, hnext⟩ := Option.map_eq_some_iff.mp hstep
    rw [IpcSystem.step] at hsys
    split at hsys
    next hruns =>
      obtain ⟨rfl, -⟩ | ⟨client, -, hholding⟩ := hphases.server_user hruns.2
      · rw [IpcSystem.enter_eq, IpcSystem.sourceOf_eq hphases.source] at hsys
        change (written st.sys svc.server svc.object (st.sys.ipc.msgs svc.object)).doReceive fuel
          svc.server svc.object anyProcess _ = some sys at hsys
        have hsource : ((written st.sys svc.server svc.object
            (st.sys.ipc.msgs svc.object)).ipc.msgs svc.object).source = svc.server := by simp
        rcases hphases.sendings_server with ⟨hzero, hempty⟩ | ⟨hzero, hne, hqueued⟩
        · have hwait : IpcSystem.doReceive _ fuel svc.server svc.object anyProcess _ = _ :=
            IpcSystem.doReceive_of_empty hsource (hphases.quiet svc.server) hzero
          cases hwait.symm.trans hsys
          exact ⟨_, _, receive_blocked hphases hempty hnext.symm hsound⟩
        · have htake : IpcSystem.doReceive _ fuel svc.server svc.object anyProcess _ = _ :=
            IpcSystem.doReceive_of_first hsource (hphases.quiet svc.server) hzero (.inr rfl)
          cases htake.symm.trans hsys
          exact ⟨_, _, receive_taken hphases hne hqueued hnext.symm hsound⟩
      · omega
    next => cases hsys
  next => cases hstep

theorem reply_phases {context : Context} (hphases : svc.Phases st server clients)
    (hstep : svc.step fuel st (.reply context) = some next) :
    ∃ server clients, svc.Phases next server clients := by
  have hadmits : svc.Admits st (.reply context) := trivial
  have hsound := step_sound hphases hadmits hstep
  rw [step] at hstep
  split at hstep
  next hloop =>
    obtain ⟨sys, hsys, hnext⟩ := Option.map_eq_some_iff.mp hstep
    rw [IpcSystem.step] at hsys
    split at hsys
    next hruns =>
      obtain ⟨rfl, hfree⟩ | ⟨client, rfl, -⟩ := hphases.server_user hruns.2
      · omega
      · obtain ⟨-, -, hdestination, hne, -⟩ := hphases.serverIs
        have hhonest : (svc.replyMessage st context).source = 0 ∨
            (svc.replyMessage st context).source = svc.server := hphases.source
        rw [IpcSystem.enter_eq, IpcSystem.sourceOf_eq hhonest] at hsys
        change (written st.sys svc.server svc.object (svc.replyMessage st context)).syscallHandler
          fuel svc.server svc.object .send _ = some sys at hsys
        rw [hdestination] at hsys hnext
        have hsource : ((written st.sys svc.server svc.object
            (svc.replyMessage st context)).ipc.msgs svc.object).source = svc.server := by simp
        have hclient := hphases.clientIs client hne
        rcases hphases.engaged with htaken | hwaiting
        · rw [htaken] at hclient
          have hrefused : ¬ (written st.sys svc.server svc.object
              (svc.replyMessage st context)).ipc.Accepts client
              ((written st.sys svc.server svc.object
                (svc.replyMessage st context)).ipc.msgs svc.object) :=
            fun haccepts => hclient.1.ne_waiting haccepts.waiting
          simp only [IpcSystem.syscallHandler, IpcSystem.doSend_of_refused hsource
            svc.server_process.2.2 svc.server_process.2.1 hrefused, if_true,
            Option.some.injEq] at hsys
          subst hsys
          exact ⟨_, _, reply_queued hphases htaken hnext.symm hsound⟩
        · rw [hwaiting] at hclient
          obtain ⟨hstatus, -, hserver, -⟩ := hclient
          have howner := hphases.sound.held.waiting client hstatus
          have hobject : st.sys.ipc.message client ≠ svc.object :=
            owner_ne howner (svc.object_owner ▸ hne.symm)
          have haccepts : (written st.sys svc.server svc.object
              (svc.replyMessage st context)).ipc.Accepts client
              ((written st.sys svc.server svc.object
                (svc.replyMessage st context)).ipc.msgs svc.object) :=
            .inl ⟨hstatus, .inr (by simp [hobject, hserver])⟩
          have hnet : ((written st.sys svc.server svc.object
              (svc.replyMessage st context)).ipc.msgs svc.object).source ≠ interruptNetPcb := by
            rw [hsource]
            exact svc.server_process.2.2
          simp only [IpcSystem.syscallHandler, IpcSystem.doSend_of_accepts hnet haccepts,
            reduceCtorEq, if_false, Option.some.injEq] at hsys
          subst hsys
          exact ⟨_, _, reply_delivered hphases hwaiting hnext.symm hsound⟩
    next => cases hsys
  next => cases hstep

theorem resume_phases {proc : Addr} (hphases : svc.Phases st server clients)
    (hstep : svc.step fuel st (.resume proc) = some next) :
    ∃ server clients, svc.Phases next server clients := by
  have hadmits : svc.Admits st (.resume proc) := trivial
  have hsound := step_sound hphases hadmits hstep
  obtain ⟨sys, hsys, hnext⟩ := Option.map_eq_some_iff.mp hstep
  rw [IpcSystem.step] at hsys
  split at hsys
  next hrunnable =>
    rw [IpcSystem.continueProc] at hsys
    by_cases hserver : proc = svc.server
    · subst hserver
      have his := hphases.serverIs
      cases server with
      | free => simp [his.2.1] at hsys
      | blocked => exact absurd his.1 hrunnable.ne_waiting
      | woken client =>
          simp only [his.2.1, Option.some.injEq] at hsys
          subst hsys
          exact ⟨_, _, server_returns hphases hnext.symm hsound⟩
      | holding client => simp [his.2.1] at hsys
      | replying client => exact absurd his.1 hrunnable.ne_sending
      | released =>
          simp only [his.2.1, Option.some.injEq] at hsys
          subst hsys
          exact ⟨_, _, server_continues hphases hnext.symm hsound⟩
    · have his := hphases.clientIs proc hserver
      rcases hphases.client_runnable hserver hrunnable with hphase | hphase | hphase
      · rw [hphase] at his
        simp [his.2.1] at hsys
      · rw [hphase] at his
        obtain ⟨-, ⟨this, hcont⟩, -⟩ := his
        obtain ⟨-, howner, hsource⟩ := hphases.sound.entered proc this (by rw [hcont]; rfl)
        simp only [hcont] at hsys
        rcases hphases.sendings_client hserver with ⟨rfl, hhead⟩ | ⟨hreplying, hzero⟩
        · have hne : st.sys.ipc.sendings proc ≠ 0 := by
            rw [hhead]
            exact svc.server_process.1
          have htake : st.sys.doReceive fuel proc this svc.server _ = _ :=
            IpcSystem.doReceive_of_first hsource (hphases.quiet proc) hne (.inl hhead.symm)
          rw [hhead] at htake
          cases htake.symm.trans hsys
          exact ⟨_, _, client_takes hphases howner hnext.symm hsound⟩
        · have hwait : st.sys.doReceive fuel proc this svc.server _ = _ :=
            IpcSystem.doReceive_of_empty hsource (hphases.quiet proc) hzero
          cases hwait.symm.trans hsys
          exact ⟨_, _, client_waits hphases hserver hphase hreplying howner hnext.symm hsound⟩
      · have hanswered := hphase
        rw [hphase] at his
        obtain ⟨-, this, hcont, -⟩ := his
        simp only [hcont, Option.some.injEq] at hsys
        subst hsys
        exact ⟨_, _, client_returns hphases hserver hanswered hcont hnext.symm hsound⟩
  next => cases hsys

theorem step_phases {event : ServiceEvent} (hphases : ∃ server clients, svc.Phases st server clients)
    (hadmits : svc.Admits st event) (hstep : svc.step fuel st event = some next) :
    ∃ server clients, svc.Phases next server clients := by
  obtain ⟨server, clients, hphases⟩ := hphases
  cases event with
  | request client this message => exact request_phases hphases hadmits hstep
  | receive => exact receive_phases hphases hstep
  | reply context => exact reply_phases hphases hstep
  | resume proc => exact resume_phases hphases hstep

theorem initial_phases : svc.Phases initial .free (fun _ => .idle) where
  sound := IpcSystem.initial_sound svc.owner
  quiet _ := rfl
  diskless := rfl
  source := .inl rfl
  serverIs := ⟨.inl rfl, rfl, rfl⟩
  clientIs _ _ := ⟨.inl rfl, rfl, rfl, rfl, rfl⟩
  engaged := trivial

end

/-! ## Exactly once -/

/-- The exchanges between the server and its clients. -/
structure ExactlyOnce (st : ServiceState) : Prop where
  /-- The server has received the requests of a client as they were sent, in order. -/
  received_eq : ∀ client, client ≠ svc.server → svc.received st client <+: requests st client
  /-- A request that has not been received is still queued or already in the object
  of the server. -/
  pending : ∀ client, client ≠ svc.server → requests st client ≠ svc.received st client →
    (st.sys.ipc.status client = .sendingMsg ∧ st.sys.target client = svc.server) ∨
      ((st.sys.ipc.status svc.server).Runnable ∧
        st.sys.cont svc.server = .receiving svc.object)
  /-- The calls of a client have returned the contexts of the replies to it, in order. -/
  completed_eq : ∀ client, client ≠ svc.server → completed st client <+: replies st client
  /-- A reply belongs to the last request: none is made before the request has been
  received, and no further request before the reply has been returned. -/
  matched : ∀ client, client ≠ svc.server →
    (completed st client).length ≤ (replies st client).length ∧
      (replies st client).length ≤ (svc.received st client).length ∧
      (svc.received st client).length ≤ (requests st client).length ∧
      (requests st client).length ≤ (completed st client).length + 1
  /-- While the server waits for anybody, no client waits for it or is queued. -/
  idle : st.sys.ipc.WaitsForAny svc.server → ∀ client, client ≠ svc.server →
    ¬ (st.sys.ipc.status client = .waitingMsg ∧
      (st.sys.ipc.msgs (st.sys.ipc.message client)).destination = svc.server) ∧
    ¬ (st.sys.ipc.status client = .sendingMsg ∧ st.sys.target client = svc.server)

section

variable {svc} {st : ServiceState} {server : ServerPhase} {clients : Addr → ClientPhase}
  {client : Addr}

theorem ClientIs.tallies {phase : ClientPhase} (hclient : svc.ClientIs st server client phase) :
    ∃ progress, svc.Tallies st client progress ∧ ∀ contents, progress = .asked contents →
      phase = .queued ∨ server = .woken client := by
  cases phase with
  | idle => exact ⟨.settled, hclient.2.2, fun _ h => by cases h⟩
  | queued => exact ⟨_, hclient.2.2.2, fun _ _ => .inl rfl⟩
  | taken =>
      obtain ⟨-, -, ⟨-, htallies⟩ | ⟨-, htallies⟩⟩ := hclient
      · exact ⟨_, htallies, fun _ h => by cases h⟩
      · exact ⟨_, htallies, fun _ h => by cases h⟩
  | waiting =>
      obtain ⟨-, -, -, ⟨hwoken, htallies⟩ | ⟨-, htallies⟩⟩ := hclient
      · exact ⟨_, htallies, fun _ _ => .inr hwoken⟩
      · exact ⟨_, htallies, fun _ h => by cases h⟩
  | answered =>
      obtain ⟨-, this, -, htallies⟩ := hclient
      exact ⟨_, htallies, fun _ h => by cases h⟩

/-- What every progress of a request has in common. -/
theorem Tallies.balanced {progress : Progress} (htallies : svc.Tallies st client progress) :
    svc.received st client <+: requests st client ∧ completed st client <+: replies st client ∧
      (replies st client).length ≤ (svc.received st client).length ∧
      (requests st client).length ≤ (completed st client).length + 1 := by
  cases progress with
  | settled =>
      obtain ⟨hrequests, hreplies, hlength⟩ := htallies
      refine ⟨hrequests ▸ List.prefix_refl _, hreplies ▸ List.prefix_refl _, by omega, ?_⟩
      rw [hrequests, ← hreplies]
      omega
  | asked contents =>
      obtain ⟨hrequests, hreplies, hlength⟩ := htallies
      refine ⟨hrequests ▸ List.prefix_append _ _, hreplies ▸ List.prefix_refl _, by omega, ?_⟩
      rw [hrequests, ← hreplies, List.length_append, List.length_singleton]
      omega
  | served =>
      obtain ⟨hrequests, hreplies, hlength⟩ := htallies
      refine ⟨hrequests ▸ List.prefix_refl _, hreplies ▸ List.prefix_refl _, by omega, ?_⟩
      rw [hrequests, ← hreplies]
      omega
  | answered context =>
      obtain ⟨hrequests, hreplies, hlength⟩ := htallies
      refine ⟨hrequests ▸ List.prefix_refl _, hreplies ▸ List.prefix_append _ _, by omega, ?_⟩
      rw [hrequests, hlength, hreplies, List.length_append, List.length_singleton]

theorem Phases.exactlyOnce (hphases : svc.Phases st server clients) : svc.ExactlyOnce st where
  received_eq client hclient := by
    obtain ⟨progress, htallies, -⟩ := (hphases.clientIs client hclient).tallies
    exact htallies.balanced.1
  pending client hclient hpending := by
    have his := hphases.clientIs client hclient
    obtain ⟨progress, htallies, hasked⟩ := his.tallies
    cases progress with
    | settled => exact absurd htallies.1 hpending
    | asked contents =>
        rcases hasked contents rfl with hqueued | rfl
        · rw [hqueued] at his
          exact .inl ⟨his.1, his.2.1⟩
        · exact .inr ⟨hphases.serverIs.1, hphases.serverIs.2.1⟩
    | served => exact absurd htallies.1 hpending
    | answered context => exact absurd htallies.1 hpending
  completed_eq client hclient := by
    obtain ⟨progress, htallies, -⟩ := (hphases.clientIs client hclient).tallies
    exact htallies.balanced.2.1
  matched client hclient := by
    obtain ⟨progress, htallies, -⟩ := (hphases.clientIs client hclient).tallies
    obtain ⟨hreceived, hcompleted, hreplies, hrequests⟩ := htallies.balanced
    exact ⟨hcompleted.length_le, hreplies, hreceived.length_le, hrequests⟩
  idle hwaits client hclient := by
    have hblocked := hphases.server_waiting hwaits.1
    subst hblocked
    have his := hphases.clientIs client hclient
    rcases hphases.engaged client hclient with hphase | hphase <;> rw [hphase] at his
    · exact ⟨fun h => his.1.ne_waiting h.1, fun h => his.1.ne_sending h.1⟩
    · exact ⟨fun h => his.1.ne_waiting h.1, fun h => his.1.ne_sending h.1⟩

end

/-- In every reachable state of every interleaving, the server has received each
request once and as it was sent, each completed call has returned the reply to its
own request, and a waiting server has left nobody behind. -/
theorem requests_answered_exactly_once (svc : Service) (fuel : Nat) (events : List ServiceEvent)
    (st : ServiceState) (hrun : Run (svc.step fuel) svc.Admits initial events st) :
    svc.ExactlyOnce st := by
  have hphases : ∃ server clients, svc.Phases st server clients := by
    apply hrun.invariant (fun st => ∃ server clients, svc.Phases st server clients)
    · exact ⟨_, _, initial_phases⟩
    · intro before event after hbefore hadmits hstep
      exact step_phases hbefore hadmits hstep
  obtain ⟨server, clients, hphases⟩ := hphases
  exact hphases.exactlyOnce

/-- The file system serves two clients. -/
def fileService : Service where
  server := 0x92000
  object := 0x2f000
  owner := fun object => if object = 0x2f000 then 0x92000 else if object = 0x5f000 then 0x95000
    else 0x96000
  server_process := by decide
  object_owner := rfl

/-- One client finds the server waiting, the other one is queued behind it; both
get their replies, the second one through its queue. -/
theorem requests_answered_exactly_once_for_two_clients :
    ∃ st : ServiceState, Run (fileService.step 0) fileService.Admits initial
        [.receive, .request 0x95000 0x5f000 ⟨0, 0, 3, ⟨1, 0, 0, 0⟩⟩,
          .request 0x96000 0x6f000 ⟨0, 0, 6, ⟨2, 0, 0, 0⟩⟩, .resume 0x92000,
          .reply ⟨10, 0, 0, 0⟩, .receive, .reply ⟨20, 0, 0, 0⟩, .resume 0x96000,
          .resume 0x95000, .resume 0x92000, .receive] st ∧
      fileService.ExactlyOnce st ∧ st.sys.ipc.WaitsForAny fileService.server ∧
      completed st 0x95000 = [⟨10, 0, 0, 0⟩] ∧ completed st 0x96000 = [⟨20, 0, 0, 0⟩] := by
  have hrun := Run.of_exec (fileService.step 0) fileService.Admits initial
    [.receive, .request 0x95000 0x5f000 ⟨0, 0, 3, ⟨1, 0, 0, 0⟩⟩,
      .request 0x96000 0x6f000 ⟨0, 0, 6, ⟨2, 0, 0, 0⟩⟩, .resume 0x92000,
      .reply ⟨10, 0, 0, 0⟩, .receive, .reply ⟨20, 0, 0, 0⟩, .resume 0x96000,
      .resume 0x95000, .resume 0x92000, .receive] rfl
  exact ⟨_, hrun, requests_answered_exactly_once _ _ _ _ hrun, ⟨rfl, rfl⟩, rfl, rfl⟩

end Service

end Shmily.Kernel
