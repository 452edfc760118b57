import Shmily.Net.Answers

/-! # Which segments are answered

A segment that neither opens nor ends a connection is answered whenever its number
is the expected one, even if it holds no data, unless the socket waits for just this
acknowledgement. Two endpoints with nothing to say acknowledge each other's
acknowledgements for ever.
-/

namespace Shmily.Net

open Foundation Lib

/-- The socket waits for an acknowledgement and the segment is one, or the segment
does not have the expected number. -/
def TcpSocket.Ignores (socket : TcpSocket) (header : TcpHeader) : Prop :=
  header.kind = flagAck ∧ socket.state ∈ [.synReceived, .finWait1, .closeWait] ∨
    header.seqNum ≠ socket.ackNum

/-- The socket sends nothing when it gets the segment. -/
def TcpSocket.Silent (socket : TcpSocket) (header : TcpHeader) : Prop :=
  if header.kind = flagSyn then socket.state ≠ .listening
  else if header.kind = flagSyn ||| flagAck then socket.state ≠ .synSent
  else if header.kind = flagFin ∨ header.kind = flagFin ||| flagAck then
    socket.state ∉ [.established, .finWait1, .finWait2]
  else socket.Ignores header

instance (socket : TcpSocket) (header : TcpHeader) : Decidable (socket.Ignores header) :=
  inferInstanceAs (Decidable (_ ∨ _))

/-- The segment neither opens nor ends a connection. -/
def TcpHeader.Plain (header : TcpHeader) : Prop :=
  header.flags &&& (flagSyn ||| flagFin) = 0

instance (header : TcpHeader) : Decidable header.Plain := inferInstanceAs (Decidable (_ = _))

theorem TcpHeader.Plain.kind {header : TcpHeader} (hplain : header.Plain) :
    header.kind &&& (flagSyn ||| flagFin) = 0 := by
  calc header.kind &&& (flagSyn ||| flagFin)
      = header.flags &&& (flagSyn ||| flagFin) := by
        rw [TcpHeader.kind, BitVec.and_assoc]
        rfl
    _ = 0 := hplain

theorem TcpHeader.Plain.kind_ne {header : TcpHeader} (hplain : header.Plain) (flags : Byte)
    (hflags : flags &&& (flagSyn ||| flagFin) ≠ 0) : header.kind ≠ flags := by
  rintro rfl
  exact hflags hplain.kind

namespace TcpFactory

variable {net : TcpFactory} {socket : TcpSocket} {header : TcpHeader} {data : ByteArea}
  {remoteIp : IpAddr}

theorem resolveSyn_sent_iff :
    (net.resolveSyn socket header remoteIp).1.sent = net.sent ↔ socket.state ≠ .listening := by
  rw [resolveSyn]
  split
  next hstate => exact iff_of_true rfl hstate
  next hstate => exact iff_of_false (by simp) hstate

theorem resolveSynAck_sent_iff :
    (net.resolveSynAck socket header).1.sent = net.sent ↔ socket.state ≠ .synSent := by
  rw [resolveSynAck]
  split
  next hstate => exact iff_of_true rfl hstate
  next hstate => exact iff_of_false (by simp) hstate

theorem resolveFin_sent_iff : (net.resolveFin socket).1.sent = net.sent ↔
    socket.state ∉ [.established, .finWait1, .finWait2] := by
  cases hstate : socket.state
  case established | finWait1 | finWait2 =>
    exact iff_of_false (by simp [resolveFin, hstate]) (by simp)
  all_goals
    rw [resolveFin, hstate]
    exact iff_of_true rfl (by simp)

/-- The `default` case answers every segment with the expected number. -/
theorem resolveData_silent_iff {payloadLen : Nat} :
    (net.resolveData socket header data payloadLen).1.sent = net.sent ↔
      header.seqNum ≠ socket.ackNum := by
  rw [resolveData]
  split
  next hseq => exact iff_of_false (by simp) (fun hne => hne hseq)
  next hseq => exact iff_of_true rfl hseq

/-- A segment that is not answered does not reach the receive ring either. -/
theorem resolveData_of_ne {payloadLen : Nat} (hne : header.seqNum ≠ socket.ackNum) :
    net.resolveData socket header data payloadLen = (net, socket) :=
  if_neg hne

theorem resolveAck_silent_iff {payloadLen : Nat} (hkind : header.kind = flagAck) :
    (net.resolveAck socket header data payloadLen).1.sent = net.sent ↔ socket.Ignores header := by
  have hflag := TcpHeader.flags_and_ack hkind
  -- these states end the case; all others fall through to `default`
  cases hstate : socket.state
  case synReceived | finWait1 | closeWait =>
    rw [resolveAck, hstate]
    exact iff_of_true rfl (.inl ⟨hkind, by simp [hstate]⟩)
  all_goals
    rw [resolveAck, hstate, TcpSocket.Ignores, hstate]
    simp [hflag, resolveData_silent_iff]

/-- Which segments are answered depends on the header alone. -/
theorem resolveSocket_silent_iff (net : TcpFactory) (remoteIp : IpAddr) (payloadLen : BitVec 16) :
    (net.resolveSocket socket data remoteIp payloadLen).1.sent = net.sent ↔
      socket.Silent (tcpHeader data) := by
  rw [resolveSocket_eq, TcpSocket.Silent]
  split
  next => exact resolveSyn_sent_iff
  next =>
    split
    next => exact resolveSynAck_sent_iff
    next =>
      split
      next => exact resolveFin_sent_iff
      next =>
        split
        next hkind => exact resolveAck_silent_iff hkind
        next hkind =>
          rw [resolveData_silent_iff, TcpSocket.Ignores]
          simp [hkind]

/-- The cases for opening and ending a connection are not entered. -/
theorem resolveSocket_of_plain (hplain : (tcpHeader data).Plain) (payloadLen : BitVec 16) :
    net.resolveSocket socket data remoteIp payloadLen =
      if (tcpHeader data).kind = flagAck then
        net.resolveAck socket (tcpHeader data) data payloadLen.toNat
      else net.resolveData socket (tcpHeader data) data payloadLen.toNat := by
  have hne := hplain.kind_ne
  rw [resolveSocket_eq, if_neg (hne _ (by decide)), if_neg (hne _ (by decide)),
    if_neg (not_or.mpr ⟨hne _ (by decide), hne _ (by decide)⟩)]

theorem silent_iff_of_plain (hplain : header.Plain) :
    socket.Silent header ↔ socket.Ignores header := by
  have hne := hplain.kind_ne
  rw [TcpSocket.Silent, if_neg (hne _ (by decide)), if_neg (hne _ (by decide)),
    if_neg (not_or.mpr ⟨hne _ (by decide), hne _ (by decide)⟩)]

/-- A plain segment that is ignored takes no buffer. -/
theorem resolveSocket_ring (hplain : (tcpHeader data).Plain)
    (hignores : socket.Ignores (tcpHeader data)) (payloadLen : BitVec 16) :
    (net.resolveSocket socket data remoteIp payloadLen).2.recvBuffer = socket.recvBuffer := by
  rw [resolveSocket_of_plain hplain]
  rcases hignores with ⟨hkind, hstate⟩ | hne
  · rw [if_pos hkind]
    simp only [List.mem_cons, List.not_mem_nil, or_false] at hstate
    rcases hstate with hstate | hstate | hstate <;> rw [resolveAck, hstate]
  · split
    next =>
      rw [resolveAck]
      split
      next => rfl
      next => rfl
      next => rfl
      next =>
        split
        next => rfl
        next => rw [resolveData_of_ne hne]
    next => rw [resolveData_of_ne hne]

/-- The call returns, no segment is sent, and the socket of the port takes no buffer. -/
def Quiet (net : TcpFactory) (port : Nat) (after : Option TcpFactory) : Prop :=
  ∃ net', after = some net' ∧ net'.sent = net.sent ∧
    (net'.sockets port).map (·.recvBuffer) = (net.sockets port).map (·.recvBuffer)

theorem resolvePacket_of_socket {payloadLen : BitVec 16}
    (hport : (tcpHeader data).dstPort.toNat < 128)
    (hsocket : net.sockets (tcpHeader data).dstPort.toNat = some socket) :
    net.resolvePacket data remoteIp payloadLen =
      some ((net.resolveSocket socket data remoteIp payloadLen).1.setSocket
        (tcpHeader data).dstPort.toNat (net.resolveSocket socket data remoteIp payloadLen).2) := by
  simp only [resolvePacket, if_neg (Nat.not_le.mpr hport), hsocket]

/-- A plain segment is left without an answer just if the socket ignores it. -/
theorem resolvePacket_quiet_iff {payloadLen : BitVec 16}
    (hport : (tcpHeader data).dstPort.toNat < 128)
    (hsocket : net.sockets (tcpHeader data).dstPort.toNat = some socket)
    (hplain : (tcpHeader data).Plain) :
    net.Quiet (tcpHeader data).dstPort.toNat (net.resolvePacket data remoteIp payloadLen) ↔
      socket.Ignores (tcpHeader data) := by
  rw [resolvePacket_of_socket hport hsocket, ← silent_iff_of_plain hplain,
    ← resolveSocket_silent_iff net remoteIp payloadLen]
  constructor
  · rintro ⟨net', hnet, hsent, -⟩
    rw [Option.some.injEq] at hnet
    subst hnet
    exact hsent
  · intro hsent
    have hignores := (silent_iff_of_plain hplain).mp
      ((resolveSocket_silent_iff net remoteIp payloadLen).mp hsent)
    refine ⟨_, rfl, hsent, ?_⟩
    rw [setSocket_self, hsocket, Option.map_some, Option.map_some,
      resolveSocket_ring hplain hignores]

end TcpFactory

/-! ## Two endpoints -/

/-- Two endpoints, and the frames on their way to each of them. -/
structure Link where
  ends : Bool → TcpFactory
  inFlight : Bool → List Packet

/-- A frame is delivered, in any order, or lost. -/
inductive LinkEvent
  | deliver (side : Bool) (i : Nat)
  | lose (side : Bool) (i : Nat)

namespace Link

/-- The frame is handled, and what is sent meanwhile goes to the other end. -/
def step (link : Link) : LinkEvent → Option Link
  | .deliver side i => do
      let packet ← (link.inFlight side)[i]?
      let net ← (link.ends side).handlePacket packet.data packet.frame.len
      let others := link.inFlight (!side) ++ net.sent.drop (link.ends side).sent.length
      some {
        ends := Function.update link.ends side net
        inFlight := Function.update
          (Function.update link.inFlight side ((link.inFlight side).eraseIdx i)) (!side) others }
  | .lose side i => some { link with
      inFlight := Function.update link.inFlight side ((link.inFlight side).eraseIdx i) }

/-- Every event may happen. -/
def Admits (_ : Link) (_ : LinkEvent) : Prop := True

/-- A frame that the application of the other end has nothing to do with: a segment
that opens and ends no connection. -/
structure Acknowledges (frame : Frame) : Prop where
  isTcp : frame.IsTcp
  ipHeaderLen : frame.ipHeaderLen = ipHeaderSize
  plain : frame.header.Plain

/-- Nothing is under way but acknowledgements. -/
def Idle (link : Link) : Prop :=
  ∀ side, ∀ packet ∈ link.inFlight side, Acknowledges packet.frame

/-- Every frame is delivered to a socket that ignores it. -/
def Ignored (link : Link) : LinkEvent → Prop
  | .deliver side i => ∀ packet, (link.inFlight side)[i]? = some packet → ∀ socket,
      (link.ends side).sockets packet.frame.header.dstPort.toNat = some socket →
      socket.Ignores packet.frame.header
  | .lose _ _ => True

/-- No end has sent anything since. -/
def SameSent (link final : Link) : Prop :=
  ∀ side, (final.ends side).sent = (link.ends side).sent

variable {link next final : Link} {side : Bool} {i : Nat} {packet : Packet} {net after : TcpFactory}

/-- An acknowledgement is left without an answer just if the socket ignores it. -/
theorem handlePacket_sent_iff (hframe : Acknowledges packet.frame)
    (hhandle : net.handlePacket packet.data packet.frame.len = some after) :
    after.sent = net.sent ↔
      ∀ socket, net.sockets packet.frame.header.dstPort.toNat = some socket →
        socket.Ignores packet.frame.header := by
  have hresolve := (net.handlePacket_tcp hframe.isTcp hframe.ipHeaderLen).symm.trans hhandle
  rcases TcpFactory.resolvePacket_cases hresolve with ⟨hnone, rfl⟩ | ⟨socket, hsocket, rfl⟩
  · refine iff_of_true rfl fun socket hsocket => ?_
    exact absurd (hnone.symm.trans hsocket) (by simp)
  · have hsilent : _ ↔ socket.Silent packet.frame.header :=
      net.resolveSocket_silent_iff packet.frame.remoteIp (packet.frame.len -
        BitVec.ofNat 16 ethHeaderSize - BitVec.ofNat 16 ipHeaderSize)
    rw [TcpFactory.silent_iff_of_plain hframe.plain] at hsilent
    refine Iff.trans hsilent ⟨fun hignores other hother => ?_, fun hall => hall socket hsocket⟩
    have hsame := hsocket.symm.trans hother
    rw [Option.some.injEq] at hsame
    exact hsame ▸ hignores

/-- The link after the frame has been handled. -/
def delivered (link : Link) (side : Bool) (i : Nat) (after : TcpFactory) : Link where
  ends := Function.update link.ends side after
  inFlight := Function.update
    (Function.update link.inFlight side ((link.inFlight side).eraseIdx i)) (!side)
    (link.inFlight (!side) ++ after.sent.drop (link.ends side).sent.length)

theorem step_of_handled (hpacket : (link.inFlight side)[i]? = some packet)
    (hhandle : (link.ends side).handlePacket packet.data packet.frame.len = some after) :
    link.step (.deliver side i) = some (link.delivered side i after) := by
  simp [step, hpacket, hhandle, delivered]

theorem step_deliver (hstep : link.step (.deliver side i) = some next) :
    ∃ packet after, (link.inFlight side)[i]? = some packet ∧
      (link.ends side).handlePacket packet.data packet.frame.len = some after ∧
      next = link.delivered side i after := by
  simp only [step, Option.bind_eq_bind, Option.bind_eq_some_iff, Option.some.injEq] at hstep
  obtain ⟨packet, hpacket, after, hafter, hnext⟩ := hstep
  exact ⟨packet, after, hpacket, hafter, hnext.symm⟩

theorem Idle.acknowledges (hidle : link.Idle) (hpacket : (link.inFlight side)[i]? = some packet) :
    Acknowledges packet.frame :=
  hidle side packet (List.mem_of_getElem? hpacket)

/-- What an endpoint has sent grows. -/
theorem step_keeps_sent {event : LinkEvent} (hstep : link.step event = some next) (other : Bool) :
    (link.ends other).sent <+: (next.ends other).sent := by
  cases event with
  | deliver side i =>
      obtain ⟨packet, after, -, hafter, rfl⟩ := step_deliver hstep
      by_cases heq : other = side
      · subst heq
        simpa [delivered] using TcpFactory.handlePacket_sent_prefix hafter
      · simp [delivered, heq]
  | lose side i =>
      cases hstep
      exact List.prefix_rfl

/-- A step in which nothing is sent leaves fewer frames under way. -/
theorem Idle.of_sameSent (hidle : link.Idle) {event : LinkEvent}
    (hstep : link.step event = some next) (hsame : link.SameSent next) : next.Idle := by
  cases event with
  | deliver side i =>
      obtain ⟨packet, after, -, -, rfl⟩ := step_deliver hstep
      have hsent : after.sent = (link.ends side).sent := by
        simpa [delivered] using hsame side
      intro other packet hmem
      cases Bool.eq_or_eq_not other side with
      | inl heq =>
          subst heq
          simp only [delivered, Function.update_of_ne other.self_ne_not, Function.update_self] at hmem
          exact hidle other packet (List.mem_of_mem_eraseIdx hmem)
      | inr heq =>
          subst heq
          simp only [delivered, hsent, List.drop_length, List.append_nil, Function.update_self] at hmem
          exact hidle (!side) packet hmem
  | lose side i =>
      cases hstep
      intro other packet hmem
      by_cases heq : other = side
      · subst heq
        simp only [Function.update_self] at hmem
        exact hidle other packet (List.mem_of_mem_eraseIdx hmem)
      · simp only [Function.update_of_ne heq] at hmem
        exact hidle other packet hmem

/-- A step sends nothing just if the frame is ignored. -/
theorem Idle.sameSent_iff (hidle : link.Idle) {event : LinkEvent}
    (hstep : link.step event = some next) : link.SameSent next ↔ link.Ignored event := by
  cases event with
  | deliver side i =>
      obtain ⟨packet, after, hpacket, hafter, rfl⟩ := step_deliver hstep
      have hiff := handlePacket_sent_iff (hidle.acknowledges hpacket) hafter
      constructor
      · intro hsame other hother
        rw [hpacket, Option.some.injEq] at hother
        subst hother
        exact hiff.mp (by simpa [delivered] using hsame side)
      · intro hignored other
        have hsent := hiff.mpr (hignored packet hpacket)
        by_cases heq : other = side
        · subst heq
          simpa [delivered] using hsent
        · simp [delivered, heq]
  | lose side i =>
      cases hstep
      exact iff_of_true (fun _ => rfl) trivial

/-- In a run without answers there are never more than the first frames under way. -/
theorem Idle.run {events : List LinkEvent} (hidle : link.Idle)
    (hrun : Run step Ignored link events final) : final.Idle ∧ link.SameSent final := by
  refine hrun.invariant (fun state => state.Idle ∧ link.SameSent state) ⟨hidle, fun _ => rfl⟩
    fun before event after ⟨hbefore, hsame⟩ hignored hstep => ?_
  have hquiet := (hbefore.sameSent_iff hstep).mpr hignored
  exact ⟨hbefore.of_sameSent hstep hquiet, fun side => (hquiet side).trans (hsame side)⟩

theorem run_keeps_sent {events : List LinkEvent} (hrun : Run step Admits link events final)
    (side : Bool) : (link.ends side).sent <+: (final.ends side).sent := by
  refine hrun.invariant (fun state => (link.ends side).sent <+: (state.ends side).sent)
    List.prefix_rfl fun _ _ _ hbefore _ hstep => ?_
  exact hbefore.trans (step_keeps_sent hstep side)

/-- Nothing is sent in a run just if every frame is ignored when it is delivered. -/
theorem Idle.run_sameSent_iff {events : List LinkEvent} (hidle : link.Idle)
    (hrun : Run step Admits link events final) :
    link.SameSent final ↔ Run step Ignored link events final := by
  refine ⟨fun hsame => ?_, fun hignored => (hidle.run hignored).2⟩
  induction hrun with
  | nil => exact .nil
  | @snoc events before after event hrun _ hstep ih =>
      -- what was sent neither grew before this step nor in it
      have hgrows : ∀ side, (link.ends side).sent = (before.ends side).sent := by
        intro side
        apply (run_keeps_sent hrun side).eq_of_length_le
        have hle := (step_keeps_sent hstep side).length_le
        rwa [hsame side] at hle
      have hbefore := ih fun side => (hgrows side).symm
      have hstepSame : before.SameSent after := fun side => (hsame side).trans (hgrows side)
      exact hbefore.snoc (((hidle.run hbefore).1.sameSent_iff hstep).mp hstepSame) hstep

/-! ## Acknowledgements of acknowledgements -/

/-- The frame acknowledges, and has the number that the socket of the port expects. -/
def Expected (packet : Packet) (port : Nat) (socket : TcpSocket) : Prop :=
  ∃ (net : TcpFactory) (other : TcpSocket), packet = net.tcpFrame other .zeros 0 flagAck ∧
    other.dstPort.toNat = port ∧ other.seqNum = socket.ackNum

/-- The ends are connected to each other, and an expected acknowledgement is on its
way to one of them. -/
structure PingPong (link : Link) (ports : Bool → Nat) (sockets : Bool → TcpSocket) (turn : Bool) :
    Prop where
  ports_lt : ∀ side, ports side < 128
  found : ∀ side, (link.ends side).sockets (ports side) = some (sockets side)
  established : ∀ side, (sockets side).state = .established
  peer : ∀ side, (sockets side).dstPort.toNat = ports (!side)
  numbers : ∀ side, (sockets (!side)).ackNum = (sockets side).seqNum
  coming : ∃ packet, link.inFlight turn = [packet] ∧ Expected packet (ports turn) (sockets turn)
  nothing : link.inFlight (!turn) = []

theorem acknowledges_tcpFrame (net : TcpFactory) (socket : TcpSocket) :
    Acknowledges (net.tcpFrame socket .zeros 0 flagAck).frame := by
  refine ⟨net.tcpFrame_isTcp _ _ _ _, net.tcpFrame_ipHeaderLen _ _ _ _, ?_⟩
  rw [TcpFactory.tcpFrame_header]
  exact (by decide : flagAck &&& (flagSyn ||| flagFin) = 0)

/-- The answer to an expected acknowledgement is another acknowledgement with the
numbers of the socket; the socket only takes a buffer. -/
theorem resolveSocket_expected (net : TcpFactory) {socket : TcpSocket} {data : ByteArea}
    (remoteIp : IpAddr)
    (hstate : socket.state = .established) (hflags : (tcpHeader data).flags = flagAck)
    (hseq : (tcpHeader data).seqNum = socket.ackNum)
    (hhead : (tcpHeader data).headSize = tcpHeaderSize / 4) :
    ∃ before : TcpFactory, before.sockets = net.sockets ∧ before.sent = net.sent ∧
      net.resolveSocket socket data remoteIp (BitVec.ofNat 16 tcpHeaderSize) =
        before.sendFlags { socket with recvBuffer := socket.recvBuffer.getFirstFreeBuffer.2 }
          flagAck := by
  have hkind : (tcpHeader data).kind = flagAck := by
    rw [TcpHeader.kind, hflags]
    decide
  have hplain : (tcpHeader data).Plain := by
    rw [TcpHeader.Plain, hflags]
    decide
  have hlen : TcpFactory.realLen data (tcpHeader data).headSize tcpHeaderSize = 0 := by
    rw [hhead]
    rfl
  let mem := (net.mem.putLE 4 socket.recvBuffer.getFirstFreeBuffer.1 0).copyIn
    (socket.recvBuffer.getFirstFreeBuffer.1 + 4) data ((tcpHeader data).headSize * 4) 0
  refine ⟨{ net with mem := mem }, rfl, rfl, ?_⟩
  have hsize : (BitVec.ofNat 16 tcpHeaderSize).toNat = tcpHeaderSize := rfl
  -- `ESTABLISHED` falls through to the data path, with a length of 0
  rw [TcpFactory.resolveSocket_of_plain hplain, if_pos hkind, hsize, TcpFactory.resolveAck, hstate]
  dsimp only
  rw [if_neg (by rw [hflags]; decide), TcpFactory.resolveData, if_pos hseq, hlen]
  simp [hstate, mem]

theorem Expected.answered {port : Nat} {socket : TcpSocket} (hexpected : Expected packet port socket)
    (hport : port < 128) (hsocket : net.sockets port = some socket)
    (hstate : socket.state = .established) :
    ∃ before : TcpFactory, before.sockets = net.sockets ∧ before.sent = net.sent ∧
      net.handlePacket packet.data packet.frame.len = some
        ((before.sendFlags { socket with recvBuffer := socket.recvBuffer.getFirstFreeBuffer.2 }
          flagAck).1.setSocket port
            { socket with recvBuffer := socket.recvBuffer.getFirstFreeBuffer.2 }) := by
  obtain ⟨sender, other, rfl, hdst, hseq⟩ := hexpected
  have hframe := acknowledges_tcpFrame sender other
  have hheader : tcpHeader (sender.tcpFrame other .zeros 0 flagAck).frame.segment =
      { srcPort := other.srcPort, dstPort := other.dstPort, seqNum := other.seqNum,
        headSize := tcpHeaderSize / 4, flags := flagAck } :=
    sender.tcpFrame_header other .zeros 0 flagAck
  have hresolve := net.handlePacket_tcp hframe.isTcp hframe.ipHeaderLen
  have hlen : (sender.tcpFrame other .zeros 0 flagAck).frame.len - BitVec.ofNat 16 ethHeaderSize -
      BitVec.ofNat 16 ipHeaderSize = BitVec.ofNat 16 tcpHeaderSize := by
    change BitVec.ofNat 16 (ethHeaderSize + ipHeaderSize + tcpHeaderSize + 0) - _ - _ = _
    decide
  obtain ⟨before, hsockets, hsent, hanswer⟩ := resolveSocket_expected net
    (sender.tcpFrame other .zeros 0 flagAck).frame.remoteIp hstate (by rw [hheader])
    (by rw [hheader]; exact hseq) (by rw [hheader])
  refine ⟨before, hsockets, hsent, ?_⟩
  have hdstPort : (tcpHeader (sender.tcpFrame other .zeros 0 flagAck).frame.segment).dstPort.toNat =
      port := by rw [hheader]; exact hdst
  rw [hlen, TcpFactory.resolvePacket_of_socket (hdstPort.symm ▸ hport) (hdstPort.symm ▸ hsocket),
    hanswer, hdstPort, TcpFactory.sendFlags_socket] at hresolve
  exact hresolve

/-- An expected acknowledgement is answered with one that is expected. -/
theorem PingPong.bounce {ports : Bool → Nat} {sockets : Bool → TcpSocket} {turn : Bool}
    (hlink : link.PingPong ports sockets turn) :
    ∃ next sockets', link.step (.deliver turn 0) = some next ∧ next.PingPong ports sockets' (!turn) ∧
      ∃ packet, (next.ends turn).sent = (link.ends turn).sent ++ [packet] ∧
        (next.ends (!turn)).sent = (link.ends (!turn)).sent := by
  obtain ⟨packet, hpacket, hexpected⟩ := hlink.coming
  obtain ⟨before, hsockets, hsent, hhandle⟩ := hexpected.answered (hlink.ports_lt turn)
    (hlink.found turn) (hlink.established turn)
  set socket : TcpSocket := { sockets turn with
    recvBuffer := (sockets turn).recvBuffer.getFirstFreeBuffer.2 }
  rw [TcpFactory.sendFlags_eq] at hhandle
  set after : TcpFactory := ({ before with
    netIf := before.netIf.getDefaultGatewayMac.2
    sent := before.sent ++ [before.tcpFrame socket .zeros 0 flagAck] } : TcpFactory).setSocket
      (ports turn) socket
  have hafter : after.sent = (link.ends turn).sent ++ [before.tcpFrame socket .zeros 0 flagAck] := by
    rw [← hsent]
    rfl
  -- a socket changes only by the buffer that it takes
  have hsame : ∀ side, ∃ ring,
      Function.update sockets turn socket side = { sockets side with recvBuffer := ring } := by
    intro side
    by_cases heq : side = turn
    · subst heq
      exact ⟨_, Function.update_self side socket sockets⟩
    · exact ⟨(sockets side).recvBuffer, by rw [Function.update_of_ne heq]⟩
  refine ⟨link.delivered turn 0 after, Function.update sockets turn socket, ?_, ?_, ?_⟩
  · exact step_of_handled (by rw [hpacket]; rfl) hhandle
  · constructor
    · exact hlink.ports_lt
    · intro side
      by_cases heq : side = turn
      · subst heq
        simp [delivered, after]
      · simpa [delivered, heq] using hlink.found side
    · intro side
      obtain ⟨ring, hring⟩ := hsame side
      rw [hring]
      exact hlink.established side
    · intro side
      obtain ⟨ring, hring⟩ := hsame side
      rw [hring]
      exact hlink.peer side
    · intro side
      obtain ⟨ring, hring⟩ := hsame side
      obtain ⟨ring', hring'⟩ := hsame (!side)
      rw [hring, hring']
      exact hlink.numbers side
    · refine ⟨before.tcpFrame socket .zeros 0 flagAck, ?_, before, socket, rfl, hlink.peer turn, ?_⟩
      · simp [delivered, hafter, hlink.nothing]
      · rw [Function.update_of_ne (Bool.not_ne_self turn)]
        exact (hlink.numbers turn).symm
    · simp [delivered, hpacket]
  · exact ⟨_, by simpa [delivered] using hafter, by simp [delivered]⟩

/-- The exchange never ends: there are runs of any length in which every delivery
makes the receiver send a segment. -/
theorem PingPong.endless {ports : Bool → Nat} {sockets : Bool → TcpSocket} {turn : Bool}
    (hlink : link.PingPong ports sockets turn) (rounds : Nat) :
    ∃ events final, Run step Admits link events final ∧ events.length = rounds ∧
      (final.ends false).sent.length + (final.ends true).sent.length =
        (link.ends false).sent.length + (link.ends true).sent.length + rounds := by
  have hrounds : ∃ events final sockets' turn', Run step Admits link events final ∧
      final.PingPong ports sockets' turn' ∧ events.length = rounds ∧
      (final.ends false).sent.length + (final.ends true).sent.length =
        (link.ends false).sent.length + (link.ends true).sent.length + rounds := by
    induction rounds with
    | zero => exact ⟨[], link, sockets, turn, .nil, hlink, rfl, rfl⟩
    | succ rounds ih =>
        obtain ⟨events, before, sockets', turn', hrun, hbefore, hlength, hcount⟩ := ih
        obtain ⟨next, sockets'', hstep, hnext, packet, hsent, hother⟩ := hbefore.bounce
        refine ⟨events ++ [.deliver turn' 0], next, sockets'', !turn', hrun.snoc trivial hstep, hnext,
          by simp [hlength], ?_⟩
        -- the ends take turns
        cases turn' with
        | false =>
            rw [Bool.not_false] at hother
            rw [hsent, hother, List.length_append, List.length_singleton]
            omega
        | true =>
            rw [Bool.not_true] at hother
            rw [hsent, hother, List.length_append, List.length_singleton]
            omega
  obtain ⟨events, final, -, -, hrun, -, hlength, hcount⟩ := hrounds
  exact ⟨events, final, hrun, hlength, hcount⟩

end Link

/-- A plain segment gets no answer and takes no buffer just if the socket ignores it,
and two endpoints that have nothing but such segments under way fall silent just if
each of these is ignored when it is delivered. -/
theorem silence_iff (net : TcpFactory) (socket : TcpSocket) (data : ByteArea) (remoteIp : IpAddr)
    (payloadLen : BitVec 16) (link final : Link) (events : List LinkEvent) :
    ((tcpHeader data).dstPort.toNat < 128 →
      net.sockets (tcpHeader data).dstPort.toNat = some socket → (tcpHeader data).Plain →
      (net.Quiet (tcpHeader data).dstPort.toNat (net.resolvePacket data remoteIp payloadLen) ↔
        socket.Ignores (tcpHeader data))) ∧
    (link.Idle → Run Link.step Link.Admits link events final →
      (link.SameSent final ↔ Run Link.step Link.Ignored link events final)) :=
  ⟨fun hport hsocket hplain => TcpFactory.resolvePacket_quiet_iff hport hsocket hplain,
    fun hidle hrun => hidle.run_sameSent_iff hrun⟩

/-- Port 80 connected to port 80 of another host; everything is acknowledged. -/
def pairSocket : TcpSocket := { webSocket with dstPort := 80, seqNum := 5 }

def pairFactory : TcpFactory :=
  { webFactory with sockets := fun port => if port = 80 then some pairSocket else none }

/-- One acknowledgement is on its way, with the given sequence number. -/
def pairLink (seqNum : BitVec 32) : Link where
  ends _ := pairFactory
  inFlight side :=
    if side then [pairFactory.tcpFrame { pairSocket with seqNum := seqNum } .zeros 0 flagAck] else []

/-- An old acknowledgement is ignored. -/
theorem silence_iff_old :
    pairFactory.Quiet 80 (pairFactory.resolvePacket (pairFactory.tcpFrame
      { pairSocket with seqNum := 4 } .zeros 0 flagAck).frame.segment ![172, 17, 0, 3] 24) ∧
    ∃ final, Run Link.step Link.Admits (pairLink 4) [.deliver true 0] final ∧
      (pairLink 4).SameSent final := by
  set packet := pairFactory.tcpFrame { pairSocket with seqNum := 4 } .zeros 0 flagAck
  have hheader : tcpHeader packet.frame.segment =
      { srcPort := 80, dstPort := 80, seqNum := 4, headSize := 6, flags := flagAck } :=
    pairFactory.tcpFrame_header { pairSocket with seqNum := 4 } .zeros 0 flagAck
  have hframe : Link.Acknowledges packet.frame := Link.acknowledges_tcpFrame _ _
  have hport : (tcpHeader packet.frame.segment).dstPort.toNat = 80 := by rw [hheader]; rfl
  have hfound : pairFactory.sockets (tcpHeader packet.frame.segment).dstPort.toNat =
      some pairSocket := by rw [hport]; rfl
  have hignores : pairSocket.Ignores (tcpHeader packet.frame.segment) := by
    rw [hheader]
    exact .inr (by decide)
  have hlt : (tcpHeader packet.frame.segment).dstPort.toNat < 128 := by
    rw [hport]
    decide
  have hquiet (final : Link) (events : List LinkEvent) :=
    silence_iff pairFactory pairSocket packet.frame.segment ![172, 17, 0, 3] 24 (pairLink 4) final
      events
  constructor
  · rw [← hport]
    exact ((hquiet (pairLink 4) []).1 hlt hfound hframe.plain).mpr hignores
  · obtain ⟨after, hhandle⟩ : ∃ after,
        pairFactory.handlePacket packet.data packet.frame.len = some after :=
      ⟨_, (pairFactory.handlePacket_tcp hframe.isTcp hframe.ipHeaderLen).trans
        (TcpFactory.resolvePacket_of_socket hlt hfound)⟩
    have hstep : (pairLink 4).step (.deliver true 0) =
        some ((pairLink 4).delivered true 0 after) := Link.step_of_handled rfl hhandle
    have hidle : (pairLink 4).Idle := by
      intro side other hmem
      cases side with
      | false => cases hmem
      | true => exact List.mem_singleton.mp hmem ▸ hframe
    refine ⟨_, .snoc .nil trivial hstep, ?_⟩
    refine ((hquiet _ _).2 hidle (.snoc .nil trivial hstep)).mpr (.snoc .nil ?_ hstep)
    intro other hother socket hsocket
    have heq : packet = other := Option.some.inj hother
    have hsame : pairSocket = socket := Option.some.inj (hfound.symm.trans (heq ▸ hsocket))
    rw [← heq, ← hsame]
    exact hignores

/-- An acknowledgement in order is answered, and so on without end. -/
theorem acknowledgements_without_end :
    ¬ pairFactory.Quiet 80 (pairFactory.resolvePacket (pairFactory.tcpFrame pairSocket .zeros 0
      flagAck).frame.segment ![172, 17, 0, 3] 24) ∧
    ∀ rounds, ∃ events final, Run Link.step Link.Admits (pairLink 5) events final ∧
      events.length = rounds ∧
      (final.ends false).sent.length + (final.ends true).sent.length = rounds := by
  constructor
  · have hheader : tcpHeader (pairFactory.tcpFrame pairSocket .zeros 0 flagAck).frame.segment =
        { srcPort := 80, dstPort := 80, seqNum := 5, headSize := 6, flags := flagAck } :=
      pairFactory.tcpFrame_header pairSocket .zeros 0 flagAck
    have hport : (tcpHeader (pairFactory.tcpFrame pairSocket .zeros 0
        flagAck).frame.segment).dstPort.toNat = 80 := by
      rw [hheader]
      rfl
    have hlt : (tcpHeader (pairFactory.tcpFrame pairSocket .zeros 0
        flagAck).frame.segment).dstPort.toNat < 128 := by
      rw [hport]
      decide
    rw [← hport, TcpFactory.resolvePacket_quiet_iff hlt (by rw [hport]; rfl)
      (Link.acknowledges_tcpFrame pairFactory pairSocket).plain, hheader]
    decide
  · intro rounds
    have hlink : (pairLink 5).PingPong (fun _ => 80) (fun _ => pairSocket) true := by
      refine ⟨fun _ => by decide, fun _ => rfl, fun _ => rfl, fun _ => rfl, fun _ => rfl, ?_, rfl⟩
      exact ⟨_, rfl, pairFactory, _, rfl, rfl, rfl⟩
    obtain ⟨events, final, hrun, hlength, hcount⟩ := hlink.endless rounds
    exact ⟨events, final, hrun, hlength, hcount.trans (Nat.zero_add rounds)⟩

end Shmily.Net
