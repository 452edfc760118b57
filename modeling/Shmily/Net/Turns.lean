import Shmily.Net.Answers

/-! # Turns of the network process

The ways in which one turn can end, with what it does to the table of sockets and
which segments it sends.
-/

namespace Shmily.Net

open Foundation Lib

namespace TcpFactory

/-- The socket that `listen` creates. -/
def listeningSocket (net : TcpFactory) (port : Nat) (dataBuf : Nat → Nat) : TcpSocket :=
  { newSocket net.netIf.ipAddr (BitVec.ofNat 16 port) .listening with
    recvBuffer := IndirectRingBuffer.initializeRing dataBuf }

/-- The socket that `connect` creates. -/
def connectingSocket (net : TcpFactory) (port : Nat) (dstIp : IpAddr) (dstPort : BitVec 16) :
    TcpSocket :=
  { newSocket net.netIf.ipAddr (BitVec.ofNat 16 port) .synSent with
    dstIp := dstIp, dstPort := dstPort }

/-- The segment of a frame with what `resolve_packet` is told of the frame. -/
structure Arrival where
  data : ByteArea
  remoteIp : IpAddr
  payloadLen : BitVec 16

def Arrival.port (arrival : Arrival) : Nat := (tcpHeader arrival.data).dstPort.toNat

/-- What the socket of the port makes of the segment. -/
def resolve (net : TcpFactory) (socket : TcpSocket) (arrival : Arrival) : TcpFactory × TcpSocket :=
  net.resolveSocket socket arrival.data arrival.remoteIp arrival.payloadLen

/-- What one turn can do. -/
inductive Turn (net : TcpFactory) : TcpEvent → TcpFactory → Prop
  /-- No socket is concerned. -/
  | idle {event next} (hsockets : next.sockets = net.sockets)
      (hsent : ∃ packets, next.sent = net.sent ++ packets ∧
        ∀ packet ∈ packets, ¬ packet.frame.IsTcp) : Turn net event next
  | listened {port dataBuf} (hport : port < 128) (hnone : net.sockets port = none) :
      Turn net (.listen port (some dataBuf))
        (net.setSocket port (net.listeningSocket port dataBuf))
  | connected {port dstIp dstPort} (hport : port < 128) (hfree : net.getFreePort = some port)
      (hnone : net.sockets port = none) :
      Turn net (.connect dstIp dstPort true)
        ((net.sendFlags (net.connectingSocket port dstIp dstPort) flagSyn).1.setSocket port
          (net.connectingSocket port dstIp dstPort))
  /-- Only the receive ring of a socket or the process it wakes is changed. -/
  | touched {event port socket after} (hsocket : net.sockets port = some socket)
      (hseq : after.seqNum = socket.seqNum) (hstate : after.state = socket.state)
      (hport : after.srcPort = socket.srcPort) : Turn net event (net.setSocket port after)
  | answered {data len socket} (htcp : Frame.IsTcp ⟨data, len⟩) (arrival : Arrival)
      (hdata : arrival.data = tcpPart data)
      (hsocket : net.sockets arrival.port = some socket) :
      Turn net (.packet data len)
        ((net.resolve socket arrival).1.setSocket arrival.port (net.resolve socket arrival).2)
  | sent {port data len socket} (hsocket : net.sockets port = some socket) :
      Turn net (.send port data len)
        ((net.send socket data len (flagPsh ||| flagAck)).1.setSocket port
          (net.send socket data len (flagPsh ||| flagAck)).2)
  | closed {port socket} (hsocket : net.sockets port = some socket) :
      Turn net (.close port) { (net.disconnect socket).1 with
        sockets := Function.update (net.disconnect socket).1.sockets port none }

variable {net next : TcpFactory} {event : TcpEvent}

theorem setSocket_of_ne {port other : Nat} {socket : TcpSocket} (hne : other ≠ port) :
    (net.setSocket port socket).sockets other = net.sockets other :=
  Function.update_of_ne hne _ _

@[simp]
theorem setSocket_sent (net : TcpFactory) (port : Nat) (socket : TcpSocket) :
    (net.setSocket port socket).sent = net.sent := rfl

/-- Handling a segment leaves the table of sockets to `resolve_packet`. -/
theorem resolve_sockets (net : TcpFactory) (socket : TcpSocket) (arrival : Arrival) :
    (net.resolve socket arrival).1.sockets = net.sockets := by
  obtain ⟨asked, flags, hanswer⟩ := net.resolveSocket_answer socket arrival.data arrival.remoteIp
    arrival.payloadLen
  obtain ⟨before, -, -, hsame, hresult⟩ := hanswer.sent
  rw [resolve, hresult, sendAll_sockets, hsame]

/-- The segments that a socket sends in answer to a segment. -/
theorem resolve_answer (net : TcpFactory) (socket : TcpSocket) (arrival : Arrival) :
    ∃ asked flags packets,
      net.Answer socket (tcpHeader arrival.data) (net.resolve socket arrival) asked flags ∧
      (net.resolve socket arrival).1.sent = net.sent ++ packets ∧
      List.Forall₂ (fun packet flag => packet.SentBy net.netIf.ipAddr asked .zeros 0 flag)
        packets flags := by
  obtain ⟨asked, flags, hanswer⟩ :=
    net.resolveSocket_answer socket arrival.data arrival.remoteIp arrival.payloadLen
  obtain ⟨before, hsent, hnetIf, -, hresult⟩ := hanswer.sent
  obtain ⟨packets, hpackets, hall⟩ := before.sendAll_sent asked flags
  refine ⟨asked, flags, packets, hanswer, ?_, hnetIf ▸ hall⟩
  rw [resolve, hresult, hpackets, hsent]

theorem turn_self : Turn net event net :=
  .idle rfl ⟨[], (List.append_nil _).symm, fun _ hmem => by cases hmem⟩

/-- A free port is one without a socket. -/
theorem getFreePort_spec {port : Nat} (hfree : net.getFreePort = some port) :
    12 ≤ port ∧ port < 128 ∧ net.sockets port = none := by
  have hmem := List.mem_of_find?_eq_some hfree
  have hnone := List.find?_some hfree
  rw [List.mem_range'_1] at hmem
  exact ⟨hmem.1, hmem.2, Option.isNone_iff_eq_none.mp hnone⟩

theorem listen_turn {port : Nat} {memory : Option (Nat → Nat)} {result : Option TcpSocket}
    (hlisten : net.listen port memory = some (next, result)) :
    Turn net (.listen port memory) next := by
  unfold listen at hlisten
  split at hlisten
  next => cases hlisten
  next hport =>
    split at hlisten
    next =>
      cases hlisten
      exact turn_self
    next hnone =>
      split at hlisten
      next =>
        cases hlisten
        exact turn_self
      next dataBuf =>
        cases hlisten
        exact .listened (Nat.not_le.mp hport) (by simpa using hnone)

theorem connect_turn (dstIp : IpAddr) (dstPort : BitVec 16) (memory : Bool) :
    Turn net (.connect dstIp dstPort memory) (net.connect dstIp dstPort memory).1 := by
  cases memory with
  | false => exact turn_self
  | true =>
      cases hfree : net.getFreePort with
      | none =>
          rw [connect, if_pos rfl, hfree]
          exact turn_self
      | some port =>
          obtain ⟨-, hport, hnone⟩ := getFreePort_spec hfree
          have hconnect : (net.connect dstIp dstPort true).1 =
              (net.sendFlags (net.connectingSocket port dstIp dstPort) flagSyn).1.setSocket port
                (net.connectingSocket port dstIp dstPort) := by
            rw [connect, if_pos rfl, hfree]
            change (net.sendFlags (net.connectingSocket port dstIp dstPort) flagSyn).1.setSocket port
              (net.sendFlags (net.connectingSocket port dstIp dstPort) flagSyn).2 = _
            rw [sendFlags_socket]
          rw [hconnect]
          exact .connected hport hfree hnone

theorem accept_turn {port bindProc : Nat} {result : Bool}
    (haccept : net.socketAccept port bindProc = some (next, result)) :
    Turn net (.accept port bindProc) next := by
  unfold socketAccept at haccept
  split at haccept
  next => cases haccept
  next =>
    split at haccept
    next =>
      cases haccept
      exact turn_self
    next socket hsocket =>
      split at haccept
      next =>
        cases haccept
        exact .touched hsocket rfl rfl rfl
      next =>
        cases haccept
        exact turn_self

theorem packet_turn {data : ByteArea} {len : BitVec 16}
    (hhandle : net.handlePacket data len = some next) : Turn net (.packet data len) next := by
  rcases handlePacket_cases hhandle with
    ⟨hsockets, -, hsent⟩ | ⟨htcp, remoteIp, payloadLen, hresolve⟩
  · exact .idle hsockets hsent
  -- without a socket on the port the segment is dropped
  · rcases resolvePacket_cases hresolve with ⟨-, rfl⟩ | ⟨socket, hsocket, rfl⟩
    · exact turn_self
    · exact .answered htcp ⟨tcpPart data, remoteIp, payloadLen⟩ rfl hsocket

theorem send_turn {port len : Nat} {data : ByteArea}
    (hsend : net.sendSocket port data len = some next) : Turn net (.send port data len) next := by
  unfold sendSocket at hsend
  split at hsend
  next => cases hsend
  next =>
    split at hsend
    next =>
      cases hsend
      exact turn_self
    next socket hsocket =>
      cases hsend
      exact .sent hsocket

theorem recv_turn {port len : Nat} {bytes : List Byte}
    (hrecv : net.recv port len = some (bytes, next)) : Turn net (.recv port len) next := by
  unfold recv at hrecv
  split at hrecv
  next => cases hrecv
  next =>
    simp only [Option.bind_eq_bind, Option.bind_eq_some_iff, Option.some.injEq,
      Prod.mk.injEq] at hrecv
    obtain ⟨socket, hsocket, -, rfl⟩ := hrecv
    exact .touched hsocket rfl rfl rfl

theorem close_turn {port : Nat} (hclose : net.closeSocket port = some next) :
    Turn net (.close port) next := by
  unfold closeSocket at hclose
  split at hclose
  next => cases hclose
  next =>
    split at hclose
    next => cases hclose
    next socket hsocket =>
      cases hclose
      exact .closed hsocket

theorem configure_turn (ipUint : BitVec 32) : Turn net (.configure ipUint) (net.configure ipUint) := by
  refine .idle rfl ⟨_, rfl, fun packet hmem => ?_⟩
  rw [List.mem_singleton.mp hmem]
  exact arpReply_not_isTcp _ _ _ _ _

/-- Every turn is one of these. -/
theorem step_turn (hstep : net.step event = some next) : Turn net event next := by
  cases event with
  | listen port memory =>
      obtain ⟨⟨after, result⟩, hlisten, rfl⟩ := Option.map_eq_some_iff.mp hstep
      exact listen_turn hlisten
  | connect dstIp dstPort memory =>
      cases hstep
      exact connect_turn dstIp dstPort memory
  | accept port bindProc =>
      obtain ⟨⟨after, result⟩, haccept, rfl⟩ := Option.map_eq_some_iff.mp hstep
      exact accept_turn haccept
  | configure ipUint =>
      cases hstep
      exact configure_turn ipUint
  | packet data len => exact packet_turn hstep
  | send port data len => exact send_turn hstep
  | recv port len =>
      obtain ⟨⟨bytes, after⟩, hrecv, rfl⟩ := Option.map_eq_some_iff.mp hstep
      exact recv_turn hrecv
  | close port => exact close_turn hstep

end TcpFactory

end Shmily.Net
