import Shmily.Net.Segments

/-! # How sockets answer

Every case of `resolve_packet` changes some fields of the socket, sends segments
without payload, and may change the sequence number afterwards. The cases are
listed here once, with the sequence numbers that the segments use up.
-/

namespace Shmily.Net

open Foundation Lib

namespace TcpState

/-- A socket in one of these states has sent a `SYN` or a `FIN` that its sequence
number does not include. -/
def lag : TcpState → BitVec 32
  | .synSent | .closeWait | .closed | .finWait1 | .finWait2 => 1
  | .listening | .synReceived | .established | .closing | .timeWait | .lastAck | .accept => 0

end TcpState

/-- The number that follows those the socket has used. -/
def TcpSocket.nextSeq (socket : TcpSocket) : BitVec 32 := socket.seqNum + socket.state.lag

/-- The packet is a frame that `send` builds for the socket while the interface has
the address. -/
def Packet.SentBy (packet : Packet) (ipAddr : IpAddr) (socket : TcpSocket) (payload : ByteArea)
    (size : Nat) (flags : Byte) : Prop :=
  ∃ net : TcpFactory, net.netIf.ipAddr = ipAddr ∧ packet = net.tcpFrame socket payload size flags

namespace TcpFactory

/-- Segments without payload, one after the other. -/
def sendAll (net : TcpFactory) (socket : TcpSocket) : List Byte → TcpFactory
  | [] => net
  | flags :: rest => (net.sendFlags socket flags).1.sendAll socket rest

/-- What the answer uses up of the sequence numbers. -/
inductive Usage (socket : TcpSocket) (header : TcpHeader) (asked after : TcpSocket) :
    List Byte → Prop
  /-- Nothing, or acknowledgements. -/
  | none {flags} (hflags : ∀ flag ∈ flags, flag = flagAck) (hnext : after.nextSeq = socket.nextSeq) :
      Usage socket header asked after flags
  /-- A `SYN`, from which the sequence number starts. -/
  | syn (hkind : header.kind = flagSyn) (hstate : socket.state = .listening)
      (hasked : asked.seqNum = 0) (hafter : after.nextSeq = 1) :
      Usage socket header asked after [flagSyn ||| flagAck]
  /-- A `FIN`. -/
  | fin (hkind : header.kind = flagFin ∨ header.kind = flagFin ||| flagAck)
      (hstate : socket.state = .established) (hasked : asked.seqNum = socket.seqNum)
      (hafter : after.nextSeq = socket.seqNum + 1) :
      Usage socket header asked after [flagAck, flagFin ||| flagAck]

/-- The segments are sent for the socket `asked`, which becomes `after`. -/
structure Answer (net : TcpFactory) (socket : TcpSocket) (header : TcpHeader)
    (result : TcpFactory × TcpSocket) (asked : TcpSocket) (flags : List Byte) : Prop where
  sent : ∃ before : TcpFactory, before.sent = net.sent ∧ before.netIf = net.netIf ∧
    before.sockets = net.sockets ∧ result.1 = before.sendAll asked flags
  srcIp : asked.srcIp = socket.srcIp ∧ result.2.srcIp = socket.srcIp
  srcPort : asked.srcPort = socket.srcPort ∧ result.2.srcPort = socket.srcPort
  usage : Usage socket header asked result.2 flags

variable {net : TcpFactory} {socket : TcpSocket} {header : TcpHeader} {data : ByteArea}
  {remoteIp : IpAddr}

theorem answer_nothing {woken : List (Nat × BitVec 16)} {after : TcpSocket}
    (hip : after.srcIp = socket.srcIp) (hport : after.srcPort = socket.srcPort)
    (hnext : after.nextSeq = socket.nextSeq) :
    net.Answer socket header ({ net with woken := woken }, after) socket [] where
  sent := ⟨{ net with woken := woken }, rfl, rfl, rfl, rfl⟩
  srcIp := ⟨rfl, hip⟩
  srcPort := ⟨rfl, hport⟩
  usage := .none (fun _ hmem => absurd hmem List.not_mem_nil) hnext

theorem answer_self : net.Answer socket header (net, socket) socket [] :=
  answer_nothing rfl rfl rfl

theorem answer_syn (hkind : header.kind = flagSyn) :
    ∃ asked flags, net.Answer socket header (net.resolveSyn socket header remoteIp) asked flags := by
  rw [resolveSyn]
  split
  next => exact ⟨_, _, answer_self⟩
  next hstate =>
    refine ⟨{ socket with
      state := .synReceived, dstPort := header.srcPort, dstIp := remoteIp,
      ackNum := header.seqNum + 1, seqNum := 0 }, [flagSyn ||| flagAck], ?_, ⟨rfl, rfl⟩,
      ⟨rfl, rfl⟩, ?_⟩
    · exact ⟨net, rfl, rfl, rfl, rfl⟩
    · exact .syn hkind (not_not.mp hstate) rfl rfl

theorem answer_synAck : ∃ asked flags,
    net.Answer socket header (net.resolveSynAck socket header) asked flags := by
  rw [resolveSynAck]
  split
  next => exact ⟨_, _, answer_self⟩
  next hstate =>
    refine ⟨{ socket with
      state := .established, seqNum := socket.seqNum + 1, ackNum := header.seqNum + 1 },
      [flagAck], ?_, ?_, ?_, .none (by simp) ?_⟩
    · exact ⟨net, rfl, rfl, rfl, rfl⟩
    · simp
    · simp
    · simp [TcpSocket.nextSeq, TcpState.lag, not_not.mp hstate]

theorem sendAll_singleton (net : TcpFactory) (socket : TcpSocket) (flag : Byte) :
    net.sendAll socket [flag] = (net.sendFlags socket flag).1 := rfl

/-- The sender of a `FIN` is acknowledged and gets a `FIN` back. -/
theorem resolveFin_established (hstate : socket.state = .established) :
    net.resolveFin socket =
      (net.sendAll { socket with state := .closeWait, ackNum := socket.ackNum + 1 }
        [flagAck, flagFin ||| flagAck],
        { socket with state := .closeWait, ackNum := socket.ackNum + 1 }) := by
  rw [resolveFin, hstate]
  dsimp only
  rw [sendFlags_socket, sendAll, sendAll_singleton]
  exact Prod.ext rfl (sendFlags_socket _ _ _)

theorem answer_fin (hkind : header.kind = flagFin ∨ header.kind = flagFin ||| flagAck) :
    ∃ asked flags, net.Answer socket header (net.resolveFin socket) asked flags := by
  cases hstate : socket.state
  case established =>
    rw [resolveFin_established hstate]
    refine ⟨{ socket with state := .closeWait, ackNum := socket.ackNum + 1 },
      [flagAck, flagFin ||| flagAck], ⟨net, rfl, rfl, rfl, rfl⟩, ⟨rfl, rfl⟩, ⟨rfl, rfl⟩, ?_⟩
    exact .fin hkind hstate rfl (by simp [TcpSocket.nextSeq, TcpState.lag])
  case closeWait =>
    rw [resolveFin, hstate]
    refine ⟨_, _, answer_nothing rfl rfl ?_⟩
    simp [TcpSocket.nextSeq, TcpState.lag, hstate]
  case finWait1 | finWait2 =>
    rw [resolveFin, hstate]
    dsimp only
    refine ⟨{ socket with state := .closed, ackNum := socket.ackNum + 1 }, [flagAck],
      ⟨net, rfl, rfl, rfl, (sendAll_singleton _ _ _).symm⟩, ?_, ?_,
      .none (by simp) (by simp [TcpSocket.nextSeq, TcpState.lag, hstate])⟩
    · simp
    · simp
  all_goals
    rw [resolveFin, hstate]
    exact ⟨_, _, answer_self⟩

theorem answer_data {payloadLen : Nat} : ∃ asked flags,
    net.Answer socket header (net.resolveData socket header data payloadLen) asked flags := by
  unfold resolveData
  dsimp only
  split
  next =>
    refine ⟨{ socket with
      recvBuffer := socket.recvBuffer.getFirstFreeBuffer.2
      ackNum := socket.ackNum + BitVec.ofNat 32 (realLen data header.headSize payloadLen) },
      [flagAck], ?_, ?_, ?_, .none (by simp) (by simp [TcpSocket.nextSeq])⟩
    · refine ⟨_, ?_, ?_, ?_, (sendAll_singleton _ _ _).symm⟩ <;> rfl
    · simp
    · simp
  next => exact ⟨_, _, answer_self⟩

theorem answer_ack {payloadLen : Nat} : ∃ asked flags,
    net.Answer socket header (net.resolveAck socket header data payloadLen) asked flags := by
  unfold resolveAck
  split
  next hstate =>
    refine ⟨_, _, answer_nothing rfl rfl ?_⟩
    simp [TcpSocket.nextSeq, TcpState.lag, hstate]
  next hstate =>
    refine ⟨_, _, answer_nothing rfl rfl ?_⟩
    simp [TcpSocket.nextSeq, TcpState.lag, hstate]
  next hstate =>
    refine ⟨_, _, answer_nothing rfl rfl ?_⟩
    simp [TcpSocket.nextSeq, TcpState.lag, hstate]
  next =>
    split
    next => exact ⟨_, _, answer_self⟩
    next => exact answer_data

theorem resolveSocket_eq (net : TcpFactory) (socket : TcpSocket) (data : ByteArea)
    (remoteIp : IpAddr) (payloadLen : BitVec 16) :
    net.resolveSocket socket data remoteIp payloadLen =
      if (tcpHeader data).kind = flagSyn then net.resolveSyn socket (tcpHeader data) remoteIp
      else if (tcpHeader data).kind = flagSyn ||| flagAck then
        net.resolveSynAck socket (tcpHeader data)
      else if (tcpHeader data).kind = flagFin ∨ (tcpHeader data).kind = flagFin ||| flagAck then
        net.resolveFin socket
      else if (tcpHeader data).kind = flagAck then
        net.resolveAck socket (tcpHeader data) data payloadLen.toNat
      else net.resolveData socket (tcpHeader data) data payloadLen.toNat := rfl

/-- Everything a segment can make a socket do. -/
theorem resolveSocket_answer (net : TcpFactory) (socket : TcpSocket) (data : ByteArea)
    (remoteIp : IpAddr) (payloadLen : BitVec 16) : ∃ asked flags,
    net.Answer socket (tcpHeader data) (net.resolveSocket socket data remoteIp payloadLen)
      asked flags := by
  rw [resolveSocket_eq]
  split
  next hkind => exact answer_syn hkind
  next =>
    split
    next => exact answer_synAck
    next =>
      split
      next hkind => exact answer_fin hkind
      next =>
        split
        next => exact answer_ack
        next => exact answer_data

@[simp]
theorem sendAll_sockets (net : TcpFactory) (socket : TcpSocket) (flags : List Byte) :
    (net.sendAll socket flags).sockets = net.sockets := by
  induction flags generalizing net with
  | nil => rfl
  | cons flag rest ih => rw [sendAll, ih, sendFlags_sockets]

/-- One frame is handed over for each of the flags. -/
theorem sendAll_sent (net : TcpFactory) (socket : TcpSocket) (flags : List Byte) :
    ∃ packets, (net.sendAll socket flags).sent = net.sent ++ packets ∧
      List.Forall₂ (fun packet flag => packet.SentBy net.netIf.ipAddr socket .zeros 0 flag)
        packets flags := by
  induction flags generalizing net with
  | nil => exact ⟨[], by simp [sendAll], .nil⟩
  | cons flag rest ih =>
      obtain ⟨packets, hsent, hpackets⟩ := ih (net.sendFlags socket flag).1
      refine ⟨net.tcpFrame socket .zeros 0 flag :: packets, ?_, ?_⟩
      · rw [sendAll, hsent, sendFlags_eq, List.append_assoc, List.singleton_append]
      · rw [sendFlags_eq] at hpackets
        exact .cons ⟨net, rfl, rfl⟩ hpackets

/-- Handling a segment hands over further frames. -/
theorem resolveSocket_sent_prefix (payloadLen : BitVec 16) :
    net.sent <+: (net.resolveSocket socket data remoteIp payloadLen).1.sent := by
  obtain ⟨asked, flags, hanswer⟩ := net.resolveSocket_answer socket data remoteIp payloadLen
  obtain ⟨before, hsent, -, -, hresult⟩ := hanswer.sent
  obtain ⟨packets, hpackets, -⟩ := before.sendAll_sent asked flags
  rw [hresult, hpackets, hsent]
  exact List.prefix_append _ _

/-- The bytes that `resolve_packet` is given of a frame. -/
def tcpPart (data : ByteArea) : ByteArea := fun k => data (ethHeaderSize + (ipHeaderSize + k))

/-- A segment is handled by the socket of its port, if there is one. -/
theorem resolvePacket_cases {payloadLen : BitVec 16} {next : TcpFactory}
    (hresolve : net.resolvePacket data remoteIp payloadLen = some next) :
    (net.sockets (tcpHeader data).dstPort.toNat = none ∧ next = net) ∨
    ∃ socket, net.sockets (tcpHeader data).dstPort.toNat = some socket ∧
      next = (net.resolveSocket socket data remoteIp payloadLen).1.setSocket
        (tcpHeader data).dstPort.toNat (net.resolveSocket socket data remoteIp payloadLen).2 := by
  unfold resolvePacket at hresolve
  dsimp only at hresolve
  split at hresolve
  next => cases hresolve
  next =>
    split at hresolve
    next hnone =>
      cases hresolve
      exact .inl ⟨hnone, rfl⟩
    next socket hsocket =>
      cases hresolve
      exact .inr ⟨socket, hsocket, rfl⟩

theorem arpReply_not_isTcp (macAddr : MacAddr) (ipAddr : IpAddr) (srcMacAddr resMacAddr : MacAddr)
    (reqIp : IpAddr) :
    ¬ (arpReply macAddr ipAddr srcMacAddr resMacAddr reqIp).frame.IsTcp := by
  intro htcp
  -- the type of the frame is not covered by the reply behind it
  have hword : wordAt (arpReply macAddr ipAddr srcMacAddr resMacAddr reqIp).data 12 =
      wordAt (formatEthernet .zeros macAddr srcMacAddr nextIsArp) 12 := by
    refine wordAt_congr fun i hi => ?_
    rw [arpReply]
    dsimp only
    rw [ByteArea.copyIn_of_not (by simp only [ethHeaderSize]; omega)]
  have hip : swapWord (wordAt (arpReply macAddr ipAddr srcMacAddr resMacAddr reqIp).data 12) =
      nextIsIp := htcp.1
  rw [hword] at hip
  simp (disch := decide) only [formatEthernet, wordAt_putArray, wordAt_putWord_self,
    swapWord_swapWord] at hip
  exact absurd hip (by decide)

/-- A frame is a TCP segment, or no socket is concerned. -/
theorem handlePacket_cases {len : BitVec 16} {next : TcpFactory}
    (hhandle : net.handlePacket data len = some next) :
    (next.sockets = net.sockets ∧ next.netIf.ipAddr = net.netIf.ipAddr ∧
      ∃ packets, next.sent = net.sent ++ packets ∧ ∀ packet ∈ packets, ¬ packet.frame.IsTcp) ∨
    Frame.IsTcp ⟨data, len⟩ ∧
      ∃ remoteIp payloadLen, net.resolvePacket (tcpPart data) remoteIp payloadLen = some next := by
  unfold handlePacket at hhandle
  dsimp only at hhandle
  split at hhandle
  next =>
    left
    split at hhandle
    next =>
      cases hhandle
      -- a request for another address is not answered
      split
      next =>
        refine ⟨rfl, rfl, _, rfl, fun packet hmem => ?_⟩
        rw [List.mem_singleton.mp hmem]
        exact arpReply_not_isTcp _ _ _ _ _
      next => exact ⟨rfl, rfl, [], (List.append_nil _).symm, fun _ hmem => by cases hmem⟩
    next =>
      cases hhandle
      exact ⟨rfl, rfl, [], (List.append_nil _).symm, fun _ hmem => by cases hmem⟩
  next =>
    split at hhandle
    next hip =>
      split at hhandle
      next htcp => exact .inr ⟨⟨hip, htcp⟩, _, _, hhandle⟩
      next =>
        cases hhandle
        exact .inl ⟨rfl, rfl, [], (List.append_nil _).symm, fun _ hmem => by cases hmem⟩
    next =>
      cases hhandle
      exact .inl ⟨rfl, rfl, [], (List.append_nil _).symm, fun _ hmem => by cases hmem⟩

/-- Handling a frame hands over further frames. -/
theorem handlePacket_sent_prefix {len : BitVec 16} {next : TcpFactory}
    (hhandle : net.handlePacket data len = some next) : net.sent <+: next.sent := by
  rcases handlePacket_cases hhandle with
    ⟨-, -, packets, hsent, -⟩ | ⟨-, remoteIp, payloadLen, hresolve⟩
  · exact ⟨packets, hsent.symm⟩
  · rcases resolvePacket_cases hresolve with ⟨-, rfl⟩ | ⟨socket, -, rfl⟩
    · exact List.prefix_rfl
    · exact resolveSocket_sent_prefix payloadLen

end TcpFactory

/-- A frame without IP options is given to `resolve_packet` from its segment on. -/
theorem TcpFactory.handlePacket_tcp (net : TcpFactory) {frame : Frame} (htcp : frame.IsTcp)
    (hlen : frame.ipHeaderLen = ipHeaderSize) :
    net.handlePacket frame.data frame.len = net.resolvePacket frame.segment frame.remoteIp
      (frame.len - BitVec.ofNat 16 ethHeaderSize - BitVec.ofNat 16 ipHeaderSize) := by
  have hsegment : frame.segment = fun k => frame.data (ethHeaderSize + (ipHeaderSize + k)) := by
    funext k
    rw [Frame.segment, hlen, Nat.add_assoc]
  have hremote : frame.remoteIp = arrayAt (fun k => frame.data (ethHeaderSize + k)) 12 4 := by
    funext i
    rw [Frame.remoteIp, arrayAt, arrayAt, Nat.add_assoc]
  rw [handlePacket, hsegment, hremote]
  simp only [htcp.1, htcp.2, if_true, show nextIsIp ≠ nextIsArp by decide, if_false]

end Shmily.Net
