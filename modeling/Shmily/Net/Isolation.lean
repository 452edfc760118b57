import Mathlib.Data.Fin.VecNotation
import Shmily.Net.Tcp

/-! # Segments from strangers

No case of `resolve_packet` looks at the sender of a segment, so a segment from a
stranger has the effect it would have if it came from the other end. It leaves a
connected socket alone just if the socket refuses it for its flags, its sequence
number or its lack of data.
-/

namespace Shmily.Net

open Foundation Lib

/-- The socket has the same state, numbers and receive ring, and nobody was woken. -/
structure Undisturbed (net : TcpFactory) (socket : TcpSocket)
    (after : TcpFactory × TcpSocket) : Prop where
  woken : after.1.woken = net.woken
  state : after.2.state = socket.state
  seqNum : after.2.seqNum = socket.seqNum
  ackNum : after.2.ackNum = socket.ackNum
  recvBuffer : after.2.recvBuffer = socket.recvBuffer

/-- The flags that `resolve_packet` switches on. -/
def TcpHeader.kind (header : TcpHeader) : Byte := header.flags &&& (flagSyn ||| flagAck ||| flagFin)

/-- The case `ACK` is entered only with the flag that it checks again. -/
theorem TcpHeader.flags_and_ack {header : TcpHeader} (hkind : header.kind = flagAck) :
    header.flags &&& flagAck = flagAck := by
  calc header.flags &&& flagAck
      = header.kind &&& flagAck := by
        rw [TcpHeader.kind, BitVec.and_assoc]
        rfl
    _ = flagAck := by rw [hkind, BitVec.and_self]

/-- There are only zeros between the header and the end of the segment. -/
def NoData (data : ByteArea) (headSize payloadLen : Nat) : Prop :=
  ∀ i < payloadLen - headSize * 4, data (headSize * 4 + i) = 0

/-- The segment is not the next one of the stream, or it holds no data and there is no
room for it. -/
def TcpSocket.RefusesData (socket : TcpSocket) (data : ByteArea) (payloadLen : Nat) : Prop :=
  (tcpHeader data).seqNum ≠ socket.ackNum ∨
    socket.recvBuffer.isFull = true ∧ NoData data (tcpHeader data).headSize payloadLen

/-- A connection request; an answer to one that was not sent; the end of a stream
that is not open; or no next data for a socket that does not wait for an acknowledgement. -/
def TcpSocket.Refuses (socket : TcpSocket) (data : ByteArea) (payloadLen : Nat) : Prop :=
  if (tcpHeader data).kind = flagSyn then True
  else if (tcpHeader data).kind = flagSyn ||| flagAck then socket.state ≠ .synSent
  else if (tcpHeader data).kind = flagFin ∨ (tcpHeader data).kind = flagFin ||| flagAck then
    socket.state ∉ [.established, .closeWait, .finWait1, .finWait2]
  else if (tcpHeader data).kind = flagAck then
    socket.state ∉ [.synReceived, .finWait1, .closeWait] ∧ socket.RefusesData data payloadLen
  else socket.RefusesData data payloadLen

namespace TcpFactory

variable {net : TcpFactory} {socket : TcpSocket} {header : TcpHeader} {data : ByteArea}
  {remoteIp : IpAddr} {payloadLen : Nat}

theorem undisturbed_refl : Undisturbed net socket (net, socket) := ⟨rfl, rfl, rfl, rfl, rfl⟩

theorem resolveSyn_undisturbed (hstate : socket.state ≠ .listening) :
    Undisturbed net socket (net.resolveSyn socket header remoteIp) := by
  rw [resolveSyn, if_pos hstate]
  exact undisturbed_refl

theorem resolveSynAck_undisturbed_iff :
    Undisturbed net socket (net.resolveSynAck socket header) ↔ socket.state ≠ .synSent := by
  rw [resolveSynAck]
  split
  next hstate => exact iff_of_true undisturbed_refl hstate
  next hstate =>
    refine iff_of_false (fun hsame => ?_) hstate
    have hestablished := hsame.state
    simp only [sendFlags_socket] at hestablished
    exact hstate (by simp [← hestablished])

theorem resolveFin_undisturbed_iff :
    Undisturbed net socket (net.resolveFin socket) ↔
      socket.state ∉ [.established, .closeWait, .finWait1, .finWait2] := by
  cases hstate : socket.state
  -- where the state changes it is enough to compare the states
  case established | closeWait | finWait1 | finWait2 =>
    refine iff_of_false (fun hsame => ?_) (by simp)
    have hchanged := hsame.state
    simp [resolveFin, hstate] at hchanged
  all_goals
    rw [resolveFin, hstate]
    exact iff_of_true undisturbed_refl (by simp)

theorem realLen_eq_zero_iff {headSize : Nat} :
    realLen data headSize payloadLen = 0 ↔ NoData data headSize payloadLen := by
  simp [realLen, NoData, List.countP_eq_zero]

theorem realLen_le (data : ByteArea) (headSize payloadLen : Nat) :
    realLen data headSize payloadLen ≤ payloadLen - headSize * 4 := by
  have hle := List.countP_le_length (p := fun i => data (headSize * 4 + i) ≠ 0)
    (l := List.range (payloadLen - headSize * 4))
  rwa [List.length_range] at hle

/-- A ring that is not full gives a buffer away. -/
theorem getFirstFreeBuffer_eq_self_iff (ring : IndirectRingBuffer) :
    ring.getFirstFreeBuffer.2 = ring ↔ ring.isFull = true := by
  rw [IndirectRingBuffer.getFirstFreeBuffer]
  split
  next hfull => exact iff_of_true rfl hfull
  next hfull =>
    refine iff_of_false (fun hsame => ?_) hfull
    have hhead : (ring.head + 1) % ringLen = ring.head := congrArg IndirectRingBuffer.head hsame
    simp only [ringLen] at hhead
    omega

theorem resolveData_undisturbed_iff (hlen : payloadLen < 2 ^ 16) :
    Undisturbed net socket (net.resolveData socket (tcpHeader data) data payloadLen) ↔
      socket.RefusesData data payloadLen := by
  rw [resolveData, TcpSocket.RefusesData]
  split
  next hseq =>
    have hsmall := realLen_le data (tcpHeader data).headSize payloadLen
    rw [← realLen_eq_zero_iff, ← getFirstFreeBuffer_eq_self_iff]
    generalize realLen data (tcpHeader data).headSize payloadLen = len at *
    have hack : socket.ackNum + BitVec.ofNat 32 len = socket.ackNum ↔ len = 0 := by
      rw [BitVec.add_right_eq_self, ← BitVec.toNat_inj, BitVec.toNat_ofNat,
        Nat.mod_eq_of_lt (by omega)]
      rfl
    constructor
    · intro hsame
      have hnum := hsame.ackNum
      have hring := hsame.recvBuffer
      simp only [sendFlags_socket] at hnum hring
      exact .inr ⟨hring, hack.mp hnum⟩
    · rintro (hne | ⟨hring, hzero⟩)
      · exact absurd hseq hne
      · constructor <;> simp only [sendFlags_socket, sendFlags_woken]
        · exact hack.mpr hzero
        · exact hring
  next hseq => exact iff_of_true undisturbed_refl (.inl hseq)

theorem resolveAck_undisturbed_iff (hlen : payloadLen < 2 ^ 16)
    (hkind : (tcpHeader data).kind = flagAck) :
    Undisturbed net socket (net.resolveAck socket (tcpHeader data) data payloadLen) ↔
      socket.state ∉ [.synReceived, .finWait1, .closeWait] ∧
        socket.RefusesData data payloadLen := by
  have hflag := TcpHeader.flags_and_ack hkind
  cases hstate : socket.state
  case synReceived | finWait1 | closeWait =>
    refine iff_of_false (fun hsame => ?_) (by simp)
    have hchanged := hsame.state
    simp [resolveAck, hstate] at hchanged
  all_goals
    rw [resolveAck, hstate]
    simp only [ne_eq, hflag, not_true_eq_false, if_false, resolveData_undisturbed_iff hlen]
    simp

theorem resolveSocket_undisturbed_iff (net : TcpFactory) (remoteIp : IpAddr)
    {payloadLen : BitVec 16} (hstate : socket.state ≠ .listening) :
    Undisturbed net socket (net.resolveSocket socket data remoteIp payloadLen) ↔
      socket.Refuses data payloadLen.toNat := by
  have hlen : payloadLen.toNat < 2 ^ 16 := payloadLen.isLt
  rw [resolveSocket, TcpSocket.Refuses]
  change Undisturbed net socket
    (if (tcpHeader data).kind = flagSyn then _ else
      if (tcpHeader data).kind = flagSyn ||| flagAck then _ else
        if (tcpHeader data).kind = flagFin ∨ (tcpHeader data).kind = flagFin ||| flagAck then _ else
          if (tcpHeader data).kind = flagAck then _ else _) ↔ _
  split
  next => exact iff_of_true (resolveSyn_undisturbed hstate) trivial
  next =>
    split
    next => exact resolveSynAck_undisturbed_iff
    next =>
      split
      next => exact resolveFin_undisturbed_iff
      next =>
        split
        next hkind => exact resolveAck_undisturbed_iff hlen hkind
        next => exact resolveData_undisturbed_iff hlen

/-- The call returns, and leaves the socket of the port and all processes alone. -/
def LeavesAlone (net : TcpFactory) (socket : TcpSocket) (port : Nat) (after : Option TcpFactory) :
    Prop :=
  ∃ net' socket', after = some net' ∧ net'.sockets port = some socket' ∧
    Undisturbed net socket (net', socket')

/-- The segment comes from another address or port than the other end of the connection. -/
def Foreign (socket : TcpSocket) (data : ByteArea) (remoteIp : IpAddr) : Prop :=
  remoteIp ≠ socket.dstIp ∨ (tcpHeader data).srcPort ≠ socket.dstPort

/-- A foreign segment leaves a connected socket alone just if the socket refuses it
whoever sent it. -/
theorem resolvePacket_leavesAlone_iff {payloadLen : BitVec 16}
    (hport : (tcpHeader data).dstPort.toNat < 128)
    (hsocket : net.sockets (tcpHeader data).dstPort.toNat = some socket)
    (hstate : socket.state ≠ .listening) (_hforeign : Foreign socket data remoteIp) :
    net.LeavesAlone socket (tcpHeader data).dstPort.toNat
        (net.resolvePacket data remoteIp payloadLen) ↔
      socket.Refuses data payloadLen.toNat := by
  rw [← resolveSocket_undisturbed_iff net remoteIp hstate, LeavesAlone, resolvePacket]
  simp only [if_neg (Nat.not_le.mpr hport), hsocket, Option.some.injEq]
  constructor
  · rintro ⟨net', socket', rfl, hfound, hsame⟩
    obtain rfl := eq_of_setSocket _ _ _ hfound
    exact ⟨hsame.woken, hsame.state, hsame.seqNum, hsame.ackNum, hsame.recvBuffer⟩
  · intro hsame
    refine ⟨_, _, rfl, setSocket_self _ _ _, ?_⟩
    exact ⟨hsame.woken, hsame.state, hsame.seqNum, hsame.ackNum, hsame.recvBuffer⟩

end TcpFactory

/-- A connection between port 80 and port 1000 of another host. -/
def webSocket : TcpSocket where
  srcPort := 80
  srcIp := ![172, 17, 0, 2]
  dstPort := 1000
  dstIp := ![172, 17, 0, 3]
  seqNum := 1
  ackNum := 5
  state := .established
  recvBuffer := IndirectRingBuffer.initializeRing fun i => 0x2000 * (i + 1)
  bindProc := 0x80000

/-- An interface that knows its gateway. -/
def webInterface : NetworkInterface where
  macAddr := ![2, 0, 0, 0, 0, 2]
  ipAddr := ![172, 17, 0, 2]
  arpTbl := { items := fun _ =>
    { macAddr := ![2, 0, 0, 0, 0, 1], ipAddr := ![172, 17, 0, 1], ref := 0 } }
  defaultGateway := ![172, 17, 0, 1]

/-- A factory with just that connection. -/
def webFactory : TcpFactory where
  sockets port := if port = 80 then some webSocket else none
  netIf := webInterface
  mem := .zeros
  sent := []
  woken := []

/-- What another host sends from port 2000 to port 80. -/
def strangerSegment (flags : Byte) : ByteArea :=
  TcpFactory.formatHeader .zeros { webSocket with srcPort := 2000, dstPort := 80 } flags

/-- An answer to a request that was never sent. -/
theorem resolvePacket_leavesAlone_stranger :
    (tcpHeader (strangerSegment (flagSyn ||| flagAck))).dstPort.toNat < 128 ∧
      TcpFactory.LeavesAlone webFactory webSocket
        (tcpHeader (strangerSegment (flagSyn ||| flagAck))).dstPort.toNat
        (webFactory.resolvePacket (strangerSegment (flagSyn ||| flagAck)) ![172, 17, 0, 9] 24) := by
  have hport : (tcpHeader (strangerSegment (flagSyn ||| flagAck))).dstPort = 80 := by
    decide
  have hkind : (tcpHeader (strangerSegment (flagSyn ||| flagAck))).kind = flagSyn ||| flagAck := by
    decide
  have hlt : (tcpHeader (strangerSegment (flagSyn ||| flagAck))).dstPort.toNat < 128 := by
    rw [hport]
    decide
  refine ⟨hlt, (TcpFactory.resolvePacket_leavesAlone_iff hlt ?_ ?_ ?_).mpr ?_⟩
  · rw [hport]
    rfl
  · decide
  · exact .inl (by decide)
  · rw [TcpSocket.Refuses, hkind, if_neg (by decide), if_pos rfl]
    decide

/-- Anybody can close a connection. -/
theorem stranger_disturbs_socket :
    ¬ ∀ (net : TcpFactory) (socket : TcpSocket) (data : ByteArea) (remoteIp : IpAddr)
      (payloadLen : BitVec 16), (tcpHeader data).dstPort.toNat < 128 →
      net.sockets (tcpHeader data).dstPort.toNat = some socket → socket.state ≠ .listening →
      TcpFactory.Foreign socket data remoteIp →
      net.LeavesAlone socket (tcpHeader data).dstPort.toNat
        (net.resolvePacket data remoteIp payloadLen) := by
  intro hall
  have hport : (tcpHeader (strangerSegment flagFin)).dstPort = 80 := by decide
  have hclosed : ((webFactory.resolvePacket (strangerSegment flagFin) ![172, 17, 0, 9] 24).bind
      (·.sockets 80)).map (·.state) = some .closeWait := by decide
  obtain ⟨net', socket', hnet, hfound, hsame⟩ := hall webFactory webSocket (strangerSegment flagFin)
    ![172, 17, 0, 9] 24 (by rw [hport]; decide) (by rw [hport]; rfl) (by decide) (.inl (by decide))
  rw [hport] at hfound
  have hstate := hsame.state
  change net'.sockets 80 = some socket' at hfound
  rw [hnet, Option.bind_some, hfound, Option.map_some, Option.some.injEq] at hclosed
  cases hclosed.symm.trans hstate

end Shmily.Net
