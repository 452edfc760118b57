import Shmily.Lib.IndirectRingBuffer
import Shmily.Net.Packet

/-! # TCP sockets

`TcpFactory` keeps one socket a local port. `resolve_packet` finds the socket of a
segment by that port alone and never compares the sender with the other end of the
connection.
-/

namespace Shmily.Net

open Foundation Lib

/-- `tcp_socket_state`. -/
inductive TcpState
  | closed | listening | synSent | synReceived | established | finWait1 | finWait2 | closing
  | timeWait | closeWait | lastAck | accept
  deriving DecidableEq, Repr

def flagFin : Byte := 0x1
def flagSyn : Byte := 0x2
def flagPsh : Byte := 0x8
def flagAck : Byte := 0x10

def tcpHeaderSize : Nat := 24
def pseudoHeaderSize : Nat := 12

structure TcpSocket where
  srcPort : BitVec 16
  srcIp : IpAddr
  dstPort : BitVec 16
  dstIp : IpAddr
  seqNum : BitVec 32
  ackNum : BitVec 32
  state : TcpState
  recvBuffer : IndirectRingBuffer
  bindProc : Nat

/-- The fields of a received header, `tcp_packet`. -/
structure TcpHeader where
  srcPort : BitVec 16
  dstPort : BitVec 16
  seqNum : BitVec 32
  headSize : Nat
  flags : Byte

/-- The header at the start of the bytes, in the byte order of the machine. -/
def tcpHeader (data : ByteArea) : TcpHeader where
  srcPort := swapWord (wordAt data 0)
  dstPort := swapWord (wordAt data 2)
  seqNum := swapDoubleWord (doubleWordAt data 4)
  headSize := (data 12).toNat / 16
  flags := data 13

/-- `TcpFactory` with the memory of the process, the packets it has handed to the driver
and the messages it has sent to processes. -/
structure TcpFactory where
  sockets : Nat → Option TcpSocket
  netIf : NetworkInterface
  mem : ByteArea
  sent : List Packet
  woken : List (Nat × BitVec 16)

namespace TcpFactory

/-- The header that `format_packet` writes, with the checksum still zero. -/
def formatHeader (data : ByteArea) (socket : TcpSocket) (flags : Byte) : ByteArea :=
  let data := putWord data 0 (swapWord socket.srcPort)
  let data := putWord data 2 (swapWord socket.dstPort)
  let data := putDoubleWord data 4 (swapDoubleWord socket.seqNum)
  let data := putDoubleWord data 8 (swapDoubleWord socket.ackNum)
  let data := Function.update data 12 (BitVec.ofNat 8 (tcpHeaderSize / 4 * 16))
  let data := Function.update data 13 flags
  let data := putWord data 14 0xffff
  let data := putWord data 16 0
  let data := putWord data 18 0
  putDoubleWord data 20 (if flags &&& flagSyn ≠ 0 then 0xb4050402 else 0)

/-- `tcp_pseudo_header`. -/
def pseudoHeader (socket : TcpSocket) (payloadDataSize : Nat) : ByteArea :=
  let data := putArray .zeros 0 socket.srcIp
  let data := putArray data 4 socket.dstIp
  let data := putWord data 8 0x0600
  putWord data 10 (swapWord (BitVec.ofNat 16 (tcpHeaderSize + payloadDataSize)))

/-- `format_packet`, on the bytes from the TCP header on. The memory for the checksum
is new and holds zeros. -/
def formatPacket (data : ByteArea) (socket : TcpSocket) (payloadData : ByteArea)
    (payloadDataSize : Nat) (flags : Byte) : ByteArea × TcpSocket :=
  let data := formatHeader data socket flags
  let checkSumUse :=
    ByteArea.zeros.copyIn 0 (pseudoHeader socket payloadDataSize) 0 pseudoHeaderSize
  let checkSumUse := checkSumUse.copyIn pseudoHeaderSize data 0 (tcpHeaderSize + payloadDataSize)
  let checkSumUse :=
    checkSumUse.copyIn (pseudoHeaderSize + tcpHeaderSize) payloadData 0 payloadDataSize
  let data := putWord data 16
    (generateChecksum checkSumUse (pseudoHeaderSize + tcpHeaderSize + payloadDataSize))
  let data := data.copyIn tcpHeaderSize payloadData 0 payloadDataSize
  (data, { socket with seqNum := socket.seqNum + BitVec.ofNat 32 payloadDataSize })

/-- `send`. If the gateway is not in the ARP table its address is read through a null
pointer. -/
def send (net : TcpFactory) (socket : TcpSocket) (payloadData : ByteArea) (size : Nat)
    (flags : Byte) : TcpFactory × TcpSocket :=
  let (mac, netIf) := net.netIf.getDefaultGatewayMac
  let gatewayMacAddr := mac.getD (arrayAt net.mem 0 6)
  let eth := formatEthernet .zeros netIf.macAddr gatewayMacAddr nextIsIp
  let ip := formatIpv4 .zeros netIf.ipAddr socket.dstIp 0x6
    (BitVec.ofNat 16 (ipHeaderSize + tcpHeaderSize + size))
  let (tcp, socket) := formatPacket .zeros socket payloadData size flags
  let data := eth.copyIn ethHeaderSize ip 0 ipHeaderSize
  let data := data.copyIn (ethHeaderSize + ipHeaderSize) tcp 0 (tcpHeaderSize + size)
  let packet : Packet :=
    { size := ethHeaderSize + ipHeaderSize + tcpHeaderSize + size, data := data }
  ({ net with netIf := netIf, sent := net.sent ++ [packet] }, socket)

/-- A segment without payload. -/
def sendFlags (net : TcpFactory) (socket : TcpSocket) (flags : Byte) : TcpFactory × TcpSocket :=
  net.send socket .zeros 0 flags

def setSocket (net : TcpFactory) (port : Nat) (socket : TcpSocket) : TcpFactory :=
  { net with sockets := Function.update net.sockets port (some socket) }

/-- `case SYN` of `resolve_packet`. -/
def resolveSyn (net : TcpFactory) (socket : TcpSocket) (header : TcpHeader) (remoteIp : IpAddr) :
    TcpFactory × TcpSocket :=
  if socket.state ≠ .listening then (net, socket)
  else
    let socket := { socket with
      state := .synReceived, dstPort := header.srcPort, dstIp := remoteIp,
      ackNum := header.seqNum + 1, seqNum := 0 }
    let (net, socket) := net.sendFlags socket (flagSyn ||| flagAck)
    (net, { socket with seqNum := socket.seqNum + 1 })

/-- `case SYN | ACK`. -/
def resolveSynAck (net : TcpFactory) (socket : TcpSocket) (header : TcpHeader) :
    TcpFactory × TcpSocket :=
  if socket.state ≠ .synSent then (net, socket)
  else
    let socket := { socket with
      state := .established, seqNum := socket.seqNum + 1, ackNum := header.seqNum + 1 }
    net.sendFlags socket flagAck

/-- `case FIN` and `case FIN | ACK`. -/
def resolveFin (net : TcpFactory) (socket : TcpSocket) : TcpFactory × TcpSocket :=
  match socket.state with
  | .established =>
      let socket := { socket with state := .closeWait, ackNum := socket.ackNum + 1 }
      let (net, socket) := net.sendFlags socket flagAck
      net.sendFlags socket (flagFin ||| flagAck)
  | .closeWait => (net, { socket with state := .closed })
  | .finWait1 | .finWait2 =>
      let socket := { socket with state := .closed, ackNum := socket.ackNum + 1 }
      net.sendFlags socket flagAck
  | _ => (net, socket)

/-- `real_len`: how many of the bytes between the header and the end of the frame are not
zero. -/
def realLen (data : ByteArea) (headSize payloadLen : Nat) : Nat :=
  (List.range (payloadLen - headSize * 4)).countP fun i => data (headSize * 4 + i) ≠ 0

/-- The `default` case. If the ring is full the bytes are stored through a null pointer. -/
def resolveData (net : TcpFactory) (socket : TcpSocket) (header : TcpHeader) (data : ByteArea)
    (payloadLen : Nat) : TcpFactory × TcpSocket :=
  let len := realLen data header.headSize payloadLen
  if header.seqNum = socket.ackNum then
    let (dataBuf, ring) := socket.recvBuffer.getFirstFreeBuffer
    let mem := (net.mem.putLE 4 dataBuf len).copyIn (dataBuf + 4) data (header.headSize * 4) len
    let socket := { socket with
      recvBuffer := ring, ackNum := socket.ackNum + BitVec.ofNat 32 len }
    { net with mem := mem }.sendFlags socket flagAck
  else (net, socket)

/-- `case ACK`, which goes on to the `default` case unless the socket waits for an
acknowledgement. -/
def resolveAck (net : TcpFactory) (socket : TcpSocket) (header : TcpHeader) (data : ByteArea)
    (payloadLen : Nat) : TcpFactory × TcpSocket :=
  match socket.state with
  | .synReceived =>
      ({ net with woken := net.woken ++ [(socket.bindProc, header.srcPort)] },
        { socket with state := .established })
  | .finWait1 => (net, { socket with state := .finWait2 })
  | .closeWait => (net, { socket with state := .closed })
  | _ =>
      if header.flags &&& flagAck ≠ flagAck then (net, socket)
      else net.resolveData socket header data payloadLen

/-- The `switch` of `resolve_packet`. -/
def resolveSocket (net : TcpFactory) (socket : TcpSocket) (data : ByteArea) (remoteIp : IpAddr)
    (payloadLen : BitVec 16) : TcpFactory × TcpSocket :=
  let header := tcpHeader data
  let flags := header.flags &&& (flagSyn ||| flagAck ||| flagFin)
  if flags = flagSyn then net.resolveSyn socket header remoteIp
  else if flags = flagSyn ||| flagAck then net.resolveSynAck socket header
  else if flags = flagFin ∨ flags = flagFin ||| flagAck then net.resolveFin socket
  else if flags = flagAck then net.resolveAck socket header data payloadLen.toNat
  else net.resolveData socket header data payloadLen.toNat

/-- `resolve_packet`; `none` if it reads past the end of `sockets`. -/
def resolvePacket (net : TcpFactory) (data : ByteArea) (remoteIp : IpAddr)
    (payloadLen : BitVec 16) : Option TcpFactory :=
  let port := (tcpHeader data).dstPort.toNat
  if 128 ≤ port then none
  else
    match net.sockets port with
    | none => some net
    | some socket =>
        let (net, socket) := net.resolveSocket socket data remoteIp payloadLen
        some (net.setSocket port socket)

/-- `recv`: the bytes that are copied to the caller. `none` if there is no socket. If
nothing is queued the length and the bytes are read through a null pointer. -/
def recv (net : TcpFactory) (port : Nat) (len : Nat) : Option (List Byte × TcpFactory) :=
  if 128 ≤ port then none
  else do
    let socket ← net.sockets port
    let (dataBuf, ring) := socket.recvBuffer.getFirstUsedBuffer
    let contentLen := net.mem.getLE 4 dataBuf
    let len := if len > contentLen then contentLen else len
    some ((List.range len).map fun i => net.mem (dataBuf + 4 + i),
      net.setSocket port { socket with recvBuffer := ring })

/-- `ProtocolStack::handle_packet`. ICMP packets are only reported on the console. -/
def handlePacket (net : TcpFactory) (data : ByteArea) (len : BitVec 16) : Option TcpFactory :=
  let next := swapWord (wordAt data 12)
  let body : ByteArea := fun k => data (ethHeaderSize + k)
  if next = nextIsArp then
    let srcMac := arrayAt body 8 6
    let srcIp := arrayAt body 14 4
    if swapWord (wordAt body 6) = reqOpcode then
      let (mac, table) := net.netIf.arpTbl.getMacAddr (arrayAt body 24 4)
      let net := { net with netIf := { net.netIf with arpTbl := table } }
      some (if mac.isSome then
        { net with
          sent := net.sent ++ [arpReply net.netIf.macAddr net.netIf.ipAddr srcMac srcMac srcIp] }
      else net)
    else
      let table := net.netIf.arpTbl.append srcMac srcIp
      some { net with netIf := { net.netIf with arpTbl := table } }
  else if next = nextIsIp then
    if body 9 = 0x06 then
      net.resolvePacket (fun k => body (ipHeaderSize + k)) (arrayAt body 12 4)
        (len - BitVec.ofNat 16 ethHeaderSize - BitVec.ofNat 16 ipHeaderSize)
    else some net
  else some net

section

variable (net : TcpFactory) (port : Nat) (socket : TcpSocket) (flags : Byte)

@[simp]
theorem setSocket_self : (net.setSocket port socket).sockets port = some socket :=
  Function.update_self _ _ _

theorem eq_of_setSocket {after : TcpSocket}
    (hafter : (net.setSocket port socket).sockets port = some after) : after = socket := by
  rw [setSocket_self, Option.some.injEq] at hafter
  exact hafter.symm

/-- A segment without payload does not move the sequence number. -/
@[simp]
theorem sendFlags_socket : (net.sendFlags socket flags).2 = socket := by
  simp [sendFlags, send, formatPacket]

@[simp]
theorem sendFlags_sockets : (net.sendFlags socket flags).1.sockets = net.sockets := rfl

@[simp]
theorem sendFlags_mem : (net.sendFlags socket flags).1.mem = net.mem := rfl

@[simp]
theorem sendFlags_woken : (net.sendFlags socket flags).1.woken = net.woken := rfl

end

end TcpFactory

end Shmily.Net
