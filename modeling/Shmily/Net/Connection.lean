import Shmily.Foundation.Run
import Shmily.Net.Tcp

/-! # Opening and closing connections

The calls by which processes open, use and close sockets, and the events that the
network process handles one after the other. New memory holds zeros from `malloc`. Closing a
socket takes it out of the table at once.
-/

namespace Shmily.Net

open Foundation Lib

namespace TcpFactory

/-- The gateway address that `send` uses. -/
def gatewayMac (net : TcpFactory) : MacAddr :=
  net.netIf.getDefaultGatewayMac.1.getD (arrayAt net.mem 0 6)

/-- The frame that `send` hands to the driver. -/
def tcpFrame (net : TcpFactory) (socket : TcpSocket) (payloadData : ByteArea) (size : Nat)
    (flags : Byte) : Packet where
  size := ethHeaderSize + ipHeaderSize + tcpHeaderSize + size
  data := ((formatEthernet .zeros net.netIf.macAddr net.gatewayMac nextIsIp).copyIn ethHeaderSize
    (formatIpv4 .zeros net.netIf.ipAddr socket.dstIp 0x6
      (BitVec.ofNat 16 (ipHeaderSize + tcpHeaderSize + size))) 0 ipHeaderSize).copyIn
    (ethHeaderSize + ipHeaderSize) (formatPacket .zeros socket payloadData size flags).1 0
    (tcpHeaderSize + size)

/-- Sending touches the gateway's entry of the ARP table, hands over the frame and
moves the sequence number. -/
theorem send_eq (net : TcpFactory) (socket : TcpSocket) (payloadData : ByteArea) (size : Nat)
    (flags : Byte) : net.send socket payloadData size flags =
      ({ net with
          netIf := net.netIf.getDefaultGatewayMac.2
          sent := net.sent ++ [net.tcpFrame socket payloadData size flags] },
        { socket with seqNum := socket.seqNum + BitVec.ofNat 32 size }) := rfl

theorem sendFlags_eq (net : TcpFactory) (socket : TcpSocket) (flags : Byte) :
    net.sendFlags socket flags =
      ({ net with
          netIf := net.netIf.getDefaultGatewayMac.2
          sent := net.sent ++ [net.tcpFrame socket .zeros 0 flags] }, socket) := by
  rw [sendFlags, send_eq]
  simp

@[simp]
theorem sendFlags_sent (net : TcpFactory) (socket : TcpSocket) (flags : Byte) :
    (net.sendFlags socket flags).1.sent = net.sent ++ [net.tcpFrame socket .zeros 0 flags] := by
  rw [sendFlags_eq]

/-- The constructor. -/
def init (netIf : NetworkInterface) (mem : ByteArea) : TcpFactory where
  sockets _ := none
  netIf := netIf
  mem := mem
  sent := []
  woken := []

/-- A socket that starts from new memory. -/
def newSocket (srcIp : IpAddr) (srcPort : BitVec 16) (state : TcpState) : TcpSocket where
  srcPort := srcPort
  srcIp := srcIp
  dstPort := 0
  dstIp := 0
  seqNum := 0
  ackNum := 0
  state := state
  recvBuffer := IndirectRingBuffer.initializeRing fun _ => 0
  bindProc := 0

/-- `listen`, given what `malloc` returns: nothing, or memory for the socket and for the
ten buffers. `none` if it reads past the end of `sockets`; the inner result is the
pointer it returns. -/
def listen (net : TcpFactory) (port : Nat) (memory : Option (Nat → Nat)) :
    Option (TcpFactory × Option TcpSocket) :=
  if 128 ≤ port then none
  else if (net.sockets port).isSome then some (net, none)
  else
    match memory with
    | none => some (net, none)
    | some dataBuf =>
        let socket := { newSocket net.netIf.ipAddr (BitVec.ofNat 16 port) .listening with
          recvBuffer := IndirectRingBuffer.initializeRing dataBuf }
        some (net.setSocket port socket, some socket)

/-- `get_free_port`. -/
def getFreePort (net : TcpFactory) : Option Nat :=
  (List.range' 12 116).find? fun port => (net.sockets port).isNone

/-- `connect`, given whether `malloc` finds memory. The receive ring is not initialised. -/
def connect (net : TcpFactory) (dstIp : IpAddr) (dstPort : BitVec 16) (memory : Bool) :
    TcpFactory × Option TcpSocket :=
  if memory then
    match net.getFreePort with
    | none => (net, none)
    | some srcPort =>
        let socket := { newSocket net.netIf.ipAddr (BitVec.ofNat 16 srcPort) .synSent with
          dstIp := dstIp, dstPort := dstPort }
        let (net, socket) := net.sendFlags socket flagSyn
        (net.setSocket srcPort socket, some socket)
  else (net, none)

/-- `disconnect`. -/
def disconnect (net : TcpFactory) (socket : TcpSocket) : TcpFactory × TcpSocket :=
  let (net, socket) := net.sendFlags { socket with state := .finWait1 } (flagFin ||| flagAck)
  (net, { socket with seqNum := socket.seqNum + 1 })

/-- `socket_accept`. -/
def socketAccept (net : TcpFactory) (port bindProc : Nat) : Option (TcpFactory × Bool) :=
  if 128 ≤ port then none
  else
    match net.sockets port with
    | none => some (net, false)
    | some socket =>
        if socket.state = .listening then
          some (net.setSocket port { socket with bindProc := bindProc }, true)
        else some (net, false)

/-- `send_socket`. -/
def sendSocket (net : TcpFactory) (port : Nat) (data : ByteArea) (len : Nat) :
    Option TcpFactory :=
  if 128 ≤ port then none
  else
    match net.sockets port with
    | none => some net
    | some socket =>
        let (net, socket) := net.send socket data len (flagPsh ||| flagAck)
        some (net.setSocket port socket)

/-- `close_socket`; `none` also if there is no socket, since it is not checked for null. -/
def closeSocket (net : TcpFactory) (port : Nat) : Option TcpFactory :=
  if 128 ≤ port then none
  else
    match net.sockets port with
    | none => none
    | some socket =>
        let (net, _) := net.disconnect socket
        some { net with sockets := Function.update net.sockets port none }

/-- `CONF_NET`: the address is changed and announced. -/
def configure (net : TcpFactory) (ipUint : BitVec 32) : TcpFactory :=
  let netIf := net.netIf.configIface ipUint
  { net with
    netIf := netIf
    sent := net.sent ++ [arpReply netIf.macAddr netIf.ipAddr (fun _ => 0xff) (fun _ => 0xff) 0] }

end TcpFactory

/-- What the network process is asked to do. -/
inductive TcpEvent
  | listen (port : Nat) (memory : Option (Nat → Nat))
  | connect (dstIp : IpAddr) (dstPort : BitVec 16) (memory : Bool)
  | accept (port bindProc : Nat)
  | configure (ipUint : BitVec 32)
  | packet (data : ByteArea) (len : BitVec 16)
  | send (port : Nat) (data : ByteArea) (len : Nat)
  | recv (port len : Nat)
  | close (port : Nat)

namespace TcpFactory

/-- One turn of the loop of the network process. -/
def step (net : TcpFactory) : TcpEvent → Option TcpFactory
  | .listen port memory => (net.listen port memory).map Prod.fst
  | .connect dstIp dstPort memory => some (net.connect dstIp dstPort memory).1
  | .accept port bindProc => (net.socketAccept port bindProc).map Prod.fst
  | .configure ipUint => some (net.configure ipUint)
  | .packet data len => net.handlePacket data len
  | .send port data len => net.sendSocket port data len
  | .recv port len => (net.recv port len).map Prod.snd
  | .close port => net.closeSocket port

/-- Every event may happen. -/
def Admits (_ : TcpFactory) (_ : TcpEvent) : Prop := True

end TcpFactory

end Shmily.Net
