import Shmily.Net.Checksum
import Shmily.Net.Connection

/-! # Echo requests

The memory for a packet is new: zeros from `malloc`, any bytes here. `format_packet`
writes all bytes of the ICMP part but the last.
-/

namespace Shmily.Net

open Foundation Lib OnesComplement

def icmpPacketSize : Nat := 64
def icmpRequestType : Byte := 0x08

/-- The header of `ICMPFactory::format_packet` and its data, with the checksum still zero. -/
def formatIcmpBody (data : ByteArea) (type : Byte) : ByteArea :=
  let data := Function.update data 0 type
  let data := Function.update data 1 0
  let data := putWord data 2 0
  let data := putWord data 4 0
  let data := putWord data 6 0
  let data := putArray data 8 (0 : Fin 8 → Byte)
  let data := putArray data 16 ![0x33, 0x2b, 0x04, 0, 0, 0, 0, 0]
  putArray data 24 fun i : Fin 39 => BitVec.ofNat 8 (0x10 + i.val)

/-- `ICMPFactory::format_packet`. -/
def formatIcmp (data : ByteArea) (type : Byte) : ByteArea :=
  putWord (formatIcmpBody data type) 2
    (generateChecksum (formatIcmpBody data type) icmpPacketSize)

/-- A message of a type in a frame; `ICMPFactory::reply`, which nobody calls, only has another
type than `ICMPFactory::request`. -/
def icmpPacket (type : Byte) (mem : ByteArea) (macAddr : MacAddr) (ipAddr targetIp : IpAddr)
    (targetMacAddr : MacAddr) : Packet where
  size := ethHeaderSize + ipHeaderSize + icmpPacketSize
  data :=
    let data := formatEthernet mem macAddr targetMacAddr nextIsIp
    let data := data.copyIn ethHeaderSize
      (formatIpv4 (fun k => mem (ethHeaderSize + k)) ipAddr targetIp 0x1
        (BitVec.ofNat 16 (ipHeaderSize + icmpPacketSize))) 0 ipHeaderSize
    data.copyIn (ethHeaderSize + ipHeaderSize)
      (formatIcmp (fun k => mem (ethHeaderSize + ipHeaderSize + k)) type) 0 icmpPacketSize

/-- `ICMPFactory::request`. -/
def icmpRequest : ByteArea → MacAddr → IpAddr → IpAddr → MacAddr → Packet :=
  icmpPacket icmpRequestType

/-- `PING` of the network process. A gateway that is not in the ARP table is read
through a null pointer. -/
def TcpFactory.ping (net : TcpFactory) (targetIp : IpAddr) (mem : ByteArea) : TcpFactory :=
  { net with
    netIf := net.netIf.getDefaultGatewayMac.2
    sent := net.sent ++ [icmpRequest mem net.netIf.macAddr net.netIf.ipAddr targetIp
      net.gatewayMac] }

/-! ## The bytes of a packet -/

section

variable (type : Byte) (mem : ByteArea) (macAddr : MacAddr) (ipAddr targetIp : IpAddr)
  (targetMacAddr : MacAddr)

theorem icmpPacket_eth {k : Nat} (hk : k < ethHeaderSize) :
    (icmpPacket type mem macAddr ipAddr targetIp targetMacAddr).data k =
      formatEthernet mem macAddr targetMacAddr nextIsIp k := by
  unfold icmpPacket
  dsimp only
  rw [ByteArea.copyIn_of_not (by omega), ByteArea.copyIn_of_not (by omega)]

theorem icmpPacket_ip {offset len : Nat} (hlen : offset + len ≤ ipHeaderSize) :
    (icmpPacket type mem macAddr ipAddr targetIp targetMacAddr).data.bytes
        (ethHeaderSize + offset) len =
      (formatIpv4 (fun k => mem (ethHeaderSize + k)) ipAddr targetIp 0x1
        (BitVec.ofNat 16 (ipHeaderSize + icmpPacketSize))).bytes offset len := by
  refine ByteArea.bytes_congr fun i hi => ?_
  unfold icmpPacket
  dsimp only
  rw [ByteArea.copyIn_of_not (by omega), ByteArea.copyIn_at (by omega) (by omega), Nat.zero_add,
    Nat.add_assoc, Nat.add_sub_cancel_left]

theorem icmpPacket_icmp :
    (icmpPacket type mem macAddr ipAddr targetIp targetMacAddr).data.bytes
        (ethHeaderSize + ipHeaderSize) icmpPacketSize =
      (formatIcmp (fun k => mem (ethHeaderSize + ipHeaderSize + k)) type).bytes 0
        icmpPacketSize := by
  refine ByteArea.bytes_congr fun i hi => ?_
  unfold icmpPacket
  dsimp only
  rw [ByteArea.copyIn_at (Nat.le_add_right _ _) (by omega), Nat.add_sub_cancel_left]

theorem wordAt_formatIcmpBody : wordAt (formatIcmpBody mem type) 2 = 0 := by
  simp (disch := decide) only [formatIcmpBody, wordAt_putArray, wordAt_putWord,
    wordAt_putWord_self]

theorem formatIcmpBody_data : formatIcmpBody mem type 16 = 0x33 := by
  have hdata : ∀ area : ByteArea,
      putArray area 16 (![0x33, 0x2b, 0x04, 0, 0, 0, 0, 0] : Fin 8 → Byte) 16 = 0x33 :=
    fun _ => putArray_at (0 : Fin 8)
  rw [formatIcmpBody]
  exact (putArray_of_not (by decide)).trans (hdata _)

/-- The words of the ICMP part add up, whatever the byte is that is not written. -/
theorem verifies_formatIcmp : Verifies ((formatIcmp mem type).bytes 0 icmpPacketSize) := by
  have hsum : littleSum ((formatIcmp mem type).bytes 0 icmpPacketSize) =
      littleSum ((formatIcmpBody mem type).bytes 0 icmpPacketSize) +
        (generateChecksum (formatIcmpBody mem type) icmpPacketSize).toNat :=
    littleSum_putWord 1 (wordAt_formatIcmpBody type mem) (by decide)
  have hspec : littleSum ((formatIcmpBody mem type).bytes 0 icmpPacketSize) +
      (generateChecksum (formatIcmpBody mem type) icmpPacketSize).toNat ≡ 0 [MOD 65535] :=
    generateChecksum_spec (by decide) (fun hodd => absurd hodd (by decide))
  have hpos : 0x33 ≤ littleSum ((formatIcmpBody mem type).bytes 0 icmpPacketSize) := by
    have hsplit := (formatIcmpBody mem type).bytes_add 0 16 (46 + 2)
    have hword : 0x33 ≤ (formatIcmpBody mem type).getLE 2 (0 + 16) := by
      rw [ByteArea.getLE, Nat.zero_add, formatIcmpBody_data]
      exact Nat.le_add_right 0x33 _
    have hrest := (formatIcmpBody mem type).littleSum_bytes_add_two (0 + 16) 46
    rw [icmpPacketSize, hsplit, littleSum_append (by rw [ByteArea.length_bytes]; decide), hrest]
    omega
  rw [verifies_iff, hsum]
  exact ⟨hspec, by omega⟩

theorem icmpPacket_nextProto {data : ByteArea}
    (hsame : ∀ k < ethHeaderSize + ipHeaderSize + icmpPacketSize,
      data k = (icmpPacket type mem macAddr ipAddr targetIp targetMacAddr).data k) :
    swapWord (wordAt data 12) = nextIsIp ∧ data (ethHeaderSize + 9) = 0x1 := by
  constructor
  · have hword : wordAt data 12 = wordAt (formatEthernet mem macAddr targetMacAddr nextIsIp) 12 :=
      wordAt_congr fun i hi => by
        rw [hsame (12 + i) (by simp only [ethHeaderSize]; omega), icmpPacket_eth]
        simp only [ethHeaderSize]
        omega
    rw [hword]
    simp (disch := decide) only [formatEthernet, wordAt_putArray, wordAt_putWord_self,
      swapWord_swapWord]
  · rw [hsame _ (by decide)]
    unfold icmpPacket
    dsimp only
    rw [ByteArea.copyIn_of_not (by decide), ByteArea.copyIn_at (by decide) (by decide)]
    rfl

/-- An echo request has correct checksums and names the two ends, whatever the new memory
held; a host that runs this code only reports it on the console. -/
theorem ping_not_answered (net other : TcpFactory) (targetIp : IpAddr) (mem : ByteArea) :
    ∃ packet, (net.ping targetIp mem).sent = net.sent ++ [packet] ∧
      Verifies (packet.data.bytes ethHeaderSize ipHeaderSize) ∧
      Verifies (packet.data.bytes (ethHeaderSize + ipHeaderSize) icmpPacketSize) ∧
      packet.data.bytes (ethHeaderSize + 12) 4 = List.ofFn net.netIf.ipAddr ∧
      packet.data.bytes (ethHeaderSize + 16) 4 = List.ofFn targetIp ∧
      ∀ (data : ByteArea) (len : BitVec 16), (∀ k < packet.size, data k = packet.data k) →
        other.handlePacket data len = some other := by
  refine ⟨icmpPacket icmpRequestType mem net.netIf.macAddr net.netIf.ipAddr targetIp
    net.gatewayMac, rfl, ?_, ?_, ?_, ?_, fun data len hsame => ?_⟩
  · have hheader := icmpPacket_ip icmpRequestType mem net.netIf.macAddr net.netIf.ipAddr targetIp
      net.gatewayMac (Nat.zero_add ipHeaderSize).le
    rw [Nat.add_zero] at hheader
    rw [hheader]
    exact verifies_formatIpv4 _ _ _ _ _
  · rw [icmpPacket_icmp]
    exact verifies_formatIcmp _ _
  · rw [icmpPacket_ip _ _ _ _ _ _ (by decide), formatIpv4_srcIp]
  · rw [icmpPacket_ip _ _ _ _ _ _ (by decide), formatIpv4_dstIp]
  · obtain ⟨hnext, hproto⟩ := icmpPacket_nextProto _ _ _ _ _ _ hsame
    have hnotArp : ¬ swapWord (wordAt data 12) = nextIsArp := by
      rw [hnext]
      decide
    have hnotTcp : ¬ data (ethHeaderSize + 9) = 0x06 := by
      rw [hproto]
      decide
    rw [TcpFactory.handlePacket]
    exact (if_neg hnotArp).trans ((if_pos hnext).trans (if_neg hnotTcp))

end

end Shmily.Net
