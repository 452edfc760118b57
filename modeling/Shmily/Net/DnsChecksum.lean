import Shmily.Net.Dns
import Shmily.Net.Verification

/-! # The checksum of DNS queries

`init_udp_header` takes the checksum over as many bytes as the datagram has, but before the
message is written, and without the pseudo-header. What it covers behind the UDP header is
what the new memory holds: zeros from `malloc`, any bytes here.
-/

namespace Shmily.Net

open Foundation Lib OnesComplement

/-- The other end accepts the datagram: it has no checksum, or a correct one. -/
def Frame.AcceptsUdp (frame : Frame) : Prop :=
  wordAt frame.segment 6 = 0 ∨
    Verifies (frame.pseudoHeader ++ frame.segment.bytes 0 frame.udpLength)

/-- The UDP header of a query while its checksum is zero. -/
def udpFields (port : BitVec 16) (url : List Byte) : List Byte :=
  networkWord (allocatePort port) ++ (networkWord dnsPort ++
    (networkWord (BitVec.ofNat 16 (udpHeaderSize + dnsHeaderSize + url.length + 5)) ++ [0, 0]))

/-- The old content of the memory for the message; to an odd length the byte behind it is
added. -/
def staleBytes (memory : ByteArea) (url : List Byte) : List Byte :=
  memory.bytes (ethHeaderSize + ipHeaderSize + udpHeaderSize) (url.length + 18 + url.length % 2)

/-- The pseudo-header that belongs to a query. -/
def udpPseudoHeader (route : DnsRoute) (url : List Byte) : List Byte :=
  List.ofFn route.ipAddr ++ (List.ofFn route.targetIp ++
    [0, 0x11, BitVec.ofNat 8 ((url.length + 26) / 256), BitVec.ofNat 8 ((url.length + 26) % 256)])

/-- The old content makes the checksum zero, or it has the same sum as the pseudo-header and the
message. -/
def ChecksumFits (memory : ByteArea) (port : BitVec 16) (route : DnsRoute)
    (labels : List (List Byte)) : Prop :=
  Verifies (udpFields port (hostName labels) ++ staleBytes memory (hostName labels)) ∨
    (networkWords (udpPseudoHeader route (hostName labels) ++ dnsMessage labels)).sum ≡
      (networkWords (staleBytes memory (hostName labels))).sum [MOD 65535]

variable {labels : List (List Byte)} (memory : ByteArea) (port : BitVec 16) (route : DnsRoute)
  (url : List Byte)

/-! ## What the checksum covers -/

theorem length_udpFields : (udpFields port url).length = 8 := rfl

/-- The destination port is not zero. -/
theorem littleSum_udpFields_pos : 0 < littleSum (udpFields port url) := by
  have hport : littleSum (networkWord dnsPort) = 13568 := by decide
  rw [udpFields, littleSum_append (by exact dvd_rfl), littleSum_append (by exact dvd_rfl), hport]
  omega

theorem udpHeader_eq (data : ByteArea) :
    udpHeader (allocatePort port) dnsPort
      (BitVec.ofNat 16 (udpHeaderSize + dnsHeaderSize + url.length + 5)) data =
        data.putBytes 0 (udpFields port url) := by
  have hzero (area : ByteArea) : putWord area 6 0 = putWord area 6 (swapWord 0) := rfl
  unfold udpHeader
  dsimp only
  rw [hzero]
  simp only [putWord_swapWord]
  rw [putBytes_putBytes _ (by rfl), putBytes_putBytes _ (by rfl), putBytes_putBytes _ (by rfl)]
  rfl

/-- The checksum that `init_udp_header` stores. -/
def storedChecksum : BitVec 16 :=
  generateChecksum ((memory.part (ethHeaderSize + ipHeaderSize)).putBytes 0 (udpFields port url))
    (url.length + 26)

theorem toNat_storedChecksum (hshort : url.length ≤ 253) :
    (storedChecksum memory port url).toNat =
      checksum (udpFields port url ++ staleBytes memory url) := by
  have hcover : ((memory.part (ethHeaderSize + ipHeaderSize)).putBytes 0 (udpFields port url)).bytes 0
      (8 + (url.length + 18 + url.length % 2)) = udpFields port url ++ staleBytes memory url := by
    rw [ByteArea.bytes_add]
    refine congrArg₂ (· ++ ·) (ByteArea.bytes_putBytes _ 0 (udpFields port url))
      (ByteArea.bytes_congr fun i _ => ?_)
    rw [ByteArea.putBytes_of_not (by rw [length_udpFields]; omega), ByteArea.part]
    exact congrArg memory (by simp only [udpHeaderSize]; omega)
  rw [← hcover, storedChecksum]
  rcases Nat.mod_two_eq_zero_or_one url.length with heven | hodd
  · rw [heven, Nat.add_zero, show url.length + 26 = 2 * ((url.length + 26) / 2) by omega,
      generateChecksum_words _ (by omega)]
    exact congrArg (fun len => checksum (ByteArea.bytes _ 0 len)) (by omega)
  · rw [generateChecksum_odd _ (by omega), hodd,
      show url.length + 26 + 1 = 2 * ((url.length + 27) / 2) by omega,
      generateChecksum_words _ (by omega)]
    exact congrArg (fun len => checksum (ByteArea.bytes _ 0 len)) (by omega)

/-! ## What the other end receives -/

theorem initUdpHeader_eq (hshort : url.length ≤ 253) :
    initUdpHeader (allocatePort port) dnsPort
      (BitVec.ofNat 16 (udpHeaderSize + dnsHeaderSize + url.length + 5))
      (memory.part (ethHeaderSize + ipHeaderSize)) =
        putWord ((memory.part (ethHeaderSize + ipHeaderSize)).putBytes 0 (udpFields port url)) 6
          (storedChecksum memory port url) := by
  have hlength : (BitVec.ofNat 16 (udpHeaderSize + dnsHeaderSize + url.length + 5)).toNat =
      url.length + 26 := by
    rw [BitVec.toNat_ofNat]
    simp only [udpHeaderSize, dnsHeaderSize]
    omega
  rw [initUdpHeader, udpHeader_eq, hlength]
  rfl

/-- The checksum field. -/
theorem sendDnsPacket_checksum (hshort : url.length ≤ 253) :
    wordAt (sendDnsPacket memory port route url).1.frame.segment 6 = storedChecksum memory port url := by
  rw [← wordAt_putWord_self ((memory.part (ethHeaderSize + ipHeaderSize)).putBytes 0
    (udpFields port url)) 6 (storedChecksum memory port url), ← initUdpHeader_eq _ _ _ hshort]
  refine wordAt_shift fun i hi => ?_
  rw [sendDnsPacket_segment, sendDnsPacket_udp _ _ _ _ (by simp only [udpHeaderSize]; omega)]

theorem littleSum_sendDnsPacket_header (hshort : url.length ≤ 253) :
    littleSum ((sendDnsPacket memory port route url).1.frame.segment.bytes 0 8) =
      littleSum (udpFields port url) + (storedChecksum memory port url).toNat := by
  have hheader : (sendDnsPacket memory port route url).1.frame.segment.bytes 0 8 =
      (putWord ((memory.part (ethHeaderSize + ipHeaderSize)).putBytes 0 (udpFields port url)) 6
        (storedChecksum memory port url)).bytes 0 8 := by
    refine ByteArea.bytes_congr fun i hi => ?_
    rw [← initUdpHeader_eq _ _ _ hshort, sendDnsPacket_segment,
      sendDnsPacket_udp _ _ _ _ (by simp only [udpHeaderSize]; omega)]
  have hfields : ((memory.part (ethHeaderSize + ipHeaderSize)).putBytes 0 (udpFields port url)).bytes 0 8 =
      udpFields port url := ByteArea.bytes_putBytes _ 0 (udpFields port url)
  rw [hheader, ← hfields]
  exact littleSum_putWord 3 rfl (by decide)

theorem sendDnsPacket_pseudoHeader (hshort : url.length ≤ 253) :
    (sendDnsPacket memory port route url).1.frame.pseudoHeader = udpPseudoHeader route url := by
  have hip {offset len : Nat} (hlen : offset + len ≤ ipHeaderSize) :
      (sendDnsPacket memory port route url).1.frame.data.bytes (ethHeaderSize + offset) len =
        (formatIpv4 ((formatEthernet memory route.macAddr route.targetMacAddr nextIsIp).part
          ethHeaderSize) route.ipAddr route.targetIp 0x11 (BitVec.ofNat 16
            (ipHeaderSize + udpHeaderSize + dnsHeaderSize + url.length + 5))).bytes offset len := by
    refine ByteArea.bytes_congr fun i hi => ?_
    rw [Nat.add_assoc]
    exact sendDnsPacket_ip _ _ _ _ (by omega)
  have hproto : (sendDnsPacket memory port route url).1.frame.data (ethHeaderSize + 9) = 0x11 :=
    (sendDnsPacket_ip memory port route url (by decide : 9 < ipHeaderSize)).trans rfl
  have hlen : (sendDnsPacket memory port route url).1.frame.tcpLen = url.length + 26 := by
    rw [Frame.tcpLen, sendDnsPacket_totalLen _ _ _ _ hshort, sendDnsPacket_ipHeaderLen]
    simp only [ipHeaderSize, udpHeaderSize, dnsHeaderSize]
    omega
  rw [Frame.pseudoHeader, hip (by decide), hip (by decide), formatIpv4_srcIp, formatIpv4_dstIp,
    hproto, hlen, udpPseudoHeader]

/-- The field is zero just if the covered bytes are correct without a checksum. -/
theorem checksum_field_eq_zero_iff (hshort : url.length ≤ 253) :
    wordAt (sendDnsPacket memory port route url).1.frame.segment 6 = 0 ↔
      Verifies (udpFields port url ++ staleBytes memory url) := by
  rw [sendDnsPacket_checksum _ _ _ _ hshort, ← checksum_eq_zero_iff,
    ← toNat_storedChecksum _ _ _ hshort]
  exact ⟨fun heq => by rw [heq]; rfl, fun heq => BitVec.eq_of_toNat_eq heq⟩

/-- The checksum is correct just if the message and the pseudo-header have the sum of the
covered bytes. -/
theorem verifies_sendDnsPacket_iff (hname : IsHostName labels) :
    Verifies ((sendDnsPacket memory port route (hostName labels)).1.frame.pseudoHeader ++
      (sendDnsPacket memory port route (hostName labels)).1.frame.segment.bytes 0
        (sendDnsPacket memory port route (hostName labels)).1.frame.udpLength) ↔
      (networkWords (udpPseudoHeader route (hostName labels) ++ dnsMessage labels)).sum ≡
        (networkWords (staleBytes memory (hostName labels))).sum [MOD 65535] := by
  have hshort := hname.short
  have hcovered := littleSum_add_checksum
    (udpFields port (hostName labels) ++ staleBytes memory (hostName labels))
  rw [← toNat_storedChecksum _ _ _ hshort, littleSum_append (by rw [length_udpFields]; decide)]
    at hcovered
  have heven : 2 ∣ (udpPseudoHeader route (hostName labels)).length := by
    simp [udpPseudoHeader]
  have hlength : (sendDnsPacket memory port route (hostName labels)).1.frame.udpLength =
      8 + (dnsMessage labels).length := by
    rw [sendDnsPacket_udpLength _ _ _ _ hshort, length_dnsMessage hname]
    simp only [udpHeaderSize, dnsHeaderSize]
    omega
  have hmessage : (sendDnsPacket memory port route (hostName labels)).1.frame.segment.bytes 8
      (dnsMessage labels).length = dnsMessage labels :=
    sendDnsPacket_message memory port route hname
  have hpos := littleSum_udpFields_pos port (hostName labels)
  rw [verifies_iff, sum_networkWords_modEq_iff, sendDnsPacket_pseudoHeader _ _ _ _ hshort, hlength,
    ByteArea.bytes_add, Nat.zero_add, littleSum_append heven,
    littleSum_append (by rw [ByteArea.length_bytes]; decide),
    littleSum_sendDnsPacket_header _ _ _ _ hshort, hmessage, littleSum_append heven]
  unfold Nat.ModEq at hcovered ⊢
  omega

/-- A query is accepted just if the old content of the memory happens to fit. -/
theorem acceptsUdp_sendDnsPacket_iff (hname : IsHostName labels) :
    (sendDnsPacket memory port route (hostName labels)).1.frame.AcceptsUdp ↔
      ChecksumFits memory port route labels :=
  or_congr (checksum_field_eq_zero_iff memory port route _ hname.short)
    (verifies_sendDnsPacket_iff memory port route hname)

/-- A server at whose address the pseudo-header and the message have the sum of zeros. -/
def fittingServer : DnsRoute := { nameServer with targetIp := ![172, 17, 63, 229] }

theorem acceptsUdp_fittingServer :
    (sendDnsPacket .zeros 49151 fittingServer (hostName shortName)).1.frame.AcceptsUdp :=
  (acceptsUdp_sendDnsPacket_iff .zeros 49151 fittingServer (by decide)).mpr (.inr (by decide))

/-- With another server it does not fit. -/
theorem not_acceptsUdp_zeros :
    IsHostName shortName ∧
      ¬ (sendDnsPacket .zeros 49151 nameServer (hostName shortName)).1.frame.AcceptsUdp := by
  refine ⟨by decide, fun haccepts => ?_⟩
  rcases haccepts with hzero | hverifies
  · rw [checksum_field_eq_zero_iff _ _ _ _ (by decide)] at hzero
    exact absurd hzero (by decide)
  · rw [verifies_sendDnsPacket_iff _ _ _ (by decide)] at hverifies
    exact absurd hverifies (by decide)

end Shmily.Net
