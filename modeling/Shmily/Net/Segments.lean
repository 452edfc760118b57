import Mathlib.Tactic.IntervalCases
import Shmily.Net.Connection
import Shmily.Net.Stream

/-! # Reading the segments that are sent

What the other end finds in a frame that `TcpFactory::send` has built: the numbers,
the flags and the size are those of the call.
-/

namespace Shmily.Net

open Foundation Lib

theorem swapWord_toNat (word : BitVec 16) :
    (swapWord word).toNat = word.toNat % 256 * 256 + word.toNat / 256 := by
  have hlt := word.isLt
  have hlow : (word &&& 0xff).toNat = word.toNat % 256 := by
    rw [BitVec.toNat_and]
    exact Nat.and_two_pow_sub_one_eq_mod _ 8
  have hshift : ((word &&& 0xff) <<< 8).toNat = (word.toNat % 256) <<< 8 := by
    rw [BitVec.toNat_shiftLeft, hlow, Nat.shiftLeft_eq]
    omega
  have hhigh : (word >>> 8).toNat = word.toNat / 256 := by
    rw [BitVec.toNat_ushiftRight, Nat.shiftRight_eq_div_pow]
  rw [swapWord, BitVec.toNat_or, hshift, hhigh, ← Nat.shiftLeft_add_eq_or_of_lt (by omega),
    Nat.shiftLeft_eq]

@[simp]
theorem swapWord_swapWord (word : BitVec 16) : swapWord (swapWord word) = word := by
  apply BitVec.eq_of_toNat_eq
  have hlt := word.isLt
  rw [swapWord_toNat, swapWord_toNat]
  omega

@[simp]
theorem swapDoubleWord_swapDoubleWord (dw : BitVec 32) :
    swapDoubleWord (swapDoubleWord dw) = dw := by
  ext i hi
  simp only [swapDoubleWord]
  interval_cases i <;> simp

section

variable {area other : ByteArea} {offset offset' : Nat}

@[simp]
theorem wordAt_putWord_self (area : ByteArea) (offset : Nat) (word : BitVec 16) :
    wordAt (putWord area offset word) offset = word := by
  have hlt : word.toNat < 256 ^ 2 := word.isLt
  rw [wordAt, putWord, ByteArea.getLE_putLE_self, Nat.mod_eq_of_lt hlt]
  exact BitVec.ofNat_toNat 16 word

@[simp]
theorem doubleWordAt_putDoubleWord_self (area : ByteArea) (offset : Nat) (dw : BitVec 32) :
    doubleWordAt (putDoubleWord area offset dw) offset = dw := by
  have hlt : dw.toNat < 256 ^ 4 := dw.isLt
  rw [doubleWordAt, putDoubleWord, ByteArea.getLE_putLE_self, Nat.mod_eq_of_lt hlt]
  exact BitVec.ofNat_toNat 32 dw

theorem wordAt_congr (hsame : ∀ i < 2, area (offset + i) = other (offset + i)) :
    wordAt area offset = wordAt other offset := by
  rw [wordAt, wordAt, ByteArea.getLE_congr hsame]

theorem doubleWordAt_congr (hsame : ∀ i < 4, area (offset + i) = other (offset + i)) :
    doubleWordAt area offset = doubleWordAt other offset := by
  rw [doubleWordAt, doubleWordAt, ByteArea.getLE_congr hsame]

theorem putWord_of_not {k : Nat} {word : BitVec 16} (hout : ¬ (offset ≤ k ∧ k < offset + 2)) :
    putWord area offset word k = area k :=
  ByteArea.putLE_of_not hout

theorem putDoubleWord_of_not {k : Nat} {dw : BitVec 32}
    (hout : ¬ (offset ≤ k ∧ k < offset + 4)) : putDoubleWord area offset dw k = area k :=
  ByteArea.putLE_of_not hout

/-! Stores elsewhere. -/

theorem wordAt_putWord {word : BitVec 16} (hne : offset + 2 ≤ offset' ∨ offset' + 2 ≤ offset) :
    wordAt (putWord area offset' word) offset = wordAt area offset :=
  wordAt_congr fun _ _ => putWord_of_not (by omega)

theorem wordAt_putDoubleWord {dw : BitVec 32}
    (hne : offset + 2 ≤ offset' ∨ offset' + 4 ≤ offset) :
    wordAt (putDoubleWord area offset' dw) offset = wordAt area offset :=
  wordAt_congr fun _ _ => putDoubleWord_of_not (by omega)

theorem wordAt_update {byte : Byte} (hne : offset + 2 ≤ offset' ∨ offset' + 1 ≤ offset) :
    wordAt (Function.update area offset' byte) offset = wordAt area offset :=
  wordAt_congr fun _ _ => Function.update_of_ne (by omega) _ _

theorem wordAt_putArray {n : Nat} {array : Fin n → Byte}
    (hne : offset + 2 ≤ offset' ∨ offset' + n ≤ offset) :
    wordAt (putArray area offset' array) offset = wordAt area offset :=
  wordAt_congr fun _ _ => ByteArea.copyIn_of_not (by omega)

theorem doubleWordAt_putWord {word : BitVec 16}
    (hne : offset + 4 ≤ offset' ∨ offset' + 2 ≤ offset) :
    doubleWordAt (putWord area offset' word) offset = doubleWordAt area offset :=
  doubleWordAt_congr fun _ _ => putWord_of_not (by omega)

theorem doubleWordAt_putDoubleWord {dw : BitVec 32}
    (hne : offset + 4 ≤ offset' ∨ offset' + 4 ≤ offset) :
    doubleWordAt (putDoubleWord area offset' dw) offset = doubleWordAt area offset :=
  doubleWordAt_congr fun _ _ => putDoubleWord_of_not (by omega)

theorem doubleWordAt_update {byte : Byte} (hne : offset + 4 ≤ offset' ∨ offset' + 1 ≤ offset) :
    doubleWordAt (Function.update area offset' byte) offset = doubleWordAt area offset :=
  doubleWordAt_congr fun _ _ => Function.update_of_ne (by omega) _ _

end

namespace TcpFactory

section

variable (data : ByteArea) (socket : TcpSocket) (flags : Byte)

/-- The fields of the header are read back. -/
theorem tcpHeader_formatHeader : tcpHeader (formatHeader data socket flags) =
    { srcPort := socket.srcPort, dstPort := socket.dstPort, seqNum := socket.seqNum,
      headSize := tcpHeaderSize / 4, flags := flags } := by
  simp (disch := decide) only [tcpHeader, formatHeader, wordAt_putWord, wordAt_putDoubleWord,
    wordAt_update, doubleWordAt_putWord, doubleWordAt_putDoubleWord, doubleWordAt_update,
    wordAt_putWord_self, doubleWordAt_putDoubleWord_self, swapWord_swapWord,
    swapDoubleWord_swapDoubleWord, putWord_of_not, putDoubleWord_of_not, Function.update_self,
    Function.update_of_ne]
  rfl

end

/-- Only the first bytes are looked at. -/
theorem tcpHeader_congr {area other : ByteArea} (hsame : ∀ k < 14, area k = other k) :
    tcpHeader area = tcpHeader other := by
  have hword : ∀ offset, offset ≤ 10 → wordAt area offset = wordAt other offset := fun offset hle =>
    wordAt_congr fun i _ => hsame _ (by omega)
  have hdouble : doubleWordAt area 4 = doubleWordAt other 4 :=
    doubleWordAt_congr fun i _ => hsame _ (by omega)
  simp only [tcpHeader, hword 0 (by decide), hword 2 (by decide), hdouble, hsame 12 (by decide),
    hsame 13 (by decide)]

section

variable {socket : TcpSocket} {payloadData : ByteArea} {size k : Nat} {flags : Byte}

/-- Up to the checksum the header is what `formatHeader` wrote. -/
theorem formatPacket_header (hk : k < 16) :
    (formatPacket .zeros socket payloadData size flags).1 k = formatHeader .zeros socket flags k := by
  have hpayload : ¬ (tcpHeaderSize ≤ k ∧ k < tcpHeaderSize + size) := by
    simp only [tcpHeaderSize]
    omega
  simp only [formatPacket]
  rw [ByteArea.copyIn_of_not hpayload, putWord_of_not (by omega)]

variable (net : TcpFactory) (socket payloadData size flags)

theorem tcpFrame_ip (hk : k < ipHeaderSize) :
    (net.tcpFrame socket payloadData size flags).data (ethHeaderSize + k) =
      formatIpv4 .zeros net.netIf.ipAddr socket.dstIp 0x6
        (BitVec.ofNat 16 (ipHeaderSize + tcpHeaderSize + size)) k := by
  rw [tcpFrame]
  dsimp only
  rw [ByteArea.copyIn_of_not (by omega), ByteArea.copyIn_at (by omega) (by omega),
    Nat.add_sub_cancel_left, Nat.zero_add]

theorem tcpFrame_tcp (hk : k < tcpHeaderSize + size) :
    (net.tcpFrame socket payloadData size flags).data (ethHeaderSize + ipHeaderSize + k) =
      (formatPacket .zeros socket payloadData size flags).1 k := by
  rw [tcpFrame]
  dsimp only
  rw [ByteArea.copyIn_at (by omega) (by omega), Nat.add_sub_cancel_left, Nat.zero_add]

end

end TcpFactory

/-- A frame as the other end receives it. -/
def Packet.frame (packet : Packet) : Frame where
  data := packet.data
  len := BitVec.ofNat 16 packet.size

/-- The acknowledgement number of a segment. -/
def Frame.ackNum (frame : Frame) : BitVec 32 := swapDoubleWord (doubleWordAt frame.segment 8)

/-- The frame holds a TCP segment. -/
def Frame.IsTcp (frame : Frame) : Prop :=
  swapWord (wordAt frame.data 12) = nextIsIp ∧ frame.data (ethHeaderSize + 9) = 0x06

instance (frame : Frame) : Decidable frame.IsTcp := inferInstanceAs (Decidable (_ ∧ _))

namespace TcpFactory

variable (net : TcpFactory) (socket : TcpSocket) (payloadData : ByteArea) (size : Nat) (flags : Byte)

theorem tcpFrame_isTcp : (net.tcpFrame socket payloadData size flags).frame.IsTcp := by
  constructor
  · have hword : wordAt (net.tcpFrame socket payloadData size flags).data 12 =
        wordAt (formatEthernet .zeros net.netIf.macAddr net.gatewayMac nextIsIp) 12 := by
      refine wordAt_congr fun i hi => ?_
      rw [tcpFrame]
      dsimp only
      rw [ByteArea.copyIn_of_not (by simp only [ethHeaderSize, ipHeaderSize]; omega),
        ByteArea.copyIn_of_not (by simp only [ethHeaderSize, ipHeaderSize]; omega)]
    change swapWord (wordAt (net.tcpFrame socket payloadData size flags).data 12) = nextIsIp
    rw [hword]
    simp (disch := decide) only [formatEthernet, wordAt_putArray, wordAt_putWord_self,
      swapWord_swapWord]
  · have hlt : 9 < ipHeaderSize := by decide
    exact (net.tcpFrame_ip socket payloadData size flags hlt).trans rfl

theorem tcpFrame_ipHeaderLen :
    (net.tcpFrame socket payloadData size flags).frame.ipHeaderLen = ipHeaderSize := by
  have hbyte : (net.tcpFrame socket payloadData size flags).data ethHeaderSize = 0x45 :=
    (net.tcpFrame_ip socket payloadData size flags (by decide : 0 < ipHeaderSize)).trans rfl
  change ((net.tcpFrame socket payloadData size flags).data ethHeaderSize).toNat % 16 * 4 = _
  rw [hbyte]
  rfl

theorem tcpFrame_segment {k : Nat} (hk : k < tcpHeaderSize + size) :
    (net.tcpFrame socket payloadData size flags).frame.segment k =
      (formatPacket .zeros socket payloadData size flags).1 k := by
  rw [Frame.segment, tcpFrame_ipHeaderLen]
  exact net.tcpFrame_tcp socket payloadData size flags hk

/-- The other end finds the fields of the socket and the flags of the call. -/
theorem tcpFrame_header : (net.tcpFrame socket payloadData size flags).frame.header =
    { srcPort := socket.srcPort, dstPort := socket.dstPort, seqNum := socket.seqNum,
      headSize := tcpHeaderSize / 4, flags := flags } := by
  rw [Frame.header, ← tcpHeader_formatHeader .zeros]
  refine tcpHeader_congr fun k hk => ?_
  rw [tcpFrame_segment _ _ _ _ _ (by simp only [tcpHeaderSize]; omega),
    formatPacket_header (by omega)]

end TcpFactory

end Shmily.Net
