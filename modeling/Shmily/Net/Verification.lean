import Shmily.Net.Checksum
import Shmily.Net.Quiescence
import Shmily.Net.Turns

/-! # Checksums of the frames that are sent

The TCP checksum covers a pseudo-header with the address that the socket was created
with, while the IP header gets the address that the interface has now. The other end
takes the pseudo-header from the IP header.
-/

namespace Shmily.Net

open Foundation Lib OnesComplement

namespace Frame

/-- The length of the segment that the IP header tells. -/
def tcpLen (frame : Frame) : Nat := frame.totalLen - frame.ipHeaderLen

/-- The pseudo-header that belongs to the IP header: the addresses, the protocol and the
length of the segment. -/
def pseudoHeader (frame : Frame) : List Byte :=
  frame.data.bytes (ethHeaderSize + 12) 4 ++ (frame.data.bytes (ethHeaderSize + 16) 4 ++
    [0, frame.data (ethHeaderSize + 9), BitVec.ofNat 8 (frame.tcpLen / 256),
      BitVec.ofNat 8 (frame.tcpLen % 256)])

/-- The header checksum and the checksum of the segment are correct. -/
structure Correct (frame : Frame) : Prop where
  ip : Verifies (frame.data.bytes ethHeaderSize frame.ipHeaderLen)
  tcp : Verifies (frame.pseudoHeader ++ frame.segment.bytes 0 frame.tcpLen)

end Frame

/-- The checksum cannot tell the addresses from each other. -/
def IpAddr.SameSum (first second : IpAddr) : Prop :=
  (networkWords (List.ofFn first)).sum ≡ (networkWords (List.ofFn second)).sum [MOD 65535]

instance (first second : IpAddr) : Decidable (first.SameSum second) :=
  inferInstanceAs (Decidable (_ ≡ _ [MOD _]))

theorem IpAddr.sameSum_iff {first second : IpAddr} : first.SameSum second ↔
    littleSum (List.ofFn first) ≡ littleSum (List.ofFn second) [MOD 65535] :=
  sum_networkWords_modEq_iff _ _

/-! ## The segment -/

namespace TcpFactory

section

variable (socket : TcpSocket) (payloadData : ByteArea) (size : Nat) (flags : Byte)

/-- The segment while its checksum is zero. -/
def unsummed : ByteArea :=
  (formatHeader .zeros socket flags).copyIn tcpHeaderSize payloadData 0 size

/-- The memory whose checksum `format_packet` takes. -/
def checkSumUse : ByteArea :=
  ((ByteArea.zeros.copyIn 0 (pseudoHeader socket size) 0 pseudoHeaderSize).copyIn pseudoHeaderSize
    (formatHeader .zeros socket flags) 0 (tcpHeaderSize + size)).copyIn
      (pseudoHeaderSize + tcpHeaderSize) payloadData 0 size

theorem bytes_checkSumUse : (checkSumUse socket payloadData size flags).bytes 0 (12 + (24 + size)) =
    (pseudoHeader socket size).bytes 0 12 ++
      (unsummed socket payloadData size flags).bytes 0 (24 + size) := by
  rw [ByteArea.bytes_add]
  refine congrArg₂ (· ++ ·) (ByteArea.bytes_congr fun i hi => ?_)
    (ByteArea.bytes_congr fun i hi => ?_)
  · simp only [checkSumUse, pseudoHeaderSize, tcpHeaderSize, Nat.zero_add]
    rw [ByteArea.copyIn_of_not (by omega), ByteArea.copyIn_of_not (by omega),
      ByteArea.copyIn_at (by omega) (by omega), Nat.zero_add, Nat.sub_zero]
  · simp only [checkSumUse, unsummed, pseudoHeaderSize, tcpHeaderSize, Nat.zero_add]
    rcases Nat.lt_or_ge i 24 with hlt | hge
    · rw [ByteArea.copyIn_of_not (by omega), ByteArea.copyIn_at (by omega) (by omega),
        ByteArea.copyIn_of_not (by omega), Nat.zero_add, Nat.add_sub_cancel_left]
    · rw [ByteArea.copyIn_at (by omega) (by omega), ByteArea.copyIn_at (by omega) (by omega)]
      exact congrArg payloadData (by omega)

/-- The checksum is stored into the segment. -/
theorem bytes_formatPacket : (formatPacket .zeros socket payloadData size flags).1.bytes 0 (24 + size) =
    (putWord (unsummed socket payloadData size flags) 16 (generateChecksum
      (checkSumUse socket payloadData size flags) (12 + 24 + size))).bytes 0 (24 + size) := by
  refine ByteArea.bytes_congr fun i hi => ?_
  change ((putWord (formatHeader .zeros socket flags) 16 (generateChecksum
    (checkSumUse socket payloadData size flags) (12 + 24 + size))).copyIn 24 payloadData 0 size)
      (0 + i) = _
  rw [Nat.zero_add]
  rcases Nat.lt_or_ge i 24 with hlt | hge
  · rw [ByteArea.copyIn_of_not (by omega)]
    unfold putWord ByteArea.putLE
    split
    next => rfl
    next => exact (ByteArea.copyIn_of_not (by simp only [tcpHeaderSize]; omega)).symm
  · rw [ByteArea.copyIn_at hge hi, putWord_of_not (by omega)]
    exact (ByteArea.copyIn_at hge hi).symm

theorem littleSum_formatPacket (hsize : 44 + size < 2 ^ 16) :
    littleSum ((pseudoHeader socket size).bytes 0 12) +
      littleSum ((formatPacket .zeros socket payloadData size flags).1.bytes 0 (24 + size)) ≡
        0 [MOD 65535] := by
  have hzero : wordAt (unsummed socket payloadData size flags) (2 * 8) = 0 := by
    have hheader : wordAt (unsummed socket payloadData size flags) (2 * 8) =
        wordAt (formatHeader .zeros socket flags) 16 :=
      wordAt_congr fun i hi => ByteArea.copyIn_of_not (by simp only [tcpHeaderSize]; omega)
    rw [hheader]
    simp (disch := decide) only [formatHeader, wordAt_putDoubleWord, wordAt_putWord,
      wordAt_putWord_self]
  have hpad : checkSumUse socket payloadData size flags (12 + 24 + size) = 0 := by
    simp only [checkSumUse, pseudoHeaderSize, tcpHeaderSize]
    rw [ByteArea.copyIn_of_not (by omega), ByteArea.copyIn_of_not (by omega),
      ByteArea.copyIn_of_not (by omega)]
    rfl
  have hspec : littleSum ((checkSumUse socket payloadData size flags).bytes 0 (12 + 24 + size)) +
      (generateChecksum (checkSumUse socket payloadData size flags) (12 + 24 + size)).toNat ≡
        0 [MOD 65535] := generateChecksum_spec (by omega) fun _ => hpad
  have hsum : littleSum ((putWord (unsummed socket payloadData size flags) 16 (generateChecksum
      (checkSumUse socket payloadData size flags) (12 + 24 + size))).bytes 0 (24 + size)) =
      littleSum ((unsummed socket payloadData size flags).bytes 0 (24 + size)) +
        (generateChecksum (checkSumUse socket payloadData size flags) (12 + 24 + size)).toNat :=
    littleSum_putWord 8 hzero (by omega)
  have hsplit : (checkSumUse socket payloadData size flags).bytes 0 (12 + 24 + size) =
      (pseudoHeader socket size).bytes 0 12 ++
        (unsummed socket payloadData size flags).bytes 0 (24 + size) := by
    rw [Nat.add_assoc]
    exact bytes_checkSumUse socket payloadData size flags
  rw [hsplit, littleSum_append (by simp), Nat.add_assoc] at hspec
  rw [bytes_formatPacket]
  exact hsum ▸ hspec

theorem littleSum_pseudoHeader : littleSum ((pseudoHeader socket size).bytes 0 12) =
    littleSum (List.ofFn socket.srcIp) + (littleSum (List.ofFn socket.dstIp) +
      (0x0600 + (swapWord (BitVec.ofNat 16 (tcpHeaderSize + size))).toNat)) := by
  have hsrc : (pseudoHeader socket size).bytes 0 4 = List.ofFn socket.srcIp := by
    refine ByteArea.bytes_eq_ofFn fun i => ?_
    unfold pseudoHeader
    rw [putWord_of_not (by omega), putWord_of_not (by omega), putArray_of_not (by omega), putArray_at]
  have hdst : (pseudoHeader socket size).bytes 4 4 = List.ofFn socket.dstIp := by
    refine ByteArea.bytes_eq_ofFn fun i => ?_
    unfold pseudoHeader
    rw [putWord_of_not (by omega), putWord_of_not (by omega), putArray_at]
  have hrest : littleSum ((pseudoHeader socket size).bytes 8 (2 + 2)) =
      0x0600 + (swapWord (BitVec.ofNat 16 (tcpHeaderSize + size))).toNat := by
    have hproto : wordAt (pseudoHeader socket size) 8 = 0x0600 := by
      simp (disch := decide) only [pseudoHeader, wordAt_putWord, wordAt_putWord_self]
    have hlen : wordAt (pseudoHeader socket size) 10 =
        swapWord (BitVec.ofNat 16 (tcpHeaderSize + size)) := by
      simp (disch := decide) only [pseudoHeader, wordAt_putWord_self]
    rw [ByteArea.littleSum_bytes_add_two, getLE_wordAt, hproto]
    refine congrArg (_ + ·) ?_
    change (pseudoHeader socket size).getLE 2 10 = _
    rw [getLE_wordAt, hlen]
  rw [show 12 = 4 + (4 + 4) from rfl, ByteArea.bytes_add, ByteArea.bytes_add, hsrc, hdst,
    littleSum_append (by simp), littleSum_append (by simp)]
  exact congrArg (_ + ·) (congrArg (_ + ·) hrest)

end

/-! ## The frame -/

section

variable (net : TcpFactory) (socket : TcpSocket) (payloadData : ByteArea) (size : Nat) (flags : Byte)

theorem tcpFrame_tcpLen (hsize : 44 + size < 2 ^ 16) :
    (net.tcpFrame socket payloadData size flags).frame.tcpLen = tcpHeaderSize + size := by
  have htotal : wordAt (net.tcpFrame socket payloadData size flags).data (ethHeaderSize + 2) =
      swapWord (BitVec.ofNat 16 (ipHeaderSize + tcpHeaderSize + size)) := by
    rw [← formatIpv4_totalLen .zeros net.netIf.ipAddr socket.dstIp 0x6]
    refine wordAt_shift fun i hi => ?_
    rw [Nat.add_assoc, tcpFrame_ip _ _ _ _ _ (by simp only [ipHeaderSize]; omega)]
  have hlen : (net.tcpFrame socket payloadData size flags).frame.totalLen =
      ipHeaderSize + tcpHeaderSize + size := by
    change (swapWord (wordAt (net.tcpFrame socket payloadData size flags).data _)).toNat = _
    rw [htotal, swapWord_swapWord, BitVec.toNat_ofNat]
    exact Nat.mod_eq_of_lt (by simp only [ipHeaderSize, tcpHeaderSize]; omega)
  rw [Frame.tcpLen, hlen, tcpFrame_ipHeaderLen, Nat.add_assoc, Nat.add_sub_cancel_left]

theorem bytes_tcpFrame_ip {offset len : Nat} (hlen : offset + len ≤ ipHeaderSize) :
    (net.tcpFrame socket payloadData size flags).data.bytes (ethHeaderSize + offset) len =
      (formatIpv4 .zeros net.netIf.ipAddr socket.dstIp 0x6
        (BitVec.ofNat 16 (ipHeaderSize + tcpHeaderSize + size))).bytes offset len := by
  refine ByteArea.bytes_congr fun i hi => ?_
  rw [Nat.add_assoc, tcpFrame_ip _ _ _ _ _ (by omega)]

/-- The header checksum is always correct. -/
theorem tcpFrame_verifies_ip :
    Verifies ((net.tcpFrame socket payloadData size flags).frame.data.bytes ethHeaderSize
      (net.tcpFrame socket payloadData size flags).frame.ipHeaderLen) := by
  have hbytes := bytes_tcpFrame_ip net socket payloadData size flags
    (Nat.le_of_eq (Nat.zero_add ipHeaderSize))
  rw [Nat.add_zero] at hbytes
  rw [tcpFrame_ipHeaderLen, Packet.frame, hbytes]
  exact verifies_formatIpv4 _ _ _ _ _

/-- The pseudo-header that the other end uses has the address of the interface. -/
theorem littleSum_tcpFrame_pseudoHeader (hsize : 44 + size < 2 ^ 16) :
    littleSum (net.tcpFrame socket payloadData size flags).frame.pseudoHeader =
      littleSum (List.ofFn net.netIf.ipAddr) + (littleSum (List.ofFn socket.dstIp) +
        (0x0600 + (swapWord (BitVec.ofNat 16 (tcpHeaderSize + size))).toNat)) := by
  have hsrc := bytes_tcpFrame_ip net socket payloadData size flags (by decide : 12 + 4 ≤ ipHeaderSize)
  have hdst := bytes_tcpFrame_ip net socket payloadData size flags (by decide : 16 + 4 ≤ ipHeaderSize)
  rw [formatIpv4_srcIp] at hsrc
  rw [formatIpv4_dstIp] at hdst
  have hproto : (net.tcpFrame socket payloadData size flags).data (ethHeaderSize + 9) = 0x06 :=
    (tcpFrame_isTcp net socket payloadData size flags).2
  have hlt : tcpHeaderSize + size < 2 ^ 16 := by
    simp only [tcpHeaderSize]
    omega
  have hword : (swapWord (BitVec.ofNat 16 (tcpHeaderSize + size))).toNat =
      (tcpHeaderSize + size) % 256 * 256 + (tcpHeaderSize + size) / 256 := by
    rw [swapWord_toNat, BitVec.toNat_ofNat, Nat.mod_eq_of_lt hlt]
  -- the protocol and the length are in network order
  have hfields : littleSum [0, 0x06, BitVec.ofNat 8 ((tcpHeaderSize + size) / 256),
      BitVec.ofNat 8 ((tcpHeaderSize + size) % 256)] =
      0x0600 + ((tcpHeaderSize + size) % 256 * 256 + (tcpHeaderSize + size) / 256) := by
    have hzero : (0 : Byte).toNat = 0 := rfl
    have hsix : (0x06 : Byte).toNat = 6 := rfl
    have hhigh : (tcpHeaderSize + size) / 256 < 2 ^ 8 := Nat.div_lt_of_lt_mul hlt
    have hlow : (tcpHeaderSize + size) % 256 < 2 ^ 8 := Nat.mod_lt _ (by decide)
    simp only [littleSum, BitVec.toNat_ofNat, hzero, hsix, Nat.mod_eq_of_lt hhigh,
      Nat.mod_eq_of_lt hlow]
    omega
  rw [Frame.pseudoHeader, tcpFrame_tcpLen _ _ _ _ _ hsize, littleSum_append (by simp),
    littleSum_append (by simp)]
  change littleSum ((net.tcpFrame socket payloadData size flags).data.bytes _ 4) +
    (littleSum ((net.tcpFrame socket payloadData size flags).data.bytes _ 4) + littleSum
      [0, (net.tcpFrame socket payloadData size flags).data (ethHeaderSize + 9), _, _]) = _
  rw [hsrc, hdst, hproto, hword, hfields]

/-- The checksum is correct just if the address of the socket has the same sum as that of
the interface. -/
theorem tcpFrame_verifies_iff (hsize : 44 + size < 2 ^ 16) :
    Verifies ((net.tcpFrame socket payloadData size flags).frame.pseudoHeader ++
      (net.tcpFrame socket payloadData size flags).frame.segment.bytes 0
        (net.tcpFrame socket payloadData size flags).frame.tcpLen) ↔
      socket.srcIp.SameSum net.netIf.ipAddr := by
  have hsegment : (net.tcpFrame socket payloadData size flags).frame.segment.bytes 0
      (tcpHeaderSize + size) =
      (formatPacket .zeros socket payloadData size flags).1.bytes 0 (24 + size) :=
    ByteArea.bytes_congr fun i hi => by
      rw [tcpFrame_segment _ _ _ _ _ (by omega)]
  have heven : 2 ∣ (net.tcpFrame socket payloadData size flags).frame.pseudoHeader.length := by
    simp [Frame.pseudoHeader]
  have hown := littleSum_formatPacket socket payloadData size flags hsize
  rw [littleSum_pseudoHeader] at hown
  rw [verifies_iff, IpAddr.sameSum_iff, tcpFrame_tcpLen _ _ _ _ _ hsize, littleSum_append heven,
    littleSum_tcpFrame_pseudoHeader _ _ _ _ _ hsize, hsegment]
  unfold Nat.ModEq at hown ⊢
  omega

theorem tcpFrame_correct_iff (hsize : 44 + size < 2 ^ 16) :
    (net.tcpFrame socket payloadData size flags).frame.Correct ↔
      socket.srcIp.SameSum net.netIf.ipAddr := by
  have hip := net.tcpFrame_verifies_ip socket payloadData size flags
  exact Iff.trans ⟨Frame.Correct.tcp, fun htcp => ⟨hip, htcp⟩⟩
    (net.tcpFrame_verifies_iff socket payloadData size flags hsize)

end

/-! ## Runs -/

/-- A socket that is about to send has an address with the same sum as the interface, and
the length of the frame fits its field. -/
def Truthful (net : TcpFactory) : TcpEvent → Prop
  | .packet data len => Frame.IsTcp ⟨data, len⟩ →
      ∀ socket, net.sockets (tcpHeader (tcpPart data)).dstPort.toNat = some socket →
        socket.Silent (tcpHeader (tcpPart data)) ∨ socket.srcIp.SameSum net.netIf.ipAddr
  | .send port _ len => ∀ socket, net.sockets port = some socket →
      ipHeaderSize + tcpHeaderSize + len < 2 ^ 16 ∧ socket.srcIp.SameSum net.netIf.ipAddr
  | .close port => ∀ socket, net.sockets port = some socket →
      socket.srcIp.SameSum net.netIf.ipAddr
  | .listen _ _ | .connect _ _ _ | .accept _ _ | .configure _ | .recv _ _ => True

/-- Every segment sent so far has correct checksums. -/
def AllCorrect (net : TcpFactory) : Prop :=
  ∀ packet ∈ net.sent, packet.frame.IsTcp → packet.frame.Correct

variable {net next : TcpFactory} {event : TcpEvent}

theorem exists_of_forall₂ {Item Other : Type} {related : Item → Other → Prop} {items : List Item}
    {others : List Other} (hall : List.Forall₂ related items others) :
    ∀ item ∈ items, ∃ other, related item other := by
  induction hall with
  | nil => exact fun item hmem => absurd hmem List.not_mem_nil
  | @cons first other _ _ hfirst _ ih =>
      intro item hmem
      rcases List.mem_cons.mp hmem with rfl | hrest
      · exact ⟨other, hfirst⟩
      · exact ih item hrest

/-- Every segment that a turn sends, and under which condition its checksum is correct. -/
theorem Turn.sent_cases (hturn : Turn net event next) :
    ∃ packets, next.sent = net.sent ++ packets ∧ ∀ packet ∈ packets, packet.frame.IsTcp →
      ∃ socket payload size flags, packet.SentBy net.netIf.ipAddr socket payload size flags ∧
        (net.Truthful event →
          44 + size < 2 ^ 16 ∧ socket.srcIp.SameSum net.netIf.ipAddr) := by
  have hnothing : ∀ {sent : List Packet}, sent = net.sent →
      ∃ packets, sent = net.sent ++ packets ∧ ∀ packet ∈ packets, packet.frame.IsTcp →
        ∃ socket payload size flags, packet.SentBy net.netIf.ipAddr socket payload size flags ∧
          (net.Truthful event → 44 + size < 2 ^ 16 ∧ socket.srcIp.SameSum net.netIf.ipAddr) :=
    fun heq => ⟨[], by rw [heq, List.append_nil], fun _ hmem => by cases hmem⟩
  cases hturn with
  | idle _ hsent =>
      obtain ⟨packets, hpackets, hother⟩ := hsent
      exact ⟨packets, hpackets, fun packet hmem htcp => absurd htcp (hother packet hmem)⟩
  | listened _ _ => exact hnothing rfl
  | @connected port dstIp dstPort _ _ _ =>
      refine ⟨[net.tcpFrame (net.connectingSocket port dstIp dstPort) .zeros 0 flagSyn],
        sendFlags_sent _ _ _, fun packet hmem _ => ?_⟩
      rw [List.mem_singleton.mp hmem]
      exact ⟨_, _, _, _, ⟨net, rfl, rfl⟩, fun _ => ⟨by decide, .rfl⟩⟩
  | touched _ _ _ _ => exact hnothing rfl
  | @answered data len socket htcp arrival hdata hsocket =>
      have hport : net.sockets (tcpHeader (tcpPart data)).dstPort.toNat = some socket := by
        rwa [Arrival.port, hdata] at hsocket
      -- a silent socket sends nothing, whatever its address is
      by_cases hsilent : socket.Silent (tcpHeader (tcpPart data))
      · rw [← hdata] at hsilent
        exact hnothing ((net.resolveSocket_silent_iff arrival.remoteIp arrival.payloadLen).mpr hsilent)
      · obtain ⟨asked, flags, packets, hanswer, hpackets, hall⟩ := net.resolve_answer socket arrival
        refine ⟨packets, hpackets, fun packet hmem _ => ?_⟩
        obtain ⟨flag, hpacket⟩ := exists_of_forall₂ hall packet hmem
        refine ⟨asked, _, _, flag, hpacket, fun htruthful => ⟨by decide, ?_⟩⟩
        rw [hanswer.srcIp.1]
        exact (htruthful htcp socket hport).resolve_left hsilent
  | @sent port data len socket hsocket =>
      refine ⟨[net.tcpFrame socket data len (flagPsh ||| flagAck)], ?_, fun packet hmem _ => ?_⟩
      · rw [setSocket_sent, send_eq]
      · rw [List.mem_singleton.mp hmem]
        exact ⟨_, _, _, _, ⟨net, rfl, rfl⟩, fun htruthful => htruthful socket hsocket⟩
  | @closed port socket hsocket =>
      refine ⟨[net.tcpFrame { socket with state := .finWait1 } .zeros 0 (flagFin ||| flagAck)], ?_,
        fun packet hmem _ => ?_⟩
      · exact sendFlags_sent _ _ _
      · rw [List.mem_singleton.mp hmem]
        exact ⟨_, _, _, _, ⟨net, rfl, rfl⟩, fun htruthful => ⟨by decide, htruthful socket hsocket⟩⟩

theorem AllCorrect.step (hall : net.AllCorrect) (htruthful : net.Truthful event)
    (hstep : net.step event = some next) : next.AllCorrect := by
  obtain ⟨packets, hsent, hpackets⟩ := (step_turn hstep).sent_cases
  intro packet hmem htcp
  rw [hsent, List.mem_append] at hmem
  rcases hmem with hold | hnew
  · exact hall packet hold htcp
  · obtain ⟨socket, payload, size, flags, ⟨before, hip, rfl⟩, hcorrect⟩ := hpackets packet hnew htcp
    obtain ⟨hsize, hsame⟩ := hcorrect htruthful
    exact (before.tcpFrame_correct_iff socket payload size flags hsize).mpr (hip ▸ hsame)

/-- As long as addresses agree when segments are sent, all segments have correct checksums. -/
theorem correct_of_run {netIf : NetworkInterface} {mem : ByteArea} {events : List TcpEvent}
    (hrun : Run step Truthful (init netIf mem) events net) : net.AllCorrect :=
  hrun.invariant AllCorrect (fun _ hmem => absurd hmem List.not_mem_nil)
    fun _ _ _ hall htruthful hstep => hall.step htruthful hstep

/-- The header checksums are correct whatever happens. -/
theorem ip_correct_of_run {netIf : NetworkInterface} {mem : ByteArea} {events : List TcpEvent}
    (hrun : Run step Admits (init netIf mem) events net) : ∀ packet ∈ net.sent,
      packet.frame.IsTcp → Verifies (packet.frame.data.bytes ethHeaderSize packet.frame.ipHeaderLen) := by
  refine hrun.invariant (fun state => ∀ packet ∈ state.sent, packet.frame.IsTcp →
    Verifies (packet.frame.data.bytes ethHeaderSize packet.frame.ipHeaderLen))
    (fun _ hmem => absurd hmem List.not_mem_nil) fun _ _ _ hall _ hstep packet hmem htcp => ?_
  obtain ⟨packets, hsent, hpackets⟩ := (step_turn hstep).sent_cases
  rw [hsent, List.mem_append] at hmem
  rcases hmem with hold | hnew
  · exact hall packet hold htcp
  · obtain ⟨socket, payload, size, flags, ⟨before, -, rfl⟩, -⟩ := hpackets packet hnew htcp
    exact before.tcpFrame_verifies_ip socket payload size flags

/-! A connection to a web server, the address of the interface set, and a request sent. -/

def requestEvents (ipUint : BitVec 32) : List TcpEvent :=
  [.connect ![172, 17, 0, 3] 80 true, .configure ipUint, .send 12 .zeros 5]

def requestSocket : TcpSocket :=
  (init webInterface .zeros).connectingSocket 12 ![172, 17, 0, 3] 80

/-- Before the request is sent. -/
def requestFactory (ipUint : BitVec 32) : TcpFactory :=
  ((init webInterface .zeros).connect ![172, 17, 0, 3] 80 true).1.configure ipUint

def requestSent (ipUint : BitVec 32) : TcpFactory :=
  ((requestFactory ipUint).send requestSocket .zeros 5 (flagPsh ||| flagAck)).1.setSocket 12
    ((requestFactory ipUint).send requestSocket .zeros 5 (flagPsh ||| flagAck)).2

/-- The same address is set again. -/
theorem correct_of_run_request :
    Run step Truthful (init webInterface .zeros) (requestEvents 0xac110002) (requestSent 0xac110002) ∧
      (requestSent 0xac110002).AllCorrect := by
  have htruthful : (requestFactory 0xac110002).Truthful (.send 12 .zeros 5) := by
    intro socket hsocket
    have hfound : (requestFactory 0xac110002).sockets 12 = some requestSocket := rfl
    cases hfound.symm.trans hsocket
    exact ⟨by decide, by decide⟩
  have hrun : Run step Truthful (init webInterface .zeros) (requestEvents 0xac110002)
      (requestSent 0xac110002) :=
    .snoc (.snoc (.snoc .nil trivial rfl) trivial rfl) htruthful rfl
  exact ⟨hrun, correct_of_run hrun⟩

/-- Another address is set, which the socket does not learn. -/
theorem request_not_correct :
    Run step Admits (init webInterface .zeros) (requestEvents 0xac110005) (requestSent 0xac110005) ∧
      ¬ (requestSent 0xac110005).AllCorrect := by
  refine ⟨.snoc (.snoc (.snoc .nil trivial rfl) trivial rfl) trivial rfl, fun hall => ?_⟩
  -- the request has the old address in its pseudo-header
  have hmem : (requestFactory 0xac110005).tcpFrame requestSocket .zeros 5 (flagPsh ||| flagAck) ∈
      (requestSent 0xac110005).sent := List.mem_append_right _ List.mem_cons_self
  have hcorrect := hall _ hmem (tcpFrame_isTcp _ _ _ _ _)
  rw [tcpFrame_correct_iff _ _ _ _ _ (by decide)] at hcorrect
  exact absurd hcorrect (by decide)

end TcpFactory

end Shmily.Net
