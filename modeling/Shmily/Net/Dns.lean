import Shmily.Foundation.ByteBlock
import Shmily.Foundation.Labels
import Shmily.Lib.Strings
import Shmily.Net.Checksum

/-! # DNS queries

A query is sent in a UDP datagram. Its name is written while the text of the name is read: the
characters are moved by one place, and the length of a label is put in front of it when its end
is reached.
-/

namespace Shmily.Net

open Foundation Lib

def udpHeaderSize : Nat := 8

/-- `sizeof(struct dns_header)`, with one byte of the query. -/
def dnsHeaderSize : Nat := 13

def standQuery : BitVec 16 := 0x0100
def dnsPort : BitVec 16 := 53
def typeA : BitVec 16 := 0x1
def classIn : BitVec 16 := 0x1

/-- The variables of `format_url`. -/
structure UrlScan where
  data : ByteArea
  pos : Byte
  cnt : Byte
  i : Nat

/-- One turn of the loop of `format_url`; `buf` is an offset. -/
def urlTurn (buf : Nat) (scan : UrlScan) (char : Byte) : UrlScan :=
  if char ≠ ofChar '.' then
    { scan with
      data := Function.update scan.data (buf + (scan.i + 1)) char
      cnt := scan.cnt + 1
      i := scan.i + 1 }
  else
    { data := Function.update scan.data (buf + scan.pos.toNat) scan.cnt
      pos := BitVec.ofNat 8 (scan.i + 1)
      cnt := 0
      i := scan.i + 1 }

/-- What `format_url` does behind the loop. What an empty text has before its start is
overwritten by `cnt`. -/
def urlEnd (buf : Nat) (url : List Byte) (scan : UrlScan) : ByteArea :=
  let data := Function.update scan.data (buf + scan.i) (url.getD (scan.i - 1) 0)
  let data := Function.update data (buf + scan.pos.toNat) scan.cnt
  Function.update data (buf + (scan.i + 1)) 0

/-- `format_url`. -/
def formatUrl (data : ByteArea) (buf : Nat) (url : List Byte) : ByteArea :=
  urlEnd buf url (url.foldl (urlTurn buf) ⟨data, 0, 0, 0⟩)

/-- `init_dns_header`. -/
def initDnsHeader (url : List Byte) (data : ByteArea) : ByteArea :=
  let data := putWord data 0 0
  let data := putWord data 2 (swapWord standQuery)
  let data := putWord data 4 (swapWord 0x1)
  let data := putWord data 6 (swapWord 0x0)
  let data := putWord data 8 (swapWord 0x0)
  let data := putWord data 10 (swapWord 0x0)
  let data := formatUrl data 12 url
  let data := putWord data (12 + (url.length + 2)) (swapWord typeA)
  putWord data (12 + (url.length + 4)) (swapWord classIn)

/-- `allocate_port`: the port that is used next. -/
def allocatePort (port : BitVec 16) : BitVec 16 := port + 1

/-- The header of `init_udp_header` while its checksum is zero. -/
def udpHeader (srcPort dstPort length : BitVec 16) (data : ByteArea) : ByteArea :=
  let data := putWord data 0 (swapWord srcPort)
  let data := putWord data 2 (swapWord dstPort)
  let data := putWord data 4 (swapWord length)
  putWord data 6 0

/-- `init_udp_header`. -/
def initUdpHeader (srcPort dstPort length : BitVec 16) (data : ByteArea) : ByteArea :=
  let data := udpHeader srcPort dstPort length data
  putWord data 6 (generateChecksum data length.toNat)

/-- The caller of `send_dns_packet`: the interface and the server. -/
structure DnsRoute where
  macAddr : MacAddr
  ipAddr : IpAddr
  targetMacAddr : MacAddr
  targetIp : IpAddr

/-- `send_dns_packet`: the frame for `send_packet` and the port for the next call. The new memory
has any content. -/
def sendDnsPacket (memory : ByteArea) (port : BitVec 16) (route : DnsRoute) (url : List Byte) :
    Packet × BitVec 16 :=
  let srcPort := allocatePort port
  let data := formatEthernet memory route.macAddr route.targetMacAddr nextIsIp
  let data := data.onPart ethHeaderSize fun data =>
    formatIpv4 data route.ipAddr route.targetIp 0x11
      (BitVec.ofNat 16 (ipHeaderSize + udpHeaderSize + dnsHeaderSize + url.length + 5))
  let data := data.onPart (ethHeaderSize + ipHeaderSize)
    (initUdpHeader srcPort dnsPort
      (BitVec.ofNat 16 (udpHeaderSize + dnsHeaderSize + url.length + 5)))
  let data := data.onPart (ethHeaderSize + ipHeaderSize + udpHeaderSize) (initDnsHeader url)
  ({ size := ethHeaderSize + ipHeaderSize + udpHeaderSize + dnsHeaderSize + url.length + 5
     data := data }, srcPort)

/-- The text of a host name. -/
def hostName (labels : List (List Byte)) : List Byte := Labels.text (ofChar '.') labels

/-- The labels of a host name. -/
structure IsHostName (labels : List (List Byte)) : Prop where
  nonempty : labels ≠ []
  isLabel : ∀ label ∈ labels, Labels.IsLabel (ofChar '.') label
  short : (hostName labels).length ≤ 253

instance (labels : List (List Byte)) : Decidable (IsHostName labels) :=
  decidable_of_iff (labels ≠ [] ∧ (∀ label ∈ labels, Labels.IsLabel (ofChar '.') label) ∧
      (hostName labels).length ≤ 253)
    ⟨fun h => ⟨h.1, h.2.1, h.2.2⟩, fun h => ⟨h.nonempty, h.isLabel, h.short⟩⟩

variable {data : ByteArea} {buf i : Nat} {pos cnt : Byte} {label front : List Byte}
  {labels : List (List Byte)}

/-! ## The name -/

/-- The characters of a label are copied behind the place for its length. -/
theorem foldl_urlTurn_label (hdot : ofChar '.' ∉ label) :
    label.foldl (urlTurn buf) ⟨data, pos, cnt, i⟩ =
      ⟨data.putBytes (buf + (i + 1)) label, pos, cnt + BitVec.ofNat 8 label.length,
        i + label.length⟩ := by
  induction label generalizing data cnt i with
  | nil => simp [ByteArea.putBytes]
  | cons char rest ih =>
      obtain ⟨hchar, hrest⟩ := not_or.mp (mt List.mem_cons.mpr hdot)
      have hcnt : cnt + 1 + BitVec.ofNat 8 rest.length = cnt + BitVec.ofNat 8 (char :: rest).length := by
        rw [List.length_cons, Nat.add_comm rest.length 1, BitVec.ofNat_add, ← BitVec.add_assoc]
        rfl
      have hi : i + 1 + rest.length = i + (char :: rest).length := by
        rw [List.length_cons]
        omega
      rw [List.foldl_cons, urlTurn, if_pos (Ne.symm hchar), ih hrest, hcnt, hi,
        ByteArea.putBytes_update (by omega)]
      rfl

/-- The length is put in front of the copied characters. -/
theorem update_putBytes_label (data : ByteArea) (i : Nat) (label : List Byte) :
    Function.update (data.putBytes (i + 1) label) i (0 + BitVec.ofNat 8 label.length) =
      data.putBytes i (Labels.encodeLabel label) := by
  have hcnt : 0 + BitVec.ofNat 8 label.length = BitVec.ofNat 8 label.length := BitVec.zero_add _
  rw [hcnt]
  rfl

/-- The last character is stored once more. -/
theorem update_putBytes_last (hne : label ≠ []) :
    Function.update (data.putBytes (i + 1) label) (i + label.length)
      ((front ++ label).getD (front.length + label.length - 1) 0) = data.putBytes (i + 1) label := by
  obtain ⟨init, last, rfl⟩ := (List.eq_nil_or_concat label).resolve_left hne
  rw [List.concat_eq_append]
  have hlast : (front ++ (init ++ [last])).getD
      (front.length + (init ++ [last]).length - 1) 0 = last := by
    rw [← List.append_assoc, List.length_append, List.length_singleton, ← Nat.add_assoc,
      Nat.add_sub_cancel, ← List.length_append]
    simp
  rw [hlast, ByteArea.putBytes_concat, List.length_append, List.length_singleton,
    show i + 1 + init.length = i + (init.length + 1) by omega, Function.update_idem]

/-- The loop from the start of a label on, and what is behind the loop. -/
theorem urlEnd_foldl (hne : labels ≠ []) (hlabels : ∀ label ∈ labels, Labels.IsLabel (ofChar '.') label)
    (hshort : (front ++ hostName labels).length ≤ 253) :
    urlEnd buf (front ++ hostName labels) ((hostName labels).foldl (urlTurn buf)
        ⟨data, BitVec.ofNat 8 front.length, 0, front.length⟩) =
      data.putBytes (buf + front.length) (Labels.encode labels) := by
  induction labels generalizing data front with
  | nil => exact absurd rfl hne
  | cons label rest ih =>
      have hlabel := hlabels label List.mem_cons_self
      have hfront : (BitVec.ofNat 8 front.length).toNat = front.length := by
        rw [BitVec.toNat_ofNat]
        rw [List.length_append] at hshort
        exact Nat.mod_eq_of_lt (by omega)
      by_cases hrest : rest = []
      · subst hrest
        rw [hostName, Labels.text_singleton, foldl_urlTurn_label hlabel.noSep, urlEnd]
        dsimp only
        rw [hfront, ← Nat.add_assoc, ← Nat.add_assoc, update_putBytes_last hlabel.nonempty,
          update_putBytes_label, Labels.encode, List.flatMap_singleton, ByteArea.putBytes_concat,
          Labels.length_encodeLabel, Nat.add_assoc, Nat.add_assoc]
      · have htext : hostName (label :: rest) = label ++ ofChar '.' :: hostName rest :=
          Labels.text_cons hrest
        have hfrontNext : (front ++ (label ++ [ofChar '.'])).length =
            front.length + label.length + 1 := by
          rw [List.length_append, List.length_append, List.length_singleton, Nat.add_assoc]
        have hurl : front ++ hostName (label :: rest) =
            (front ++ (label ++ [ofChar '.'])) ++ hostName rest := by
          rw [htext, List.append_assoc, List.append_assoc, List.singleton_append]
        have hnext := @ih (data.putBytes (buf + front.length) (Labels.encodeLabel label))
          (front ++ (label ++ [ofChar '.'])) hrest
          (fun other hmem => hlabels other (List.mem_cons_of_mem _ hmem)) (hurl ▸ hshort)
        rw [hfrontNext, ← hurl] at hnext
        rw [htext, List.foldl_append, foldl_urlTurn_label hlabel.noSep, List.foldl_cons, urlTurn,
          if_neg (not_not.mpr rfl), ← htext]
        dsimp only
        rw [hfront, ← Nat.add_assoc, update_putBytes_label, hnext, Labels.encode_cons,
          ByteArea.putBytes_append, Labels.length_encodeLabel, Nat.add_assoc, Nat.add_assoc]

/-- `format_url` writes the name. -/
theorem formatUrl_hostName (hname : IsHostName labels) (data : ByteArea) (buf : Nat) :
    formatUrl data buf (hostName labels) = data.putBytes buf (Labels.encode labels) :=
  @urlEnd_foldl data buf [] labels hname.nonempty hname.isLabel hname.short

/-! ## The message -/

/-- The bytes of a word in network order. -/
def networkWord (word : BitVec 16) : List Byte :=
  [BitVec.ofNat 8 (word.toNat / 256), BitVec.ofNat 8 (word.toNat % 256)]

/-- The identifier, the flags and the counts of a message with one question. -/
def dnsFields : List Byte := [0, 0, 1, 0, 0, 1, 0, 0, 0, 0, 0, 0]

/-- A query for the address of a host. -/
def dnsMessage (labels : List (List Byte)) : List Byte :=
  dnsFields ++ (Labels.encode labels ++ (networkWord typeA ++ networkWord classIn))

theorem putWord_swapWord (data : ByteArea) (offset : Nat) (word : BitVec 16) :
    putWord data offset (swapWord word) = data.putBytes offset (networkWord word) := by
  have hhigh : word.toNat / 256 < 256 := Nat.div_lt_of_lt_mul word.isLt
  have hswap : (word.toNat % 256 * 256 + word.toNat / 256) / 256 = word.toNat % 256 := by
    rw [Nat.add_comm, Nat.add_mul_div_right _ _ (by decide), Nat.div_eq_of_lt hhigh, Nat.zero_add]
  funext k
  rw [putWord, ByteArea.putLE, swapWord_toNat]
  by_cases hk : offset ≤ k ∧ k < offset + 2
  · rw [if_pos hk]
    rcases Nat.eq_or_lt_of_le hk.1 with rfl | hnext
    · rw [networkWord, ByteArea.putBytes, Function.update_self, Nat.sub_self, Nat.pow_zero,
        Nat.div_one]
      apply BitVec.eq_of_toNat_eq
      rw [BitVec.toNat_ofNat, BitVec.toNat_ofNat]
      omega
    · obtain rfl : k = offset + 1 := by omega
      rw [networkWord, ByteArea.putBytes, Function.update_of_ne (by omega), ByteArea.putBytes,
        Function.update_self, Nat.add_sub_cancel_left, Nat.pow_one, hswap]
  · rw [if_neg hk]
    exact (ByteArea.putBytes_of_not hk).symm

/-- A block behind another one. -/
theorem putBytes_putBytes (data : ByteArea) {offset next : Nat} {first second : List Byte}
    (hnext : next = offset + first.length) :
    (data.putBytes offset first).putBytes next second = data.putBytes offset (first ++ second) := by
  rw [hnext, ByteArea.putBytes_append]

theorem length_encode_labels (hname : IsHostName labels) :
    (Labels.encode labels).length = (hostName labels).length + 2 :=
  Labels.length_encode hname.nonempty

/-- The words in front of the question. -/
theorem putBytes_dnsFields (data : ByteArea) :
    putWord (putWord (putWord (putWord (putWord (putWord data 0 0) 2 (swapWord standQuery)) 4
      (swapWord 0x1)) 6 (swapWord 0x0)) 8 (swapWord 0x0)) 10 (swapWord 0x0) =
        data.putBytes 0 dnsFields := by
  have hzero : putWord data 0 0 = putWord data 0 (swapWord 0) := rfl
  rw [hzero]
  simp only [putWord_swapWord]
  rw [putBytes_putBytes _ (by rfl), putBytes_putBytes _ (by rfl), putBytes_putBytes _ (by rfl),
    putBytes_putBytes _ (by rfl), putBytes_putBytes _ (by rfl)]
  rfl

/-- `init_dns_header` writes the whole message. -/
theorem initDnsHeader_hostName (hname : IsHostName labels) (data : ByteArea) :
    initDnsHeader (hostName labels) data = data.putBytes 0 (dnsMessage labels) := by
  have hquestion : 0 + dnsFields.length = 12 := rfl
  have htype : 12 + (Labels.encode labels).length = 12 + ((hostName labels).length + 2) := by
    rw [length_encode_labels hname]
  have hclass : 12 + ((hostName labels).length + 2) + (networkWord typeA).length =
      12 + ((hostName labels).length + 4) := rfl
  unfold initDnsHeader
  dsimp only
  rw [putBytes_dnsFields, formatUrl_hostName hname, putWord_swapWord, putWord_swapWord, dnsMessage,
    ByteArea.putBytes_append, ByteArea.putBytes_append, ByteArea.putBytes_append, hquestion, htype,
    hclass]

theorem length_dnsMessage (hname : IsHostName labels) :
    (dnsMessage labels).length = (hostName labels).length + 18 := by
  have hfields : dnsFields.length = 12 := rfl
  have hwords : (networkWord typeA ++ networkWord classIn).length = 4 := rfl
  rw [dnsMessage, List.length_append, List.length_append, length_encode_labels hname, hfields, hwords]
  omega

/-! ## The frame -/

/-- The length that the UDP header tells. -/
def Frame.udpLength (frame : Frame) : Nat := (swapWord (wordAt frame.segment 4)).toNat

theorem formatEthernet_of_le {macAddr targetMacAddr : MacAddr} {nextProto : BitVec 16} {k : Nat}
    (hk : ethHeaderSize ≤ k) : formatEthernet data macAddr targetMacAddr nextProto k = data k := by
  have hk' : 14 ≤ k := hk
  unfold formatEthernet
  rw [putArray_of_not (by omega), putArray_of_not (by omega), putWord_of_not (by omega)]

theorem formatIpv4_of_le {ipAddr targetIp : IpAddr} {nextProto : Byte} {totalLen : BitVec 16} {k : Nat}
    (hk : ipHeaderSize ≤ k) : formatIpv4 data ipAddr targetIp nextProto totalLen k = data k := by
  have hk' : 20 ≤ k := hk
  unfold formatIpv4
  rw [putWord_of_not (by omega), putArray_of_not (by omega), putArray_of_not (by omega),
    putWord_of_not (by omega), Function.update_of_ne (by omega), Function.update_of_ne (by omega),
    putWord_of_not (by omega), putWord_of_not (by omega), putWord_of_not (by omega),
    Function.update_of_ne (by omega), Function.update_of_ne (by omega)]

section

variable (memory : ByteArea) (port : BitVec 16) (route : DnsRoute) (url : List Byte)

theorem sendDnsPacket_ip (hi : i < ipHeaderSize) :
    (sendDnsPacket memory port route url).1.data (ethHeaderSize + i) =
      formatIpv4 ((formatEthernet memory route.macAddr route.targetMacAddr nextIsIp).part ethHeaderSize)
        route.ipAddr route.targetIp 0x11
        (BitVec.ofNat 16 (ipHeaderSize + udpHeaderSize + dnsHeaderSize + url.length + 5)) i := by
  rw [sendDnsPacket]
  dsimp only
  rw [ByteArea.onPart_of_lt (by omega), ByteArea.onPart_of_lt (by omega), ByteArea.onPart_add]

/-- The header is written to memory that has its old content. -/
theorem sendDnsPacket_udp (hi : i < udpHeaderSize) :
    (sendDnsPacket memory port route url).1.data (ethHeaderSize + ipHeaderSize + i) =
      initUdpHeader (allocatePort port) dnsPort
        (BitVec.ofNat 16 (udpHeaderSize + dnsHeaderSize + url.length + 5))
        (memory.part (ethHeaderSize + ipHeaderSize)) i := by
  rw [sendDnsPacket]
  dsimp only
  rw [ByteArea.onPart_of_lt (by omega), ByteArea.onPart_add]
  refine congrArg (fun area => initUdpHeader _ _ _ area i) (funext fun k => ?_)
  rw [ByteArea.part, Nat.add_assoc ethHeaderSize, ByteArea.onPart_add,
    formatIpv4_of_le (Nat.le_add_right _ _), ByteArea.part,
    formatEthernet_of_le (Nat.le_add_right _ _), ByteArea.part, Nat.add_assoc ethHeaderSize]

theorem sendDnsPacket_ipHeaderLen :
    (sendDnsPacket memory port route url).1.frame.ipHeaderLen = ipHeaderSize := by
  have hbyte : (sendDnsPacket memory port route url).1.data ethHeaderSize = 0x45 :=
    (sendDnsPacket_ip memory port route url (by decide : 0 < ipHeaderSize)).trans rfl
  change ((sendDnsPacket memory port route url).1.data ethHeaderSize).toNat % 16 * 4 = _
  rw [hbyte]
  rfl

theorem sendDnsPacket_segment (k : Nat) :
    (sendDnsPacket memory port route url).1.frame.segment k =
      (sendDnsPacket memory port route url).1.data (ethHeaderSize + ipHeaderSize + k) := by
  rw [Frame.segment, sendDnsPacket_ipHeaderLen]
  rfl

theorem exists_sendDnsPacket_dns : ∃ area : ByteArea, ∀ i,
    (sendDnsPacket memory port route url).1.data
      (ethHeaderSize + ipHeaderSize + udpHeaderSize + i) = initDnsHeader url area i :=
  ⟨_, fun i => ByteArea.onPart_add _ _ _ i⟩

/-- The message lies behind the UDP header. -/
theorem sendDnsPacket_message (hname : IsHostName labels) :
    (sendDnsPacket memory port route (hostName labels)).1.frame.segment.bytes udpHeaderSize
      (dnsMessage labels).length = dnsMessage labels := by
  obtain ⟨area, hdns⟩ := exists_sendDnsPacket_dns memory port route (hostName labels)
  refine Eq.trans (ByteArea.bytes_congr fun i _ => ?_)
    (area.bytes_putBytes 0 (dnsMessage labels))
  rw [sendDnsPacket_segment, ← Nat.add_assoc, hdns, initDnsHeader_hostName hname, Nat.zero_add]

theorem sendDnsPacket_totalLen (hshort : url.length ≤ 253) :
    (sendDnsPacket memory port route url).1.frame.totalLen =
      ipHeaderSize + udpHeaderSize + dnsHeaderSize + url.length + 5 := by
  have htotal : wordAt (sendDnsPacket memory port route url).1.data (ethHeaderSize + 2) =
      swapWord (BitVec.ofNat 16
        (ipHeaderSize + udpHeaderSize + dnsHeaderSize + url.length + 5)) := by
    rw [← formatIpv4_totalLen ((formatEthernet memory route.macAddr route.targetMacAddr nextIsIp).part
      ethHeaderSize) route.ipAddr route.targetIp 0x11]
    refine wordAt_shift fun i hi => ?_
    rw [Nat.add_assoc, sendDnsPacket_ip _ _ _ _ (by simp only [ipHeaderSize]; omega)]
  change (swapWord (wordAt (sendDnsPacket memory port route url).1.data _)).toNat = _
  rw [htotal, swapWord_swapWord, BitVec.toNat_ofNat]
  exact Nat.mod_eq_of_lt (by simp only [ipHeaderSize, udpHeaderSize, dnsHeaderSize]; omega)

theorem sendDnsPacket_udpLength (hshort : url.length ≤ 253) :
    (sendDnsPacket memory port route url).1.frame.udpLength =
      udpHeaderSize + dnsHeaderSize + url.length + 5 := by
  have hlength : wordAt (sendDnsPacket memory port route url).1.frame.segment 4 =
      swapWord (BitVec.ofNat 16 (udpHeaderSize + dnsHeaderSize + url.length + 5)) := by
    have hheader : wordAt (initUdpHeader (allocatePort port) dnsPort
        (BitVec.ofNat 16 (udpHeaderSize + dnsHeaderSize + url.length + 5))
        (memory.part (ethHeaderSize + ipHeaderSize))) 4 =
        swapWord (BitVec.ofNat 16 (udpHeaderSize + dnsHeaderSize + url.length + 5)) := by
      simp (disch := decide) only [initUdpHeader, udpHeader, wordAt_putWord, wordAt_putWord_self]
    rw [← hheader]
    refine wordAt_shift fun i hi => ?_
    rw [sendDnsPacket_segment, sendDnsPacket_udp _ _ _ _ (by simp only [udpHeaderSize]; omega)]
  rw [Frame.udpLength, hlength, swapWord_swapWord, BitVec.toNat_ofNat]
  exact Nat.mod_eq_of_lt (by simp only [udpHeaderSize, dnsHeaderSize]; omega)

end

/-- The name of a query has two bytes more than the text and is followed by the type and the
class, and the headers tell the length of the query. -/
theorem sendDnsPacket_query (hname : IsHostName labels) :
    (∃ name : List Byte, name.length = (hostName labels).length + 2 ∧
      Labels.decodeName name = some (labels, []) ∧
      ∀ data buf, formatUrl data buf (hostName labels) = data.putBytes buf name) ∧
    (∀ data, wordAt (initDnsHeader (hostName labels) data) (12 + ((hostName labels).length + 2)) =
        swapWord typeA ∧
      wordAt (initDnsHeader (hostName labels) data) (12 + ((hostName labels).length + 2) + 2) =
        swapWord classIn) ∧
    ∀ memory port route, let packet := (sendDnsPacket memory port route (hostName labels)).1
      packet.frame.udpLength = udpHeaderSize + (12 + ((hostName labels).length + 2) + 2 + 2) ∧
      packet.frame.totalLen = ipHeaderSize + packet.frame.udpLength ∧
      packet.size = ethHeaderSize + packet.frame.totalLen ∧
      Labels.decodeName ((packet.frame.segment.bytes udpHeaderSize
        (packet.frame.udpLength - udpHeaderSize)).drop 12) =
          some (labels, networkWord typeA ++ networkWord classIn) := by
  refine ⟨⟨Labels.encode labels, length_encode_labels hname, ?_, formatUrl_hostName hname⟩,
    fun data => ⟨?_, wordAt_putWord_self _ _ _⟩, fun memory port route => ?_⟩
  · rw [← List.append_nil (Labels.encode labels)]
    exact Labels.decodeName_encode hname.isLabel []
  · exact (wordAt_putWord (.inl (by omega))).trans (wordAt_putWord_self _ _ _)
  · have hshort := hname.short
    have hudp := sendDnsPacket_udpLength memory port route _ hshort
    have htotal := sendDnsPacket_totalLen memory port route _ hshort
    have hmessage := sendDnsPacket_message memory port route hname
    have hlength : (sendDnsPacket memory port route (hostName labels)).1.frame.udpLength -
        udpHeaderSize = (dnsMessage labels).length := by
      rw [hudp, length_dnsMessage hname]
      simp only [udpHeaderSize, dnsHeaderSize]
      omega
    refine ⟨?_, ?_, ?_, ?_⟩
    · rw [hudp]
      simp only [udpHeaderSize, dnsHeaderSize]
      omega
    · rw [hudp, htotal]
      simp only [Nat.add_assoc]
    · rw [htotal]
      simp only [sendDnsPacket, Nat.add_assoc]
    · rw [hlength, hmessage, dnsMessage, show 12 = dnsFields.length from rfl, List.drop_left]
      exact Labels.decodeName_encode hname.isLabel _

/-- `a.bc`. -/
def shortName : List (List Byte) := [[ofChar 'a'], [ofChar 'b', ofChar 'c']]

def nameServer : DnsRoute where
  macAddr := ![2, 0, 0, 0, 0, 2]
  ipAddr := ![172, 17, 0, 2]
  targetMacAddr := ![2, 0, 0, 0, 0, 1]
  targetIp := ![172, 17, 0, 1]

theorem sendDnsPacket_shortName :
    IsHostName shortName ∧ hostName shortName = [ofChar 'a', ofChar '.', ofChar 'b', ofChar 'c'] ∧
      (sendDnsPacket .zeros 49151 nameServer (hostName shortName)).1.frame.udpLength =
        8 + (12 + (4 + 2) + 2 + 2) :=
  have hname : IsHostName shortName := by decide
  ⟨hname, rfl, ((sendDnsPacket_query hname).2.2 .zeros 49151 nameServer).1⟩

end Shmily.Net
