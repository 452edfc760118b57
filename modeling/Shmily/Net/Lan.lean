import Shmily.Net.ArpAnswers
import Shmily.Net.Icmp
import Shmily.Net.Turns

/-! # Hosts on one local network

Several hosts run the network process and hear each other on one Ethernet. A frame
that was sent may be lost, come late, come more than once and reach any host; the
network card fills it up to its smallest size. Other devices are on the network too. The
addresses that the hosts' interfaces have had are written down beside them.
-/

namespace Shmily.Net

open Foundation Lib

/-- `ArpFactory::format_request_packet`. -/
def formatArpRequest (data : ByteArea) (macAddr : MacAddr) (ipAddr targetIp : IpAddr) :
    ByteArea :=
  let data := putWord data 0 (swapWord 0x0001)
  let data := putWord data 2 (swapWord 0x0800)
  let data := Function.update data 4 6
  let data := Function.update data 5 4
  let data := putWord data 6 (swapWord reqOpcode)
  let data := putArray data 8 macAddr
  let data := putArray data 18 (0 : MacAddr)
  let data := putArray data 14 ipAddr
  putArray data 24 targetIp

/-- `ArpFactory::request`. Every byte of the new memory is written. -/
def arpRequest (macAddr : MacAddr) (ipAddr targetIp : IpAddr) : Packet where
  size := ethHeaderSize + arpPacketSize
  data := (formatEthernet .zeros macAddr (fun _ => 0xff) nextIsArp).copyIn ethHeaderSize
    (formatArpRequest .zeros macAddr ipAddr targetIp) 0 arpPacketSize

/-- What the fields of a request are. -/
theorem arpPacket_arpRequest (macAddr : MacAddr) (ipAddr targetIp : IpAddr) :
    arpPacket (arpRequest macAddr ipAddr targetIp).data =
      ⟨reqOpcode, macAddr, ipAddr, 0, targetIp⟩ := by
  have hbody : ∀ k < 28, arpPart (arpRequest macAddr ipAddr targetIp).data k =
      formatArpRequest .zeros macAddr ipAddr targetIp k := by
    intro k hk
    have hinside : ethHeaderSize + k < ethHeaderSize + arpPacketSize := Nat.add_lt_add_left hk _
    rw [arpPart, arpRequest]
    dsimp only
    rw [ByteArea.copyIn_at (Nat.le_add_right _ _) hinside, Nat.zero_add, Nat.add_sub_cancel_left]
  rw [arpPacket, wordAt_congr (fun i hi => hbody (6 + i) (by omega)),
    arrayAt_congr (n := 6) (fun i hi => hbody (8 + i) (by omega)),
    arrayAt_congr (n := 4) (fun i hi => hbody (14 + i) (by omega)),
    arrayAt_congr (n := 6) (fun i hi => hbody (18 + i) (by omega)),
    arrayAt_congr (n := 4) (fun i hi => hbody (24 + i) (by omega))]
  simp (disch := decide) only [formatArpRequest, wordAt_putArray, wordAt_putWord_self,
    swapWord_swapWord, arrayAt_putArray_self, arrayAt_putArray]

/-- The frame is long enough for its headers. -/
def Packet.WellSized (packet : Packet) : Prop :=
  ethHeaderSize ≤ packet.size ∧
    (IsArp packet.data → ethHeaderSize + arpPacketSize ≤ packet.size)

/-- What a receiver reads is what was sent. -/
theorem Packet.WellSized.arp_congr {packet : Packet} (hsized : packet.WellSized) {data : ByteArea}
    (hsame : ∀ k < packet.size, data k = packet.data k) (harp : IsArp data) :
    IsArp packet.data ∧ arpPacket data = arpPacket packet.data := by
  have hword : wordAt data 12 = wordAt packet.data 12 :=
    wordAt_congr fun i hi => hsame _ (by have := hsized.1; simp only [ethHeaderSize] at this; omega)
  have hsent : IsArp packet.data := by rwa [IsArp, ← hword]
  have hlong := hsized.2 hsent
  have hpart : ∀ k < 28, arpPart data k = arpPart packet.data k :=
    fun k hk => hsame _ (by simp only [ethHeaderSize, arpPacketSize] at hlong ⊢; omega)
  refine ⟨hsent, ?_⟩
  rw [arpPacket, arpPacket, wordAt_congr (fun i hi => hpart (6 + i) (by omega)),
    arrayAt_congr (n := 6) (fun i hi => hpart (8 + i) (by omega)),
    arrayAt_congr (n := 4) (fun i hi => hpart (14 + i) (by omega)),
    arrayAt_congr (n := 6) (fun i hi => hpart (18 + i) (by omega)),
    arrayAt_congr (n := 4) (fun i hi => hpart (24 + i) (by omega))]

namespace TcpFactory

/-- The start of the network process: the constructor of `NetworkManager`, and a request
for the gateway. -/
def start (macAddr : MacAddr) (mem : ByteArea) : TcpFactory :=
  let net := manager macAddr mem
  { net with sent := net.sent ++ [arpRequest macAddr net.netIf.ipAddr net.netIf.defaultGateway] }

/-! ## Turns that have nothing to do with ARP -/

/-- The interface keeps its addresses and the pairs of its cache, and only frames of other
protocols are sent. -/
structure ArpQuiet (net next : TcpFactory) : Prop where
  macAddr : next.netIf.macAddr = net.netIf.macAddr
  ipAddr : next.netIf.ipAddr = net.netIf.ipAddr
  pairs : net.netIf.arpTbl.SamePairs next.netIf.arpTbl
  sent : ∃ packets, next.sent = net.sent ++ packets ∧
    ∀ packet ∈ packets, packet.WellSized ∧ ¬ IsArp packet.data

variable {net next after : TcpFactory}

namespace ArpQuiet

theorem of_eq (hnetIf : next.netIf = net.netIf) (hsent : next.sent = net.sent) :
    net.ArpQuiet next where
  macAddr := by rw [hnetIf]
  ipAddr := by rw [hnetIf]
  pairs := by
    rw [hnetIf]
    exact fun _ => ⟨rfl, rfl⟩
  sent := ⟨[], by rw [hsent, List.append_nil], fun _ hmem => absurd hmem List.not_mem_nil⟩

theorem refl (net : TcpFactory) : net.ArpQuiet net := of_eq rfl rfl

theorem trans (hquiet : net.ArpQuiet next) (hmore : next.ArpQuiet after) : net.ArpQuiet after where
  macAddr := hmore.macAddr.trans hquiet.macAddr
  ipAddr := hmore.ipAddr.trans hquiet.ipAddr
  pairs i :=
    ⟨(hmore.pairs i).1.trans (hquiet.pairs i).1, (hmore.pairs i).2.trans (hquiet.pairs i).2⟩
  sent := by
    obtain ⟨packets, hsent, hpackets⟩ := hquiet.sent
    obtain ⟨others, hothers, hall⟩ := hmore.sent
    refine ⟨packets ++ others, by rw [hothers, hsent, List.append_assoc], fun packet hmem => ?_⟩
    exact (List.mem_append.mp hmem).elim (hpackets packet) (hall packet)

end ArpQuiet

theorem not_isArp_of_isTcp {packet : Packet} (htcp : packet.frame.IsTcp) :
    ¬ IsArp packet.data := by
  intro harp
  exact absurd (harp.symm.trans htcp.1) (by decide)

theorem send_arpQuiet (socket : TcpSocket) (payload : ByteArea) (size : Nat) (flags : Byte) :
    net.ArpQuiet (net.send socket payload size flags).1 := by
  rw [send_eq]
  refine ⟨rfl, rfl, getMacAddr_samePairs _ _, _, rfl, fun packet hmem => ?_⟩
  have hnotArp := not_isArp_of_isTcp (net.tcpFrame_isTcp socket payload size flags)
  rw [List.mem_singleton.mp hmem]
  refine ⟨⟨?_, fun harp => absurd harp hnotArp⟩, hnotArp⟩
  simp only [tcpFrame]
  omega

theorem sendFlags_arpQuiet (socket : TcpSocket) (flags : Byte) :
    net.ArpQuiet (net.sendFlags socket flags).1 :=
  send_arpQuiet socket .zeros 0 flags

theorem setSocket_arpQuiet (hquiet : net.ArpQuiet next) (port : Nat) (socket : TcpSocket) :
    net.ArpQuiet (next.setSocket port socket) :=
  hquiet.trans (.of_eq rfl rfl)

theorem resolveData_arpQuiet (socket : TcpSocket) (header : TcpHeader) (data : ByteArea)
    (payloadLen : Nat) : net.ArpQuiet (net.resolveData socket header data payloadLen).1 := by
  unfold resolveData
  dsimp only
  split
  · have hwritten : ∀ mem : ByteArea, net.ArpQuiet { net with mem := mem } :=
      fun _ => .of_eq rfl rfl
    exact (hwritten _).trans (sendFlags_arpQuiet _ _)
  · exact .refl net

theorem resolveSocket_arpQuiet (socket : TcpSocket) (data : ByteArea) (remoteIp : IpAddr)
    (payloadLen : BitVec 16) :
    net.ArpQuiet (net.resolveSocket socket data remoteIp payloadLen).1 := by
  unfold resolveSocket
  dsimp only
  split
  · unfold resolveSyn
    split
    · exact .refl net
    · exact sendFlags_arpQuiet _ _
  · split
    · unfold resolveSynAck
      split
      · exact .refl net
      · exact sendFlags_arpQuiet _ _
    · split
      · unfold resolveFin
        split
        · exact (sendFlags_arpQuiet _ _).trans (sendFlags_arpQuiet _ _)
        · exact .refl net
        · exact sendFlags_arpQuiet _ _
        · exact sendFlags_arpQuiet _ _
        · exact .refl net
      · split
        · unfold resolveAck
          split
          · exact .of_eq rfl rfl
          · exact .refl net
          · exact .refl net
          · split
            · exact .refl net
            · exact resolveData_arpQuiet _ _ _ _
        · exact resolveData_arpQuiet _ _ _ _

/-- A frame that is no ARP packet. -/
theorem handlePacket_arpQuiet {data : ByteArea} {len : BitVec 16} (hother : ¬ IsArp data)
    (hhandle : net.handlePacket data len = some next) : net.ArpQuiet next := by
  rw [IsArp] at hother
  rw [handlePacket] at hhandle
  dsimp only at hhandle
  rw [if_neg hother] at hhandle
  split at hhandle
  · split at hhandle
    · unfold resolvePacket at hhandle
      dsimp only at hhandle
      split at hhandle
      · cases hhandle
      · split at hhandle
        · cases hhandle
          exact .refl net
        · cases hhandle
          exact setSocket_arpQuiet (resolveSocket_arpQuiet _ _ _ _) _ _
    · cases hhandle
      exact .refl net
  · cases hhandle
    exact .refl net

theorem listen_arpQuiet {port : Nat} {memory : Option (Nat → Nat)} {result : Option TcpSocket}
    (hlisten : net.listen port memory = some (next, result)) : net.ArpQuiet next := by
  unfold listen at hlisten
  split at hlisten
  · cases hlisten
  · split at hlisten
    · cases hlisten
      exact .refl net
    · split at hlisten
      · cases hlisten
        exact .refl net
      · cases hlisten
        exact setSocket_arpQuiet (.refl net) _ _

theorem connect_arpQuiet (dstIp : IpAddr) (dstPort : BitVec 16) (memory : Bool) :
    net.ArpQuiet (net.connect dstIp dstPort memory).1 := by
  unfold connect
  split
  · split
    · exact .refl net
    · exact setSocket_arpQuiet (sendFlags_arpQuiet _ _) _ _
  · exact .refl net

theorem socketAccept_arpQuiet {port bindProc : Nat} {result : Bool}
    (haccept : net.socketAccept port bindProc = some (next, result)) : net.ArpQuiet next := by
  unfold socketAccept at haccept
  split at haccept
  · cases haccept
  · split at haccept
    · cases haccept
      exact .refl net
    · split at haccept
      · cases haccept
        exact setSocket_arpQuiet (.refl net) _ _
      · cases haccept
        exact .refl net

theorem sendSocket_arpQuiet {port len : Nat} {data : ByteArea}
    (hsend : net.sendSocket port data len = some next) : net.ArpQuiet next := by
  unfold sendSocket at hsend
  split at hsend
  · cases hsend
  · split at hsend
    · cases hsend
      exact .refl net
    · cases hsend
      exact setSocket_arpQuiet (send_arpQuiet _ _ _ _) _ _

theorem recv_arpQuiet {port len : Nat} {bytes : List Byte}
    (hrecv : net.recv port len = some (bytes, next)) : net.ArpQuiet next := by
  unfold recv at hrecv
  split at hrecv
  · cases hrecv
  · simp only [Option.bind_eq_bind, Option.bind_eq_some_iff, Option.some.injEq,
      Prod.mk.injEq] at hrecv
    obtain ⟨socket, -, -, rfl⟩ := hrecv
    exact setSocket_arpQuiet (.refl net) _ _

theorem closeSocket_arpQuiet {port : Nat} (hclose : net.closeSocket port = some next) :
    net.ArpQuiet next := by
  unfold closeSocket at hclose
  split at hclose
  · cases hclose
  · split at hclose
    · cases hclose
    · cases hclose
      exact (sendFlags_arpQuiet _ _).trans (.of_eq rfl rfl)

theorem ping_arpQuiet (targetIp : IpAddr) (mem : ByteArea) :
    net.ArpQuiet (net.ping targetIp mem) := by
  refine ⟨rfl, rfl, getMacAddr_samePairs _ _, _, rfl, fun packet hmem => ?_⟩
  obtain rfl := List.mem_singleton.mp hmem
  have hnotArp : ¬ IsArp (icmpRequest mem net.netIf.macAddr net.netIf.ipAddr targetIp
      net.gatewayMac).data := by
    have hnext := (icmpPacket_nextProto icmpRequestType mem net.netIf.macAddr net.netIf.ipAddr
      targetIp net.gatewayMac fun _ _ => rfl).1
    intro harp
    exact absurd (harp.symm.trans hnext) (by decide)
  have hsize : ethHeaderSize ≤ ethHeaderSize + ipHeaderSize + icmpPacketSize := by decide
  exact ⟨⟨hsize, fun harp => absurd harp hnotArp⟩, hnotArp⟩

/-! ## What a turn does to the addresses -/

/-- What one turn does to the addresses. -/
inductive ArpTurn (net : TcpFactory) : TcpEvent → TcpFactory → Prop
  | quiet {event next} (hquiet : net.ArpQuiet next) : ArpTurn net event next
  | answered {data len table dstMacAddr dstIp} (harp : IsArp data)
      (hpairs : net.netIf.arpTbl.SamePairs table) :
      ArpTurn net (.packet data len) { net with
        netIf := { net.netIf with arpTbl := table }
        sent := net.sent ++
          [arpReply net.netIf.macAddr net.netIf.ipAddr dstMacAddr dstMacAddr dstIp] }
  | learned {data len} (harp : IsArp data) (hresponse : (arpPacket data).opcode ≠ reqOpcode) :
      ArpTurn net (.packet data len) { net with netIf := { net.netIf with
        arpTbl := net.netIf.arpTbl.append
          (arpPacket data).srcMacAddr (arpPacket data).srcIpAddr } }
  | configured (ipUint : BitVec 32) : ArpTurn net (.configure ipUint) (net.configure ipUint)

theorem packet_arpTurn {data : ByteArea} {len : BitVec 16}
    (hhandle : net.handlePacket data len = some next) : net.ArpTurn (.packet data len) next := by
  by_cases harp : IsArp data
  · by_cases hrequest : (arpPacket data).opcode = reqOpcode
    · have hpairs := getMacAddr_samePairs net.netIf.arpTbl (arpPacket data).targetIp
      rw [handlePacket_request harp hrequest] at hhandle
      obtain rfl := Option.some.inj hhandle
      dsimp only
      split
      · exact .answered harp hpairs
      · exact .quiet ⟨rfl, rfl, hpairs, [], (List.append_nil _).symm,
          fun _ hmem => absurd hmem List.not_mem_nil⟩
    · rw [handlePacket_response harp hrequest] at hhandle
      obtain rfl := Option.some.inj hhandle
      exact .learned harp hrequest
  · exact .quiet (handlePacket_arpQuiet harp hhandle)

/-- Every turn is one of these. -/
theorem step_arpTurn {event : TcpEvent} (hstep : net.step event = some next) :
    net.ArpTurn event next := by
  cases event with
  | listen port memory =>
      obtain ⟨⟨after, result⟩, hlisten, rfl⟩ := Option.map_eq_some_iff.mp hstep
      exact .quiet (listen_arpQuiet hlisten)
  | connect dstIp dstPort memory =>
      cases hstep
      exact .quiet (connect_arpQuiet dstIp dstPort memory)
  | accept port bindProc =>
      obtain ⟨⟨after, result⟩, haccept, rfl⟩ := Option.map_eq_some_iff.mp hstep
      exact .quiet (socketAccept_arpQuiet haccept)
  | configure ipUint =>
      cases hstep
      exact .configured ipUint
  | packet data len => exact packet_arpTurn hstep
  | send port data len => exact .quiet (sendSocket_arpQuiet hstep)
  | recv port len =>
      obtain ⟨⟨bytes, after⟩, hrecv, rfl⟩ := Option.map_eq_some_iff.mp hstep
      exact .quiet (recv_arpQuiet hrecv)
  | close port => exact .quiet (closeSocket_arpQuiet hstep)

end TcpFactory

/-! ## The local network -/

/-- The hosts on the network, and the addresses that their interfaces have had. -/
structure Lan (Host : Type) where
  hosts : Host → TcpFactory
  held : Host → List IpAddr

/-- One host takes a turn, or pings. -/
inductive LanEvent (Host : Type)
  | turn (host : Host) (event : TcpEvent)
  | ping (host : Host) (targetIp : IpAddr) (mem : ByteArea)

namespace Lan

variable {Host : Type} [DecidableEq Host]

/-- All hosts have been started. -/
def start (macAddr : Host → MacAddr) (mem : Host → ByteArea) : Lan Host where
  hosts host := .start (macAddr host) (mem host)
  held host := [(TcpFactory.start (macAddr host) (mem host)).netIf.ipAddr]

/-- The next state of one host. -/
def put (lan : Lan Host) (host : Host) (net : TcpFactory) : Lan Host where
  hosts := Function.update lan.hosts host net
  held := Function.update lan.held host (net.netIf.ipAddr :: lan.held host)

@[simp]
theorem hosts_put_self (lan : Lan Host) (host : Host) (net : TcpFactory) :
    (lan.put host net).hosts host = net :=
  Function.update_self ..

theorem hosts_put_of_ne (lan : Lan Host) {host other : Host} (hne : other ≠ host)
    (net : TcpFactory) : (lan.put host net).hosts other = lan.hosts other :=
  Function.update_of_ne hne ..

@[simp]
theorem held_put_self (lan : Lan Host) (host : Host) (net : TcpFactory) :
    (lan.put host net).held host = net.netIf.ipAddr :: lan.held host :=
  Function.update_self ..

theorem held_put_of_ne (lan : Lan Host) {host other : Host} (hne : other ≠ host)
    (net : TcpFactory) : (lan.put host net).held other = lan.held other :=
  Function.update_of_ne hne ..

def step (lan : Lan Host) : LanEvent Host → Option (Lan Host)
  | .turn host event => ((lan.hosts host).step event).map (lan.put host)
  | .ping host targetIp mem => some (lan.put host ((lan.hosts host).ping targetIp mem))

/-- A frame arrives that a host has sent, or one of another device. `foreign` says which
addresses other devices claim in their ARP packets; nobody verifies a claim. -/
def Arrives (foreign : MacAddr → IpAddr → Prop) (lan : Lan Host) (data : ByteArea) : Prop :=
  (∃ host, ∃ packet ∈ (lan.hosts host).sent, ∀ k < packet.size, data k = packet.data k) ∨
    (IsArp data → foreign (arpPacket data).srcMacAddr (arpPacket data).srcIpAddr)

/-- Processes call what they like; frames come from somewhere. -/
def Admits (foreign : MacAddr → IpAddr → Prop) (lan : Lan Host) : LanEvent Host → Prop
  | .turn _ (.packet data _) => lan.Arrives foreign data
  | .turn _ _ | .ping .. => True

variable {foreign : MacAddr → IpAddr → Prop} {macAddr : Host → MacAddr} {lan next : Lan Host}

/-- The MAC address belongs to a host that has, or has had, the IP address, or another device
has claimed it. -/
def Owns (foreign : MacAddr → IpAddr → Prop) (macAddr : Host → MacAddr) (lan : Lan Host)
    (mac : MacAddr) (ip : IpAddr) : Prop :=
  (∃ host, macAddr host = mac ∧ ip ∈ lan.held host) ∨ foreign mac ip

/-- What is said on the network, and what is believed, is or was true of a host, or was claimed
by another device. -/
structure Truthful (foreign : MacAddr → IpAddr → Prop) (macAddr : Host → MacAddr)
    (lan : Lan Host) : Prop where
  mac : ∀ host, (lan.hosts host).netIf.macAddr = macAddr host
  ip : ∀ host, (lan.hosts host).netIf.ipAddr ∈ lan.held host
  sent : ∀ host, ∀ packet ∈ (lan.hosts host).sent, packet.WellSized ∧
    (IsArp packet.data → lan.Owns foreign macAddr (arpPacket packet.data).srcMacAddr
      (arpPacket packet.data).srcIpAddr)
  cache : ∀ host slot, ((lan.hosts host).netIf.arpTbl.Maps slot 0 0) ∨
    lan.Owns foreign macAddr ((lan.hosts host).netIf.arpTbl.items slot).macAddr
      ((lan.hosts host).netIf.arpTbl.items slot).ipAddr

theorem Owns.put {mac : MacAddr} {ip : IpAddr} (howns : lan.Owns foreign macAddr mac ip)
    (host : Host) (net : TcpFactory) : (lan.put host net).Owns foreign macAddr mac ip := by
  rcases howns with ⟨owner, hmac, hip⟩ | hforeign
  · refine .inl ⟨owner, hmac, ?_⟩
    rcases eq_or_ne owner host with rfl | hne
    · rw [held_put_self]
      exact List.mem_cons_of_mem _ hip
    · rwa [held_put_of_ne lan hne]
  · exact .inr hforeign

theorem owns_put_self {host : Host} {net : TcpFactory} (hmac : net.netIf.macAddr = macAddr host) :
    (lan.put host net).Owns foreign macAddr net.netIf.macAddr net.netIf.ipAddr := by
  refine .inl ⟨host, hmac.symm, ?_⟩
  rw [held_put_self]
  exact List.mem_cons_self

namespace Truthful

/-- What one host must keep. -/
theorem put (htruthful : lan.Truthful foreign macAddr) {host : Host} {net : TcpFactory}
    (hmac : net.netIf.macAddr = macAddr host)
    (hsent : ∀ packet ∈ net.sent, packet ∈ (lan.hosts host).sent ∨ packet.WellSized ∧
      (IsArp packet.data → (lan.put host net).Owns foreign macAddr
        (arpPacket packet.data).srcMacAddr (arpPacket packet.data).srcIpAddr))
    (hcache : ∀ slot, net.netIf.arpTbl.Maps slot 0 0 ∨ (lan.put host net).Owns foreign macAddr
      (net.netIf.arpTbl.items slot).macAddr (net.netIf.arpTbl.items slot).ipAddr) :
    (lan.put host net).Truthful foreign macAddr := by
  refine ⟨fun other => ?_, fun other => ?_, fun other packet hmem => ?_, fun other slot => ?_⟩
  · rcases eq_or_ne other host with rfl | hne
    · rwa [hosts_put_self]
    · rw [hosts_put_of_ne lan hne]
      exact htruthful.mac other
  · rcases eq_or_ne other host with rfl | hne
    · rw [hosts_put_self, held_put_self]
      exact List.mem_cons_self
    · rw [hosts_put_of_ne lan hne, held_put_of_ne lan hne]
      exact htruthful.ip other
  · have hold : ∀ owner, packet ∈ (lan.hosts owner).sent → packet.WellSized ∧
        (IsArp packet.data → (lan.put host net).Owns foreign macAddr
          (arpPacket packet.data).srcMacAddr (arpPacket packet.data).srcIpAddr) := by
      intro owner hpacket
      obtain ⟨hsized, howns⟩ := htruthful.sent owner packet hpacket
      exact ⟨hsized, fun harp => (howns harp).put host net⟩
    rcases eq_or_ne other host with rfl | hne
    · rw [hosts_put_self] at hmem
      exact (hsent packet hmem).elim (hold other) id
    · rw [hosts_put_of_ne lan hne] at hmem
      exact hold other hmem
  · rcases eq_or_ne other host with rfl | hne
    · rw [hosts_put_self]
      exact hcache slot
    · rw [hosts_put_of_ne lan hne]
      exact (htruthful.cache other slot).imp_right fun howns => howns.put host net

theorem put_arpQuiet (htruthful : lan.Truthful foreign macAddr) {host : Host} {net : TcpFactory}
    (hquiet : (lan.hosts host).ArpQuiet net) : (lan.put host net).Truthful foreign macAddr := by
  refine htruthful.put (hquiet.macAddr.trans (htruthful.mac host)) (fun packet hmem => ?_)
    fun slot => ?_
  · obtain ⟨packets, hsent, hpackets⟩ := hquiet.sent
    rw [hsent, List.mem_append] at hmem
    refine hmem.imp_right fun hnew => ?_
    obtain ⟨hsized, hnotArp⟩ := hpackets packet hnew
    exact ⟨hsized, fun harp => absurd harp hnotArp⟩
  · obtain ⟨hmac, hip⟩ := hquiet.pairs slot
    rw [ArpCacheTable.Maps, hmac, hip]
    exact (htruthful.cache host slot).imp_right fun howns => howns.put host net

omit [DecidableEq Host] in
/-- The sender of a frame that arrives owns the pair that it names. -/
theorem arrived (htruthful : lan.Truthful foreign macAddr) {data : ByteArea}
    (harrives : lan.Arrives foreign data) (harp : IsArp data) :
    lan.Owns foreign macAddr (arpPacket data).srcMacAddr (arpPacket data).srcIpAddr := by
  rcases harrives with ⟨host, packet, hpacket, hsame⟩ | hforeign
  · obtain ⟨hsized, howns⟩ := htruthful.sent host packet hpacket
    obtain ⟨hsent, hfields⟩ := hsized.arp_congr hsame harp
    rw [hfields]
    exact howns hsent
  · exact .inr (hforeign harp)

/-- A host answers or announces with its own addresses. -/
theorem put_reply (htruthful : lan.Truthful foreign macAddr) {host : Host} {net : TcpFactory}
    {dstMacAddr srcMacAddr : MacAddr} {dstIp : IpAddr}
    (hmac : net.netIf.macAddr = (lan.hosts host).netIf.macAddr)
    (hpairs : (lan.hosts host).netIf.arpTbl.SamePairs net.netIf.arpTbl)
    (hsent : net.sent = (lan.hosts host).sent ++
      [arpReply net.netIf.macAddr net.netIf.ipAddr srcMacAddr dstMacAddr dstIp]) :
    (lan.put host net).Truthful foreign macAddr := by
  have hmac' := hmac.trans (htruthful.mac host)
  refine htruthful.put hmac' (fun packet hmem => ?_) fun slot => ?_
  · rw [hsent, List.mem_append, List.mem_singleton] at hmem
    refine hmem.imp_right fun hnew => ?_
    rw [hnew, arpPacket_arpReply]
    exact ⟨⟨Nat.le_add_right _ _, fun _ => Nat.le_refl _⟩, fun _ => owns_put_self hmac'⟩
  · obtain ⟨hslotMac, hslotIp⟩ := hpairs slot
    rw [ArpCacheTable.Maps, hslotMac, hslotIp]
    exact (htruthful.cache host slot).imp_right fun howns => howns.put host net

theorem step (htruthful : lan.Truthful foreign macAddr) {event : LanEvent Host}
    (hadmits : lan.Admits foreign event) (hstep : lan.step event = some next) :
    next.Truthful foreign macAddr := by
  cases event with
  | ping host targetIp mem =>
      cases hstep
      exact htruthful.put_arpQuiet (TcpFactory.ping_arpQuiet targetIp mem)
  | turn host event =>
      obtain ⟨net, hturn, rfl⟩ := Option.map_eq_some_iff.mp hstep
      cases TcpFactory.step_arpTurn hturn with
      | quiet hquiet => exact htruthful.put_arpQuiet hquiet
      | answered harp hpairs => exact htruthful.put_reply rfl hpairs rfl
      | @learned data len harp hresponse =>
          have howns := htruthful.arrived hadmits harp
          refine htruthful.put (htruthful.mac host) (fun packet hmem => .inl hmem) fun slot => ?_
          obtain ⟨hmac, hip⟩ := (lan.hosts host).netIf.arpTbl.append_item
            (arpPacket data).srcMacAddr (arpPacket data).srcIpAddr slot
          rw [ArpCacheTable.Maps]
          dsimp only
          rw [hmac, hip]
          split
          · exact .inr (howns.put host _)
          · exact (htruthful.cache host slot).imp_right fun howns => howns.put host _
      | configured ipUint => exact htruthful.put_reply rfl (fun _ => ⟨rfl, rfl⟩) rfl

end Truthful

omit [DecidableEq Host] in
theorem start_truthful (macAddr : Host → MacAddr) (mem : Host → ByteArea) :
    (start macAddr mem).Truthful foreign macAddr := by
  refine ⟨fun _ => rfl, fun _ => List.mem_singleton.mpr rfl, fun host packet hmem => ?_,
    fun host slot => ?_⟩
  · obtain rfl := List.mem_singleton.mp hmem
    rw [arpPacket_arpRequest]
    exact ⟨⟨Nat.le_add_right _ _, fun _ => Nat.le_refl _⟩,
      fun _ => .inl ⟨host, rfl, List.mem_singleton.mpr rfl⟩⟩
  · obtain ⟨hmac, hip⟩ := @ArpCacheTable.setItem_maps .cleared (macAddr host) ![172, 17, 0, 2]
      slot TcpFactory.ownSlot
    change ArpCacheTable.Maps (.setItem .cleared TcpFactory.ownSlot (macAddr host) ![172, 17, 0, 2])
      slot 0 0 ∨ (start macAddr mem).Owns foreign macAddr
        (ArpCacheTable.setItem .cleared TcpFactory.ownSlot (macAddr host) ![172, 17, 0, 2]
          |>.items slot).macAddr
        (ArpCacheTable.setItem .cleared TcpFactory.ownSlot (macAddr host) ![172, 17, 0, 2]
          |>.items slot).ipAddr
    rw [ArpCacheTable.Maps, hmac, hip]
    split
    · exact .inr (.inl ⟨host, rfl, List.mem_singleton.mpr rfl⟩)
    · exact .inl ⟨rfl, rfl⟩

theorem truthful_of_run {mem : Host → ByteArea} {events : List (LanEvent Host)}
    (hrun : Run step (Admits foreign) (start macAddr mem) events lan) :
    lan.Truthful foreign macAddr :=
  hrun.invariant (Truthful foreign macAddr) (start_truthful macAddr mem)
    fun _ _ _ htruthful hadmits hstep => htruthful.step hadmits hstep

/-- Whatever the hosts do and in whatever order frames arrive: the MAC address that a host
gets for an IP address belongs to a host that has, or has had, that IP address, or another
device has claimed it. -/
theorem resolution_truthful (foreign : MacAddr → IpAddr → Prop) (macAddr : Host → MacAddr)
    (mem : Host → ByteArea) (events : List (LanEvent Host)) (lan : Lan Host)
    (hrun : Run step (Admits foreign) (start macAddr mem) events lan) (host : Host)
    (ip : IpAddr) (mac : MacAddr) (hip : ip ≠ 0)
    (hmac : ((lan.hosts host).netIf.arpTbl.getMacAddr ip).1 = some mac) :
    (∃ owner, macAddr owner = mac ∧ ip ∈ lan.held owner) ∨ foreign mac ip := by
  rw [ArpCacheTable.getMacAddr] at hmac
  split at hmac
  next slot hlocate =>
    obtain rfl := Option.some.inj hmac
    have hfirst := (ArpCacheTable.locateIpAddr_eq_some_iff.mp hlocate).1
    rcases (truthful_of_run hrun).cache host slot with hempty | howns
    · exact absurd (hfirst.symm.trans hempty.2) hip
    · rwa [hfirst] at howns
  next => cases hmac

/-- The MAC addresses of two hosts. -/
def twoMacs (host : Bool) : MacAddr := if host then ![2, 0, 0, 0, 0, 1] else ![2, 0, 0, 0, 0, 2]

/-- One of two hosts gets the address of the gateway. -/
def gatewayNet : TcpFactory := ((start twoMacs fun _ => .zeros).hosts true).configure 0xac110001

def gatewayHost : Lan Bool := (start twoMacs fun _ => .zeros).put true gatewayNet

theorem gatewayHost_run : Run step (Admits fun _ _ => False) (start twoMacs fun _ => .zeros)
    [.turn true (.configure 0xac110001)] gatewayHost :=
  Run.nil.snoc trivial rfl

/-- The other one still resolves the address with which both were started. -/
theorem resolution_truthful_two :
    (∃ owner, twoMacs owner = ![2, 0, 0, 0, 0, 2] ∧
      ![172, 17, 0, 2] ∈ gatewayHost.held owner) ∨ False :=
  resolution_truthful _ _ _ _ _ gatewayHost_run false ![172, 17, 0, 2] ![2, 0, 0, 0, 0, 2]
    (by decide) (by decide)

/-- In every reachable state a response that arrives makes its receiver resolve the address
of the sender, if no other host has ever had that address and no other device has claimed it. -/
theorem response_resolves (foreign : MacAddr → IpAddr → Prop) (macAddr : Host → MacAddr)
    (mem : Host → ByteArea) (events : List (LanEvent Host)) (lan : Lan Host)
    (hrun : Run step (Admits foreign) (start macAddr mem) events lan) (host : Host)
    (data : ByteArea) (len : BitVec 16) (harrives : lan.Arrives foreign data) (harp : IsArp data)
    (hresponse : (arpPacket data).opcode ≠ reqOpcode) (hip : (arpPacket data).srcIpAddr ≠ 0)
    (hunique : ∀ mac, lan.Owns foreign macAddr mac (arpPacket data).srcIpAddr →
      mac = (arpPacket data).srcMacAddr) :
    ∃ next, lan.step (.turn host (.packet data len)) = some next ∧
      Run step (Admits foreign) (start macAddr mem)
        (events ++ [.turn host (.packet data len)]) next ∧
      ((next.hosts host).netIf.arpTbl.getMacAddr (arpPacket data).srcIpAddr).1 =
        some (arpPacket data).srcMacAddr := by
  have hturn : lan.step (.turn host (.packet data len)) = some (lan.put host _) :=
    congrArg (Option.map (lan.put host)) (TcpFactory.handlePacket_response harp hresponse)
  refine ⟨_, hturn, hrun.snoc harrives hturn, ?_⟩
  rw [hosts_put_self]
  refine (ArpCacheTable.getMacAddr_append_iff _ _ _).mpr fun slot _ hfirst => ?_
  rcases (truthful_of_run hrun).cache host slot with hempty | howns
  · exact absurd (hfirst.1.symm.trans hempty.2) hip
  · exact hunique _ (hfirst.1 ▸ howns)

/-- The announcement of the new address. -/
def announcement : Packet :=
  arpReply gatewayNet.netIf.macAddr gatewayNet.netIf.ipAddr (fun _ => 0xff) (fun _ => 0xff) 0

/-- It reaches the other host. -/
theorem response_resolves_two :
    ∃ next, gatewayHost.step (.turn false (.packet announcement.data 42)) = some next ∧
      ((next.hosts false).netIf.arpTbl.getMacAddr gatewayNet.netIf.ipAddr).1 =
        some (twoMacs true) := by
  have hfields : arpPacket announcement.data =
      ⟨rspOpcode, twoMacs true, gatewayNet.netIf.ipAddr, fun _ => 0xff, 0⟩ :=
    arpPacket_arpReply ..
  have hsent : announcement ∈ (gatewayHost.hosts true).sent :=
    List.mem_append_right _ (List.mem_singleton.mpr rfl)
  obtain ⟨next, hstep, -, hresolved⟩ := response_resolves _ _ _ _ _ gatewayHost_run false
    announcement.data 42 (.inl ⟨true, announcement, hsent, fun _ _ => rfl⟩)
    (TcpFactory.arpReply_isArp ..) (by rw [hfields]; decide) (by rw [hfields]; decide)
    fun mac howns => by
      rw [hfields] at howns ⊢
      obtain ⟨owner, rfl, hheld⟩ := howns.resolve_right id
      cases owner with
      | true => rfl
      | false => exact absurd hheld (by decide)
  rw [hfields] at hresolved
  exact ⟨next, hstep, hresolved⟩

end Lan

end Shmily.Net
