import Shmily.Foundation.NumberRange
import Shmily.Net.Isolation
import Shmily.Net.Turns

/-! # Sequence numbers of a connection

The sequence number of a socket is moved in several places: with a `SYN`, when a `SYN`
is answered, by the payload, and with the `FIN` of a close, but not with the `FIN`
that answers another. Beside the sockets all segments are kept that each connection
has sent, so that the numbers they use can be compared.
-/

namespace Shmily.Net

open Foundation Lib NumberRange

/-- The numbers that a `SYN` and a `FIN` use. -/
def flagSpace (flags : Byte) : Nat :=
  (if flags &&& flagSyn ≠ 0 then 1 else 0) + (if flags &&& flagFin ≠ 0 then 1 else 0)

namespace Packet

/-- The packet is a segment that leaves from the port. -/
def LeavesFrom (packet : Packet) (port : Nat) : Prop :=
  packet.frame.IsTcp ∧ packet.frame.header.srcPort.toNat = port

instance (packet : Packet) (port : Nat) : Decidable (packet.LeavesFrom port) :=
  inferInstanceAs (Decidable (_ ∧ _))

/-- The sequence numbers that a segment uses: one each for `SYN` and `FIN`, and one for
each byte after the headers. -/
def range (packet : Packet) : NumberRange 32 where
  start := packet.frame.header.seqNum
  length := packet.size - (ethHeaderSize + ipHeaderSize + tcpHeaderSize) +
    flagSpace packet.frame.header.flags

end Packet

/-- The ranges of the segments that use any number. -/
def occupied (packets : List Packet) : List (NumberRange 32) :=
  (packets.map Packet.range).filter (0 < ·.length)

/-- The network process, and for each port the segments that the connection there has sent,
or the last connection if there is none. -/
structure TcpTrace where
  net : TcpFactory
  emitted : Nat → List Packet

namespace TcpTrace

/-- A new socket is a new connection. -/
def record (trace : TcpTrace) (next : TcpFactory) : TcpTrace where
  net := next
  emitted port :=
    (if trace.net.sockets port = none ∧ next.sockets port ≠ none then [] else trace.emitted port) ++
      (next.sent.drop trace.net.sent.length).filter (·.LeavesFrom port)

def step (trace : TcpTrace) (event : TcpEvent) : Option TcpTrace :=
  (trace.net.step event).map trace.record

def init (netIf : NetworkInterface) (mem : ByteArea) : TcpTrace where
  net := .init netIf mem
  emitted _ := []

/-- How many numbers the connection of the port has used. -/
def used (trace : TcpTrace) (port : Nat) : Nat := total (occupied (trace.emitted port))

/-- There are so many numbers left. -/
def HasRoom (trace : TcpTrace) (port cnt : Nat) : Prop := trace.used port + cnt ≤ 2 ^ 32

/-- The numbers are used in order: nothing is sent before a `SYN` is answered, neither
payload nor a `FIN` is sent while a `SYN` or `FIN` is not counted, and the numbers suffice. -/
def InOrder (trace : TcpTrace) : TcpEvent → Prop
  | .packet data len =>
      let header := tcpHeader (TcpFactory.tcpPart data)
      Frame.IsTcp ⟨data, len⟩ → ∀ socket, trace.net.sockets header.dstPort.toNat = some socket →
        (header.kind = flagSyn → socket.state = .listening →
          socket.seqNum = 0 ∧ trace.HasRoom header.dstPort.toNat 1) ∧
        (header.kind = flagFin ∨ header.kind = flagFin ||| flagAck →
          socket.state = .established → trace.HasRoom header.dstPort.toNat 1)
  | .send port _ len => ∀ socket, trace.net.sockets port = some socket → len ≠ 0 →
      socket.state ∉ [.synSent, .closeWait, .closed, .finWait1, .finWait2] ∧ trace.HasRoom port len
  | .close port => ∀ socket, trace.net.sockets port = some socket →
      socket.state ∉ [.synSent, .closeWait, .closed, .finWait1, .finWait2] ∧ trace.HasRoom port 1
  | .listen _ _ | .connect _ _ _ | .accept _ _ | .configure _ | .recv _ _ => True

/-- Every event may happen. -/
def Admits (_ : TcpTrace) (_ : TcpEvent) : Prop := True

instance (trace : TcpTrace) (event : TcpEvent) : Decidable (trace.Admits event) :=
  inferInstanceAs (Decidable True)

instance (trace : TcpTrace) (port cnt : Nat) : Decidable (trace.HasRoom port cnt) :=
  inferInstanceAs (Decidable (_ ≤ _))

/-- A condition on the socket of a port, if there is one. -/
instance {found : Option TcpSocket} {condition : TcpSocket → Prop} [DecidablePred condition] :
    Decidable (∀ socket, found = some socket → condition socket) :=
  match found with
  | none => isTrue fun _ hsome => by cases hsome
  | some socket => decidable_of_iff (condition socket)
      ⟨fun holds _ hsome => Option.some.inj hsome ▸ holds, fun hall => hall socket rfl⟩

instance (trace : TcpTrace) (event : TcpEvent) : Decidable (trace.InOrder event) :=
  match event with
  | .packet _ _ => inferInstanceAs (Decidable (_ → ∀ _, _ = some _ → _))
  | .send _ _ _ => inferInstanceAs (Decidable (∀ _, _ = some _ → _))
  | .close _ => inferInstanceAs (Decidable (∀ _, _ = some _ → _))
  | .listen _ _ | .connect _ _ _ | .accept _ _ | .configure _ | .recv _ _ => isTrue trivial

end TcpTrace

/-! ## Segments and their numbers -/

theorem occupied_append (first second : List Packet) :
    occupied (first ++ second) = occupied first ++ occupied second := by
  rw [occupied, List.map_append, List.filter_append]
  rfl

section

variable {packet : Packet} {ipAddr : IpAddr} {socket : TcpSocket} {payload : ByteArea} {size : Nat}
  {flags : Byte}

theorem tcpFrame_sentBy (net : TcpFactory) (socket : TcpSocket) (payload : ByteArea) (size : Nat)
    (flags : Byte) : (net.tcpFrame socket payload size flags).SentBy net.netIf.ipAddr socket payload
      size flags := ⟨net, rfl, rfl⟩

theorem Packet.SentBy.leavesFrom (hsent : packet.SentBy ipAddr socket payload size flags) :
    packet.LeavesFrom socket.srcPort.toNat := by
  obtain ⟨net, -, rfl⟩ := hsent
  refine ⟨net.tcpFrame_isTcp socket payload size flags, ?_⟩
  rw [net.tcpFrame_header socket payload size flags]

theorem Packet.SentBy.range_eq (hsent : packet.SentBy ipAddr socket payload size flags) :
    packet.range = ⟨socket.seqNum, size + flagSpace flags⟩ := by
  obtain ⟨net, -, rfl⟩ := hsent
  rw [Packet.range, net.tcpFrame_header socket payload size flags]
  exact NumberRange.ext rfl (congrArg (· + _) (Nat.add_sub_cancel_left _ _))

theorem occupied_sent (hsent : packet.SentBy ipAddr socket payload size flags)
    (hspace : 0 < size + flagSpace flags) :
    occupied [packet] = [⟨socket.seqNum, size + flagSpace flags⟩] := by
  rw [occupied, List.map_singleton, hsent.range_eq]
  exact List.filter_cons_of_pos (by simpa using hspace)

theorem occupied_sent_nothing (hsent : packet.SentBy ipAddr socket payload size flags)
    (hspace : size + flagSpace flags = 0) : occupied [packet] = [] := by
  rw [occupied, List.map_singleton, hsent.range_eq, hspace]
  rfl

end

theorem total_singleton (range : NumberRange 32) : total [range] = range.length := by
  simp [total]

namespace TcpTrace

variable {trace : TcpTrace} {next : TcpFactory} {port : Nat} {packets : List Packet}

theorem record_sent (hsent : next.sent = trace.net.sent ++ packets) (port : Nat) :
    (trace.record next).emitted port =
      (if trace.net.sockets port = none ∧ next.sockets port ≠ none then [] else
        trace.emitted port) ++ packets.filter (·.LeavesFrom port) := by
  rw [record, hsent, List.drop_left]

/-- Segments of other ports do not count. -/
theorem record_other (hsent : next.sent = trace.net.sent ++ packets)
    (hother : ∀ packet ∈ packets, ¬ packet.LeavesFrom port)
    (hsockets : next.sockets port = trace.net.sockets port) :
    (trace.record next).emitted port = trace.emitted port := by
  rw [record_sent hsent, hsockets, if_neg (fun hnew => hnew.2 hnew.1),
    List.filter_eq_nil_iff.mpr (by simpa using hother), List.append_nil]

/-- The connection goes on. -/
theorem record_same (hsent : next.sent = trace.net.sent ++ packets)
    (hown : ∀ packet ∈ packets, packet.LeavesFrom port) (hbound : trace.net.sockets port ≠ none) :
    (trace.record next).emitted port = trace.emitted port ++ packets := by
  rw [record_sent hsent, if_neg (fun hnew => hbound hnew.1),
    List.filter_eq_self.mpr (by simpa using hown)]

/-- The connection is new. -/
theorem record_new (hsent : next.sent = trace.net.sent ++ packets)
    (hown : ∀ packet ∈ packets, packet.LeavesFrom port) (hnone : trace.net.sockets port = none)
    (hbound : next.sockets port ≠ none) : (trace.record next).emitted port = packets := by
  rw [record_sent hsent, if_pos ⟨hnone, hbound⟩, List.filter_eq_self.mpr (by simpa using hown),
    List.nil_append]

/-- Every connection has used the numbers from `0` on, and its socket knows the next one. -/
structure Accounted (trace : TcpTrace) : Prop where
  consecutive : ∀ port, Consecutive 0 (occupied (trace.emitted port))
  room : ∀ port, trace.HasRoom port 0
  socket : ∀ port socket, trace.net.sockets port = some socket → socket.srcPort.toNat = port ∧
    socket.nextSeq = BitVec.ofNat 32 (trace.used port)

/-- Only the connection of one port sends: it goes on behind the numbers it has used. -/
theorem Accounted.record (haccounted : trace.Accounted) {before : List Packet}
    (hemitted : (trace.record next).emitted port = before ++ packets)
    (hbefore : Consecutive 0 (occupied before))
    (hpackets : Consecutive (BitVec.ofNat 32 (total (occupied before))) (occupied packets))
    (hroom : total (occupied before) + total (occupied packets) ≤ 2 ^ 32)
    (hsocket : ∀ socket, next.sockets port = some socket → socket.srcPort.toNat = port ∧
      socket.nextSeq =
        BitVec.ofNat 32 (total (occupied before) + total (occupied packets)))
    (hothers : ∀ other ≠ port, (trace.record next).emitted other = trace.emitted other ∧
      next.sockets other = trace.net.sockets other) : (trace.record next).Accounted := by
  have hused : (trace.record next).used port =
      total (occupied before) + total (occupied packets) := by
    rw [used, hemitted, occupied_append, total_append]
  -- the accounts of the other ports are unchanged
  refine ⟨fun other => ?_, fun other => ?_, fun other socket hother => ?_⟩
  · by_cases hport : other = port
    · subst hport
      rw [hemitted, occupied_append, consecutive_append, zero_add]
      exact ⟨hbefore, hpackets⟩
    · rw [(hothers other hport).1]
      exact haccounted.consecutive other
  · by_cases hport : other = port
    · subst hport
      rw [HasRoom, hused]
      exact hroom
    · rw [HasRoom, used, (hothers other hport).1]
      exact haccounted.room other
  · by_cases hport : other = port
    · subst hport
      rw [hused]
      exact hsocket socket hother
    · obtain ⟨hemitted, hsame⟩ := hothers other hport
      rw [used, hemitted]
      exact haccounted.socket other socket (hsame ▸ hother)

/-- The connection of a bound port goes on. -/
theorem Accounted.record_bound (haccounted : trace.Accounted) {socket : TcpSocket}
    (hbound : trace.net.sockets port = some socket) (hsent : next.sent = trace.net.sent ++ packets)
    (hown : ∀ packet ∈ packets, packet.LeavesFrom port)
    (hpackets : Consecutive (BitVec.ofNat 32 (trace.used port)) (occupied packets))
    (hroom : trace.HasRoom port (total (occupied packets)))
    (hafter : ∀ after, next.sockets port = some after → after.srcPort.toNat = port ∧
      after.nextSeq = BitVec.ofNat 32 (trace.used port + total (occupied packets)))
    (hothers : ∀ other ≠ port, next.sockets other = trace.net.sockets other) :
    (trace.record next).Accounted := by
  have hne : trace.net.sockets port ≠ none := by simp [hbound]
  refine haccounted.record (record_same hsent hown hne) (haccounted.consecutive port) hpackets hroom
    hafter fun other hother => ⟨?_, hothers other hother⟩
  refine record_other hsent (fun packet hmem hleaves => hother ?_) (hothers other hother)
  exact hleaves.2.symm.trans (hown packet hmem).2

/-- A connection starts on a free port. -/
theorem Accounted.record_unbound (haccounted : trace.Accounted) {after : TcpSocket}
    (hnone : trace.net.sockets port = none) (hafter : next.sockets port = some after)
    (hsent : next.sent = trace.net.sent ++ packets)
    (hown : ∀ packet ∈ packets, packet.LeavesFrom port)
    (hpackets : Consecutive 0 (occupied packets)) (hroom : total (occupied packets) ≤ 2 ^ 32)
    (hport : after.srcPort.toNat = port)
    (hnext : after.nextSeq = BitVec.ofNat 32 (total (occupied packets)))
    (hothers : ∀ other ≠ port, next.sockets other = trace.net.sockets other) :
    (trace.record next).Accounted := by
  have hne : next.sockets port ≠ none := by simp [hafter]
  have hstart : total (occupied []) = 0 := rfl
  refine haccounted.record ((record_new hsent hown hnone hne).trans (List.nil_append _).symm)
    trivial hpackets ?_ (fun socket hsocket => ?_) fun other hother => ⟨?_, hothers other hother⟩
  · rwa [hstart, Nat.zero_add]
  · cases hafter.symm.trans hsocket
    rw [hstart, Nat.zero_add]
    exact ⟨hport, hnext⟩
  · refine record_other hsent (fun packet hmem hleaves => hother ?_) (hothers other hother)
    exact hleaves.2.symm.trans (hown packet hmem).2

/-- The state does not matter if neither a `SYN` nor a `FIN` is uncounted. -/
theorem nextSeq_of_counted {socket : TcpSocket}
    (hstate : socket.state ∉ [.synSent, .closeWait, .closed, .finWait1, .finWait2]) :
    socket.nextSeq = socket.seqNum := by
  rw [TcpSocket.nextSeq]
  cases hkind : socket.state
  case synSent | closeWait | closed | finWait1 | finWait2 => simp [hkind] at hstate
  all_goals exact BitVec.add_zero _

theorem port_toNat (hport : port < 128) : (BitVec.ofNat 16 port).toNat = port := by
  rw [BitVec.toNat_ofNat, Nat.mod_eq_of_lt (by omega)]

/-- What is sent for a bound port uses the next numbers. -/
theorem Accounted.record_range (haccounted : trace.Accounted) {socket : TcpSocket} {cnt : Nat}
    (hbound : trace.net.sockets port = some socket) (hsent : next.sent = trace.net.sent ++ packets)
    (hown : ∀ packet ∈ packets, packet.LeavesFrom socket.srcPort.toNat)
    (hoccupied : occupied packets = [⟨socket.nextSeq, cnt⟩]) (hroom : trace.HasRoom port cnt)
    (hafter : ∀ after, next.sockets port = some after → after.srcPort = socket.srcPort ∧
      after.nextSeq = socket.nextSeq + BitVec.ofNat 32 cnt)
    (hothers : ∀ other ≠ port, next.sockets other = trace.net.sockets other) :
    (trace.record next).Accounted := by
  obtain ⟨hsrc, hnext⟩ := haccounted.socket port socket hbound
  have htotal : total (occupied packets) = cnt := by rw [hoccupied, total_singleton]
  refine haccounted.record_bound hbound hsent (hsrc ▸ hown) ?_ (htotal ▸ hroom)
    (fun after hsome => ?_) hothers
  · rw [hoccupied, ← hnext]
    exact ⟨rfl, trivial⟩
  · obtain ⟨hsame, hseq⟩ := hafter after hsome
    rw [hsame, hseq, hnext, htotal, ← BitVec.ofNat_add]
    exact ⟨hsrc, rfl⟩

/-- What is sent for a bound port uses no numbers. -/
theorem Accounted.record_silent (haccounted : trace.Accounted) {socket : TcpSocket}
    (hbound : trace.net.sockets port = some socket) (hsent : next.sent = trace.net.sent ++ packets)
    (hown : ∀ packet ∈ packets, packet.LeavesFrom socket.srcPort.toNat)
    (hoccupied : occupied packets = [])
    (hafter : ∀ after, next.sockets port = some after → after.srcPort = socket.srcPort ∧
      after.nextSeq = socket.nextSeq)
    (hothers : ∀ other ≠ port, next.sockets other = trace.net.sockets other) :
    (trace.record next).Accounted := by
  obtain ⟨hsrc, hnext⟩ := haccounted.socket port socket hbound
  refine haccounted.record_bound hbound hsent (hsrc ▸ hown) ?_ ?_ (fun after hsome => ?_) hothers
  · rw [hoccupied]
    trivial
  · rw [hoccupied]
    exact haccounted.room port
  · obtain ⟨hsame, hseq⟩ := hafter after hsome
    rw [hsame, hseq, hoccupied]
    exact ⟨hsrc, hnext⟩

/-- Frames without payload, sent one after the other for a socket. -/
theorem occupied_forall₂ {ipAddr : IpAddr} {asked : TcpSocket} {flags : List Byte}
    (hall : List.Forall₂ (fun packet flag => packet.SentBy ipAddr asked .zeros 0 flag) packets flags) :
    (∀ packet ∈ packets, packet.LeavesFrom asked.srcPort.toNat) ∧
      occupied packets = (flags.map fun flag => ⟨asked.seqNum, flagSpace flag⟩).filter
        (0 < ·.length) := by
  induction hall with
  | nil => exact ⟨fun _ hmem => absurd hmem List.not_mem_nil, rfl⟩
  | @cons packet flag _ _ hfirst _ ih =>
      refine ⟨List.forall_mem_cons.mpr ⟨hfirst.leavesFrom, ih.1⟩, ?_⟩
      rw [List.map_cons, List.filter_cons, ← ih.2, occupied, List.map_cons, List.filter_cons,
        hfirst.range_eq, Nat.zero_add, occupied]

theorem occupied_acks {ipAddr : IpAddr} {asked : TcpSocket} {flags : List Byte}
    (hall : List.Forall₂ (fun packet flag => packet.SentBy ipAddr asked .zeros 0 flag) packets flags)
    (hflags : ∀ flag ∈ flags, flag = flagAck) : occupied packets = [] := by
  rw [(occupied_forall₂ hall).2, List.filter_eq_nil_iff]
  intro range hmem
  obtain ⟨flag, hflag, rfl⟩ := List.mem_map.mp hmem
  rw [hflags flag hflag]
  exact Bool.false_ne_true

/-- A segment is answered with the next numbers. -/
theorem Accounted.answered (haccounted : trace.Accounted) {socket : TcpSocket} {data : ByteArea}
    {len : BitVec 16} {arrival : TcpFactory.Arrival} (htcp : Frame.IsTcp ⟨data, len⟩)
    (hdata : arrival.data = TcpFactory.tcpPart data)
    (hbound : trace.net.sockets arrival.port = some socket)
    (hinOrder : trace.InOrder (.packet data len)) :
    (trace.record ((trace.net.resolve socket arrival).1.setSocket arrival.port
      (trace.net.resolve socket arrival).2)).Accounted := by
  obtain ⟨hsyn, hfin⟩ := hinOrder htcp socket (by rwa [TcpFactory.Arrival.port, hdata] at hbound)
  obtain ⟨asked, flags, packets, hanswer, hsent, hall⟩ := trace.net.resolve_answer socket arrival
  obtain ⟨hown, hoccupied⟩ := occupied_forall₂ hall
  obtain ⟨-, hnext⟩ := haccounted.socket arrival.port socket hbound
  rw [hanswer.srcPort.1] at hown
  rw [← hdata] at hsyn hfin
  have hsockets : ∀ after, ((trace.net.resolve socket arrival).1.setSocket arrival.port
      (trace.net.resolve socket arrival).2).sockets arrival.port = some after →
      after = (trace.net.resolve socket arrival).2 :=
    fun after hafter => TcpFactory.eq_of_setSocket _ _ _ hafter
  have hothers : ∀ other ≠ arrival.port,
      ((trace.net.resolve socket arrival).1.setSocket arrival.port
        (trace.net.resolve socket arrival).2).sockets other = trace.net.sockets other := by
    intro other hne
    rw [TcpFactory.setSocket_of_ne hne, TcpFactory.resolve_sockets]
  -- the flags of the answer tell which numbers it uses
  cases hanswer.usage with
  | none hflags hsame =>
      refine haccounted.record_silent hbound hsent hown (occupied_acks hall hflags)
        (fun after hafter => ?_) hothers
      rw [hsockets after hafter]
      exact ⟨hanswer.srcPort.2, hsame⟩
  | syn hkind hstate hasked hafter =>
      obtain ⟨hseq, hroom⟩ := hsyn hkind hstate
      have hzero : socket.nextSeq = 0 := by
        rw [nextSeq_of_counted (by simp [hstate]), hseq]
      refine haccounted.record_range hbound hsent hown ?_ hroom (fun after hsome => ?_) hothers
      · rw [hoccupied, hasked, hzero]
        rfl
      · rw [hsockets after hsome, hafter, hzero]
        exact ⟨hanswer.srcPort.2, rfl⟩
  | fin hkind hstate hasked hafter =>
      have hseq : socket.nextSeq = socket.seqNum := nextSeq_of_counted (by simp [hstate])
      refine haccounted.record_range hbound hsent hown ?_ (hfin hkind hstate)
        (fun after hsome => ?_) hothers
      · rw [hoccupied, hasked, hseq]
        rfl
      · rw [hsockets after hsome, hafter, hseq]
        exact ⟨hanswer.srcPort.2, rfl⟩

theorem Accounted.sent (haccounted : trace.Accounted) {socket : TcpSocket} {data : ByteArea}
    {len : Nat} (hbound : trace.net.sockets port = some socket)
    (hinOrder : trace.InOrder (.send port data len)) :
    (trace.record ((trace.net.send socket data len (flagPsh ||| flagAck)).1.setSocket port
      (trace.net.send socket data len (flagPsh ||| flagAck)).2)).Accounted := by
  set next := (trace.net.send socket data len (flagPsh ||| flagAck)).1.setSocket port
    (trace.net.send socket data len (flagPsh ||| flagAck)).2
  have hpacket := tcpFrame_sentBy trace.net socket data len (flagPsh ||| flagAck)
  have hsent : next.sent =
      trace.net.sent ++ [trace.net.tcpFrame socket data len (flagPsh ||| flagAck)] := rfl
  have hown : ∀ packet ∈ [trace.net.tcpFrame socket data len (flagPsh ||| flagAck)],
      packet.LeavesFrom socket.srcPort.toNat :=
    fun packet hmem => List.mem_singleton.mp hmem ▸ hpacket.leavesFrom
  have hafter : ∀ after, next.sockets port = some after →
      after = { socket with seqNum := socket.seqNum + BitVec.ofNat 32 len } :=
    fun after hsome => TcpFactory.eq_of_setSocket _ _ _ hsome
  have hothers : ∀ other ≠ port, next.sockets other = trace.net.sockets other :=
    fun other hne => TcpFactory.setSocket_of_ne hne
  -- without payload no number is used, whatever the state is
  by_cases hlen : len = 0
  · subst hlen
    refine haccounted.record_silent hbound hsent hown (occupied_sent_nothing hpacket rfl)
      (fun after hsome => ?_) hothers
    rw [hafter after hsome]
    exact ⟨rfl, congrArg (· + _) (add_zero _)⟩
  · obtain ⟨hstate, hroom⟩ := hinOrder socket hbound hlen
    have hseq : socket.nextSeq = socket.seqNum := nextSeq_of_counted hstate
    have hmoved : TcpSocket.nextSeq { socket with seqNum := socket.seqNum + BitVec.ofNat 32 len } =
        socket.seqNum + BitVec.ofNat 32 len := nextSeq_of_counted hstate
    refine haccounted.record_range hbound hsent hown ?_ hroom (fun after hsome => ?_) hothers
    · rw [occupied_sent hpacket (Nat.pos_of_ne_zero hlen), hseq]
      rfl
    · rw [hafter after hsome, hmoved, hseq]
      exact ⟨rfl, rfl⟩

theorem Accounted.closed (haccounted : trace.Accounted) {socket : TcpSocket}
    (hbound : trace.net.sockets port = some socket) (hinOrder : trace.InOrder (.close port)) :
    (trace.record { (trace.net.disconnect socket).1 with
      sockets := Function.update (trace.net.disconnect socket).1.sockets port none }).Accounted := by
  obtain ⟨hstate, hroom⟩ := hinOrder socket hbound
  have hpacket := tcpFrame_sentBy trace.net { socket with state := .finWait1 } .zeros 0
    (flagFin ||| flagAck)
  refine haccounted.record_range hbound (TcpFactory.sendFlags_sent _ _ _)
    (fun packet hmem => List.mem_singleton.mp hmem ▸ hpacket.leavesFrom) ?_ hroom
    (fun after hsome => ?_) fun other hne => Function.update_of_ne hne _ _
  · rw [occupied_sent hpacket (by decide), nextSeq_of_counted hstate]
    rfl
  · cases hsome.symm.trans (Function.update_self _ _ _)

/-- Every turn in order keeps the account. -/
theorem Accounted.turn (haccounted : trace.Accounted) {event : TcpEvent}
    (hturn : TcpFactory.Turn trace.net event next) (hinOrder : trace.InOrder event) :
    (trace.record next).Accounted := by
  cases hturn with
  | idle hsockets hsent =>
      -- only replies of ARP are sent meanwhile
      obtain ⟨packets, hsent, hnone⟩ := hsent
      have hemitted : ∀ port, (trace.record next).emitted port = trace.emitted port := fun port =>
        record_other hsent (fun packet hmem hleaves => hnone packet hmem hleaves.1)
          (congrFun hsockets port)
      refine ⟨fun port => ?_, fun port => ?_, fun port socket hsocket => ?_⟩
      · exact hemitted port ▸ haccounted.consecutive port
      · rw [HasRoom, used, hemitted]
        exact haccounted.room port
      · rw [used, hemitted]
        exact haccounted.socket port socket (hsockets ▸ hsocket)
  | @listened port dataBuf hport hnone =>
      exact haccounted.record_unbound hnone (TcpFactory.setSocket_self _ _ _)
        (List.append_nil _).symm (fun _ hmem => absurd hmem List.not_mem_nil) trivial (Nat.zero_le _)
        (port_toNat hport) rfl fun other hne => TcpFactory.setSocket_of_ne hne
  | @connected port dstIp dstPort hport _ hnone =>
      have hpacket := tcpFrame_sentBy trace.net (trace.net.connectingSocket port dstIp dstPort)
        .zeros 0 flagSyn
      have hsrc : (trace.net.connectingSocket port dstIp dstPort).srcPort.toNat = port :=
        port_toNat hport
      have hoccupied : occupied [trace.net.tcpFrame (trace.net.connectingSocket port dstIp dstPort)
          .zeros 0 flagSyn] = [⟨0, 1⟩] := occupied_sent hpacket (by decide)
      refine haccounted.record_unbound hnone (TcpFactory.setSocket_self _ _ _)
        (TcpFactory.sendFlags_sent _ _ _) (fun packet hmem => ?_) ?_ ?_ hsrc ?_
        fun other hne => TcpFactory.setSocket_of_ne hne
      · exact hsrc ▸ List.mem_singleton.mp hmem ▸ hpacket.leavesFrom
      · rw [hoccupied]
        exact ⟨rfl, trivial⟩
      · rw [hoccupied]
        decide
      · rw [hoccupied]
        rfl
  | @touched event port socket after hsocket hseq hstate hport =>
      refine haccounted.record_silent hsocket (List.append_nil _).symm
        (fun _ hmem => absurd hmem List.not_mem_nil) rfl (fun other hother => ?_)
        fun other hne => TcpFactory.setSocket_of_ne hne
      cases (TcpFactory.setSocket_self _ _ _).symm.trans hother
      exact ⟨hport, by rw [TcpSocket.nextSeq, TcpSocket.nextSeq, hseq, hstate]⟩
  | answered htcp arrival hdata hsocket => exact haccounted.answered htcp hdata hsocket hinOrder
  | sent hsocket => exact haccounted.sent hsocket hinOrder
  | closed hsocket => exact haccounted.closed hsocket hinOrder

variable {netIf : NetworkInterface} {mem : ByteArea} {events : List TcpEvent}

theorem accounted_init : (init netIf mem).Accounted where
  consecutive _ := trivial
  room _ := Nat.zero_le _
  socket _ _ hsocket := by cases hsocket

theorem accounted_of_run (hrun : Run step InOrder (init netIf mem) events trace) :
    trace.Accounted := by
  refine hrun.invariant Accounted accounted_init fun before event after haccounted hinOrder hstep => ?_
  obtain ⟨next, hnext, rfl⟩ := Option.map_eq_some_iff.mp hstep
  exact haccounted.turn (TcpFactory.step_turn hnext) hinOrder

/-- Every connection uses the numbers from `0` on one after the other, and none twice, as
long as every segment that uses numbers is sent in order. -/
theorem numbers_disjoint_of_run (hrun : Run step InOrder (init netIf mem) events trace)
    (port : Nat) : (occupied (trace.emitted port)).Pairwise Disjoint ∧
      Consecutive 0 (occupied (trace.emitted port)) := by
  have haccounted := accounted_of_run hrun
  have hconsecutive := haccounted.consecutive port
  exact ⟨hconsecutive.pairwise_disjoint (haccounted.room port), hconsecutive⟩

/-- The `FIN` of a close has the number of the `SYN` or `FIN` that is not counted. -/
theorem Accounted.close_overlaps (haccounted : trace.Accounted) {socket : TcpSocket}
    (hport : port < 128) (hbound : trace.net.sockets port = some socket)
    (hstate : socket.state.lag = 1) (hused : 0 < trace.used port) :
    ∃ closed, trace.step (.close port) = some closed ∧
      ¬ (occupied (closed.emitted port)).Pairwise Disjoint := by
  set next : TcpFactory := { (trace.net.disconnect socket).1 with
    sockets := Function.update (trace.net.disconnect socket).1.sockets port none }
  have hclose : trace.net.step (.close port) = some next := by
    rw [TcpFactory.step, TcpFactory.closeSocket, if_neg (Nat.not_le.mpr hport), hbound]
  have hpacket := tcpFrame_sentBy trace.net { socket with state := .finWait1 } .zeros 0
    (flagFin ||| flagAck)
  have hsent : next.sent = trace.net.sent ++ [trace.net.tcpFrame
    { socket with state := .finWait1 } .zeros 0 (flagFin ||| flagAck)] :=
    TcpFactory.sendFlags_sent _ _ _
  obtain ⟨hsrc, hnext⟩ := haccounted.socket port socket hbound
  -- the uncounted `SYN` or `FIN` has the last number in use
  have hseq : socket.seqNum = 0 + BitVec.ofNat 32 (trace.used port - 1) := by
    have hsplit : trace.used port = trace.used port - 1 + 1 := by omega
    rw [TcpSocket.nextSeq, hstate, hsplit, BitVec.ofNat_add] at hnext
    rw [zero_add]
    exact add_right_cancel hnext
  refine ⟨trace.record next, Option.map_eq_some_iff.mpr ⟨next, hclose, rfl⟩, fun hdisjoint => ?_⟩
  rw [record_same hsent (fun packet hmem => ?_) (by simp [hbound]), occupied_append,
    occupied_sent hpacket (by decide), List.pairwise_append] at hdisjoint
  · obtain ⟨range, hmem, hcontains⟩ := (haccounted.consecutive port).covers
      (show trace.used port - 1 < trace.used port by omega)
    refine hdisjoint.2.2 range hmem _ (List.mem_singleton_self _) _ hcontains
      ⟨0, (by decide : 0 < flagSpace (flagFin ||| flagAck)), ?_⟩
    exact hseq.symm.trans (add_zero _).symm
  · exact hsrc ▸ List.mem_singleton.mp hmem ▸ hpacket.leavesFrom

/-! A connection to a web server: it is accepted, a request is sent, and the socket closed. -/

def webAccepts : TcpEvent :=
  let packet := webFactory.tcpFrame { webSocket with dstPort := 12, seqNum := 4 } .zeros 0
    (flagSyn ||| flagAck)
  .packet packet.data packet.frame.len

def connectEvent : TcpEvent := .connect ![172, 17, 0, 3] 80 true

theorem numbers_disjoint_of_run_request : ∃ trace, Run step InOrder (init webInterface .zeros)
    [connectEvent, webAccepts, .send 12 .zeros 5, .close 12] trace ∧
      occupied (trace.emitted 12) = [⟨0, 1⟩, ⟨1, 5⟩, ⟨6, 1⟩] ∧
      (occupied (trace.emitted 12)).Pairwise Disjoint ∧
      Consecutive 0 (occupied (trace.emitted 12)) := by
  have hoccupied : (exec step InOrder (init webInterface .zeros) [connectEvent, webAccepts,
      .send 12 .zeros 5, .close 12]).map (fun trace => occupied (trace.emitted 12)) =
      some [⟨0, 1⟩, ⟨1, 5⟩, ⟨6, 1⟩] := by decide
  obtain ⟨trace, hexec, hranges⟩ := Option.map_eq_some_iff.mp hoccupied
  have hrun := Run.of_exec step InOrder _ _ hexec
  exact ⟨trace, hrun, hranges, numbers_disjoint_of_run hrun 12⟩

/-- The socket is closed before the `SYN` is answered: `SYN` and `FIN` have the same number. -/
theorem close_unanswered_overlaps : ∃ trace, Run step Admits (init webInterface .zeros)
    [connectEvent, .close 12] trace ∧ ¬ (occupied (trace.emitted 12)).Pairwise Disjoint := by
  have hrun : Run step InOrder (init webInterface .zeros) [connectEvent] _ := .snoc .nil trivial rfl
  have haccounted := accounted_of_run hrun
  have hnext := (haccounted.socket 12 ((init webInterface .zeros).net.connectingSocket 12
    ![172, 17, 0, 3] 80) rfl).2
  obtain ⟨trace, hstep, hoverlaps⟩ := haccounted.close_overlaps (by decide : 12 < 128) rfl rfl
    (Nat.pos_of_ne_zero fun hzero => absurd (hzero ▸ hnext) (by decide))
  exact ⟨trace, .snoc (hrun.mono fun _ _ _ => trivial) trivial hstep, hoverlaps⟩

end TcpTrace

end Shmily.Net
