import Shmily.Foundation.Run
import Shmily.Net.Isolation

/-! # The stream of a connection

`resolve_packet` takes the number of bytes of the frame that are not zero for the length
of the payload, and `recv` gives a whole buffer back for every call. The stream is
intact as long as the two lengths agree and every call asks for all of the oldest
segment.
-/

namespace Shmily.Net

open Foundation Lib

/-- What the driver has received. -/
structure Frame where
  data : ByteArea
  len : BitVec 16

/-- `frame::MAX_LEN`. -/
def frameMaxLen : Nat := 1532

namespace Frame

def ipHeaderLen (frame : Frame) : Nat := (frame.data ethHeaderSize).toNat % 16 * 4

def totalLen (frame : Frame) : Nat := (swapWord (wordAt frame.data (ethHeaderSize + 2))).toNat

def remoteIp (frame : Frame) : IpAddr := arrayAt frame.data (ethHeaderSize + 12) 4

/-- The bytes from the TCP header on. -/
def segment (frame : Frame) : ByteArea := fun k =>
  frame.data (ethHeaderSize + frame.ipHeaderLen + k)

def header (frame : Frame) : TcpHeader := tcpHeader frame.segment

/-- The bytes after the TCP header within the IP total length. -/
def payload (frame : Frame) : List Byte :=
  (List.range (frame.totalLen - frame.ipHeaderLen - frame.header.headSize * 4)).map fun i =>
    frame.segment (frame.header.headSize * 4 + i)

/-- A frame with a TCP segment. -/
structure WellFormed (frame : Frame) : Prop where
  isIp : swapWord (wordAt frame.data 12) = nextIsIp
  isTcp : frame.data (ethHeaderSize + 9) = 0x06
  headers : frame.ipHeaderLen + frame.header.headSize * 4 ≤ frame.totalLen
  total : ethHeaderSize + frame.totalLen ≤ frame.len.toNat
  len : frame.len.toNat ≤ frameMaxLen

/-- The next segment from the other end of the connection. -/
structure InOrder (frame : Frame) (port : Nat) (socket : TcpSocket) : Prop where
  dstPort : frame.header.dstPort.toNat = port
  remoteIp : frame.remoteIp = socket.dstIp
  srcPort : frame.header.srcPort = socket.dstPort
  seqNum : frame.header.seqNum = socket.ackNum

/-- There are no IP options, the segment neither opens nor ends the connection, and
of the bytes after its header as many are not zero as the payload is long. -/
structure Intact (frame : Frame) : Prop where
  plainIp : frame.ipHeaderLen = ipHeaderSize
  carriesData : frame.header.kind = flagAck ∨ frame.header.kind = 0
  nonzero : (List.range (frame.len.toNat - (ethHeaderSize + ipHeaderSize) -
    frame.header.headSize * 4)).countP (fun i => frame.segment (frame.header.headSize * 4 + i) ≠ 0) =
      frame.payload.length

end Frame

inductive StreamEvent
  | segment (frame : Frame)
  | recv (len : Nat)

/-- The network process, the payloads received so far and the bytes copied out so far. -/
structure Stream where
  net : TcpFactory
  received : List Byte
  copied : List Byte

/-- What a buffer of the receive ring holds. -/
def segmentAt (mem : ByteArea) (pointer : Nat) : List Byte :=
  (List.range (mem.getLE 4 pointer)).map fun i => mem (pointer + 4 + i)

namespace Stream

def step (port : Nat) (stream : Stream) : StreamEvent → Option Stream
  | .segment frame => do
      let net ← stream.net.handlePacket frame.data frame.len
      some { stream with net := net, received := stream.received ++ frame.payload }
  | .recv len => do
      let (bytes, net) ← stream.net.recv port len
      some { stream with net := net, copied := stream.copied ++ bytes }

/-- In-order segments from the other end, of which at most nine are unread, and calls of
`recv`. -/
def Arrives (port : Nat) (stream : Stream) : StreamEvent → Prop
  | .segment frame => ∃ socket, stream.net.sockets port = some socket ∧ frame.WellFormed ∧
      frame.InOrder port socket ∧ socket.recvBuffer.used < 9
  | .recv _ => True

/-- Every segment is intact, and every call asks for all of the oldest unread segment,
or for nothing if there is none. -/
def Careful (port : Nat) (stream : Stream) : StreamEvent → Prop
  | .segment frame => frame.Intact
  | .recv len => ∀ socket, stream.net.sockets port = some socket →
      match socket.recvBuffer.pointers with
      | [] => len = 0
      | oldest :: _ => stream.net.mem.getLE 4 oldest ≤ len

end Stream

/-- `malloc(1600)` in `listen`. -/
def recvBufferSize : Nat := 1600

/-- The ring was initialised with separate buffers, and what they hold fits into them. -/
structure RingReady (mem : ByteArea) (ring : IndirectRingBuffer) : Prop where
  wellFormed : ring.WellFormed
  separate : ∀ i < ringLen, ∀ j < ringLen, i ≠ j →
    ring.buf i + recvBufferSize ≤ ring.buf j ∨ ring.buf j + recvBufferSize ≤ ring.buf i
  fits : ∀ pointer ∈ ring.pointers, 4 + mem.getLE 4 pointer ≤ recvBufferSize

/-- The payloads that are still in the ring. -/
def unread (mem : ByteArea) (ring : IndirectRingBuffer) : List Byte :=
  ring.pointers.flatMap (segmentAt mem)

/-- An established connection; what was received and not copied out is in the ring. -/
def Streaming (port : Nat) (stream : Stream) : Prop :=
  ∃ socket, stream.net.sockets port = some socket ∧ socket.state = .established ∧
    RingReady stream.net.mem socket.recvBuffer ∧
    stream.received = stream.copied ++ unread stream.net.mem socket.recvBuffer

section Buffers

variable {mem data : ByteArea} {ring : IndirectRingBuffer} {pointer buffer start len : Nat}

/-- Store a segment in a buffer, its length first. -/
def storeSegment (mem : ByteArea) (buffer : Nat) (data : ByteArea) (start len : Nat) : ByteArea :=
  (mem.putLE 4 buffer len).copyIn (buffer + 4) data start len

theorem storeSegment_of_not {k : Nat} (hout : ¬ (buffer ≤ k ∧ k < buffer + 4 + len)) :
    storeSegment mem buffer data start len k = mem k := by
  rw [storeSegment, ByteArea.copyIn_of_not (by omega), ByteArea.putLE_of_not (by omega)]

theorem getLE_storeSegment_self (hlen : len < 2 ^ 32) :
    (storeSegment mem buffer data start len).getLE 4 buffer = len := by
  have hsame : (storeSegment mem buffer data start len).getLE 4 buffer =
      (mem.putLE 4 buffer len).getLE 4 buffer :=
    ByteArea.getLE_congr fun i hi => ByteArea.copyIn_of_not (by omega)
  rw [hsame, ByteArea.getLE_putLE_self]
  exact Nat.mod_eq_of_lt hlen

theorem segmentAt_storeSegment_self (hlen : len < 2 ^ 32) :
    segmentAt (storeSegment mem buffer data start len) buffer =
      (List.range len).map fun i => data (start + i) := by
  rw [segmentAt, getLE_storeSegment_self hlen]
  refine List.map_congr_left fun i hi => ?_
  rw [List.mem_range] at hi
  rw [storeSegment, ByteArea.copyIn_at (by omega) (by omega)]
  congr 1
  omega

/-- The segment in another buffer stays. -/
theorem storeSegment_other (hlen : 4 + len ≤ recvBufferSize)
    (hfits : 4 + mem.getLE 4 pointer ≤ recvBufferSize)
    (hseparate : pointer + recvBufferSize ≤ buffer ∨ buffer + recvBufferSize ≤ pointer) :
    (storeSegment mem buffer data start len).getLE 4 pointer = mem.getLE 4 pointer ∧
      segmentAt (storeSegment mem buffer data start len) pointer = segmentAt mem pointer := by
  have hlength : (storeSegment mem buffer data start len).getLE 4 pointer = mem.getLE 4 pointer :=
    ByteArea.getLE_congr fun i hi => storeSegment_of_not (by omega)
  refine ⟨hlength, ?_⟩
  rw [segmentAt, segmentAt, hlength]
  refine List.map_congr_left fun i hi => ?_
  rw [List.mem_range] at hi
  exact storeSegment_of_not (by omega)

/-- The next buffer of the ring is separate from those that hold a segment. -/
theorem RingReady.separate_next (hready : RingReady mem ring) (hfull : ring.isFull = false)
    (hmem : pointer ∈ ring.pointers) :
    pointer + recvBufferSize ≤ ring.getFirstFreeBuffer.1 ∨
      ring.getFirstFreeBuffer.1 + recvBufferSize ≤ pointer := by
  obtain ⟨k, hk, hne, rfl⟩ := IndirectRingBuffer.exists_of_mem_pointers hready.wellFormed hmem
  have hnext : ring.getFirstFreeBuffer.1 = ring.buf ring.head := by
    simp [IndirectRingBuffer.getFirstFreeBuffer, hfull]
  rw [hnext]
  exact hready.separate k hk ring.head hready.wellFormed.head_lt hne

/-- A segment that is stored becomes the last unread one. -/
theorem RingReady.store (hready : RingReady mem ring) (hfull : ring.isFull = false)
    (data : ByteArea) (start : Nat) (hlen : 4 + len ≤ recvBufferSize) :
    RingReady (storeSegment mem ring.getFirstFreeBuffer.1 data start len)
        ring.getFirstFreeBuffer.2 ∧
      unread (storeSegment mem ring.getFirstFreeBuffer.1 data start len)
          ring.getFirstFreeBuffer.2 =
        unread mem ring ++ (List.range len).map fun i => data (start + i) := by
  have hsmall : len < 2 ^ 32 := by
    simp only [recvBufferSize] at hlen
    omega
  have hpointers := IndirectRingBuffer.pointers_getFirstFreeBuffer hready.wellFormed hfull
  have hother : ∀ pointer ∈ ring.pointers,
      (storeSegment mem ring.getFirstFreeBuffer.1 data start len).getLE 4 pointer =
          mem.getLE 4 pointer ∧
        segmentAt (storeSegment mem ring.getFirstFreeBuffer.1 data start len) pointer =
          segmentAt mem pointer := fun pointer hmem =>
    storeSegment_other hlen (hready.fits pointer hmem) (hready.separate_next hfull hmem)
  refine ⟨⟨IndirectRingBuffer.getFirstFreeBuffer_wellFormed hready.wellFormed, ?_, ?_⟩, ?_⟩
  · rw [IndirectRingBuffer.getFirstFreeBuffer_buf]
    exact hready.separate
  · intro pointer hmem
    rw [hpointers, List.mem_append, List.mem_singleton] at hmem
    rcases hmem with hmem | rfl
    · rw [(hother pointer hmem).1]
      exact hready.fits pointer hmem
    · rwa [getLE_storeSegment_self hsmall]
  · rw [unread, hpointers, List.flatMap_append, List.flatMap_singleton,
      segmentAt_storeSegment_self hsmall, unread]
    congr 1
    rw [List.flatMap_def, List.flatMap_def,
      List.map_congr_left fun pointer hmem => (hother pointer hmem).2]

/-- The segment that is taken was the first unread one. -/
theorem RingReady.take (hready : RingReady mem ring) (hempty : ring.isEmpty = false) :
    RingReady mem ring.getFirstUsedBuffer.2 ∧
      unread mem ring =
        segmentAt mem ring.getFirstUsedBuffer.1 ++ unread mem ring.getFirstUsedBuffer.2 := by
  have hpointers := IndirectRingBuffer.pointers_getFirstUsedBuffer hready.wellFormed hempty
  refine ⟨⟨IndirectRingBuffer.getFirstUsedBuffer_wellFormed hready.wellFormed, ?_, ?_⟩, ?_⟩
  · rw [IndirectRingBuffer.getFirstUsedBuffer_buf]
    exact hready.separate
  · intro pointer hmem
    exact hready.fits pointer (by rw [hpointers]; exact List.mem_cons_of_mem _ hmem)
  · rw [unread, hpointers, List.flatMap_cons, unread]

end Buffers

section Segments

variable {net : TcpFactory} {socket : TcpSocket} {frame : Frame} {port : Nat}

theorem Frame.Intact.segment_eq (hintact : frame.Intact) :
    (fun k => frame.data (ethHeaderSize + (ipHeaderSize + k))) = frame.segment := by
  funext k
  rw [Frame.segment, hintact.plainIp, Nat.add_assoc]

/-- The length that `handle_packet` passes on. -/
theorem Frame.WellFormed.payloadLen (hframe : frame.WellFormed) (hintact : frame.Intact) :
    (frame.len - BitVec.ofNat 16 ethHeaderSize - BitVec.ofNat 16 ipHeaderSize).toNat =
      frame.len.toNat - (ethHeaderSize + ipHeaderSize) := by
  have hheaders := hframe.headers
  have htotal := hframe.total
  rw [hintact.plainIp] at hheaders
  have hlt := frame.len.isLt
  simp only [BitVec.toNat_sub, BitVec.toNat_ofNat, ethHeaderSize, ipHeaderSize] at *
  omega

/-- Data for an established connection goes to the `default` case. -/
theorem resolveSocket_data {data : ByteArea} {remoteIp : IpAddr} {payloadLen : BitVec 16}
    (hstate : socket.state = .established)
    (hkind : (tcpHeader data).kind = flagAck ∨ (tcpHeader data).kind = 0) :
    net.resolveSocket socket data remoteIp payloadLen =
      net.resolveData socket (tcpHeader data) data payloadLen.toNat := by
  rw [TcpFactory.resolveSocket]
  change (if (tcpHeader data).kind = flagSyn then _ else
      if (tcpHeader data).kind = flagSyn ||| flagAck then _ else
        if (tcpHeader data).kind = flagFin ∨ (tcpHeader data).kind = flagFin ||| flagAck then _ else
          if (tcpHeader data).kind = flagAck then _ else _) = _
  rcases hkind with hkind | hkind
  · have hflag := TcpHeader.flags_and_ack hkind
    rw [hkind, if_neg (by decide), if_neg (by decide), if_neg (by decide), if_pos rfl,
      TcpFactory.resolveAck, hstate]
    simp only [ne_eq, hflag, not_true_eq_false, if_false]
  · rw [hkind, if_neg (by decide), if_neg (by decide), if_neg (by decide), if_neg (by decide)]

/-- The next segment is stored in the next buffer, up to the length that was counted. -/
theorem resolveData_next {header : TcpHeader} {data : ByteArea} {payloadLen len : Nat}
    (hseq : header.seqNum = socket.ackNum)
    (hlen : TcpFactory.realLen data header.headSize payloadLen = len) :
    (net.resolveData socket header data payloadLen).2 = { socket with
        recvBuffer := socket.recvBuffer.getFirstFreeBuffer.2,
        ackNum := socket.ackNum + BitVec.ofNat 32 len } ∧
      (net.resolveData socket header data payloadLen).1.mem =
        storeSegment net.mem socket.recvBuffer.getFirstFreeBuffer.1 data (header.headSize * 4)
          len := by
  subst hlen
  rw [TcpFactory.resolveData, if_pos hseq]
  exact ⟨TcpFactory.sendFlags_socket _ _ _, TcpFactory.sendFlags_mem _ _ _⟩

/-- An intact segment is stored whole, and acknowledged whole. -/
theorem handlePacket_intact (hport : port < 128) (hsocket : net.sockets port = some socket)
    (hstate : socket.state = .established) (hframe : frame.WellFormed)
    (horder : frame.InOrder port socket) (hintact : frame.Intact) :
    ∃ net', net.handlePacket frame.data frame.len = some net' ∧
      net'.sockets port = some { socket with
        recvBuffer := socket.recvBuffer.getFirstFreeBuffer.2,
        ackNum := socket.ackNum + BitVec.ofNat 32 frame.payload.length } ∧
      net'.mem = storeSegment net.mem socket.recvBuffer.getFirstFreeBuffer.1 frame.segment
        (frame.header.headSize * 4) frame.payload.length := by
  have hdst : (tcpHeader frame.segment).dstPort.toNat = port := horder.dstPort
  have hreal : TcpFactory.realLen frame.segment frame.header.headSize
      (frame.len.toNat - (ethHeaderSize + ipHeaderSize)) = frame.payload.length := hintact.nonzero
  rw [TcpFactory.handlePacket]
  simp only [hframe.isIp, hframe.isTcp, if_true, show nextIsIp ≠ nextIsArp by decide, if_false]
  rw [hintact.segment_eq, TcpFactory.resolvePacket, hdst]
  simp only [if_neg (Nat.not_le.mpr hport), hsocket, Option.some.injEq, exists_eq_left']
  rw [resolveSocket_data hstate hintact.carriesData, hframe.payloadLen hintact]
  obtain ⟨hsocket', hmem'⟩ := resolveData_next horder.seqNum hreal
  exact ⟨(TcpFactory.setSocket_self _ _ _).trans (congrArg some hsocket'), hmem'⟩

end Segments

section Runs

variable {stream final : Stream} {frame : Frame} {port len : Nat}

/-- The acknowledged number of the socket advanced by the length of the payload. -/
def Acknowledged (port : Nat) (before after : Stream) (frame : Frame) : Prop :=
  ∃ socket socket', before.net.sockets port = some socket ∧
    after.net.sockets port = some socket' ∧
    socket'.ackNum = socket.ackNum + BitVec.ofNat 32 frame.payload.length

theorem Frame.WellFormed.payload_fits (hframe : frame.WellFormed) (hintact : frame.Intact) :
    4 + frame.payload.length ≤ recvBufferSize := by
  have htotal := hframe.total
  have hlen := hframe.len
  rw [Frame.payload, List.length_map, List.length_range, hintact.plainIp]
  simp only [ethHeaderSize, ipHeaderSize, frameMaxLen, recvBufferSize] at *
  omega

theorem Streaming.segment (hport : port < 128) (hstream : Streaming port stream)
    (harrives : stream.Arrives port (.segment frame))
    (hcareful : stream.Careful port (.segment frame)) :
    ∃ next, stream.step port (.segment frame) = some next ∧ Streaming port next ∧
      Acknowledged port stream next frame := by
  obtain ⟨socket, hsocket, hstate, hready, hreceived⟩ := hstream
  obtain ⟨socket', hsocket', hframe, horder, hused⟩ := harrives
  cases hsocket.symm.trans hsocket'
  have hfull : socket.recvBuffer.isFull = false := by
    rw [← Bool.not_eq_true, IndirectRingBuffer.isFull_iff hready.wellFormed]
    omega
  obtain ⟨net', hnet, hfound, hmem⟩ :=
    handlePacket_intact hport hsocket hstate hframe horder hcareful
  obtain ⟨hready', hunread⟩ := hready.store hfull frame.segment (frame.header.headSize * 4)
    (hframe.payload_fits hcareful)
  have hpayload : ((List.range frame.payload.length).map fun i =>
      frame.segment (frame.header.headSize * 4 + i)) = frame.payload := by
    rw [Frame.payload, List.length_map, List.length_range]
  refine ⟨{ stream with net := net', received := stream.received ++ frame.payload }, ?_,
    ⟨_, hfound, hstate, ?_, ?_⟩, ⟨socket, _, hsocket, hfound, rfl⟩⟩
  · rw [Stream.step, hnet]
    rfl
  · rw [hmem]
    exact hready'
  · rw [hmem, hunread, hpayload, hreceived, List.append_assoc]

/-- A call on an empty ring that asks for nothing gets nothing; any other call gets the
oldest segment. -/
theorem Streaming.recv (hport : port < 128) (hstream : Streaming port stream)
    (hcareful : stream.Careful port (.recv len)) :
    ∃ next, stream.step port (.recv len) = some next ∧ Streaming port next := by
  obtain ⟨socket, hsocket, hstate, hready, hreceived⟩ := hstream
  have hlen := hcareful socket hsocket
  have hstep : stream.step port (.recv len) = some { stream with
      net := stream.net.setSocket port
        { socket with recvBuffer := socket.recvBuffer.getFirstUsedBuffer.2 },
      copied := stream.copied ++ (List.range
        (if len > stream.net.mem.getLE 4 socket.recvBuffer.getFirstUsedBuffer.1 then
          stream.net.mem.getLE 4 socket.recvBuffer.getFirstUsedBuffer.1 else len)).map
            fun i => stream.net.mem (socket.recvBuffer.getFirstUsedBuffer.1 + 4 + i) } := by
    rw [Stream.step, TcpFactory.recv, if_neg (Nat.not_le.mpr hport), hsocket]
    rfl
  refine ⟨_, hstep, _, TcpFactory.setSocket_self _ _ _, hstate, ?_⟩
  cases hempty : socket.recvBuffer.isEmpty with
  | true =>
      have hnone : socket.recvBuffer.pointers = [] := by
        rw [IndirectRingBuffer.pointers,
          (IndirectRingBuffer.isEmpty_iff hready.wellFormed).mp hempty]
        rfl
      rw [hnone] at hlen
      change len = 0 at hlen
      have hsame : socket.recvBuffer.getFirstUsedBuffer.2 = socket.recvBuffer := by
        rw [IndirectRingBuffer.getFirstUsedBuffer, if_pos hempty]
      subst hlen
      simpa [hsame] using ⟨hready, hreceived⟩
  | false =>
      obtain ⟨hready', hunread⟩ := hready.take hempty
      rw [IndirectRingBuffer.pointers_getFirstUsedBuffer hready.wellFormed hempty] at hlen
      change stream.net.mem.getLE 4 socket.recvBuffer.getFirstUsedBuffer.1 ≤ len at hlen
      have hcount : (if len > stream.net.mem.getLE 4 socket.recvBuffer.getFirstUsedBuffer.1 then
          stream.net.mem.getLE 4 socket.recvBuffer.getFirstUsedBuffer.1 else len) =
            stream.net.mem.getLE 4 socket.recvBuffer.getFirstUsedBuffer.1 := by
        split <;> omega
      refine ⟨hready', ?_⟩
      simp only [hcount]
      rw [hreceived, hunread, ← List.append_assoc]
      rfl

/-- A connection at the start of a run: what is unread counts as received. -/
def Stream.start (net : TcpFactory) (socket : TcpSocket) : Stream where
  net := net
  received := unread net.mem socket.recvBuffer
  copied := []

/-- The conditions under which the stream is intact. -/
def Stream.Admits (port : Nat) (stream : Stream) (event : StreamEvent) : Prop :=
  stream.Arrives port event ∧ stream.Careful port event

/-- What has been copied out is the beginning of what has been received, and the next
event returns and is acknowledged whole. -/
def StreamIntact (port : Nat) (admits : Stream → StreamEvent → Prop) (stream : Stream) : Prop :=
  stream.copied <+: stream.received ∧
    ∀ event, admits stream event → ∃ next, stream.step port event = some next ∧
      ∀ frame, event = .segment frame → Acknowledged port stream next frame

theorem Streaming.step (hport : port < 128) (hstream : Streaming port stream)
    {event : StreamEvent} (hadmits : stream.Admits port event) :
    ∃ next, stream.step port event = some next ∧ Streaming port next ∧
      ∀ frame, event = .segment frame → Acknowledged port stream next frame := by
  cases event with
  | segment frame =>
      obtain ⟨next, hnext, hstream', hack⟩ := hstream.segment hport hadmits.1 hadmits.2
      refine ⟨next, hnext, hstream', ?_⟩
      rintro _ ⟨⟩
      exact hack
  | recv len =>
      obtain ⟨next, hnext, hstream'⟩ := hstream.recv hport hadmits.2
      exact ⟨next, hnext, hstream', nofun⟩

/-- In every run of intact in-order segments and calls that ask for all of the oldest
segment, the stream is intact at every point. -/
theorem streamIntact_of_careful {net : TcpFactory} {socket : TcpSocket}
    {events : List StreamEvent} (hport : port < 128) (hsocket : net.sockets port = some socket)
    (hstate : socket.state = .established) (hready : RingReady net.mem socket.recvBuffer)
    (hrun : Run (Stream.step port) (Stream.Admits port) (Stream.start net socket) events final) :
    StreamIntact port (Stream.Admits port) final := by
  have hstream : Streaming port final := by
    refine hrun.invariant (Streaming port) ⟨socket, hsocket, hstate, hready, rfl⟩ ?_
    intro before event after hbefore hadmits hstep
    obtain ⟨next, hnext, hafter, -⟩ := hbefore.step hport hadmits
    cases hstep.symm.trans hnext
    exact hafter
  refine ⟨?_, fun event hadmits => ?_⟩
  · obtain ⟨socket', -, -, -, hreceived⟩ := hstream
    exact ⟨_, hreceived.symm⟩
  · obtain ⟨next, hnext, -, hack⟩ := hstream.step hport hadmits
    exact ⟨next, hnext, hack⟩

end Runs

/-- What the other end of the connection sends next. -/
def peerFrame (payload : List Byte) : Frame where
  len := BitVec.ofNat 16 (ethHeaderSize + ipHeaderSize + tcpHeaderSize + payload.length)
  data :=
    let eth := formatEthernet .zeros ![2, 0, 0, 0, 0, 1] ![2, 0, 0, 0, 0, 2] nextIsIp
    let ip := formatIpv4 .zeros webSocket.dstIp webSocket.srcIp 0x6
      (BitVec.ofNat 16 (ipHeaderSize + tcpHeaderSize + payload.length))
    let tcp := TcpFactory.formatHeader .zeros
      { webSocket with srcPort := 1000, dstPort := 80, seqNum := 5 } (flagPsh ||| flagAck)
    let tcp := tcp.copyIn tcpHeaderSize (payload.getD · 0) 0 payload.length
    (eth.copyIn ethHeaderSize ip 0 ipHeaderSize).copyIn (ethHeaderSize + ipHeaderSize) tcp 0
      (tcpHeaderSize + payload.length)

theorem webSocket_ringReady : RingReady webFactory.mem webSocket.recvBuffer where
  wellFormed := IndirectRingBuffer.initializeRing_wellFormed _
  separate i _ j _ hne := by
    simp only [webSocket, IndirectRingBuffer.initializeRing, recvBufferSize]
    omega
  fits _ hmem := by cases hmem

theorem peerFrame_arrives : ∀ payload ∈ [[1, 2, 3], [1, 0, 2]],
    (Stream.start webFactory webSocket).Arrives 80 (.segment (peerFrame payload)) := by
  intro payload hmem
  refine ⟨webSocket, rfl, ⟨?_, ?_, ?_, ?_, ?_⟩, ⟨?_, ?_, ?_, ?_⟩, by decide⟩
  all_goals
    revert payload
    decide

/-- Three bytes arrive and are read. -/
theorem streamIntact_threeBytes :
    ∃ final, Run (Stream.step 80) (Stream.Admits 80) (Stream.start webFactory webSocket)
        [.segment (peerFrame [1, 2, 3]), .recv 10] final ∧
      final.copied = [1, 2, 3] ∧ StreamIntact 80 (Stream.Admits 80) final := by
  have hseen : ((Stream.start webFactory webSocket).step 80 (.segment (peerFrame [1, 2, 3]))).map
      (fun next => ((next.net.sockets 80).map (·.recvBuffer.pointers), next.net.mem.getLE 4 0x2000,
        (next.step 80 (.recv 10)).map (·.copied))) =
        some (some [0x2000], 3, some [1, 2, 3]) := by decide
  have harrives := peerFrame_arrives [1, 2, 3] (by simp)
  have hintact : (peerFrame [1, 2, 3]).Intact :=
    ⟨by decide, .inl (by decide), by decide⟩
  obtain ⟨next, hnext, hvalues⟩ := Option.map_eq_some_iff.mp hseen
  simp only [Prod.mk.injEq] at hvalues
  obtain ⟨hpointers, hlength, hcopied⟩ := hvalues
  obtain ⟨final, hfinal, hbytes⟩ := Option.map_eq_some_iff.mp hcopied
  have hcareful : next.Careful 80 (.recv 10) := by
    intro socket hsocket
    rw [hsocket, Option.map_some, Option.some.injEq] at hpointers
    rw [hpointers]
    change next.net.mem.getLE 4 0x2000 ≤ 10
    omega
  have hrecv : Stream.Admits 80 next (.recv 10) := ⟨trivial, hcareful⟩
  have hrun : Run (Stream.step 80) (Stream.Admits 80) _ _ final :=
    (Run.nil.snoc ⟨harrives, hintact⟩ hnext).snoc hrecv hfinal
  exact ⟨final, hrun, hbytes, streamIntact_of_careful (by decide) rfl rfl webSocket_ringReady hrun⟩

/-- A payload with a zero byte is acknowledged short. -/
theorem stream_loses_zero_byte :
    ¬ ∀ (net : TcpFactory) (socket : TcpSocket) (port : Nat) (events : List StreamEvent)
      (final : Stream), port < 128 → net.sockets port = some socket →
      socket.state = .established → RingReady net.mem socket.recvBuffer →
      Run (Stream.step port) (Stream.Arrives port) (Stream.start net socket) events final →
      StreamIntact port (Stream.Arrives port) final := by
  intro hall
  have harrives := peerFrame_arrives [1, 0, 2] (by simp)
  obtain ⟨-, hnext⟩ := hall webFactory webSocket 80 [] _ (by decide) rfl rfl webSocket_ringReady .nil
  obtain ⟨next, hstep, hack⟩ := hnext _ harrives
  obtain ⟨socket, socket', hsocket, hsocket', hnum⟩ := hack _ rfl
  have hshort : ((Stream.start webFactory webSocket).step 80 (.segment (peerFrame [1, 0, 2]))).map
      (fun next => (next.net.sockets 80).map (·.ackNum)) = some (some 7) := by decide
  rw [hstep, Option.map_some, hsocket', Option.map_some, Option.some.injEq, Option.some.injEq]
    at hshort
  cases hsocket
  rw [hnum] at hshort
  revert hshort
  decide

end Shmily.Net
