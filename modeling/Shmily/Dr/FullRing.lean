import Shmily.Dr.Ne2k
import Shmily.Foundation.Run

/-! # Packets that find no free buffer

Packets arrive, and the network process fetches buffers. When the ring is full,
`get_first_free_buffer` returns null. `receive_packet` stores the length of the packet at this
pointer, and the test that follows sees the pointer 2 bytes further on, which is not null.
-/

namespace Shmily.Dr

open Foundation Lib

/-- The buffers that `init_ne2k` gets from `malloc`: none is null, and no two overlap. -/
structure PacketBuffers where
  buf : Nat → Nat
  ne_null : ∀ i < ringLen, buf i ≠ 0
  apart : ∀ i < ringLen, ∀ j < ringLen, i ≠ j →
    buf i + packetBufferSize ≤ buf j ∨ buf j + packetBufferSize ≤ buf i

/-- What can happen to the ring of packet buffers. -/
inductive DriverEvent
  /-- The loop in `receive_packet` takes a turn, and finds the card like this. -/
  | frame (nic : Nic)
  /-- The network process calls `get_first_used_buffer`. -/
  | fetch

namespace Receiver

def step (rcv : Receiver) : DriverEvent → Option Receiver
  | .frame nic =>
      match receiveTurn nic rcv with
      | .inl next => some next
      | .inr final => some final
  | .fetch => some { rcv with netBuf := rcv.netBuf.getFirstUsedBuffer.2 }

/-- The store is one into the buffer that `get_first_free_buffer` hands out. -/
def HandedOut (rcv : Receiver) (store : Store) : Prop :=
  rcv.netBuf.isFull = false ∧ store.Inside rcv.netBuf.getFirstFreeBuffer.1 packetBufferSize

/-- Every packet that waits in the ring still does, unless it was fetched, with the bytes that
it had. -/
structure KeepsUnread (rcv : Receiver) (event : DriverEvent) (next : Receiver) : Prop where
  waiting : event ≠ .fetch → rcv.netBuf.pointers <+: next.netBuf.pointers
  bytes : ∀ buffer ∈ rcv.netBuf.pointers, ∀ k < packetBufferSize,
    next.mem (buffer + k) = rcv.mem (buffer + k)

/-- The event stores to the buffer that is handed out and nowhere else, does not touch memory
at all if the ring is full, and keeps the packets that were not read. -/
def Undamaged (rcv : Receiver) (event : DriverEvent) : Prop :=
  ∀ next, rcv.step event = some next →
    ∃ new, next.stores = rcv.stores ++ new ∧ (∀ store ∈ new, rcv.HandedOut store) ∧
      (rcv.netBuf.isFull = true → new = [] ∧ next.mem = rcv.mem) ∧ rcv.KeepsUnread event next

/-- A packet that passes the tests is taken from the card only while a buffer is free. -/
def HasRoom (rcv : Receiver) : DriverEvent → Prop
  | .frame nic => rcv.next ≠ nic.current → nic.Accepts rcv.next → rcv.netBuf.isFull = false
  | .fetch => True

/-- The ring is over these buffers. -/
structure Owns (buffers : PacketBuffers) (rcv : Receiver) : Prop where
  wellFormed : rcv.netBuf.WellFormed
  buf_eq : rcv.netBuf.buf = buffers.buf

variable {nic : Nic} {buffers : PacketBuffers} {rcv next : Receiver} {len : BitVec 16}
  {page : ByteArea} {event : DriverEvent} {events : List DriverEvent}

/-! ### One packet -/

/-- The stores for a packet: its length, zeros, and its bytes. -/
def packetStores (buf : Nat) (len : BitVec 16) : List Store :=
  [⟨buf, 2⟩, ⟨buf + 2, packetBufferSize - 2⟩, ⟨buf + 2, len.toNat⟩]

/-- The test for null never fails. -/
theorem storePacket_stores (rcv : Receiver) (len : BitVec 16) (page : ByteArea) :
    (rcv.storePacket len page).stores =
      rcv.stores ++ packetStores rcv.netBuf.getFirstFreeBuffer.1 len := by
  rw [storePacket, if_pos (Nat.succ_ne_zero _)]
  rfl

theorem storePacket_netBuf (rcv : Receiver) (len : BitVec 16) (page : ByteArea) :
    (rcv.storePacket len page).netBuf = rcv.netBuf.getFirstFreeBuffer.2 := by
  rw [storePacket, if_pos (Nat.succ_ne_zero _)]

/-- A packet changes no byte outside of a buffer. -/
theorem storePacket_mem_of_not {k : Nat} (hlen : len ≤ 1532)
    (hout : ¬ (rcv.netBuf.getFirstFreeBuffer.1 ≤ k ∧
      k < rcv.netBuf.getFirstFreeBuffer.1 + packetBufferSize)) :
    (rcv.storePacket len page).mem k = rcv.mem k := by
  have hfits : len.toNat ≤ 1532 := hlen
  unfold packetBufferSize at hout
  rw [storePacket, if_pos (Nat.succ_ne_zero _)]
  dsimp only [packetBufferSize]
  rw [ByteArea.copyIn_of_not (by omega), ByteArea.copyIn_of_not (by omega),
    ByteArea.putLE_of_not (by omega)]

/-- An accepted packet fits into a buffer. -/
theorem packetStores_inside (buf : Nat) (hlen : len ≤ 1532) :
    ∀ store ∈ packetStores buf len, store.Inside buf packetBufferSize := by
  have hfits : buf + 2 + len.toNat ≤ buf + 1600 := by
    have : len.toNat ≤ 1532 := hlen
    omega
  intro store hstore
  simp only [packetStores, List.mem_cons, List.not_mem_nil, or_false] at hstore
  rcases hstore with rfl | rfl | rfl
  · exact ⟨Nat.le_refl buf, Nat.add_le_add_left (by decide : 2 ≤ packetBufferSize) buf⟩
  · exact ⟨Nat.le_add_right buf 2, Nat.le_of_eq (Nat.add_assoc buf 2 _)⟩
  · exact ⟨Nat.le_add_right buf 2, hfits⟩

namespace Owns

theorem start (buffers : PacketBuffers) (mem : ByteArea) :
    (initNe2k buffers.buf mem).Owns buffers :=
  ⟨IndirectRingBuffer.initializeRing_wellFormed _, rfl⟩

theorem getFirstFreeBuffer_eq (howns : rcv.Owns buffers) (hroom : rcv.netBuf.isFull = false) :
    rcv.netBuf.getFirstFreeBuffer.1 = buffers.buf rcv.netBuf.head := by
  rw [IndirectRingBuffer.getFirstFreeBuffer, hroom, ← howns.buf_eq]
  rfl

/-- The buffer that is handed out is apart from those that hold a packet. -/
theorem apart (howns : rcv.Owns buffers) (hroom : rcv.netBuf.isFull = false) {buffer k : Nat}
    (hunread : buffer ∈ rcv.netBuf.pointers) (hk : k < packetBufferSize) :
    ¬ (rcv.netBuf.getFirstFreeBuffer.1 ≤ buffer + k ∧
      buffer + k < rcv.netBuf.getFirstFreeBuffer.1 + packetBufferSize) := by
  obtain ⟨i, hi, hne, rfl⟩ := IndirectRingBuffer.exists_of_mem_pointers howns.wellFormed hunread
  have hapart := buffers.apart i hi _ howns.wellFormed.head_lt hne
  rw [howns.getFirstFreeBuffer_eq hroom, howns.buf_eq]
  omega

theorem storePacket (howns : rcv.Owns buffers) (len : BitVec 16) (page : ByteArea) :
    (rcv.storePacket len page).Owns buffers := by
  constructor
  · rw [storePacket_netBuf]
    exact IndirectRingBuffer.getFirstFreeBuffer_wellFormed howns.wellFormed
  · rw [storePacket_netBuf, IndirectRingBuffer.getFirstFreeBuffer_buf]
    exact howns.buf_eq

theorem storePacket_keepsUnread (howns : rcv.Owns buffers) (hlen : len ≤ 1532)
    (hroom : rcv.netBuf.isFull = false) (event : DriverEvent) (page : ByteArea) :
    rcv.KeepsUnread event (rcv.storePacket len page) := by
  constructor
  · intro _
    rw [storePacket_netBuf, IndirectRingBuffer.pointers_getFirstFreeBuffer howns.wellFormed hroom]
    exact List.prefix_append _ _
  · intro buffer hunread k hk
    exact storePacket_mem_of_not hlen (howns.apart hroom hunread hk)

end Owns

/-! ### One event -/

theorem step_current (hcurrent : rcv.next = nic.current) : rcv.step (.frame nic) = some rcv := by
  rw [step, receiveTurn_current hcurrent]

theorem step_rejected (hnext : rcv.next ≠ nic.current) (hrejects : ¬ nic.Accepts rcv.next) :
    rcv.step (.frame nic) = some rcv.moveBoundary := by
  rw [step, receiveTurn, if_neg hnext]
  dsimp only
  rw [if_neg (show ¬ (nic.header rcv.next).Accepted rcv.next from hrejects)]

theorem step_accepted (hnext : rcv.next ≠ nic.current) (haccepts : nic.Accepts rcv.next) :
    rcv.step (.frame nic) = some
      (rcv.acceptPacket (nic.header rcv.next) (nic.read rcv.next)).moveBoundary := by
  rw [step, receiveTurn, if_neg hnext]
  dsimp only
  rw [if_pos (show (nic.header rcv.next).Accepted rcv.next from haccepts)]

/-- What a frame does: nothing, or it is rejected, or a packet is stored. -/
theorem step_frame_cases (nic : Nic) (hstep : rcv.step (.frame nic) = some next) :
    (next.netBuf = rcv.netBuf ∧ next.mem = rcv.mem ∧ next.stores = rcv.stores) ∨
    (rcv.next ≠ nic.current ∧ nic.Accepts rcv.next ∧
      next.netBuf = (rcv.storePacket (nic.header rcv.next).len (nic.read rcv.next)).netBuf ∧
      next.mem = (rcv.storePacket (nic.header rcv.next).len (nic.read rcv.next)).mem ∧
      next.stores = (rcv.storePacket (nic.header rcv.next).len (nic.read rcv.next)).stores) := by
  by_cases hcurrent : rcv.next = nic.current
  · rw [step_current hcurrent, Option.some.injEq] at hstep
    subst hstep
    exact .inl ⟨rfl, rfl, rfl⟩
  · by_cases haccepts : nic.Accepts rcv.next
    · rw [step_accepted hcurrent haccepts, Option.some.injEq] at hstep
      subst hstep
      exact .inr ⟨hcurrent, haccepts, rfl, rfl, rfl⟩
    · rw [step_rejected hcurrent haccepts, Option.some.injEq] at hstep
      subst hstep
      exact .inl ⟨rfl, rfl, rfl⟩

theorem owns_step (howns : rcv.Owns buffers) (hstep : rcv.step event = some next) :
    next.Owns buffers := by
  have hsame : next.netBuf = rcv.netBuf → next.Owns buffers := fun hnetBuf =>
    ⟨hnetBuf ▸ howns.wellFormed, hnetBuf ▸ howns.buf_eq⟩
  cases event with
  | frame nic =>
      rcases step_frame_cases nic hstep with ⟨hnetBuf, -, -⟩ | ⟨-, -, hnetBuf, -, -⟩
      · exact hsame hnetBuf
      · have hstored := howns.storePacket (nic.header rcv.next).len (nic.read rcv.next)
        exact ⟨hnetBuf ▸ hstored.wellFormed, hnetBuf ▸ hstored.buf_eq⟩
  | fetch =>
      obtain rfl := Option.some.inj hstep
      exact ⟨IndirectRingBuffer.getFirstUsedBuffer_wellFormed howns.wellFormed,
        IndirectRingBuffer.getFirstUsedBuffer_buf.trans howns.buf_eq⟩

/-- Nothing is stored. -/
theorem undamaged_of_same (hmem : next.mem = rcv.mem) (hstores : next.stores = rcv.stores)
    (hwaiting : event ≠ .fetch → next.netBuf = rcv.netBuf) :
    ∃ new, next.stores = rcv.stores ++ new ∧ (∀ store ∈ new, rcv.HandedOut store) ∧
      (rcv.netBuf.isFull = true → new = [] ∧ next.mem = rcv.mem) ∧
      rcv.KeepsUnread event next := by
  refine ⟨[], hstores.trans (List.append_nil _).symm, ?_, fun _ => ⟨rfl, hmem⟩, ?_⟩
  · exact fun store hstore => absurd hstore List.not_mem_nil
  · constructor
    · intro hframe
      rw [hwaiting hframe]
    · intro buffer _ k _
      rw [hmem]

theorem undamaged_iff_hasRoom (howns : rcv.Owns buffers) (event : DriverEvent) :
    rcv.Undamaged event ↔ rcv.HasRoom event := by
  cases event with
  | frame nic =>
      constructor
      · intro hundamaged hnext haccepts
        obtain ⟨new, hnew, hhanded, -, -⟩ := hundamaged _ (step_accepted hnext haccepts)
        have hstores : rcv.stores ++ packetStores rcv.netBuf.getFirstFreeBuffer.1
            (nic.header rcv.next).len = rcv.stores ++ new :=
          (storePacket_stores _ _ (nic.read rcv.next)).symm.trans hnew
        rw [← List.append_cancel_left hstores] at hhanded
        exact (hhanded _ List.mem_cons_self).1
      · intro hroom next hstep
        rcases step_frame_cases nic hstep with ⟨hnetBuf, hmem, hstores⟩ |
          ⟨hnext, haccepts, hnetBuf, hmem, hstores⟩
        · exact undamaged_of_same hmem hstores fun _ => hnetBuf
        · have hfree := hroom hnext haccepts
          have hlen := haccepts.2.2.2
          have hkeeps := howns.storePacket_keepsUnread hlen hfree (.frame nic) (nic.read rcv.next)
          refine ⟨packetStores rcv.netBuf.getFirstFreeBuffer.1 (nic.header rcv.next).len,
            hstores.trans (storePacket_stores _ _ _), ?_, ?_, ?_⟩
          · exact fun store hstore => ⟨hfree, packetStores_inside _ hlen store hstore⟩
          · intro hfull
            rw [hfree] at hfull
            cases hfull
          · exact ⟨hnetBuf ▸ hkeeps.waiting, hmem ▸ hkeeps.bytes⟩
  | fetch =>
      refine iff_of_true ?_ trivial
      intro next hstep
      obtain rfl := Option.some.inj hstep
      exact undamaged_of_same rfl rfl fun hframe => absurd rfl hframe

/-- In a run nothing is damaged if and only if no packet that passes the tests is taken from
the card while the ring is full. -/
theorem run_undamaged_iff (buffers : PacketBuffers) (mem : ByteArea) :
    Run step Undamaged (initNe2k buffers.buf mem) events rcv ↔
      Run step HasRoom (initNe2k buffers.buf mem) events rcv :=
  Run.congr_of_invariant (Owns buffers) (.start buffers mem)
    (fun before event _ howns _ => before.undamaged_iff_hasRoom howns event)
    (fun _ _ _ howns _ hstep => owns_step howns hstep)

/-- Ten pages as buffers. -/
def pages : PacketBuffers where
  buf := bufferPages
  ne_null i _ := Nat.ne_of_gt (Nat.add_pos_left (by decide) (4096 * i))
  apart i _ j _ hne := by
    unfold bufferPages packetBufferSize
    omega

/-- A card with ten packets of 64 bytes, one in each page. -/
def tenPackets : Nic where
  read page offset :=
    match offset with
    | 0 => 1
    | 1 => page + 1
    | 2 => 68
    | _ => 0
  current := pageStartData + 11

theorem tenPackets_accepts : ∀ n < 10, tenPackets.Accepts (pageStartData + 1 + BitVec.ofNat 8 n) ∧
    pageStartData + 1 + BitVec.ofNat 8 n ≠ tenPackets.current := by decide

/-- The first nine packets fill the ring. -/
theorem run_tenPackets (mem : ByteArea) {n : Nat} (hn : n ≤ 9) :
    ∃ rcv, Run step (fun _ _ => True) (initNe2k pages.buf mem)
        (List.replicate n (.frame tenPackets)) rcv ∧
      rcv.next = pageStartData + 1 + BitVec.ofNat 8 n ∧ rcv.Owns pages ∧ rcv.netBuf.used = n := by
  induction n with
  | zero =>
      have howns := Owns.start pages mem
      have hempty := (IndirectRingBuffer.isEmpty_iff howns.wellFormed).mp rfl
      exact ⟨_, .nil, rfl, howns, hempty⟩
  | succ n ih =>
      obtain ⟨rcv, hrun, hnext, howns, hused⟩ := ih (Nat.le_of_succ_le hn)
      obtain ⟨haccepts, hbefore⟩ := tenPackets_accepts n (by omega)
      rw [← hnext] at haccepts hbefore
      have hstep := step_accepted hbefore haccepts
      have hfull : ¬ rcv.netBuf.isFull := by
        rw [IndirectRingBuffer.isFull_iff howns.wellFormed, hused]
        omega
      refine ⟨_, ?_, ?_, owns_step howns hstep, ?_⟩
      · rw [List.replicate_succ']
        exact hrun.snoc trivial hstep
      · have hlink := rcv.acceptPacket_next (tenPackets.header rcv.next) (tenPackets.read rcv.next)
        refine hlink.trans ?_
        change rcv.next + 1 = _
        rw [hnext, BitVec.add_assoc, BitVec.ofNat_add]
        rfl
      · have hnetBuf := rcv.storePacket_netBuf (tenPackets.header rcv.next).len
          (tenPackets.read rcv.next)
        refine (congrArg IndirectRingBuffer.used hnetBuf).trans ?_
        rw [IndirectRingBuffer.used_getFirstFreeBuffer howns.wellFormed, if_neg hfull, hused]

/-- The tenth packet is stored at the null pointer. -/
theorem tenth_packet_at_null :
    ¬ ∀ (buffers : PacketBuffers) (mem : ByteArea) (events : List DriverEvent) (rcv : Receiver),
      Run step (fun _ _ => True) (initNe2k buffers.buf mem) events rcv →
        Run step Undamaged (initNe2k buffers.buf mem) events rcv := by
  intro hall
  obtain ⟨rcv, hrun, hnext, howns, hused⟩ := run_tenPackets .zeros (Nat.le_refl 9)
  obtain ⟨haccepts, hbefore⟩ := tenPackets_accepts 9 (by decide)
  rw [← hnext] at haccepts hbefore
  have hlonger := hrun.snoc trivial (step_accepted hbefore haccepts)
  obtain ⟨before, hearlier, hundamaged, -⟩ := (hall _ _ _ _ hlonger).last
  obtain rfl := hearlier.unique hrun
  have hroom := (undamaged_iff_hasRoom howns _).mp hundamaged hbefore haccepts
  have hfull := (IndirectRingBuffer.isFull_iff howns.wellFormed).mpr hused
  rw [hroom] at hfull
  cases hfull

end Receiver

end Shmily.Dr
