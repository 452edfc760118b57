import Shmily.Foundation.ByteArea
import Shmily.Foundation.Loop
import Shmily.Lib.IndirectRingBuffer

/-! # Receiving packets from the NE2000

The card keeps the packets it has received in pages. A packet starts with a header of four
bytes: its status, the page of the packet behind it, and its length. `receive_packet` follows
the headers up to the page in the register CURRENT and copies the packets into the ring of
packet buffers. A header that fails one of four tests is not followed.
-/

namespace Shmily.Dr

open Foundation Lib

/-- `ne2k::PAGE_START_DATA`. -/
def pageStartData : BitVec 8 := 0x46

/-- `ne2k::PAGE_STOP_DATA`. -/
def pageStopData : BitVec 8 := 0x80

/-- The size of a packet buffer, and the argument of `malloc` in `init_ne2k`. -/
def packetBufferSize : Nat := 1600

/-- The local variables that the header of a packet is read into. -/
structure PacketHeader where
  recvStat : BitVec 8
  next : BitVec 8
  len : BitVec 16
  deriving DecidableEq, Repr

/-- The four tests, for a header that was read from a page. -/
def PacketHeader.Accepted (header : PacketHeader) (page : BitVec 8) : Prop :=
  header.recvStat &&& 31 = 1 ∧ pageStartData ≤ page ∧ page ≤ pageStopData ∧ header.len ≤ 1532

instance (header : PacketHeader) : DecidablePred header.Accepted := fun page =>
  inferInstanceAs (Decidable (header.recvStat &&& 31 = 1 ∧ pageStartData ≤ page ∧
    page ≤ pageStopData ∧ header.len ≤ 1532))

/-- The card while no packet arrives: the bytes that it delivers from the start of each page
on, and the register CURRENT. -/
structure Nic where
  read : BitVec 8 → ByteArea
  current : BitVec 8

namespace Nic

/-- The header of the packet in a page. The length counts four bytes that are not delivered;
the difference wraps. -/
def header (nic : Nic) (page : BitVec 8) : PacketHeader where
  recvStat := nic.read page 0
  next := nic.read page 1
  len := (nic.read page 2).setWidth 16 + ((nic.read page 3).setWidth 16 <<< 8) - 4

/-- The page of the packet behind the one in a page. -/
def link (nic : Nic) (page : BitVec 8) : BitVec 8 := (nic.header page).next

/-- The header in a page passes the tests. -/
def Accepts (nic : Nic) (page : BitVec 8) : Prop := (nic.header page).Accepted page

instance (nic : Nic) : DecidablePred nic.Accepts := fun page =>
  inferInstanceAs (Decidable ((nic.header page).Accepted page))

/-- Every header between a page and CURRENT passes the tests. -/
def ChainAccepted (nic : Nic) (page : BitVec 8) : Prop :=
  ∀ i, (∀ j ≤ i, nic.link^[j] page ≠ nic.current) → nic.Accepts (nic.link^[i] page)

end Nic

/-- A store to memory: the address of the first byte and the number of bytes. -/
structure Store where
  addr : Nat
  len : Nat
  deriving DecidableEq, Repr

/-- The bytes of the store lie in the area that starts at `addr` and has `size` bytes. -/
def Store.Inside (store : Store) (addr size : Nat) : Prop :=
  addr ≤ store.addr ∧ store.addr + store.len ≤ addr + size

/-- The variables of the driver, the register BOUNDARY, and memory with a record of the
stores to it. -/
structure Receiver where
  next : BitVec 8
  boundary : BitVec 8
  netBuf : IndirectRingBuffer
  mem : ByteArea
  stores : List Store

namespace Receiver

/-- The length of a packet and its bytes, which lie behind the header, go to the next free
buffer. The pointer is tested after 2 has been added to it. -/
def storePacket (rcv : Receiver) (len : BitVec 16) (page : ByteArea) : Receiver :=
  let taken := rcv.netBuf.getFirstFreeBuffer
  let buf := taken.1 + 2
  let mem := rcv.mem.putLE 2 taken.1 len.toNat
  if buf ≠ 0 then
    { rcv with
      netBuf := taken.2
      mem := (mem.copyIn buf .zeros 0 (packetBufferSize - 2)).copyIn buf page 4 len.toNat
      stores := rcv.stores ++
        [⟨taken.1, 2⟩, ⟨buf, packetBufferSize - 2⟩, ⟨buf, len.toNat⟩] }
  else
    { rcv with netBuf := taken.2, mem := mem, stores := rcv.stores ++ [⟨taken.1, 2⟩] }

/-- The part of a turn that only accepted packets go through. -/
def acceptPacket (rcv : Receiver) (header : PacketHeader) (page : ByteArea) : Receiver :=
  { rcv.storePacket header.len page with
    next := if header.next = pageStartData then pageStartData else header.next }

/-- BOUNDARY stays one page behind. -/
def moveBoundary (rcv : Receiver) : Receiver :=
  { rcv with
    boundary := if rcv.next = pageStartData then pageStopData - 1 else rcv.next - 1 }

/-- The condition of the loop in `receive_packet`, and its body. -/
def receiveTurn (nic : Nic) (rcv : Receiver) : Receiver ⊕ Receiver :=
  if rcv.next = nic.current then .inr rcv
  else
    let header := nic.header rcv.next
    .inl (moveBoundary (
      if header.Accepted rcv.next then rcv.acceptPacket header (nic.read rcv.next) else rcv))

/-- `receive_packet`, with fuel for its loop. -/
def receivePacket (nic : Nic) (fuel : Nat) (rcv : Receiver) : Option Receiver :=
  loop (receiveTurn nic) fuel rcv

variable {nic : Nic} {rcv next : Receiver}

@[simp]
theorem acceptPacket_next (rcv : Receiver) (header : PacketHeader) (page : ByteArea) :
    (rcv.acceptPacket header page).next = header.next := by
  rw [acceptPacket]
  dsimp only
  split
  next hstart => exact hstart.symm
  next => rfl

theorem receiveTurn_current (hcurrent : rcv.next = nic.current) :
    receiveTurn nic rcv = .inr rcv := if_pos hcurrent

/-- A turn that does not leave the loop follows the link if the header is accepted. -/
theorem receiveTurn_next (nic : Nic) (hnext : rcv.next ≠ nic.current) :
    ∃ after, receiveTurn nic rcv = .inl after ∧
      after.next = guarded nic.Accepts nic.link rcv.next := by
  refine ⟨_, if_neg hnext, ?_⟩
  rw [moveBoundary, guarded]
  dsimp only
  by_cases haccepts : (nic.header rcv.next).Accepted rcv.next
  · rw [if_pos haccepts, if_pos (show nic.Accepts rcv.next from haccepts), acceptPacket_next]
    rfl
  · rw [if_neg haccepts, if_neg (show ¬ nic.Accepts rcv.next from haccepts)]

/-- The loop is left only at CURRENT. -/
theorem next_of_receivePacket {fuel : Nat} {final : Receiver}
    (hreceive : receivePacket nic fuel rcv = some final) : final.next = nic.current := by
  have hleaves : Leaves (receiveTurn nic) rcv final := ⟨fuel, hreceive⟩
  obtain ⟨last, -, hlast⟩ := hleaves.invariant (fun _ => True) trivial fun _ _ _ _ => trivial
  rw [receiveTurn] at hlast
  split at hlast
  next hcurrent =>
    obtain rfl := Sum.inr.inj hlast
    exact hcurrent
  next => cases hlast

/-- `receive_packet` returns if and only if the guarded links lead to CURRENT. -/
theorem receivePacket_returns_iff (nic : Nic) (rcv : Receiver) :
    (∃ fuel final, receivePacket nic fuel rcv = some final) ↔
      ∃ n, (guarded nic.Accepts nic.link)^[n] rcv.next = nic.current := by
  have hleaves := leaves_iff_iterate Receiver.next
    (fun _ hbefore => receiveTurn_next nic hbefore)
    (fun before hbefore => ⟨before, receiveTurn_current hbefore⟩) rcv
  exact exists_comm.trans hleaves

/-- With links that lead to CURRENT, `receive_packet` returns there if and only if every header
on the way passes the tests. -/
theorem receivePacket_reaches_iff (hlinks : ∃ n, nic.link^[n] rcv.next = nic.current) :
    (∃ fuel final, receivePacket nic fuel rcv = some final ∧ final.next = nic.current) ↔
      nic.ChainAccepted rcv.next := by
  refine Iff.trans ?_ (guarded_reaches_iff hlinks)
  rw [← receivePacket_returns_iff]
  constructor
  · rintro ⟨fuel, final, hreceive, -⟩
    exact ⟨fuel, final, hreceive⟩
  · rintro ⟨fuel, final, hreceive⟩
    exact ⟨fuel, final, hreceive, next_of_receivePacket hreceive⟩

/-- What `init_ne2k` leaves behind: the ring of buffers is empty, and the first packet is
expected in the second page. -/
def initNe2k (buf : Nat → Nat) (mem : ByteArea) : Receiver where
  next := pageStartData + 1
  boundary := pageStartData
  netBuf := .initializeRing buf
  mem := mem
  stores := []

/-- Ten buffers for `init_ne2k`, each at the start of a page. -/
def bufferPages (i : Nat) : Nat := 0x200000 + 4096 * i

/-- A card with the same header in every page, and no packet behind the first. -/
def oneHeader (recvStat len : BitVec 8) : Nic where
  read _ offset :=
    match offset with
    | 0 => recvStat
    | 1 => pageStartData + 2
    | 2 => len
    | _ => 0
  current := pageStartData + 2

/-- A packet of 64 bytes is received. -/
theorem receivePacket_short_packet :
    ∃ fuel final, receivePacket (oneHeader 1 68) fuel (initNe2k bufferPages .zeros) = some final ∧
      final.next = (oneHeader 1 68).current := by
  refine (receivePacket_reaches_iff ⟨1, rfl⟩).mpr fun i hbefore => ?_
  cases i with
  | zero => decide
  | succ i => exact absurd rfl (hbefore 1 (by omega))

/-- A header with a status of 0 is read again and again. -/
theorem malformed_header_stays :
    ¬ ∀ (nic : Nic) (rcv : Receiver), (∃ n, nic.link^[n] rcv.next = nic.current) →
      ∃ fuel final, receivePacket nic fuel rcv = some final ∧ final.next = nic.current := by
  intro hall
  let start := initNe2k bufferPages .zeros
  have hlinks : ∃ n, (oneHeader 0 68).link^[n] start.next = (oneHeader 0 68).current := ⟨1, rfl⟩
  obtain ⟨fuel, final, hreceive, -⟩ := hall (oneHeader 0 68) start hlinks
  have hguarded := (receivePacket_returns_iff _ _).mp ⟨fuel, final, hreceive⟩
  have haccepts := (guarded_reaches_iff hlinks).mp hguarded 0 (by decide)
  exact absurd haccepts (by decide)

end Receiver

end Shmily.Dr
