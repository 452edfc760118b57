import Shmily.Net.ArpCache
import Shmily.Net.Checksum
import Shmily.Net.Connection

/-! # Which requests for an address are answered

`handle_packet` answers an ARP request if the address that it asks for is in the cache.
The constructor of `NetworkManager` puts the address of the interface there; neither
`config_iface` nor the responses of other hosts keep the two in agreement.
-/

namespace Shmily.Net

open Foundation Lib

section

variable {area other : ByteArea} {offset offset' n : Nat}

theorem arrayAt_congr (hsame : ∀ i < n, area (offset + i) = other (offset + i)) :
    arrayAt area offset n = arrayAt other offset n :=
  funext fun i => hsame i.val i.isLt

theorem arrayAt_putArray_self (array : Fin n → Byte) :
    arrayAt (putArray area offset array) offset n = array :=
  funext fun i => putArray_at i

theorem arrayAt_putArray {m : Nat} {array : Fin m → Byte}
    (hne : offset + n ≤ offset' ∨ offset' + m ≤ offset) :
    arrayAt (putArray area offset' array) offset n = arrayAt area offset n :=
  arrayAt_congr fun _ _ => putArray_of_not (by omega)

end

/-- The bytes behind the Ethernet header. -/
def arpPart (data : ByteArea) : ByteArea := fun k => data (ethHeaderSize + k)

/-- The fields of a received or sent frame, `arp_packet`. -/
structure ArpPacket where
  opcode : BitVec 16
  srcMacAddr : MacAddr
  srcIpAddr : IpAddr
  dstMacAddr : MacAddr
  targetIp : IpAddr

def arpPacket (data : ByteArea) : ArpPacket where
  opcode := swapWord (wordAt (arpPart data) 6)
  srcMacAddr := arrayAt (arpPart data) 8 6
  srcIpAddr := arrayAt (arpPart data) 14 4
  dstMacAddr := arrayAt (arpPart data) 18 6
  targetIp := arrayAt (arpPart data) 24 4

def IsArp (data : ByteArea) : Prop := swapWord (wordAt data 12) = nextIsArp

/-- What the fields of a reply are. -/
theorem arpPacket_arpReply (macAddr : MacAddr) (ipAddr : IpAddr) (srcMacAddr resMacAddr : MacAddr)
    (reqIp : IpAddr) :
    arpPacket (arpReply macAddr ipAddr srcMacAddr resMacAddr reqIp).data =
      ⟨rspOpcode, macAddr, ipAddr, resMacAddr, reqIp⟩ := by
  have hbody : ∀ k < 28, arpPart (arpReply macAddr ipAddr srcMacAddr resMacAddr reqIp).data k =
      formatArpReply .zeros macAddr ipAddr resMacAddr reqIp k := by
    intro k hk
    have hinside : ethHeaderSize + k < ethHeaderSize + arpPacketSize := Nat.add_lt_add_left hk _
    rw [arpPart, arpReply]
    dsimp only
    rw [ByteArea.copyIn_at (Nat.le_add_right _ _) hinside, Nat.zero_add, Nat.add_sub_cancel_left]
  rw [arpPacket, wordAt_congr (fun i hi => hbody (6 + i) (by omega)),
    arrayAt_congr (n := 6) (fun i hi => hbody (8 + i) (by omega)),
    arrayAt_congr (n := 4) (fun i hi => hbody (14 + i) (by omega)),
    arrayAt_congr (n := 6) (fun i hi => hbody (18 + i) (by omega)),
    arrayAt_congr (n := 4) (fun i hi => hbody (24 + i) (by omega))]
  simp (disch := decide) only [formatArpReply, wordAt_putArray, wordAt_putWord_self,
    swapWord_swapWord, arrayAt_putArray_self, arrayAt_putArray]

/-- A frame that is an ARP packet arrives, or the interface gets an address. -/
inductive ArpEvent
  | packet (data : ByteArea) (len : BitVec 16) (harp : IsArp data)
  | configure (ipUint : BitVec 32)

namespace TcpFactory

theorem ownSlot_lt : 0 < 5 := by decide

/-- The slot of the cache for the interface itself. -/
def ownSlot : Fin 5 := ⟨0, ownSlot_lt⟩

def arpStep (net : TcpFactory) : ArpEvent → Option TcpFactory
  | .packet data len _ => net.handlePacket data len
  | .configure ipUint => some (net.configure ipUint)

/-- The network process after the constructor of `NetworkManager`. -/
def manager (macAddr : MacAddr) (mem : ByteArea) : TcpFactory :=
  let ipAddr := ![172, 17, 0, 2]
  init ⟨macAddr, ipAddr, .setItem .cleared ownSlot macAddr ipAddr, ![172, 17, 0, 1]⟩ mem

/-- A request is answered just if it asks for the address of the interface, with that
address. -/
def AnswersRequests (net : TcpFactory) : ArpEvent → Prop
  | .packet data len _ => (arpPacket data).opcode = reqOpcode →
      ∃ next, net.handlePacket data len = some next ∧
        if (arpPacket data).targetIp = net.netIf.ipAddr then
          ∃ reply : Packet, next.sent = net.sent ++ [reply] ∧ IsArp reply.data ∧
            arpPacket reply.data = ⟨rspOpcode, net.netIf.macAddr, net.netIf.ipAddr,
              (arpPacket data).srcMacAddr, (arpPacket data).srcIpAddr⟩
        else next.sent = net.sent
  | .configure _ => True

/-- The cache holds the address that a request asks for just if it is the one of the
interface. -/
def CacheAgrees (net : TcpFactory) : ArpEvent → Prop
  | .packet data _ _ => (arpPacket data).opcode = reqOpcode →
      ((∃ i, (net.netIf.arpTbl.items i).ipAddr = (arpPacket data).targetIp) ↔
        (arpPacket data).targetIp = net.netIf.ipAddr)
  | .configure _ => True

/-- The address stays, no response takes the slot of the interface, and no request asks for
another address of the cache. -/
def Settled (net : TcpFactory) : ArpEvent → Prop
  | .packet data _ _ =>
      let packet := arpPacket data
      if packet.opcode = reqOpcode then
        packet.targetIp ≠ net.netIf.ipAddr →
          ∀ i, (net.netIf.arpTbl.items i).ipAddr ≠ packet.targetIp
      else net.netIf.arpTbl.place packet.srcMacAddr packet.srcIpAddr ≠ ownSlot
  | .configure ipUint => (net.netIf.configIface ipUint).ipAddr = net.netIf.ipAddr

variable {net next : TcpFactory} {data : ByteArea} {len : BitVec 16}

theorem getMacAddr_isSome_iff {table : ArpCacheTable} {ipAddr : IpAddr} :
    (table.getMacAddr ipAddr).1.isSome = true ↔ ∃ i, (table.items i).ipAddr = ipAddr := by
  have hlocate : (table.locateIpAddr ipAddr).isSome = true ↔
      ∃ i, (table.items i).ipAddr = ipAddr := by
    rw [ArpCacheTable.locateIpAddr, List.find?_isSome]
    simp only [List.mem_finRange, true_and, decide_eq_true_eq]
  rw [← hlocate, ArpCacheTable.getMacAddr]
  cases table.locateIpAddr ipAddr with
  | none => exact Iff.rfl
  | some i => exact Iff.rfl

theorem getMacAddr_samePairs (table : ArpCacheTable) (ipAddr : IpAddr) :
    table.SamePairs (table.getMacAddr ipAddr).2 := by
  rw [ArpCacheTable.getMacAddr]
  split
  next i hlocate => exact table.touch_samePairs i
  next => exact fun _ => ⟨rfl, rfl⟩

/-- A request is a lookup, and an answer if it finds something. -/
theorem handlePacket_request (harp : IsArp data) (hrequest : (arpPacket data).opcode = reqOpcode) :
    net.handlePacket data len = some (
      let found := net.netIf.arpTbl.getMacAddr (arpPacket data).targetIp
      let net := { net with netIf := { net.netIf with arpTbl := found.2 } }
      if found.1.isSome then
        { net with
          sent := net.sent ++ [arpReply net.netIf.macAddr net.netIf.ipAddr
            (arpPacket data).srcMacAddr (arpPacket data).srcMacAddr (arpPacket data).srcIpAddr] }
      else net) := by
  rw [handlePacket]
  exact (if_pos harp).trans (if_pos hrequest)

theorem handlePacket_response (harp : IsArp data)
    (hresponse : (arpPacket data).opcode ≠ reqOpcode) :
    net.handlePacket data len =
      some { net with netIf := { net.netIf with
        arpTbl := net.netIf.arpTbl.append
          (arpPacket data).srcMacAddr (arpPacket data).srcIpAddr } } := by
  rw [handlePacket]
  exact (if_pos harp).trans (if_neg hresponse)

theorem arpReply_isArp (macAddr : MacAddr) (ipAddr : IpAddr) (srcMacAddr resMacAddr : MacAddr)
    (reqIp : IpAddr) : IsArp (arpReply macAddr ipAddr srcMacAddr resMacAddr reqIp).data := by
  have hword : wordAt (arpReply macAddr ipAddr srcMacAddr resMacAddr reqIp).data 12 =
      wordAt (formatEthernet .zeros macAddr srcMacAddr nextIsArp) 12 :=
    wordAt_congr fun i hi => ByteArea.copyIn_of_not (by simp only [ethHeaderSize]; omega)
  rw [IsArp, hword]
  simp (disch := decide) only [formatEthernet, wordAt_putArray, wordAt_putWord_self,
    swapWord_swapWord]

/-- What the code does at one event. -/
theorem answersRequests_iff_cacheAgrees (net : TcpFactory) (event : ArpEvent) :
    net.AnswersRequests event ↔ net.CacheAgrees event := by
  cases event with
  | configure ipUint => exact Iff.rfl
  | packet data len harp =>
      refine forall_congr' fun hrequest => ?_
      rw [handlePacket_request harp hrequest, ← getMacAddr_isSome_iff]
      generalize net.netIf.arpTbl.getMacAddr (arpPacket data).targetIp = found
      dsimp only
      by_cases hfound : found.1.isSome = true
      · rw [if_pos hfound]
        by_cases hown : (arpPacket data).targetIp = net.netIf.ipAddr
        · refine iff_of_true ⟨_, rfl, ?_⟩ (iff_of_true hfound hown)
          rw [if_pos hown]
          exact ⟨_, rfl, arpReply_isArp _ _ _ _ _, arpPacket_arpReply _ _ _ _ _⟩
        · refine iff_of_false ?_ fun hagree => hown (hagree.mp hfound)
          rintro ⟨next, hnext, hsent⟩
          obtain rfl := Option.some.inj hnext
          rw [if_neg hown] at hsent
          exact absurd hsent (by simp)
      · rw [if_neg hfound]
        by_cases hown : (arpPacket data).targetIp = net.netIf.ipAddr
        · refine iff_of_false ?_ fun hagree => hfound (hagree.mpr hown)
          rintro ⟨next, hnext, hsent⟩
          obtain rfl := Option.some.inj hnext
          rw [if_pos hown] at hsent
          obtain ⟨reply, hreply, -⟩ := hsent
          exact absurd hreply (by simp)
        · refine iff_of_true ⟨_, rfl, ?_⟩ (iff_of_false hfound hown)
          rw [if_neg hown]

/-- The slot of the interface holds its address. -/
def KnowsItself (net : TcpFactory) : Prop :=
  (net.netIf.arpTbl.items ownSlot).ipAddr = net.netIf.ipAddr

theorem manager_knowsItself (macAddr : MacAddr) (mem : ByteArea) :
    (manager macAddr mem).KnowsItself := rfl

theorem KnowsItself.cacheAgrees (hknows : net.KnowsItself) {event : ArpEvent}
    (hsettled : net.Settled event) : net.CacheAgrees event := by
  cases event with
  | configure ipUint => trivial
  | packet data len harp =>
      intro hrequest
      rw [Settled, if_pos hrequest] at hsettled
      constructor
      · rintro ⟨i, hi⟩
        by_contra hother
        exact hsettled hother i hi
      · intro hown
        exact ⟨ownSlot, hknows.trans hown.symm⟩

theorem KnowsItself.arpStep (hknows : net.KnowsItself) {event : ArpEvent}
    (hsettled : net.Settled event) (hstep : net.arpStep event = some next) :
    next.KnowsItself := by
  cases event with
  | configure ipUint =>
      obtain rfl := Option.some.inj hstep
      have hsame : (net.netIf.configIface ipUint).ipAddr = net.netIf.ipAddr := hsettled
      exact hknows.trans hsame.symm
  | packet data len harp =>
      rw [Settled] at hsettled
      rw [TcpFactory.arpStep] at hstep
      split at hsettled
      next hrequest =>
        rw [handlePacket_request harp hrequest] at hstep
        obtain rfl := Option.some.inj hstep
        have hpair := (getMacAddr_samePairs net.netIf.arpTbl (arpPacket data).targetIp ownSlot).2
        dsimp only
        split
        next => exact hpair.trans hknows
        next => exact hpair.trans hknows
      next hresponse =>
        rw [handlePacket_response harp hresponse] at hstep
        obtain rfl := Option.some.inj hstep
        have hslot := (net.netIf.arpTbl.append_item (arpPacket data).srcMacAddr
          (arpPacket data).srcIpAddr ownSlot).2
        rw [if_neg hsettled.symm] at hslot
        exact hslot.trans hknows

/-- In a run every request is answered as it should be if and only if the cache agreed with
the interface at each of them; it does so as long as nothing unsettles it. -/
theorem run_answersRequests_iff (macAddr : MacAddr) (mem : ByteArea) {events : List ArpEvent} :
    (Run arpStep AnswersRequests (manager macAddr mem) events net ↔
      Run arpStep CacheAgrees (manager macAddr mem) events net) ∧
    (Run arpStep Settled (manager macAddr mem) events net →
      Run arpStep AnswersRequests (manager macAddr mem) events net) := by
  refine ⟨⟨fun hrun => ?_, fun hrun => ?_⟩, fun hrun => ?_⟩
  · exact hrun.mono fun before event => (before.answersRequests_iff_cacheAgrees event).mp
  · exact hrun.mono fun before event => (before.answersRequests_iff_cacheAgrees event).mpr
  · have hboth : Run arpStep (fun before event => before.Settled event ∧ before.CacheAgrees event)
        (manager macAddr mem) events net := by
      refine (Run.congr_of_invariant KnowsItself (manager_knowsItself macAddr mem) ?_ ?_).mpr hrun
      · exact fun before event after hknows _ => and_iff_left_of_imp hknows.cacheAgrees
      · exact fun before event after hknows hsettled hstep => hknows.arpStep hsettled hstep
    exact hboth.mono fun before event h => (before.answersRequests_iff_cacheAgrees event).mpr h.2

/-- A frame that asks for 10.0.0.1. -/
def requestFrame : ByteArea := fun k =>
  if k = 12 then 8 else if k = 13 then 6 else if k = 21 then 1 else if k = 38 then 10
  else if k = 41 then 1 else 0

/-- The interface gets the address 10.0.0.1, and is asked for it. -/
theorem configured_address_unknown :
    ¬ ∀ (macAddr : MacAddr) (mem : ByteArea) (events : List ArpEvent) (net : TcpFactory),
      Run arpStep (fun _ _ => True) (manager macAddr mem) events net →
        Run arpStep AnswersRequests (manager macAddr mem) events net := by
  intro hall
  have harp : IsArp requestFrame := by
    rw [IsArp]
    decide
  have hrequest : (arpPacket requestFrame).opcode = reqOpcode := by decide
  have hconfigured : Run arpStep (fun _ _ => True) (manager 0 .zeros) [.configure 0x0a000001]
      ((manager 0 .zeros).configure 0x0a000001) := Run.nil.snoc trivial rfl
  obtain ⟨after, hafter⟩ : ∃ after, ((manager 0 .zeros).configure 0x0a000001).arpStep
      (.packet requestFrame 42 harp) = some after := by
    rw [arpStep, handlePacket_request harp hrequest]
    exact ⟨_, rfl⟩
  obtain ⟨before, hbefore, hanswers, -⟩ := (hall _ _ _ _ (hconfigured.snoc trivial hafter)).last
  obtain rfl := hbefore.unique hconfigured
  have hagree := (answersRequests_iff_cacheAgrees _ _).mp hanswers hrequest
  exact absurd (hagree.mpr (by decide)) (by decide)

end TcpFactory

end Shmily.Net
