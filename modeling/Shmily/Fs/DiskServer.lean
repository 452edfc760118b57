import Shmily.Dr.DiskPorts
import Shmily.Fs.RoundTrip

/-! # The disk of the file system server

The server reads and writes the sectors of the second disk through the driver's process. What
it does to its disk as a map of sectors is what the driver does to the drive through the ports,
for all calls one after the other.
-/

namespace Shmily.Fs

open Foundation Lib Dr

/-- `read_disk` or `write_disk` with the buffer at an address. -/
structure SectorCall where
  write : Bool
  lba : BitVec 32
  cnt : BitVec 32
  buf : Nat

namespace SectorCall

/-- The message that the call sends; the files are on the disk number one. -/
def request (call : SectorCall) : SectorRequest where
  write := call.write
  isSlave := true
  lba := call.lba
  cnt := call.cnt
  buf := call.buf

/-- The sectors have numbers of 28 bits, and the count fits into its register. -/
structure Fits (call : SectorCall) : Prop where
  count : call.request.Fits
  sectors : call.lba.toNat + call.cnt.toNat ≤ 2 ^ 28

end SectorCall

/-- What a call does to the disk of the server and to memory. -/
def Server.sectorCall (state : Server × ByteArea) (call : SectorCall) : Server × ByteArea :=
  if call.write then
    (state.1.writeSectors call.lba.toNat call.cnt.toNat (state.2.part call.buf), state.2)
  else
    (state.1, state.2.copyIn call.buf (sectorsFrom state.1.disk call.lba.toNat) 0
      (call.cnt.toNat * sectorSize))

/-- The second drive holds the sectors of the server, memory is what it is, and the driver's
process can be called. -/
structure Holds (ports : DiskPorts) (state : Server × ByteArea) : Prop where
  idle : ports.Idle
  sectors : ∀ lba < 2 ^ 28, ∀ k < sectorSize,
    ports.channel.drives true lba k = state.1.disk lba k
  mem : ports.mem = state.2

namespace Holds

variable {answered : Bool} {ports next : DiskPorts} {state : Server × ByteArea} {call : SectorCall}

theorem sector_eq (hfits : call.Fits) : call.request.sector = call.lba.toNat := by
  have hcount : 0 < call.cnt.toNat := hfits.count.1
  have hbound := hfits.sectors
  apply Nat.mod_eq_of_lt
  change call.lba.toNat < 2 ^ 28
  omega

/-- Sectors are written. -/
theorem written (hholds : Holds ports state) (hidle : next.Idle)
    (hdrive : next.channel.drives true =
      putSectors (ports.channel.drives true) call.lba.toNat call.cnt.toNat ports.mem call.buf)
    (hmem : next.mem = ports.mem) :
    Holds next (state.1.writeSectors call.lba.toNat call.cnt.toNat (state.2.part call.buf),
      state.2) := by
  refine ⟨hidle, fun lba hlba k hk => ?_, hmem.trans hholds.mem⟩
  rw [hdrive, hholds.mem, putSectors, Server.writeSectors_disk]
  dsimp only
  split
  next =>
    have hlt : k < 0 + sectorBytes := by rwa [Nat.zero_add]
    rw [ByteArea.copyIn_at (Nat.zero_le k) hlt, Nat.sub_zero, Nat.add_assoc]
    rfl
  next => exact hholds.sectors lba hlba k hk

/-- Sectors are read. -/
theorem read (hholds : Holds ports state) (hfits : call.Fits) (hidle : next.Idle)
    (hdrives : next.channel.drives = ports.channel.drives)
    (hmem : next.mem = ports.mem.copyIn call.buf
      (sectorsFrom (ports.channel.drives true) call.lba.toNat) 0 (call.cnt.toNat * sectorBytes)) :
    Holds next (state.1, state.2.copyIn call.buf (sectorsFrom state.1.disk call.lba.toNat) 0
      (call.cnt.toNat * sectorSize)) := by
  refine ⟨hidle, fun lba hlba k hk => ?_, ?_⟩
  · rw [hdrives]
    exact hholds.sectors lba hlba k hk
  · rw [hmem, hholds.mem]
    refine ByteArea.copyIn_congr fun i hi => ?_
    have hturn : (0 + i) / sectorBytes < call.cnt.toNat := by
      rw [Nat.zero_add]
      exact Nat.div_lt_of_lt_mul (by rwa [Nat.mul_comm])
    have hbound := hfits.sectors
    exact hholds.sectors _ (by omega) _ (Nat.mod_lt _ (by decide))

/-- The driver does what the server takes a call for. -/
theorem serve (hholds : Holds ports state) (hpost : ports.post ≠ 0) (hfits : call.Fits) :
    ∃ next, call.request.serve answered ports = some next ∧ next.post = ports.post ∧
      Holds next (Server.sectorCall state call) := by
  obtain ⟨next, hserve, hidle, hsame, hperform⟩ :=
    call.request.serve_performs hfits.count hpost
  refine ⟨next, hserve, hsame, ?_⟩
  rw [SectorRequest.perform, sector_eq hfits] at hperform
  rw [Server.sectorCall]
  cases hwrite : call.write with
  | true =>
      rw [if_pos (show call.request.write = true from hwrite), Prod.mk.injEq] at hperform
      rw [if_pos rfl]
      have hdrive := (congrFun hperform.1 true).trans (Function.update_self _ _ _)
      exact hholds.written hidle hdrive hperform.2
  | false =>
      have hread : ¬ call.request.write = true := by
        change ¬ call.write = true
        rw [hwrite]
        exact Bool.false_ne_true
      rw [if_neg hread, Prod.mk.injEq] at hperform
      rw [if_neg Bool.false_ne_true]
      exact hholds.read hfits hidle hperform.1 hperform.2

end Holds

/-- Calls one after the other, as the driver's process serves them. -/
def serveCalls (answered : Bool) (ports : DiskPorts) (calls : List SectorCall) : Option DiskPorts :=
  calls.foldlM (fun ports call => call.request.serve answered ports) ports

theorem Holds.serveCalls {answered : Bool} {ports : DiskPorts} {state : Server × ByteArea}
    (hholds : Holds ports state) (hpost : ports.post ≠ 0) (calls : List SectorCall)
    (hfits : ∀ call ∈ calls, call.Fits) :
    ∃ next, serveCalls answered ports calls = some next ∧
      Holds next (calls.foldl Server.sectorCall state) := by
  induction calls generalizing ports state with
  | nil => exact ⟨ports, rfl, hholds⟩
  | cons call rest ih =>
      obtain ⟨mid, hserve, hsame, hmid⟩ := hholds.serve hpost (hfits call List.mem_cons_self)
      obtain ⟨next, hrest, hnext⟩ := ih hmid (hsame ▸ hpost) fun other hother =>
        hfits other (List.mem_cons_of_mem _ hother)
      refine ⟨next, ?_, hnext⟩
      rw [Fs.serveCalls, List.foldlM_cons, hserve]
      exact hrest

/-- While port 0x80 shows zero, the first call does not return. -/
theorem serveCalls_waits {ports : DiskPorts} {calls : List SectorCall} (hne : calls ≠ [])
    (hfits : ∀ call ∈ calls, call.Fits) (hzero : ports.post = 0) :
    serveCalls false ports calls = none := by
  obtain ⟨call, rest, rfl⟩ := List.exists_cons_of_ne_nil hne
  have hwaits := call.request.serve_waits (hfits call List.mem_cons_self).count hzero
  rw [serveCalls, List.foldlM_cons, hwaits]
  rfl

/-- All calls one after the other do to the drive and to memory what the server takes them for,
exactly if port 0x80 does not show zero; while it does, they do not come to an end. -/
theorem sector_calls_served_iff (ports : DiskPorts) (state : Server × ByteArea)
    (hidle : ports.Idle) (hsectors : ∀ lba < 2 ^ 28, ∀ k < sectorSize,
      ports.channel.drives true lba k = state.1.disk lba k) (hmem : ports.mem = state.2)
    (calls : List SectorCall) (hne : calls ≠ []) (hfits : ∀ call ∈ calls, call.Fits) :
    ((∃ next, serveCalls false ports calls = some next ∧
        Holds next (calls.foldl Server.sectorCall state)) ↔ ports.post ≠ 0) ∧
      (ports.post = 0 → serveCalls false ports calls = none) := by
  refine ⟨⟨?_, fun hpost => ?_⟩, serveCalls_waits hne hfits⟩
  · rintro ⟨next, hserved, -⟩ hzero
    rw [serveCalls_waits hne hfits hzero] at hserved
    cases hserved
  · exact Holds.serveCalls ⟨hidle, hsectors, hmem⟩ hpost calls hfits

/-- Two empty drives. -/
def emptyPorts : DiskPorts where
  channel := ⟨fun _ _ => ByteArea.zeros, 0, 0, 0, 0, 0, none, false⟩
  post := 0xff
  mem := ByteArea.zeros

/-- Two sectors are written and one of them is read; with port 0x80 at zero nothing returns. -/
theorem sector_calls_served_two :
    (∃ next, serveCalls false emptyPorts [⟨true, 7, 2, 0x1000⟩, ⟨false, 8, 1, 0x2000⟩] =
        some next ∧
      Holds next ([⟨true, 7, 2, 0x1000⟩, ⟨false, 8, 1, 0x2000⟩].foldl Server.sectorCall
        (Server.smallServer, ByteArea.zeros))) ∧
      serveCalls false { emptyPorts with post := 0 } [⟨true, 7, 2, 0x1000⟩, ⟨false, 8, 1, 0x2000⟩] =
        none := by
  have hsectors : ∀ lba < 2 ^ 28, ∀ k < sectorSize,
      emptyPorts.channel.drives true lba k = Server.smallServer.disk lba k := fun lba _ k _ => rfl
  have hfits : ∀ call ∈ [⟨true, 7, 2, 0x1000⟩, ⟨false, 8, 1, 0x2000⟩], SectorCall.Fits call := by
    intro call hcall
    rw [List.mem_cons, List.mem_singleton] at hcall
    rcases hcall with rfl | rfl <;> exact ⟨⟨by decide, by decide⟩, by decide⟩
  constructor
  · exact (sector_calls_served_iff emptyPorts (Server.smallServer, ByteArea.zeros) ⟨rfl, rfl⟩
      hsectors rfl _ (List.cons_ne_nil _ _) hfits).1.mpr (by decide)
  · exact (sector_calls_served_iff { emptyPorts with post := 0 }
      (Server.smallServer, ByteArea.zeros) ⟨rfl, rfl⟩ hsectors rfl _ (List.cons_ne_nil _ _)
      hfits).2 rfl

end Shmily.Fs
