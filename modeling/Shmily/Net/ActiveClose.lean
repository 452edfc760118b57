import Shmily.Net.Isolation
import Shmily.Net.Turns

/-! # Closing an established connection

`close_socket` sends a `FIN`, moves the socket to `FIN_WAIT1` and frees it in the
same call. The branches of `resolve_packet` for `FIN_WAIT1` and `FIN_WAIT2` are never
entered: what the peer sends afterwards finds no socket, and the port can be used
again at once.
-/

namespace Shmily.Net

open Foundation Lib

/-- The segment ends the stream of its sender. -/
def TcpHeader.EndsStream (header : TcpHeader) : Prop :=
  header.kind = flagFin ∨ header.kind = flagFin ||| flagAck

namespace TcpFactory

/-- `listen` returns null however much memory there is. -/
def RefusesListen (net : TcpFactory) (port : Nat) : Prop :=
  ∀ dataBuf, (net.listen port (some dataBuf)).map Prod.snd = some none

/-- The segment is answered with an acknowledgement of everything up to its `FIN`. -/
def AcknowledgesFin (net : TcpFactory) (fin : Arrival) : Prop :=
  ∃ next, net.resolvePacket fin.data fin.remoteIp fin.payloadLen = some next ∧
    ∃ packet ∈ next.sent.drop net.sent.length, packet.frame.IsTcp ∧
      packet.frame.header.srcPort = (tcpHeader fin.data).dstPort ∧
      packet.frame.header.flags &&& flagAck ≠ 0 ∧
      packet.frame.ackNum = (tcpHeader fin.data).seqNum +
        BitVec.ofNat 32 (fin.payloadLen.toNat - (tcpHeader fin.data).headSize * 4) + 1

/-- What closing a port is for: after the events that led from `closed` to `before`
the `FIN` of the peer is acknowledged, and until then the port is refused. -/
structure CompletesClose (closed : TcpFactory) (port : Nat) (events : List TcpEvent)
    (before : TcpFactory) (fin : Arrival) : Prop where
  refused : ∀ first state, first <+: events → Run step Admits closed first state →
    state.RefusesListen port
  acknowledged : before.AcknowledgesFin fin

/-- The event does not create a socket on the port. -/
def KeepsUnbound (port : Nat) (net : TcpFactory) : TcpEvent → Prop
  | .listen other _ => other ≠ port
  | .connect _ _ _ => net.getFreePort ≠ some port
  | .accept _ _ | .configure _ | .packet _ _ | .send _ _ _ | .recv _ _ | .close _ => True

variable {net next closed before : TcpFactory} {event : TcpEvent} {port : Nat} {socket : TcpSocket}

/-- A port without a socket gets one only from `listen` and `connect`. -/
theorem Turn.unbound (hturn : Turn net event next) (hnone : net.sockets port = none)
    (hkeeps : net.KeepsUnbound port event) : next.sockets port = none := by
  -- a turn of a bound port concerns another port
  have hother : ∀ {other : Nat} {bound : TcpSocket}, net.sockets other = some bound →
      port ≠ other := by
    rintro other bound hbound rfl
    rw [hnone] at hbound
    cases hbound
  cases hturn with
  | idle hsockets _ => rw [hsockets, hnone]
  | listened _ _ => rw [setSocket_of_ne hkeeps.symm, hnone]
  | connected _ hfree _ =>
      have hne : port ≠ _ := fun heq => hkeeps (heq ▸ hfree)
      rw [setSocket_of_ne hne, sendFlags_sockets, hnone]
  | touched hsocket _ _ _ => rw [setSocket_of_ne (hother hsocket), hnone]
  | answered _ arrival _ hsocket => rw [setSocket_of_ne (hother hsocket), resolve_sockets, hnone]
  | sent hsocket => rw [setSocket_of_ne (hother hsocket), send_eq, hnone]
  | closed hsocket => exact (Function.update_of_ne (hother hsocket) _ _).trans hnone

theorem unbound_of_run {events : List TcpEvent} (hnone : closed.sockets port = none)
    (hrun : Run step (KeepsUnbound port) closed events before) : before.sockets port = none :=
  hrun.invariant (fun state => state.sockets port = none) hnone
    fun _ _ _ hbefore hkeeps hstep => (step_turn hstep).unbound hbefore hkeeps

/-- A segment for a port without a socket is dropped. -/
theorem resolvePacket_of_unbound {fin : Arrival} (hport : fin.port < 128)
    (hnone : net.sockets fin.port = none) :
    net.resolvePacket fin.data fin.remoteIp fin.payloadLen = some net := by
  have hlt : ¬ 128 ≤ (tcpHeader fin.data).dstPort.toNat := Nat.not_le.mpr hport
  have hfound : net.sockets (tcpHeader fin.data).dstPort.toNat = none := hnone
  simp only [resolvePacket, if_neg hlt, hfound]

/-- The port of a socket that is closed is free at once. -/
theorem closeSocket_unbound (hport : port < 128) (hsocket : net.sockets port = some socket) :
    ∃ closed, net.step (.close port) = some closed ∧ closed.sockets port = none := by
  refine ⟨{ (net.disconnect socket).1 with
    sockets := Function.update (net.disconnect socket).1.sockets port none }, ?_,
    Function.update_self _ _ _⟩
  rw [step, closeSocket, if_neg (Nat.not_le.mpr hport), hsocket]

theorem not_refusesListen (hport : port < 128) (hnone : net.sockets port = none) :
    ¬ net.RefusesListen port := by
  intro hrefuses
  have hnull := hrefuses fun _ => 0
  rw [listen, if_neg (Nat.not_le.mpr hport), hnone] at hnull
  simp at hnull

/-- What comes in for a port without a socket is not acknowledged. -/
theorem not_acknowledgesFin {fin : Arrival} (hport : fin.port < 128)
    (hnone : net.sockets fin.port = none) : ¬ net.AcknowledgesFin fin := by
  rintro ⟨next, hnext, packet, hmem, -⟩
  rw [resolvePacket_of_unbound hport hnone, Option.some.injEq] at hnext
  rw [← hnext, List.drop_length] at hmem
  cases hmem

/-- No close of an established connection is completed: `listen` succeeds at once, and
as long as nobody uses the port again no `FIN` for it is acknowledged. -/
theorem close_never_completes (hport : port < 128) (hsocket : net.sockets port = some socket)
    (_hestablished : socket.state = .established) :
    ∃ closed, net.step (.close port) = some closed ∧
      ∀ events before fin, fin.port = port → (tcpHeader fin.data).EndsStream →
        (Run step Admits closed events before → ¬ CompletesClose closed port events before fin) ∧
        (Run step (KeepsUnbound port) closed events before → ¬ before.AcknowledgesFin fin) := by
  obtain ⟨closed, hstep, hnone⟩ := closeSocket_unbound hport hsocket
  -- the port can be listened to before any event
  refine ⟨closed, hstep, fun events before fin hfin _ => ⟨fun _ hcompletes => ?_, fun hrun => ?_⟩⟩
  · exact not_refusesListen hport hnone (hcompletes.refused [] closed List.nil_prefix .nil)
  · subst hfin
    exact not_acknowledgesFin hport (unbound_of_run hnone hrun)

/-- The connection of port 80 is closed, and another port is listened to. -/
theorem close_never_completes_web : ∃ closed before, webFactory.step (.close 80) = some closed ∧
    Run step (KeepsUnbound 80) closed [.listen 81 (some fun _ => 0), .recv 81 4] before ∧
    ∀ fin : Arrival, fin.port = 80 → (tcpHeader fin.data).EndsStream →
      ¬ before.AcknowledgesFin fin := by
  obtain ⟨closed, hstep, hclosed⟩ :=
    close_never_completes (by decide : 80 < 128) (rfl : webFactory.sockets 80 = some webSocket) rfl
  have hseen : ((webFactory.step (.close 80)).bind fun closed =>
      (closed.step (.listen 81 (some fun _ => 0))).bind fun listening =>
        (listening.step (.recv 81 4)).map fun _ => ()) = some () := rfl
  rw [hstep, Option.bind_some] at hseen
  obtain ⟨listening, hlisten, hseen⟩ := Option.bind_eq_some_iff.mp hseen
  obtain ⟨before, hrecv, -⟩ := Option.map_eq_some_iff.mp hseen
  have hfirst : Run step (KeepsUnbound 80) closed [.listen 81 (some fun _ => 0)] listening :=
    Run.nil.snoc (by decide : 81 ≠ 80) hlisten
  have hrun : Run step (KeepsUnbound 80) closed [.listen 81 (some fun _ => 0), .recv 81 4] before :=
    hfirst.snoc trivial hrecv
  exact ⟨closed, before, hstep, hrun, fun fin hfin hends => (hclosed _ before fin hfin hends).2 hrun⟩

/-- The other end has acknowledged the `FIN` of port 80 and sends its own. -/
def peerFin : Arrival where
  data := formatHeader .zeros { webSocket with srcPort := 1000, dstPort := 80, seqNum := 5 }
    (flagFin ||| flagAck)
  remoteIp := ![172, 17, 0, 3]
  payloadLen := 24

/-- It is not acknowledged, and meanwhile the port can be listened to. -/
theorem close_drops_fin : ∃ closed, webFactory.step (.close 80) = some closed ∧
    ¬ closed.RefusesListen 80 ∧ ¬ closed.AcknowledgesFin peerFin ∧
    ¬ closed.CompletesClose 80 [] closed peerFin := by
  obtain ⟨closed, hstep, hnone⟩ :=
    closeSocket_unbound (by decide : 80 < 128) (rfl : webFactory.sockets 80 = some webSocket)
  have hport : peerFin.port = 80 := by
    rw [Arrival.port, peerFin, tcpHeader_formatHeader]
    rfl
  have hfin : ¬ closed.AcknowledgesFin peerFin :=
    not_acknowledgesFin (hport.symm ▸ (by decide : 80 < 128)) (hport.symm ▸ hnone)
  exact ⟨closed, hstep, not_refusesListen (by decide) hnone, hfin,
    fun hcompletes => hfin hcompletes.acknowledged⟩

end TcpFactory

end Shmily.Net
