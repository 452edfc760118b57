import Shmily.Foundation.Run
import Shmily.Net.Isolation
import Shmily.Net.Turns

/-! # Accesses to the table of sockets

The table has 128 elements, and a port 16 bits. The segments that arrive and the requests of
other processes name a port, and each of the functions behind them checks it in its own
way: some for a socket, some for nothing, and none for the end of the table.
-/

namespace Shmily.Net

open Foundation Lib

/-- The port that an event names: the index into the table of sockets. -/
def TcpEvent.UsesPort (port : Nat) : TcpEvent → Prop
  | .listen other _ | .accept other _ | .send other _ _ | .recv other _ | .close other =>
      other = port
  | .packet data len => Frame.IsTcp ⟨data, len⟩ ∧
      (tcpHeader (TcpFactory.tcpPart data)).dstPort.toNat = port
  | .connect _ _ _ | .configure _ => False

/-- The event is handled without a look at the socket. -/
def TcpEvent.NeedsSocket : TcpEvent → Prop
  | .recv _ _ | .close _ => True
  | .listen _ _ | .connect _ _ _ | .accept _ _ | .configure _ | .packet _ _ | .send _ _ _ => False

namespace TcpFactory

/-- The event is handled within the table and by its sockets, and does nothing if its port
has none, unless it is to make one. -/
def Safe (net : TcpFactory) (event : TcpEvent) : Prop :=
  ∃ next, net.step event = some next ∧
    ∀ port, event.UsesPort port → net.sockets port = none →
      (∀ memory, event ≠ .listen port memory) → next = net

/-- The port is one of the table, and has a socket if the code does not look. -/
def InTable (net : TcpFactory) (event : TcpEvent) : Prop :=
  ∀ port, event.UsesPort port →
    port < 128 ∧ (event.NeedsSocket → ∃ socket, net.sockets port = some socket)

/-- The event puts a socket into the table. -/
def Stores (net : TcpFactory) (event : TcpEvent) (port : Nat) : Prop :=
  port < 128 ∧ net.sockets port = none ∧
    ((∃ memory, event = .listen port memory) ∨
      ∃ dstIp dstPort memory, event = .connect dstIp dstPort memory)

variable {net next : TcpFactory} {event : TcpEvent} {events : List TcpEvent} {port : Nat}
  {netIf : NetworkInterface} {mem : ByteArea}

/-! ### One event -/

theorem handlePacket_of_not_tcp {data : ByteArea} {len : BitVec 16}
    (htcp : ¬ Frame.IsTcp ⟨data, len⟩) : ∃ next, net.handlePacket data len = some next := by
  rw [handlePacket]
  dsimp only
  split
  next =>
    split
    next => exact ⟨_, rfl⟩
    next => exact ⟨_, rfl⟩
  next =>
    split
    next hip =>
      split
      next hproto => exact absurd ⟨hip, hproto⟩ htcp
      next => exact ⟨_, rfl⟩
    next => exact ⟨_, rfl⟩

theorem handlePacket_of_tcp (net : TcpFactory) {data : ByteArea} {len : BitVec 16}
    (htcp : Frame.IsTcp ⟨data, len⟩) :
    ∃ remoteIp payloadLen, net.handlePacket data len =
      net.resolvePacket (tcpPart data) remoteIp payloadLen := by
  have hnotArp : swapWord (wordAt data 12) ≠ nextIsArp := by
    rw [htcp.1]
    decide
  exact ⟨_, _, (if_neg hnotArp).trans ((if_pos htcp.1).trans (if_pos htcp.2))⟩

/-- Each function indexes the table first. -/
theorem step_of_outside (huses : event.UsesPort port) (hport : 128 ≤ port) :
    net.step event = none := by
  cases event with
  | listen other memory =>
      obtain rfl : other = port := huses
      rw [step, show net.listen other memory = none from if_pos hport]
      rfl
  | connect dstIp dstPort memory => exact huses.elim
  | accept other bindProc =>
      obtain rfl : other = port := huses
      rw [step, show net.socketAccept other bindProc = none from if_pos hport]
      rfl
  | configure ipUint => exact huses.elim
  | packet data len =>
      obtain ⟨htcp, rfl⟩ := huses
      obtain ⟨remoteIp, payloadLen, hhandle⟩ := net.handlePacket_of_tcp htcp
      rw [step, hhandle]
      exact if_pos hport
  | send other data len =>
      obtain rfl : other = port := huses
      exact if_pos hport
  | recv other len =>
      obtain rfl : other = port := huses
      rw [step, show net.recv other len = none from if_pos hport]
      rfl
  | close other =>
      obtain rfl : other = port := huses
      exact if_pos hport

/-- Reading from a socket that is not there, or closing it. -/
theorem step_of_needsSocket (huses : event.UsesPort port) (hneeds : event.NeedsSocket)
    (hnone : net.sockets port = none) : net.step event = none := by
  rcases Nat.lt_or_ge port 128 with hport | hport
  · cases event with
    | recv other len =>
        obtain rfl : other = port := huses
        have hrecv : net.recv other len = none := by
          rw [recv, if_neg (Nat.not_le.mpr hport), hnone]
          rfl
        rw [step, hrecv]
        rfl
    | close other =>
        obtain rfl : other = port := huses
        rw [step, closeSocket, if_neg (Nat.not_le.mpr hport), hnone]
    | listen _ _ | connect _ _ _ | accept _ _ | configure _ | packet _ _ | send _ _ _ =>
        exact hneeds.elim
  · exact step_of_outside huses hport

/-- The other functions look, and leave everything as it is. -/
theorem step_of_noSocket (huses : event.UsesPort port) (hport : port < 128)
    (hneeds : ¬ event.NeedsSocket) (hnone : net.sockets port = none)
    (hmakes : ∀ memory, event ≠ .listen port memory) : net.step event = some net := by
  have hnot := Nat.not_le.mpr hport
  cases event with
  | listen other memory =>
      obtain rfl : other = port := huses
      exact absurd rfl (hmakes memory)
  | connect dstIp dstPort memory => exact huses.elim
  | accept other bindProc =>
      obtain rfl : other = port := huses
      rw [step, socketAccept, if_neg hnot, hnone]
      rfl
  | configure ipUint => exact huses.elim
  | packet data len =>
      obtain ⟨htcp, rfl⟩ := huses
      obtain ⟨remoteIp, payloadLen, hhandle⟩ := net.handlePacket_of_tcp htcp
      rw [step, hhandle, resolvePacket]
      dsimp only
      rw [if_neg hnot, hnone]
  | send other data len =>
      obtain rfl : other = port := huses
      rw [step, sendSocket, if_neg hnot, hnone]
  | recv _ _ | close _ => exact absurd trivial hneeds

/-- A port of the table, with a socket. -/
theorem step_of_socket {socket : TcpSocket} (huses : event.UsesPort port) (hport : port < 128)
    (hsocket : net.sockets port = some socket) : ∃ next, net.step event = some next := by
  have hnot := Nat.not_le.mpr hport
  cases event with
  | listen other memory =>
      obtain rfl : other = port := huses
      have hoccupied : (net.sockets other).isSome = true := by
        rw [hsocket]
        rfl
      rw [step, show net.listen other memory = some (net, none) from
        (if_neg hnot).trans (if_pos hoccupied)]
      exact ⟨net, rfl⟩
  | connect dstIp dstPort memory => exact huses.elim
  | accept other bindProc =>
      obtain rfl : other = port := huses
      rw [step, socketAccept, if_neg hnot, hsocket]
      dsimp only
      split
      next => exact ⟨_, rfl⟩
      next => exact ⟨_, rfl⟩
  | configure ipUint => exact huses.elim
  | packet data len =>
      obtain ⟨htcp, rfl⟩ := huses
      obtain ⟨remoteIp, payloadLen, hhandle⟩ := net.handlePacket_of_tcp htcp
      rw [step, hhandle, resolvePacket]
      dsimp only
      rw [if_neg hnot, hsocket]
      exact ⟨_, rfl⟩
  | send other data len =>
      obtain rfl : other = port := huses
      rw [step, sendSocket, if_neg hnot, hsocket]
      exact ⟨_, rfl⟩
  | recv other len =>
      obtain rfl : other = port := huses
      rw [step, recv, if_neg hnot, hsocket]
      exact ⟨_, rfl⟩
  | close other =>
      obtain rfl : other = port := huses
      rw [step, closeSocket, if_neg hnot, hsocket]
      exact ⟨_, rfl⟩

theorem step_of_listen (net : TcpFactory) {memory : Option (Nat → Nat)} (hport : port < 128) :
    ∃ next, net.step (.listen port memory) = some next := by
  rw [step, listen.eq_def, if_neg (Nat.not_le.mpr hport)]
  split
  next => exact ⟨net, rfl⟩
  next =>
    cases memory with
    | none => exact ⟨net, rfl⟩
    | some dataBuf => exact ⟨_, rfl⟩

/-- An event without a port. -/
theorem step_of_not_usesPort (net : TcpFactory) (hnever : ∀ port, ¬ event.UsesPort port) :
    ∃ next, net.step event = some next := by
  cases event with
  | connect dstIp dstPort memory => exact ⟨_, rfl⟩
  | configure ipUint => exact ⟨_, rfl⟩
  | packet data len => exact handlePacket_of_not_tcp fun htcp => hnever _ ⟨htcp, rfl⟩
  | listen other _ | accept other _ | send other _ _ | recv other _ | close other =>
      exact absurd rfl (hnever other)

/-- An event is safe just if its port is in the table, and has the socket that is not
looked for. -/
theorem safe_iff_inTable (net : TcpFactory) (event : TcpEvent) :
    net.Safe event ↔ net.InTable event := by
  constructor
  · rintro ⟨next, hnext, -⟩ port huses
    constructor
    · by_contra hport
      rw [step_of_outside huses (Nat.not_lt.mp hport)] at hnext
      cases hnext
    · intro hneeds
      cases hsocket : net.sockets port with
      | none =>
          rw [step_of_needsSocket huses hneeds hsocket] at hnext
          cases hnext
      | some socket => exact ⟨socket, rfl⟩
  · intro htable
    by_cases huses : ∃ port, event.UsesPort port
    · obtain ⟨port, huses⟩ := huses
      obtain ⟨hport, hneeds⟩ := htable port huses
      have hunique : ∀ other, event.UsesPort other → other = port := by
        intro other hother
        cases event with
        | packet data len => exact hother.2.symm.trans huses.2
        | connect _ _ _ | configure _ => exact huses.elim
        | listen _ _ | accept _ _ | send _ _ _ | recv _ _ | close _ => exact hother.symm.trans huses
      cases hsocket : net.sockets port with
      | some socket =>
          obtain ⟨next, hnext⟩ := step_of_socket huses hport hsocket
          refine ⟨next, hnext, fun other hother hnone => ?_⟩
          rw [hunique other hother, hsocket] at hnone
          cases hnone
      | none =>
          have hlooks : ¬ event.NeedsSocket := by
            intro hneeded
            obtain ⟨socket, hsome⟩ := hneeds hneeded
            rw [hsocket] at hsome
            cases hsome
          by_cases hmakes : ∃ memory, event = .listen port memory
          · obtain ⟨memory, rfl⟩ := hmakes
            obtain ⟨next, hnext⟩ := net.step_of_listen hport
            refine ⟨next, hnext, fun other hother _ hnot => ?_⟩
            exact absurd (by rw [hunique other hother]) (hnot memory)
          · have hself := step_of_noSocket huses hport hlooks hsocket (not_exists.mp hmakes)
            exact ⟨net, hself, fun _ _ _ _ => rfl⟩
    · obtain ⟨next, hnext⟩ := net.step_of_not_usesPort (not_exists.mp huses)
      exact ⟨next, hnext, fun port hport => absurd ⟨port, hport⟩ huses⟩

/-! ### Where sockets come from -/

theorem closeSocket_sockets {port : Nat} (hclose : net.closeSocket port = some next) :
    next.sockets port = none := by
  rw [closeSocket] at hclose
  split at hclose
  next => cases hclose
  next =>
    split at hclose
    next => cases hclose
    next socket hsocket =>
      obtain rfl := Option.some.inj hclose
      exact Function.update_self _ _ _

/-- A socket was there before, or the event stored it. -/
theorem stored_of_step {socket : TcpSocket} (hstep : net.step event = some next)
    (hsocket : next.sockets port = some socket) :
    (∃ before, net.sockets port = some before) ∧ event ≠ .close port ∨ net.Stores event port := by
  have hopen : event ≠ .close port := by
    rintro rfl
    rw [closeSocket_sockets hstep] at hsocket
    cases hsocket
  have hother : ∀ {changed : Nat}, port ≠ changed →
      next.sockets port = net.sockets port → ∃ before, net.sockets port = some before :=
    fun _ hsame => ⟨socket, hsame.symm.trans hsocket⟩
  cases step_turn hstep with
  | idle hsockets hsent => exact .inl ⟨⟨socket, hsockets ▸ hsocket⟩, hopen⟩
  | @listened changed dataBuf hport hnone =>
      rcases eq_or_ne port changed with rfl | hne
      · exact .inr ⟨hport, hnone, .inl ⟨_, rfl⟩⟩
      · exact .inl ⟨hother hne (setSocket_of_ne hne), hopen⟩
  | @connected changed dstIp dstPort hport hfree hnone =>
      rcases eq_or_ne port changed with rfl | hne
      · exact .inr ⟨hport, hnone, .inr ⟨dstIp, dstPort, true, rfl⟩⟩
      · exact .inl ⟨hother hne (setSocket_of_ne hne), hopen⟩
  | @touched event changed before after hbefore =>
      rcases eq_or_ne port changed with rfl | hne
      · exact .inl ⟨⟨before, hbefore⟩, hopen⟩
      · exact .inl ⟨hother hne (setSocket_of_ne hne), hopen⟩
  | @answered data len before htcp arrival hdata hbefore =>
      rcases eq_or_ne port arrival.port with rfl | hne
      · exact .inl ⟨⟨before, hbefore⟩, hopen⟩
      · refine .inl ⟨hother hne ?_, hopen⟩
        rw [setSocket_of_ne hne, resolve_sockets]
  | @sent changed data len before hbefore =>
      rcases eq_or_ne port changed with rfl | hne
      · exact .inl ⟨⟨before, hbefore⟩, hopen⟩
      · exact .inl ⟨hother hne (setSocket_of_ne hne), hopen⟩
  | @closed changed before hbefore =>
      have hne : port ≠ changed := fun heq => hopen (by rw [heq])
      exact .inl ⟨hother hne (Function.update_of_ne hne _ _), hopen⟩

/-- A socket in the table was stored there by `listen` or `connect`, and was not closed. -/
theorem stored_of_run {socket : TcpSocket} (hrun : Run step Admits (init netIf mem) events net)
    (hsocket : net.sockets port = some socket) :
    ∃ earlier event later before, events = earlier ++ event :: later ∧
      Run step Admits (init netIf mem) earlier before ∧ before.Stores event port ∧
      .close port ∉ later := by
  induction hrun generalizing socket with
  | nil => cases hsocket
  | @snoc events before next event hrun hadmits hnext ih =>
      rcases stored_of_step hnext hsocket with ⟨⟨old, hold⟩, hopen⟩ | hstores
      · obtain ⟨earlier, first, later, start, rfl, hstart, hstores, hlater⟩ := ih hold
        refine ⟨earlier, first, later ++ [event], start, by simp, hstart, hstores, ?_⟩
        rw [List.mem_append, List.mem_singleton, not_or]
        exact ⟨hlater, fun heq => hopen heq.symm⟩
      · exact ⟨events, event, [], before, rfl, hrun, hstores, List.not_mem_nil⟩

/-- In every state of a run the table holds sockets that were stored there, and an event is
safe if and only if its port is in the table, with a socket if the code does not look. -/
theorem run_safe_iff (hrun : Run step Admits (init netIf mem) events net) :
    (∀ port socket, net.sockets port = some socket →
      ∃ earlier event later before, events = earlier ++ event :: later ∧
        Run step Admits (init netIf mem) earlier before ∧ before.Stores event port ∧
        .close port ∉ later) ∧
    ∀ event, net.Safe event ↔ net.InTable event :=
  ⟨fun _ _ hsocket => stored_of_run hrun hsocket, net.safe_iff_inTable⟩

/-- A server on port 80. -/
theorem run_safe_listening :
    ∃ net, Run step Admits (init webInterface .zeros) [.listen 80 (some fun _ => 0)] net ∧
      (∃ earlier event later before, [.listen 80 (some fun _ => 0)] = earlier ++ event :: later ∧
        Run step Admits (init webInterface .zeros) earlier before ∧ before.Stores event 80 ∧
        .close 80 ∉ later) ∧
      net.Safe (.recv 80 4) ∧ ¬ net.Safe (.listen 200 none) := by
  have hrun : Run step Admits (init webInterface .zeros) [.listen 80 (some fun _ => 0)] _ :=
    Run.nil.snoc trivial rfl
  have hsafe := run_safe_iff hrun
  refine ⟨_, hrun, hsafe.1 80 _ (setSocket_self _ _ _), (hsafe.2 _).mpr ?_, fun hlisten => ?_⟩
  · rintro port rfl
    exact ⟨by decide, fun _ => ⟨_, setSocket_self _ _ _⟩⟩
  · exact absurd ((hsafe.2 _).mp hlisten 200 rfl).1 (by decide)

/-- A request to listen on port 200, and to read from port 80 with no socket. -/
theorem unchecked_ports :
    ¬ ∀ (netIf : NetworkInterface) (mem : ByteArea) (events : List TcpEvent) (net : TcpFactory),
      Run step Admits (init netIf mem) events net → ∀ event, net.Safe event := by
  intro hall
  obtain ⟨next, hnext, -⟩ := hall webInterface .zeros [] _ .nil (.listen 200 none)
  cases hnext

end TcpFactory

end Shmily.Net
