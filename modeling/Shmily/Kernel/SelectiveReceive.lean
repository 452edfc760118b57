import Shmily.Foundation.NullChain
import Shmily.Kernel.Ipc

/-! # Receiving from a chosen sender

`receive` with the PCB of a queued sender instead of `ANY`. The first entry of
the queue and the later ones are unlinked by separate code, and only the first
is taken as it should be.
-/

namespace Shmily.Kernel

open Foundation

namespace Ipc

/-- The `sendings` queue of `proc` is well-formed and consists of the listed PCBs,
each of which is blocked in a send. -/
structure LinkedSenders (ipc : Ipc) (proc : Addr) (senders : List Addr) : Prop where
  chain : NullChain ipc.nextReady (ipc.sendings proc) senders
  sending : ∀ sender ∈ senders, ipc.status sender = .sendingMsg

/-- What `receive` on the object at `this` is for when it asks for the queued
`want`: the message is copied with the name of its sender, the sender and nobody
else is unblocked, and the rest of the queue stays as it was. -/
def TakesOut (ipc : Ipc) (cur this : Addr) (senders : List Addr) (want : Addr) : Prop :=
  ∀ fuel, senders.length ≤ fuel → ∃ next,
    ipc.receive fuel cur this want = some (next, .taken want) ∧
    next.msgs this = { ipc.msgs this with
      type := (ipc.msgs (ipc.message want)).type
      context := (ipc.msgs (ipc.message want)).context
      destination := want } ∧
    next.status = Function.update ipc.status want .ready ∧
    NullChain next.nextReady (next.sendings (ipc.msgs this).source) (senders.erase want)

/-- The traversal stops at the sender before the wanted one. -/
theorem traverse_eq_before {next : Addr → Addr} {start before want : Addr} {front back : List Addr}
    {fuel : Nat} (hchain : NullChain next start (front ++ before :: want :: back))
    (hfuel : front.length < fuel) : traverse next want fuel start = some (some before) := by
  induction front generalizing start fuel with
  | nil =>
      obtain ⟨hstart, hne, hlink, -⟩ := hchain
      obtain ⟨fuel, rfl⟩ := Nat.exists_eq_succ_of_ne_zero (Nat.ne_of_gt hfuel)
      subst hstart
      simp [traverse, hne, hlink]
  | cons first front ih =>
      obtain ⟨fuel, rfl⟩ := Nat.exists_eq_succ_of_ne_zero (Nat.ne_zero_of_lt hfuel)
      obtain ⟨hstart, hne, hrest⟩ := hchain
      subst hstart
      have hrest : NullChain next (next start) (front ++ before :: want :: back) := hrest
      rw [traverse, if_neg hne, if_neg hrest.behind_ne_start]
      exact ih hrest (Nat.lt_of_succ_lt_succ hfuel)

section

variable {ipc : Ipc} {cur this want before proc : Addr} {senders front back : List Addr} {fuel : Nat}

theorem LinkedSenders.ne_before
    (hsenders : ipc.LinkedSenders proc (front ++ before :: want :: back)) : want ≠ before := by
  have hsuffix : NullChain ipc.nextReady before ([] ++ before :: want :: back) :=
    hsenders.chain.suffix
  exact hsuffix.behind_ne_start

/-- The first sender on the queue is taken as it should be. -/
theorem receive_first {rest : List Addr}
    (hsenders : ipc.LinkedSenders (ipc.msgs this).source (want :: rest)) :
    ipc.receive fuel cur this want =
      some (ipc.takeFirst this (ipc.msgs this).source want, .taken want) := by
  obtain ⟨hstart, hne, -⟩ := hsenders.chain
  rw [receive, hstart, receiveFrom, if_neg (fun hintr => hne hintr.2), if_neg hne,
    if_pos (.inl rfl)]

/-- A later sender is taken with the name of the sender before it. -/
theorem receive_behind
    (hsenders : ipc.LinkedSenders (ipc.msgs this).source (front ++ before :: want :: back))
    (hfuel : front.length < fuel) :
    ipc.receive fuel cur this want = some (ipc.takeBehind this want before, .taken want) := by
  have hne : want ≠ 0 := hsenders.chain.ne_zero (by simp)
  have hstart : ipc.sendings (ipc.msgs this).source ≠ 0 := by
    intro hzero
    have hnil := hsenders.chain.eq_nil_iff.mpr hzero
    simp at hnil
  -- the shortcut for the first sender is not taken
  have hwant : ¬ (want = ipc.sendings (ipc.msgs this).source ∨ want = anyProcess) :=
    fun hor => hor.elim hsenders.chain.behind_ne_start hne
  rw [receive, receiveFrom, if_neg (fun hintr => hne hintr.2), if_neg hstart, if_neg hwant,
    traverse_eq_before hsenders.chain hfuel]

/-- The queue without the sender that was first. -/
theorem takeFirst_chain {rest : List Addr}
    (hchain : NullChain ipc.nextReady (ipc.sendings proc) (want :: rest)) :
    NullChain (ipc.takeFirst this proc want).nextReady ((ipc.takeFirst this proc want).sendings proc)
      rest := by
  have hne := hchain.next_ne
  obtain ⟨hstart, -, hrest⟩ := hchain
  simpa [takeFirst, hstart, hne] using hrest

/-- A selective receive takes out the sender it asks for just when that sender is
the first on the queue. -/
theorem takesOut_iff (hsenders : ipc.LinkedSenders (ipc.msgs this).source senders)
    (hmem : want ∈ senders) :
    ipc.TakesOut cur this senders want ↔ senders.head? = some want := by
  constructor
  · intro htakes
    obtain ⟨next, hreceive, hmessage, -⟩ := htakes senders.length le_rfl
    obtain ⟨front, back, rfl⟩ := List.append_of_mem hmem
    rcases List.eq_nil_or_concat front with rfl | ⟨front, before, rfl⟩
    · rfl
    · rw [List.concat_eq_append, List.append_assoc, List.singleton_append] at hsenders hreceive
      rw [receive_behind hsenders (by simp), Option.some.injEq, Prod.mk.injEq] at hreceive
      obtain ⟨rfl, -⟩ := hreceive
      -- the object names the sender before the wanted one
      have hdestination := congrArg Message.destination hmessage
      have hbefore : before = want := by simpa [takeBehind] using hdestination
      exact absurd hbefore.symm hsenders.ne_before
  · intro hhead fuel _
    obtain ⟨rest, rfl⟩ := List.head?_eq_some_iff.mp hhead
    refine ⟨_, receive_first hsenders, ?_, ?_, ?_⟩
    · obtain ⟨hstart, -⟩ := hsenders.chain
      simp [takeFirst]
    · have hsending := hsenders.sending want List.mem_cons_self
      funext other
      simp [takeFirst, releaseSender_status, hsending, Function.update_apply]
    · rw [List.erase_cons_head]
      exact takeFirst_chain hsenders.chain

end

/-- Processes at `0x80` and `0x90` are queued at `0x70` in this order, each with a
message of its own at the next address. -/
def twoSenders : Ipc where
  status proc := if proc = 0x80 ∨ proc = 0x90 then .sendingMsg else .running
  nextReady proc := if proc = 0x80 then 0x90 else 0
  message proc := proc + 1
  sendings proc := if proc = 0x70 then 0x80 else 0
  intrCnt _ := 0
  msgs this := ⟨this - 1, 0x70, this, default⟩

theorem twoSenders_linked : twoSenders.LinkedSenders 0x70 [0x80, 0x90] where
  chain := ⟨rfl, by decide, rfl, by decide, rfl⟩
  sending := by decide

/-- The first of two senders is taken as it should be. -/
theorem takesOut_twoSenders : twoSenders.TakesOut 0x70 0x71 [0x80, 0x90] 0x80 :=
  (takesOut_iff twoSenders_linked (by decide)).mpr rfl

/-- The second of two senders is not: the message comes in the name of the first,
which is made ready, while the second stays blocked. -/
theorem not_takesOut_second : ¬ twoSenders.TakesOut 0x70 0x71 [0x80, 0x90] 0x90 ∧
    (twoSenders.takeBehind 0x71 0x90 0x80).status 0x80 = .ready ∧
    (twoSenders.takeBehind 0x71 0x90 0x80).status 0x90 = .sendingMsg := by
  refine ⟨fun htakes => ?_, by decide, by decide⟩
  obtain ⟨next, hreceive, hmessage, -⟩ := htakes 2 le_rfl
  have hresult : twoSenders.receive 2 0x70 0x71 0x90 =
      some (twoSenders.takeBehind 0x71 0x90 0x80, .taken 0x90) := rfl
  rw [hresult, Option.some.injEq, Prod.mk.injEq] at hreceive
  obtain ⟨rfl, -⟩ := hreceive
  exact absurd (congrArg Message.destination hmessage) (by decide)

end Ipc

end Shmily.Kernel
