import Mathlib.Logic.Function.Basic
import Mathlib.Logic.Relation
import Mathlib.Order.Basic

/-! # Calls between processes that have to meet

A message passes only when its receiver takes it; until then the sender is
queued. A process calls another one and waits for the answer, or posts a message
to which there is none, and a server takes messages from anybody and answers the
calls among them. Every process has a rank, and it calls or posts only to
processes of lower rank, while answers go the other way. Then nobody waits in a
circle, and nobody waits for a server that waits for messages itself.
-/

namespace Shmily.Foundation

universe uProc

variable {Proc : Type uProc}

/-- What a process is doing. -/
inductive Phase (Proc : Type uProc)
  /-- It executes its own code. -/
  | running
  /-- Its call is queued at the server. -/
  | calling (server : Proc)
  /-- Its call has been taken off the queue, and it has not asked for the answer. -/
  | called (server : Proc)
  /-- It waits for the answer to its call. -/
  | waiting (server : Proc)
  /-- Its message to the server, which will not be answered, is queued. -/
  | posting (server : Proc)
  /-- Its answer is queued at the client. -/
  | answering (client : Proc)
  /-- It waits for a message from anybody. -/
  | listening
  /-- It has got a message while it was listening, a call of the client if there is one. -/
  | woken (client : Option Proc)
  /-- It waits for a device. -/
  | awaiting
  /-- What it was blocked in has come to an end. -/
  | resuming

namespace Phase

/-- The process in this phase has a call or a message at the server. -/
def Below (server : Proc) : Phase Proc → Prop
  | calling other | called other | waiting other | posting other => other = server
  | _ => False

/-- The server that has taken the call of the process in this phase. -/
def partner : Phase Proc → Option Proc
  | called server | waiting server => some server
  | _ => none

/-- The client whose call has reached the process in this phase, if while it runs
it has still to answer `serving`. -/
def holds (serving : Option Proc) : Phase Proc → Option Proc
  | woken client => client
  | answering client => some client
  | _ => serving

/-- In these phases the process has answered all calls that it has received. -/
def Idle : Phase Proc → Prop
  | listening | woken _ | answering _ => True
  | _ => False

/-- The process in this phase cannot go on before the other one acts. -/
def WaitsFor (other : Proc) : Phase Proc → Prop
  | calling server | waiting server | posting server => server = other
  | answering client => client = other
  | _ => False

/-- The process in this phase waits for no other process. -/
def Free : Phase Proc → Prop
  | running | called _ | woken _ | awaiting | resuming => True
  | _ => False

end Phase

/-- The phases of all processes, and the clients whose calls they have received and
not yet answered. -/
structure Meeting (Proc : Type uProc) where
  phase : Proc → Phase Proc
  serving : Proc → Option Proc

namespace Meeting

section

variable [DecidableEq Proc]

/-- A process enters a phase. -/
def set (meeting : Meeting Proc) (proc : Proc) (phase : Phase Proc) : Meeting Proc :=
  { meeting with phase := Function.update meeting.phase proc phase }

/-- A process goes on to serve this client, or nobody. -/
def serve (meeting : Meeting Proc) (proc : Proc) (client : Option Proc) : Meeting Proc :=
  { meeting with serving := Function.update meeting.serving proc client }

/-- What can happen next. -/
inductive Step (rank : Proc → Nat) (meeting : Meeting Proc) : Meeting Proc → Prop
  | callListening {proc server} (hrank : rank server < rank proc)
      (hproc : meeting.phase proc = .running) (hserver : meeting.phase server = .listening) :
      Step rank meeting ((meeting.set server (.woken (some proc))).set proc (.waiting server))
  | callQueued {proc server} (hrank : rank server < rank proc)
      (hproc : meeting.phase proc = .running) (hserver : meeting.phase server ≠ .listening) :
      Step rank meeting (meeting.set proc (.calling server))
  | postListening {server} (hserver : meeting.phase server = .listening) :
      Step rank meeting (meeting.set server (.woken none))
  | postQueued {proc server} (hrank : rank server < rank proc)
      (hproc : meeting.phase proc = .running) (hserver : meeting.phase server ≠ .listening) :
      Step rank meeting (meeting.set proc (.posting server))
  | listen {proc} (hproc : meeting.phase proc = .running) (hserving : meeting.serving proc = none)
      (hempty : ∀ other,
        meeting.phase other ≠ .calling proc ∧ meeting.phase other ≠ .posting proc) :
      Step rank meeting (meeting.set proc .listening)
  | takeCall {proc client} (hproc : meeting.phase proc = .running)
      (hserving : meeting.serving proc = none) (hclient : meeting.phase client = .calling proc) :
      Step rank meeting ((meeting.set client (.called proc)).serve proc (some client))
  | takePost {proc sender} (hsender : meeting.phase sender = .posting proc) :
      Step rank meeting (meeting.set sender .resuming)
  | receive {proc client} (hproc : meeting.phase proc = .woken client) :
      Step rank meeting ((meeting.set proc .running).serve proc client)
  | answerWaiting {proc client} (hproc : meeting.phase proc = .running)
      (hserving : meeting.serving proc = some client)
      (hclient : meeting.phase client = .waiting proc) :
      Step rank meeting ((meeting.set client .resuming).serve proc none)
  | answerQueued {proc client} (hproc : meeting.phase proc = .running)
      (hserving : meeting.serving proc = some client)
      (hclient : meeting.phase client = .called proc) :
      Step rank meeting ((meeting.set proc (.answering client)).serve proc none)
  | collect {proc server} (hproc : meeting.phase proc = .called server)
      (hserver : meeting.phase server = .answering proc) :
      Step rank meeting ((meeting.set server .resuming).set proc .running)
  | wait {proc server} (hproc : meeting.phase proc = .called server)
      (hserver : meeting.phase server ≠ .answering proc) :
      Step rank meeting (meeting.set proc (.waiting server))
  | resume {proc} (hproc : meeting.phase proc = .resuming) :
      Step rank meeting (meeting.set proc .running)
  | awaitDevice {proc} (hproc : meeting.phase proc = .running) :
      Step rank meeting (meeting.set proc .awaiting)
  | device {proc} (hproc : meeting.phase proc = .awaiting) :
      Step rank meeting (meeting.set proc .resuming)

end

/-- The client whose call has reached the process and not been answered to the end. -/
def holder (meeting : Meeting Proc) (proc : Proc) : Option Proc :=
  (meeting.phase proc).holds (meeting.serving proc)

/-- The server that has taken the call of the process. -/
def partner (meeting : Meeting Proc) (proc : Proc) : Option Proc :=
  (meeting.phase proc).partner

/-- Two partial maps that are inverse to each other. -/
def Paired (holder partner : Proc → Option Proc) : Prop :=
  ∀ server client, holder server = some client ↔ partner client = some server

/-- Who is where: calls and messages go down, a server holds the calls of exactly the
clients that expect its answer, and nobody is queued at a listening server. -/
structure Orderly (rank : Proc → Nat) (meeting : Meeting Proc) : Prop where
  ranked : ∀ proc server, (meeting.phase proc).Below server → rank server < rank proc
  paired : Paired meeting.holder meeting.partner
  woken : ∀ server client, meeting.phase server = .woken (some client) →
    meeting.phase client = .waiting server
  answering : ∀ server client, meeting.phase server = .answering client →
    meeting.phase client = .called server
  alone : ∀ server, meeting.phase server = .listening → ∀ proc,
    meeting.phase proc ≠ .calling server ∧ meeting.phase proc ≠ .posting server
  idle : ∀ server, (meeting.phase server).Idle → meeting.serving server = none

/-! ## What a step changes -/

@[grind =]
theorem below_iff {phase : Phase Proc} {server : Proc} : phase.Below server ↔
    phase = .calling server ∨ phase = .called server ∨ phase = .waiting server ∨
      phase = .posting server := by
  cases phase <;> simp [Phase.Below]

@[grind =]
theorem idle_iff {phase : Phase Proc} : phase.Idle ↔
    phase = .listening ∨ (∃ client, phase = .woken client) ∨
      ∃ client, phase = .answering client := by
  cases phase <;> simp [Phase.Idle]

section

variable [DecidableEq Proc] (meeting : Meeting Proc) (proc other : Proc) (phase : Phase Proc)
  (client : Option Proc)

@[grind =]
theorem set_phase : (meeting.set proc phase).phase other =
    if other = proc then phase else meeting.phase other :=
  Function.update_apply ..

@[grind =]
theorem set_serving : (meeting.set proc phase).serving other = meeting.serving other := rfl

@[grind =]
theorem serve_phase : (meeting.serve proc client).phase other = meeting.phase other := rfl

@[grind =]
theorem serve_serving : (meeting.serve proc client).serving other =
    if other = proc then client else meeting.serving other :=
  Function.update_apply ..

theorem set_holder : (meeting.set proc phase).holder =
    Function.update meeting.holder proc (phase.holds (meeting.serving proc)) := by
  funext other
  rw [holder, set_phase, set_serving, Function.update_apply]
  split
  next heq => rw [heq]
  next => rfl

theorem set_partner :
    (meeting.set proc phase).partner = Function.update meeting.partner proc phase.partner := by
  funext other
  rw [partner, set_phase, Function.update_apply]
  split <;> rfl

theorem serve_holder : (meeting.serve proc client).holder =
    Function.update meeting.holder proc ((meeting.phase proc).holds client) := by
  funext other
  rw [holder, serve_phase, serve_serving, Function.update_apply]
  split
  next heq => rw [heq]
  next => rfl

theorem serve_partner : (meeting.serve proc client).partner = meeting.partner := rfl

end

section

variable [DecidableEq Proc] {holder partner : Proc → Option Proc} {server client : Proc}

/-- A pair of which both were alone comes together. -/
theorem Paired.join (hpaired : Paired holder partner) (hserver : holder server = none)
    (hclient : partner client = none) :
    Paired (Function.update holder server (some client))
      (Function.update partner client (some server)) := by
  intro first second
  have hfirst := hpaired server second
  have hsecond := hpaired first client
  rw [Function.update_apply, Function.update_apply]
  grind [hpaired first second]

/-- A pair goes apart. -/
theorem Paired.part (hpaired : Paired holder partner) (hpair : holder server = some client) :
    Paired (Function.update holder server none) (Function.update partner client none) := by
  intro first second
  have hfirst := hpaired server second
  have hsecond := hpaired first client
  rw [Function.update_apply, Function.update_apply]
  grind [hpaired first second, hpaired server client]

end

section

variable [DecidableEq Proc] {rank : Proc → Nat} {meeting next : Meeting Proc} {proc : Proc}
  {phase : Phase Proc}

/-- A process goes on and keeps its client. -/
theorem set_holder_of (hholds : phase.holds (meeting.serving proc) = meeting.holder proc) :
    (meeting.set proc phase).holder = meeting.holder := by
  rw [set_holder, hholds, Function.update_eq_self]

/-- A process goes on and keeps its server. -/
theorem set_partner_of (hpartner : phase.partner = meeting.partner proc) :
    (meeting.set proc phase).partner = meeting.partner := by
  rw [set_partner, hpartner, Function.update_eq_self]

theorem set_paired (hpaired : Paired meeting.holder meeting.partner)
    (hholds : phase.holds (meeting.serving proc) = meeting.holder proc)
    (hpartner : phase.partner = meeting.partner proc) :
    Paired (meeting.set proc phase).holder (meeting.set proc phase).partner := by
  rw [set_holder_of hholds, set_partner_of hpartner]
  exact hpaired

theorem Step.ranked (hstep : Step rank meeting next) (horderly : meeting.Orderly rank)
    (proc server : Proc) (hbelow : (next.phase proc).Below server) : rank server < rank proc := by
  have hranked := horderly.ranked
  simp only [below_iff] at hranked hbelow
  cases hstep <;> grind

theorem Step.paired (hstep : Step rank meeting next) (horderly : meeting.Orderly rank) :
    Paired next.holder next.partner := by
  have hpaired := horderly.paired
  cases hstep with
  | @callListening proc server hrank hproc hserver =>
      have hne : proc ≠ server := fun heq => absurd hrank (heq ▸ Nat.lt_irrefl _)
      have hserving := horderly.idle server (by rw [hserver]; trivial)
      rw [set_holder_of (by simp [holder, set_phase, set_serving, hne, hproc, Phase.holds]),
        set_holder, set_partner, set_partner_of (by simp [partner, hserver, Phase.partner])]
      apply hpaired.join
      · simp [holder, hserver, hserving, Phase.holds]
      · simp [partner, hproc, Phase.partner]
  | @postListening server hserver =>
      have hserving := horderly.idle server (by rw [hserver]; trivial)
      apply set_paired hpaired
      · simp [holder, hserver, hserving, Phase.holds]
      · simp [partner, hserver, Phase.partner]
  | @takeCall proc client hproc hserving hclient =>
      have hne : proc ≠ client := by
        rintro rfl
        cases hproc.symm.trans hclient
      rw [serve_holder, set_holder_of (by simp [holder, hclient, Phase.holds]), serve_partner,
        set_partner, set_phase, if_neg hne, hproc]
      apply hpaired.join
      · simp [holder, hproc, hserving, Phase.holds]
      · simp [partner, hclient, Phase.partner]
  | @receive proc client hproc =>
      have hholder : meeting.holder proc = client := by simp [holder, hproc, Phase.holds]
      rw [serve_holder, set_phase, if_pos rfl, set_holder, Function.update_idem, serve_partner,
        set_partner_of (by simp [partner, hproc, Phase.partner])]
      change Paired (Function.update meeting.holder proc client) _
      rwa [← hholder, Function.update_eq_self]
  | @answerWaiting proc client hproc hserving hclient =>
      have hne : proc ≠ client := by
        rintro rfl
        cases hproc.symm.trans hclient
      rw [serve_holder, set_holder_of (by simp [holder, hclient, Phase.holds]), serve_partner,
        set_partner, set_phase, if_neg hne, hproc]
      apply hpaired.part
      simp [holder, hproc, hserving, Phase.holds]
  | @answerQueued proc client hproc hserving hclient =>
      have hholder : meeting.holder proc = some client := by
        simp [holder, hproc, hserving, Phase.holds]
      rw [serve_holder, set_phase, if_pos rfl, set_holder, Function.update_idem, serve_partner,
        set_partner_of (by simp [partner, hproc, Phase.partner])]
      change Paired (Function.update meeting.holder proc (some client)) _
      rwa [← hholder, Function.update_eq_self]
  | @collect proc server hproc hserver =>
      have hne : proc ≠ server := by
        rintro rfl
        cases hproc.symm.trans hserver
      have hserving := horderly.idle server (by rw [hserver]; trivial)
      rw [set_holder_of (by simp [holder, set_phase, set_serving, hne, hproc, Phase.holds]),
        set_holder, set_partner, set_partner_of (by simp [partner, hserver, Phase.partner]),
        hserving]
      apply hpaired.part
      simp [holder, hserver, Phase.holds]
  -- in the other steps the process keeps its client and its server
  | callQueued _ hproc | postQueued _ hproc | listen hproc | takePost hproc | wait hproc
  | resume hproc | awaitDevice hproc | device hproc =>
      apply set_paired hpaired <;> simp [holder, partner, hproc, Phase.holds, Phase.partner]

theorem Step.woken (hstep : Step rank meeting next) (horderly : meeting.Orderly rank)
    (server client : Proc) (hserver : next.phase server = .woken (some client)) :
    next.phase client = .waiting server := by
  have hwoken := horderly.woken
  have halone := horderly.alone
  cases hstep <;> grind

theorem Step.answering (hstep : Step rank meeting next) (horderly : meeting.Orderly rank)
    (server client : Proc) (hserver : next.phase server = .answering client) :
    next.phase client = .called server := by
  have hanswering := horderly.answering
  cases hstep <;> grind

theorem Step.alone (hstep : Step rank meeting next) (horderly : meeting.Orderly rank)
    (server : Proc) (hserver : next.phase server = .listening) (proc : Proc) :
    next.phase proc ≠ .calling server ∧ next.phase proc ≠ .posting server := by
  have halone := horderly.alone
  cases hstep <;> grind

theorem Step.idle (hstep : Step rank meeting next) (horderly : meeting.Orderly rank)
    (server : Proc) (hserver : (next.phase server).Idle) : next.serving server = none := by
  have hidle := horderly.idle
  cases hstep <;> grind

theorem Step.orderly (hstep : Step rank meeting next) (horderly : meeting.Orderly rank) :
    next.Orderly rank where
  ranked := hstep.ranked horderly
  paired := hstep.paired horderly
  woken := hstep.woken horderly
  answering := hstep.answering horderly
  alone := hstep.alone horderly
  idle := hstep.idle horderly

end

/-! ## Who waits for whom -/

/-- The first process cannot go on before the second one acts. -/
def WaitsFor (meeting : Meeting Proc) (proc other : Proc) : Prop :=
  (meeting.phase proc).WaitsFor other

section

variable {rank : Proc → Nat} {meeting : Meeting Proc}

/-- A call or a message goes to a process that does not listen. -/
theorem Orderly.not_listening (horderly : meeting.Orderly rank) {proc server : Proc}
    (hbelow : (meeting.phase proc).Below server) : meeting.phase server ≠ .listening := by
  intro hlistening
  obtain ⟨hcalling, hposting⟩ := horderly.alone server hlistening proc
  have hpartner : meeting.partner proc ≠ some server := by
    intro hpartner
    have hholder := (horderly.paired server proc).mpr hpartner
    rw [holder, hlistening] at hholder
    cases (horderly.idle server (by rw [hlistening]; trivial)).symm.trans hholder
  rcases below_iff.mp hbelow with hphase | hphase | hphase | hphase
  · exact hcalling hphase
  · exact hpartner (by rw [partner, hphase]; rfl)
  · exact hpartner (by rw [partner, hphase]; rfl)
  · exact hposting hphase

theorem WaitsFor.not_free {proc other : Proc} (hwaits : meeting.WaitsFor proc other) :
    ¬ (meeting.phase proc).Free := by
  unfold WaitsFor at hwaits
  generalize meeting.phase proc = phase at *
  cases phase with
  | calling | waiting | posting | answering | listening => exact id
  | running | called | woken | awaiting | resuming => exact hwaits.elim

/-- Whoever is waited for has a lower rank or waits for nobody itself. -/
theorem Orderly.waits_below (horderly : meeting.Orderly rank) {proc other : Proc}
    (hwaits : meeting.WaitsFor proc other) :
    rank other < rank proc ∨ (meeting.phase other).Free := by
  have hranked := horderly.ranked proc other
  have hanswering := horderly.answering proc other
  unfold WaitsFor at hwaits
  generalize meeting.phase proc = phase at *
  cases phase with
  | calling | waiting | posting => exact .inl (hranked hwaits)
  | answering client =>
      right
      rw [hanswering (congrArg Phase.answering hwaits)]
      trivial
  | running | called | listening | woken | awaiting | resuming => exact hwaits.elim

/-- Nobody waits for itself, not even through others. -/
theorem Orderly.acyclic (horderly : meeting.Orderly rank) (proc : Proc) :
    ¬ Relation.TransGen meeting.WaitsFor proc proc := by
  have hbelow : ∀ {other : Proc}, Relation.TransGen meeting.WaitsFor proc other →
      rank other < rank proc ∨ (meeting.phase other).Free := by
    intro other hpath
    induction hpath with
    | single hwaits => exact horderly.waits_below hwaits
    | tail hbefore hwaits ih =>
        have hbetween := ih.resolve_right hwaits.not_free
        exact (horderly.waits_below hwaits).imp_left fun hlast => Nat.lt_trans hlast hbetween
  intro hcycle
  obtain ⟨next, hfirst, -⟩ := Relation.TransGen.head'_iff.mp hcycle
  exact (hbelow hcycle).elim (Nat.lt_irrefl _) hfirst.not_free

/-- Who waits, other than for a message from anybody, waits in the end for a process that
waits for nobody. -/
theorem Orderly.exists_free (horderly : meeting.Orderly rank) (proc : Proc)
    (hproc : meeting.phase proc ≠ .listening) :
    ∃ other, Relation.ReflTransGen meeting.WaitsFor proc other ∧ (meeting.phase other).Free := by
  -- a call or a message leads down, and an answer to a client that is about to take it
  induction hrank : rank proc using Nat.strongRecOn generalizing proc with
  | _ _ ih =>
      have hdown : ∀ server, (meeting.phase proc).Below server → meeting.WaitsFor proc server →
          ∃ other, Relation.ReflTransGen meeting.WaitsFor proc other ∧
            (meeting.phase other).Free := by
        intro server hbelow hwaits
        obtain ⟨other, hpath, hfree⟩ := ih (rank server)
          (hrank ▸ horderly.ranked proc server hbelow) server (horderly.not_listening hbelow) rfl
        exact ⟨other, hpath.head hwaits, hfree⟩
      have hfree : (meeting.phase proc).Free → ∃ other,
          Relation.ReflTransGen meeting.WaitsFor proc other ∧ (meeting.phase other).Free :=
        fun hfree => ⟨proc, .refl, hfree⟩
      cases hphase : meeting.phase proc with
      | running => exact hfree (by rw [hphase]; trivial)
      | calling server =>
          exact hdown server (by rw [hphase]; rfl) (by rw [WaitsFor, hphase]; rfl)
      | called server => exact hfree (by rw [hphase]; trivial)
      | waiting server =>
          exact hdown server (by rw [hphase]; rfl) (by rw [WaitsFor, hphase]; rfl)
      | posting server =>
          exact hdown server (by rw [hphase]; rfl) (by rw [WaitsFor, hphase]; rfl)
      | answering client =>
          refine ⟨client, .single (by rw [WaitsFor, hphase]; rfl), ?_⟩
          rw [horderly.answering proc client hphase]
          trivial
      | listening => exact absurd hphase hproc
      | woken client => exact hfree (by rw [hphase]; trivial)
      | awaiting => exact hfree (by rw [hphase]; trivial)
      | resuming => exact hfree (by rw [hphase]; trivial)

end

end Meeting

end Shmily.Foundation
