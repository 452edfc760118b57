import Shmily.Kernel.Hierarchy

/-! # Nobody waits in a circle

Each event of the processes and of the devices is one step of the abstract meeting, or
none: a call that is taken at once or queued, an answer that finds its client waiting
or not, a main loop that listens or takes a message. So what holds of every meeting
holds of the kernel: whoever is blocked waits, in the end, for a process that can run
or for the disk.
-/

namespace Shmily.Kernel

open Foundation

namespace Hierarchy

variable (h : Hierarchy)

namespace Represents

variable {h} {st next : HierarchyState} {meeting : Meeting Addr} {proc this : Addr} {fuel : Nat}
  {event : HierarchyEvent}

/-! ## Processes -/

/-- After a call the process waits for the answer or is queued. -/
theorem call_step {message : Message} {server : Addr} (hrep : h.Represents st meeting)
    (hadmits : h.Admits st (.call proc this message server))
    (hstep : h.step fuel st (.call proc this message server) = some next) :
    ∃ after, h.Represents next after := by
  have hgood := hrep.kept hadmits hstep
  obtain ⟨sys, hsys, rfl⟩ := Option.map_eq_some_iff.mp hstep
  obtain ⟨⟨hproc, hserver, hrank, howner, hthis, hhonest, htype⟩, hanswers⟩ := hadmits
  obtain ⟨hruns, hentry⟩ := step_entry hhonest hsys
  have hrunning := hrep.user hruns
  have hne : server ≠ proc := fun heq => absurd hrank (heq ▸ Nat.lt_irrefl _)
  have hobject : h.object proc ≠ this := Ne.symm hthis
  have hsource := written_source st.sys proc this message
  have hwritten : ∀ {other : Addr}, other ≠ proc →
      h.SameProcess other st.sys (Service.written st.sys proc this message) :=
    fun hother => written_same (fun _ => hother) howner message
  have haccepts :=
    hrep.accepts_iff (hwritten hne) hproc hserver hrank hsource (by simpa using htype)
  have hsent :=
    sent_sound (hrep.written_sound hruns howner message) hproc hruns howner hsource server
  have hkept := (IpcSystem.doSend_source _ proc this server this).trans hsource
  by_cases hlistening : meeting.phase server = .listening
  · have hloop := (hrep.phase hlistening).keep hrep.sound.held (hwritten hne) fun _ => hserver
    rw [IpcSystem.doSend_of_accepts (by rw [hsource]; exact hproc.2.2) (haccepts.mpr hlistening)]
      at hsent hkept
    obtain ⟨queue, haccounted⟩ := hsent.accounted
    -- the server has just been made ready, so it is queued nowhere
    obtain rfl := call_delivered hsource hproc hserver.1 haccounted
      (haccounted.queues.notMem_of_runnable hserver (by simp) proc) hkept
      (haccepts.mpr hlistening) hentry
    have hwoken := woken_of_listening hloop hsource
    rw [if_pos (by simpa using hanswers)] at hwoken
    refine ⟨_, hrep.advance (.inl (.callListening hrank hrunning hlistening)) hgood ⟨hproc, hserver⟩
      hrep.serving ?_ ?_ ?_ ?_⟩
    · rw [Meeting.set_phase, if_pos rfl]
      exact ⟨by simp, hserver, by simp, by simpa using hthis, by simp⟩
    · rw [Meeting.set_phase, if_neg hne, Meeting.set_phase, if_pos rfl]
      exact hwoken.keep hsent.held (afterWait_same hne howner server) fun _ => hserver
    · intro other hfirst hsecond
      refine ⟨by simp [Meeting.set_phase, hfirst, hsecond], rfl, (hwritten hfirst).trans ?_⟩
      have hheld := hloop.2.2.1 ▸ h.object_owner server
      exact (afterDeliver_same (fun _ => hfirst) hsecond hheld).trans
        (afterWait_same hfirst howner server)
    · rintro other client (rfl | rfl) hserved
      · rw [← hrep.client other client hproc hserved]
        simp [hobject, hloop.2.2.1, hne.symm]
      · cases (hrep.serving_of_idle (by rw [hlistening]; trivial)).symm.trans hserved
  · obtain rfl := call_queued hsource hproc (fun hyes => hlistening (haccepts.mp hyes)) hentry
    refine ⟨_, hrep.advance_one (.inl (.callQueued hrank hrunning hlistening)) hgood hproc
      hrep.serving ?_ ?_ ?_⟩
    · rw [Meeting.set_phase, if_pos rfl]
      refine ⟨by simp [IpcSystem.setCont], by simp [IpcSystem.setCont], hserver, ?_, this, hthis,
        ?_⟩
      · simpa [IpcSystem.setCont] using hanswers
      · simp [IpcSystem.setCont]
    · exact fun other hother => ⟨by simp [Meeting.set_phase, hother], rfl,
        queued_same hother howner message _⟩
    · intro client hserved
      rw [← hrep.client proc client hproc hserved]
      simp [IpcSystem.setCont, hobject]

/-- After a post the process goes on or is queued. -/
theorem post_step {message : Message} {server : Addr} (hrep : h.Represents st meeting)
    (hadmits : h.Admits st (.post proc this message server))
    (hstep : h.step fuel st (.post proc this message server) = some next) :
    ∃ after, h.Represents next after := by
  have hgood := hrep.kept hadmits hstep
  obtain ⟨sys, hsys, rfl⟩ := Option.map_eq_some_iff.mp hstep
  obtain ⟨⟨hproc, hserver, hrank, howner, hthis, hhonest, htype⟩, hanswers⟩ := hadmits
  obtain ⟨hruns, hentry⟩ := step_entry hhonest hsys
  have hrunning := hrep.user hruns
  have hne : server ≠ proc := fun heq => absurd hrank (heq ▸ Nat.lt_irrefl _)
  have hobject : h.object proc ≠ this := Ne.symm hthis
  have hsource := written_source st.sys proc this message
  have hwritten : ∀ {other : Addr}, other ≠ proc →
      h.SameProcess other st.sys (Service.written st.sys proc this message) :=
    fun hother => written_same (fun _ => hother) howner message
  have haccepts :=
    hrep.accepts_iff (hwritten hne) hproc hserver hrank hsource (by simpa using htype)
  by_cases hlistening : meeting.phase server = .listening
  · have hloop := (hrep.phase hlistening).keep hrep.sound.held (hwritten hne) fun _ => hserver
    obtain rfl := send_delivered hsource hproc (haccepts.mpr hlistening) hentry
    have hwoken := woken_of_listening hloop hsource
    rw [if_neg (by simpa using hanswers)] at hwoken
    refine ⟨_, hrep.advance (.inl (.postListening hlistening)) hgood ⟨hproc, hserver⟩ hrep.serving
      ?_ ?_ ?_ ?_⟩
    · rw [Meeting.set_phase, if_neg hne.symm, hrunning]
      exact ⟨by simpa [hne.symm] using hruns.1, by simpa using hruns.2⟩
    · rw [Meeting.set_phase, if_pos rfl]
      exact hwoken
    · intro other hfirst hsecond
      refine ⟨by simp [Meeting.set_phase, hsecond], rfl, (hwritten hfirst).trans ?_⟩
      exact afterDeliver_same (fun _ => hfirst) hsecond (hloop.2.2.1 ▸ h.object_owner server)
    · rintro other client (rfl | rfl) hserved
      · rw [← hrep.client other client hproc hserved]
        simp [hobject, hloop.2.2.1, hne.symm]
      · cases (hrep.serving_of_idle (by rw [hlistening]; trivial)).symm.trans hserved
  · obtain rfl := send_queued hsource hproc (fun hyes => hlistening (haccepts.mp hyes)) hentry
    refine ⟨_, hrep.advance_one (.inl (.postQueued hrank hrunning hlistening)) hgood hproc
      hrep.serving ?_ ?_ ?_⟩
    · rw [Meeting.set_phase, if_pos rfl]
      refine ⟨by simp [IpcSystem.setCont], by simp [IpcSystem.setCont], hserver, ?_, ?_⟩
      · simpa [IpcSystem.setCont] using hanswers
      · simp [IpcSystem.setCont]
    · exact fun other hother => ⟨by simp [Meeting.set_phase, hother], rfl,
        queued_same hother howner message _⟩
    · intro client hserved
      rw [← hrep.client proc client hproc hserved]
      simp [IpcSystem.setCont, hobject]

/-- The main loop takes the first message of its queue. -/
theorem take_step {queue : Addr → List Addr} {sender : Addr} {sys : IpcSystem}
    (hrep : h.Represents st meeting) (hproc : IsProcess proc) (hruns : st.sys.Runs proc .user)
    (hserving : st.serving proc = none) (haccounted : st.sys.Accounted queue)
    (hdisk : sender ≠ interruptPcb) (hmem : sender ∈ queue proc)
    (hafter : sys = (Service.written st.sys proc (h.object proc)
      (st.sys.ipc.msgs (h.object proc))).afterTake proc (h.object proc) sender)
    (hgood : sys.Sound h.owner ∧ ∀ proc, IsProcess proc →
      (sys.ipc.msgs (h.object proc)).source = 0 ∨ (sys.ipc.msgs (h.object proc)).source = proc) :
    ∃ after, h.Represents ⟨sys, h.servingAfter st sys (.receive proc)⟩ after := by
  have hrunning := hrep.user hruns
  have howner := h.object_owner proc
  have hnobody : Function.update st.serving proc none = st.serving := by
    rw [← hserving, Function.update_eq_self]
  have hsender : sender ≠ proc := by
    rintro rfl
    rcases hrep.queued haccounted hdisk hmem with hphase | hphase | hphase <;>
      cases hrunning.symm.trans hphase
  have hsending := ((haccounted.queues.mem_iff proc sender hdisk).mp hmem).1
  have hupper := haccounted.queues.sender_process sender hsending
  obtain ⟨hheld, htype, -⟩ := hrep.sound.held.sending sender hsending
  have hobject : st.sys.ipc.message sender ≠ h.object proc := owned_ne hheld howner hsender
  have hserved : h.servingAfter st sys (.receive proc) = Function.update st.serving proc
      (if h.answers proc (st.sys.passed sender).type then some sender else none) := by
    rw [hafter, servingAfter, if_pos (by simp), obtained]
    simp [hobject, htype]
  subst hafter
  have hkept : ∀ other, other ≠ proc → other ≠ sender → h.SameProcess other st.sys
      ((Service.written st.sys proc (h.object proc) (st.sys.ipc.msgs (h.object proc))).afterTake
        proc (h.object proc) sender) :=
    fun other hfirst hsecond => (written_same (fun _ => hfirst) howner _).trans
      (afterTake_same hfirst howner fun heq => absurd heq hsecond)
  rcases hrep.queued haccounted hdisk hmem with hphase | hphase | hphase
  · obtain ⟨-, -, hserver, hanswers, this, hthis, hcont⟩ := hrep.phase hphase
    rw [if_pos hanswers] at hserved
    refine ⟨_, hrep.advance (.inl (.takeCall hrunning (hrep.serving ▸ hserving) hphase)) hgood
      ⟨hproc, hupper⟩ ?_ ?_ ?_ ?_ ?_⟩
    · rw [hserved, hrep.serving]
      rfl
    · rw [Meeting.serve_phase, Meeting.set_phase, if_neg hsender.symm, hrunning]
      exact ⟨by simpa [hsender.symm] using hruns.1, by simp⟩
    · rw [Meeting.serve_phase, Meeting.set_phase, if_pos rfl]
      exact ⟨by simp [hsending, ProcessStatus.Runnable], hserver, this, hthis,
        by simp [hsender, hcont]⟩
    · intro other hfirst hsecond
      refine ⟨by simp [Meeting.serve_phase, Meeting.set_phase, hsecond], ?_,
        hkept other hfirst hsecond⟩
      exact (congrFun hserved other).trans (Function.update_of_ne hfirst ..)
    · rintro other client (rfl | rfl) hclient
      · have hsame := (congrFun hserved other).symm.trans hclient
        rw [Function.update_self] at hsame
        cases hsame
        simp
      · have hsame := (congrFun hserved other).symm.trans hclient
        rw [Function.update_of_ne hsender] at hsame
        rw [← hrep.client other client hupper hsame]
        simp [hsender]
  · obtain ⟨-, -, -, hanswers, hcont⟩ := hrep.phase hphase
    rw [if_neg (by simp [hanswers]), hnobody] at hserved
    refine ⟨_, hrep.advance (.inl (.takePost hphase)) hgood
      ⟨hproc, hupper⟩ (hserved.trans hrep.serving) ?_ ?_ ?_ ?_⟩
    · rw [Meeting.set_phase, if_neg hsender.symm, hrunning]
      exact ⟨by simpa [hsender.symm] using hruns.1, by simp⟩
    · rw [Meeting.set_phase, if_pos rfl]
      exact ⟨by simp [hsending, ProcessStatus.Runnable], .inl (by simp [hsender, hcont])⟩
    · intro other hfirst hsecond
      exact ⟨by simp [Meeting.set_phase, hsecond], congrFun hserved other,
        hkept other hfirst hsecond⟩
    · rintro other client (rfl | rfl) hclient
      · cases hserving.symm.trans ((congrFun hserved other).symm.trans hclient)
      · rw [← hrep.client other client hupper ((congrFun hserved other).symm.trans hclient)]
        simp [hsender]
  · cases hrunning.symm.trans (hrep.orderly.answering _ proc hphase)

/-- The main loop takes a message, learns of an interrupt or waits. -/
theorem receive_step (hrep : h.Represents st meeting) (hadmits : h.Admits st (.receive proc))
    (hstep : h.step fuel st (.receive proc) = some next) : ∃ after, h.Represents next after := by
  have hgood := hrep.kept hadmits hstep
  obtain ⟨sys, hsys, rfl⟩ := Option.map_eq_some_iff.mp hstep
  obtain ⟨hproc, hserving, hdisk⟩ := hadmits
  obtain ⟨hruns, hentry⟩ := step_entry (hrep.named proc hproc) hsys
  have hrunning := hrep.user hruns
  have howner := h.object_owner proc
  have hnobody : Function.update st.serving proc none = st.serving := by
    rw [← hserving, Function.update_eq_self]
  have hwritten : ∀ {other : Addr}, other ≠ proc → h.SameProcess other st.sys
      (Service.written st.sys proc (h.object proc) (st.sys.ipc.msgs (h.object proc))) :=
    fun hother => written_same (fun _ => hother) howner _
  obtain ⟨queue, haccounted⟩ := hrep.sound.accounted
  rcases receive_any (written_accounted haccounted ..) (written_source ..) hentry with
    ⟨cnt, hafter⟩ | ⟨hafter, hempty⟩ | ⟨hafter, hmem⟩
  · have hserved : h.servingAfter st sys (.receive proc) = st.serving := by
      rw [hafter, servingAfter, if_pos (by simp [IpcSystem.recordReceive]), obtained]
      simpa [IpcSystem.recordReceive, h.intr_unanswered] using hnobody
    subst hafter
    refine ⟨meeting, hrep.advance_one (.inr rfl) hgood hproc (hserved.trans hrep.serving) ?_ ?_ ?_⟩
    · rw [hrunning]
      exact ⟨hruns.1, by simp [IpcSystem.recordReceive]⟩
    · intro other hother
      refine ⟨rfl, congrFun hserved other, (hwritten hother).trans ?_⟩
      refine notified_same hother rfl rfl fun object hobject => ?_
      simp [owned_ne hobject howner hother]
    · intro client hclient
      cases hserving.symm.trans ((congrFun hserved proc).symm.trans hclient)
  · have hserved : h.servingAfter st sys (.receive proc) = st.serving := by
      rw [hafter]
      exact if_neg (by simp)
    subst hafter
    refine ⟨_, hrep.advance_one (.inl (.listen hrunning (hrep.serving ▸ hserving) ?_)) hgood hproc
      (hserved.trans hrep.serving) ?_ ?_ ?_⟩
    · have hnot : ∀ other, ¬ (meeting.phase other = .calling proc ∨
          meeting.phase other = .posting proc ∨ meeting.phase other = .answering proc) := by
        intro other hphase
        have hmem := hrep.mem_queue haccounted hphase
        rw [hempty] at hmem
        cases hmem
      exact fun other => ⟨fun h => hnot other (.inl h), fun h => hnot other (.inr (.inl h))⟩
    · rw [Meeting.set_phase, if_pos rfl]
      exact ⟨by simp, by simp, by simp, by simp⟩
    · intro other hother
      refine ⟨by simp [Meeting.set_phase, hother], congrFun hserved other,
        (hwritten hother).trans (afterWait_same hother howner _)⟩
    · intro client hclient
      cases hserving.symm.trans ((congrFun hserved proc).symm.trans hclient)
  · rw [Service.written_ipc_sendings] at hafter hmem
    exact hrep.take_step hproc hruns hserving haccounted hdisk hmem hafter hgood

/-- Who is served has called and waits for the answer, or is about to. -/
theorem served (hrep : h.Represents st meeting) {client : Addr}
    (hrunning : meeting.phase proc = .running) (hserving : st.serving proc = some client) :
    meeting.phase client = .called proc ∨ meeting.phase client = .waiting proc := by
  have hholder : meeting.holder proc = some client := by
    rw [Meeting.holder, hrunning, ← hrep.serving]
    exact hserving
  have hpartner := (hrep.orderly.paired proc client).mp hholder
  rw [Meeting.partner] at hpartner
  generalize meeting.phase client = phase at hpartner
  cases phase with
  | called | waiting =>
      cases hpartner
      simp
  | running | calling | posting | answering | listening | woken | awaiting | resuming =>
      cases hpartner

/-- The answer reaches a client that waits for it, and is queued at one that does not yet. -/
theorem reply_step {context : Context} (hrep : h.Represents st meeting)
    (hadmits : h.Admits st (.reply proc context))
    (hstep : h.step fuel st (.reply proc context) = some next) :
    ∃ after, h.Represents next after := by
  have hgood := hrep.kept hadmits hstep
  obtain ⟨sys, hsys, rfl⟩ := Option.map_eq_some_iff.mp hstep
  obtain ⟨hproc, hserving⟩ := hadmits
  obtain ⟨client, hserving⟩ := Option.ne_none_iff_exists'.mp hserving
  have hhonest : (h.replyMessage st.sys proc context).source = 0 ∨
      (h.replyMessage st.sys proc context).source = proc := hrep.named proc hproc
  obtain ⟨hruns, hentry⟩ := step_entry hhonest hsys
  have hrunning := hrep.user hruns
  have howner := h.object_owner proc
  have hsource := written_source st.sys proc (h.object proc) (h.replyMessage st.sys proc context)
  have hwritten : ∀ {other : Addr}, other ≠ proc → h.SameProcess other st.sys
      (Service.written st.sys proc (h.object proc) (h.replyMessage st.sys proc context)) :=
    fun hother => written_same (fun _ => hother) howner _
  have hphase := hrep.served hrunning hserving
  have hne : client ≠ proc := by
    rintro rfl
    rcases hphase with hphase | hphase <;> cases hrunning.symm.trans hphase
  have hclient : IsProcess client := by
    apply hrep.isProcess
    rcases hphase with hphase | hphase <;> simp [hphase]
  rw [hrep.client proc client hproc hserving] at hentry
  have hserved : h.servingAfter st sys (.reply proc context) =
      Function.update meeting.serving proc none := by
    rw [← hrep.serving]
    rfl
  have hothers : ∀ other, other ≠ proc →
      h.servingAfter st sys (.reply proc context) other = st.serving other :=
    fun other hother => Function.update_of_ne hother ..
  rcases hphase with hphase | hphase
  · obtain ⟨hrunnable, -, this, hthis, hcont⟩ := hrep.phase hphase
    obtain rfl := send_queued hsource hproc
      (fun haccepts => hrunnable.ne_waiting haccepts.waiting) hentry
    refine ⟨_, hrep.advance_one (.inl (.answerQueued hrunning (hrep.serving ▸ hserving) hphase))
      hgood hproc hserved ?_ ?_ ?_⟩
    · rw [Meeting.serve_phase, Meeting.set_phase, if_pos rfl]
      exact ⟨by simp [IpcSystem.setCont], by simp [IpcSystem.setCont], by simp [IpcSystem.setCont]⟩
    · exact fun other hother => ⟨by simp [Meeting.serve_phase, Meeting.set_phase, hother],
        hothers other hother, queued_same hother howner _ _⟩
    · intro other hother
      cases (Function.update_self ..).symm.trans hother
  · obtain ⟨hwaiting, -, hcont, hobject, -⟩ := hrep.phase hphase
    have hheld := hrep.sound.held.waiting client hwaiting
    obtain rfl := send_delivered hsource hproc (.inr ⟨hwaiting, by simp [replyMessage]⟩) hentry
    refine ⟨_, hrep.advance
      (.inl (.answerWaiting hrunning (hrep.serving ▸ hserving) hphase)) hgood ⟨hproc, hclient⟩
      hserved ?_ ?_ ?_ ?_⟩
    · rw [Meeting.serve_phase, Meeting.set_phase, if_neg hne.symm, hrunning]
      exact ⟨by simpa [hne.symm] using hruns.1, by simpa using hruns.2⟩
    · rw [Meeting.serve_phase, Meeting.set_phase, if_pos rfl]
      exact ⟨by simp [ProcessStatus.Runnable], .inr ⟨_, hobject, by simpa using hcont⟩⟩
    · intro other hfirst hsecond
      exact ⟨by simp [Meeting.serve_phase, Meeting.set_phase, hsecond], hothers other hfirst,
        (hwritten hfirst).trans (afterDeliver_same (fun _ => hfirst) hsecond hheld)⟩
    · rintro other other' (rfl | rfl) hother
      · cases (Function.update_self ..).symm.trans hother
      · rw [← hrep.client other other' hclient ((hothers other hne).symm.trans hother)]
        simp [hne, hobject.symm]

/-- The driver takes the interrupt or waits for it. -/
theorem await_step {message : Message} (hrep : h.Represents st meeting)
    (hadmits : h.Admits st (.await this message))
    (hstep : h.step fuel st (.await this message) = some next) :
    ∃ after, h.Represents next after := by
  have hgood := hrep.kept hadmits hstep
  obtain ⟨sys, hsys, rfl⟩ := Option.map_eq_some_iff.mp hstep
  obtain ⟨howner, hthis, hhonest, hfirst⟩ := hadmits
  obtain ⟨hruns, hentry⟩ := step_entry hhonest hsys
  have hrunning := hrep.user hruns
  have hproc := h.driver_process
  have hobject : h.object h.driver ≠ this := Ne.symm hthis
  have hsource := written_source st.sys h.driver this message
  have hwritten : ∀ {other : Addr}, other ≠ h.driver →
      h.SameProcess other st.sys (Service.written st.sys h.driver this message) :=
    fun hother => written_same (fun _ => hother) howner message
  obtain ⟨queue, haccounted⟩ := hrep.sound.accounted
  by_cases hmem : interruptPcb ∈ queue h.driver
  · have hpending : DiskPending st.sys := by
      rw [DiskPending, haccounted.pending interruptPcb h.driver hmem]
      omega
    have hsilent : st.sys.ipc.status interruptPcb ≠ .sendingMsg := fun hsending =>
      (haccounted.queues.sender_process interruptPcb hsending).2.1 rfl
    obtain rfl := receive_takes hsource (by decide) (hfirst hpending) hentry
    refine ⟨meeting, hrep.advance_one (.inr rfl) hgood hproc hrep.serving ?_ ?_ ?_⟩
    · rw [hrunning]
      refine ⟨?_, by simp⟩
      rw [IpcSystem.afterTake_ipc_status, if_neg fun hboth => hproc.2.1 hboth.1]
      exact hruns.1
    · exact fun other hother => ⟨rfl, rfl, (hwritten hother).trans
        (afterTake_same hother howner fun _ => hsilent)⟩
    · intro client hserved
      rw [← hrep.client h.driver client hproc hserved]
      simp [hobject]
  · obtain rfl := receive_waits (written_accounted haccounted ..) hsource (by decide) hmem hentry
    refine ⟨_, hrep.advance_one (.inl (.awaitDevice hrunning)) hgood hproc hrep.serving ?_ ?_ ?_⟩
    · rw [Meeting.set_phase, if_pos rfl]
      exact ⟨rfl, by simp, by simp, by simpa using hthis, by simp⟩
    · exact fun other hother => ⟨by simp [Meeting.set_phase, hother], rfl,
        (hwritten hother).trans (afterWait_same hother howner _)⟩
    · intro client hserved
      rw [← hrep.client h.driver client hproc hserved]
      simp [hobject]

/-- A process that returns from what it was blocked in. -/
theorem resumes (hrep : h.Represents st meeting) (hrunnable : (st.sys.ipc.status proc).Runnable)
    (hcont : st.sys.cont proc = .sending ∨ ∃ this, st.sys.cont proc = .receiving this) :
    (meeting.phase proc = .resuming ∧ st.sys.cont proc ≠ .receiving (h.object proc)) ∨
      (∃ client, meeting.phase proc = .woken client ∧ h.obtained st.sys proc = client ∧
        st.sys.cont proc = .receiving (h.object proc)) := by
  have his := hrep.phases proc
  cases hphase : meeting.phase proc with
  | running =>
      rw [hphase] at his
      rcases hcont with hcont | ⟨this, hcont⟩ <;> cases his.2.symm.trans hcont
  | calling | posting | answering =>
      rw [hphase] at his
      exact absurd his.1 hrunnable.ne_sending
  | waiting | listening =>
      rw [hphase] at his
      exact absurd his.1 hrunnable.ne_waiting
  | awaiting =>
      rw [hphase] at his
      exact absurd his.2.1 hrunnable.ne_waiting
  | called =>
      rw [hphase] at his
      obtain ⟨-, -, object, -, hother⟩ := his
      rcases hcont with hcont | ⟨this, hcont⟩ <;> cases hother.symm.trans hcont
  | woken client =>
      rw [hphase] at his
      exact .inr ⟨client, rfl, his.2.2, his.2.1⟩
  | resuming =>
      rw [hphase] at his
      refine .inl ⟨rfl, fun hobject => ?_⟩
      obtain ⟨-, hother | ⟨object, hne, hother⟩⟩ := his
      · cases hother.symm.trans hobject
      · cases hother.symm.trans hobject
        exact hne rfl

/-- A caller goes on and takes the answer, or waits for it. -/
theorem collect_step {server : Addr} (hrep : h.Represents st meeting)
    (hadmits : h.Admits st (.resume proc)) (hrunnable : (st.sys.ipc.status proc).Runnable)
    (hcont : st.sys.cont proc = .sendingRecv this server)
    (hreceive : st.sys.doReceive fuel proc this server (st.sys.queueHead this) = some next.sys)
    (hserving : next.serving = st.serving)
    (hgood : next.sys.Sound h.owner ∧
      ∀ proc, IsProcess proc → (next.sys.ipc.msgs (h.object proc)).source = 0 ∨
        (next.sys.ipc.msgs (h.object proc)).source = proc) :
    ∃ after, h.Represents next after := by
  obtain ⟨hcalled, hthis⟩ := hrep.sendingRecv hrunnable hcont
  have hserver := (hrep.phase hcalled).2.1
  obtain ⟨hproc, howner, hsource⟩ := hrep.sound.entered proc this (by rw [hcont]; rfl)
  have hobject : h.object proc ≠ this := Ne.symm hthis
  have hrank := hrep.orderly.ranked proc server (by rw [hcalled]; rfl)
  have hne : server ≠ proc := fun heq => absurd hrank (heq ▸ Nat.lt_irrefl _)
  obtain ⟨queue, haccounted⟩ := hrep.sound.accounted
  obtain ⟨sys, serving⟩ := next
  dsimp only at hreceive hserving hgood
  subst hserving
  by_cases hanswer : meeting.phase server = .answering proc
  · obtain ⟨hsending, htarget, hreply⟩ := hrep.phase hanswer
    change GoesOn st.sys proc (st.sys.cont proc) at hadmits
    rw [hcont] at hadmits
    obtain rfl := receive_takes hsource hserver.1 (hadmits hsending htarget) hreceive
    refine ⟨_, hrep.advance (.inl (.collect hcalled hanswer)) hgood ⟨hproc, hserver⟩ hrep.serving
      ?_ ?_ ?_ ?_⟩
    · rw [Meeting.set_phase, if_pos rfl]
      exact ⟨by simpa [hne.symm] using hrunnable, by simp⟩
    · rw [Meeting.set_phase, if_neg hne, Meeting.set_phase, if_pos rfl]
      exact ⟨by simp [hsending, ProcessStatus.Runnable], .inl (by simp [hne, hreply])⟩
    · exact fun other hfirst hsecond => ⟨by simp [Meeting.set_phase, hfirst, hsecond], rfl,
        afterTake_same hfirst howner fun heq => absurd heq hsecond⟩
    · rintro other client (rfl | rfl) hserved
      · rw [← hrep.client other client hproc hserved]
        simp [hobject]
      · cases (hrep.serving_of_idle (by rw [hanswer]; trivial)).symm.trans hserved
  · obtain rfl := receive_waits haccounted hsource hserver.1
      (hrep.server_notMem haccounted hserver hrank hanswer) hreceive
    refine ⟨_, hrep.advance_one (.inl (.wait hcalled hanswer)) hgood hproc hrep.serving ?_ ?_ ?_⟩
    · rw [Meeting.set_phase, if_pos rfl]
      exact ⟨by simp, hserver, by simp, by simpa using hthis, by simp⟩
    · exact fun other hother => ⟨by simp [Meeting.set_phase, hother], rfl,
        afterWait_same hother howner _⟩
    · intro client hserved
      rw [← hrep.client proc client hproc hserved]
      simp [hobject]

/-- A process returns to its own code and has taken no request. -/
theorem back_step (hrep : h.Represents st meeting) (hphase : meeting.phase proc = .resuming)
    (hrunnable : (st.sys.ipc.status proc).Runnable) (hserved : next.serving = st.serving)
    (hipc : next.sys.ipc = st.sys.ipc) (hcont : next.sys.cont proc = .user)
    (hsame : ∀ other, other ≠ proc → h.SameProcess other st.sys next.sys)
    (hgood : next.sys.Sound h.owner ∧
      ∀ proc, IsProcess proc → (next.sys.ipc.msgs (h.object proc)).source = 0 ∨
        (next.sys.ipc.msgs (h.object proc)).source = proc) :
    ∃ after, h.Represents next after := by
  have hproc := hrep.isProcess (show meeting.phase proc ≠ .running by simp [hphase])
  refine ⟨_, hrep.advance_one (.inl (.resume hphase)) hgood hproc (hserved.trans hrep.serving)
    ?_ ?_ ?_⟩
  · rw [Meeting.set_phase, if_pos rfl]
    exact ⟨hipc ▸ hrunnable, hcont⟩
  · exact fun other hother => ⟨by simp [Meeting.set_phase, hother], congrFun hserved other,
      hsame other hother⟩
  · intro client hclient
    rw [hipc]
    exact hrep.client proc client hproc ((congrFun hserved proc).symm.trans hclient)

/-- A process that was blocked continues. -/
theorem resume_step (hrep : h.Represents st meeting) (hadmits : h.Admits st (.resume proc))
    (hstep : h.step fuel st (.resume proc) = some next) : ∃ after, h.Represents next after := by
  have hgood := hrep.kept hadmits hstep
  obtain ⟨sys, hsys, rfl⟩ := Option.map_eq_some_iff.mp hstep
  have hresume : st.sys.step fuel (.resume proc) = some sys := hsys
  cases IpcSystem.step_cases hresume with
  | sent hrunnable hcont =>
      rcases hrep.resumes hrunnable (.inl hcont) with ⟨hphase, hobject⟩ | ⟨client, -, -, hobject⟩
      swap
      · cases hcont.symm.trans hobject
      exact hrep.back_step hphase hrunnable (if_neg hobject) rfl (by simp [IpcSystem.setCont])
        (fun other hother => setCont_same hother _) hgood
  | @sentFirst _ this server _ hrunnable hcont hreceive =>
      apply hrep.collect_step hadmits hrunnable hcont hreceive _ hgood
      exact if_neg (by simp [hcont])
  | @received _ this hrunnable hcont =>
      change (Service.afterReturn st.sys proc this).Sound h.owner ∧ _ at hgood
      change ∃ after, h.Represents ⟨Service.afterReturn st.sys proc this,
        h.servingAfter st (Service.afterReturn st.sys proc this) (.resume proc)⟩ after
      rcases hrep.resumes hrunnable (.inr ⟨this, hcont⟩) with ⟨hphase, hobject⟩ |
        ⟨client, hphase, hobtained, hobject⟩
      · exact hrep.back_step hphase hrunnable (if_neg hobject) rfl (by simp)
          (fun other hother => afterReturn_same hother) hgood
      · have hserved : h.servingAfter st (Service.afterReturn st.sys proc this) (.resume proc) =
            Function.update st.serving proc client := by
          rw [servingAfter, if_pos hobject, ← hobtained]
          rfl
        have hproc := hrep.isProcess (show meeting.phase proc ≠ .running by simp [hphase])
        refine ⟨_, hrep.advance_one (.inl (.receive hphase)) hgood hproc ?_ ?_ ?_ ?_⟩
        · rw [hserved, hrep.serving]
          rfl
        · rw [Meeting.serve_phase, Meeting.set_phase, if_pos rfl]
          exact ⟨hrunnable, by simp⟩
        · intro other hother
          refine ⟨by simp [Meeting.serve_phase, Meeting.set_phase, hother], ?_,
            afterReturn_same hother⟩
          exact (congrFun hserved other).trans (Function.update_of_ne hother ..)
        · intro other hother
          have hsame := (congrFun hserved proc).symm.trans hother
          rw [Function.update_self, ← hobtained, obtained] at hsame
          split at hsame
          next => exact Option.some.inj hsame
          next => cases hsame

/-! ## Devices -/

/-- An interrupt handler fills in an object of its PCB. -/
theorem written_eq {sys : IpcSystem} {message : Message} (hsource : message.source = proc) :
    ({ sys with ipc := sys.ipc.setMessage this message } : IpcSystem) =
      Service.written sys proc this message := by
  subst hsource
  rfl

/-- The interrupt of the disk reaches the driver that waits for it, or is queued. -/
theorem disk_step {message : Message} (hrep : h.Represents st meeting)
    (hadmits : h.Admits st (.disk this message))
    (hstep : h.step fuel st (.disk this message) = some next) :
    ∃ after, h.Represents next after := by
  have hgood := hrep.kept hadmits hstep
  obtain ⟨sys, hsys, rfl⟩ := Option.map_eq_some_iff.mp hstep
  obtain ⟨howner, hsource, htype, hserving, -⟩ := hadmits
  have hintr : ∀ {other : Addr}, IsProcess other → other ≠ interruptPcb := And.left ∘ And.right
  have hdriver := h.driver_process
  have hobject : h.object h.driver ≠ this := by
    rintro rfl
    exact hintr hdriver ((h.object_owner h.driver).symm.trans howner)
  have hwritten : ∀ other,
      h.SameProcess other st.sys (Service.written st.sys interruptPcb this message) :=
    fun other => written_same hintr howner message
  have hsent : ((Service.written st.sys interruptPcb this message).doSend interruptPcb this
      h.driver).1 = sys := by
    have hsent := Option.some.inj hsys
    rwa [written_eq hsource, hsource] at hsent
  have hthis := written_source st.sys interruptPcb this message
  by_cases haccepts : (Service.written st.sys interruptPcb this message).ipc.Accepts h.driver
      ((Service.written st.sys interruptPcb this message).ipc.msgs this)
  · have hwaiting : st.sys.ipc.status h.driver = .waitingMsg := haccepts.waiting
    have hheld := hrep.sound.held.waiting h.driver hwaiting
    have hphase : meeting.phase h.driver = .awaiting := by
      have hwanted := haccepts.elim And.right fun hreply => absurd hreply.2 (by simpa using htype)
      rw [hthis, (hwritten h.driver).message,
        (hwritten h.driver).objects hdriver _ hheld] at hwanted
      rcases hrep.waiting hwaiting with hphase | hphase | ⟨hphase, -⟩
      · exact absurd (hrep.serving_of_idle (by rw [hphase]; trivial)) hserving
      · have hserver := (hrep.phase hphase).2.1
        rcases hwanted with hany | hdisk
        · exact absurd hany hserver.1
        · exact absurd hdisk.symm hserver.2.1
      · exact hphase
    obtain ⟨-, -, hcont, hown, -⟩ := hrep.phase hphase
    rw [IpcSystem.doSend_of_accepts (by rw [hthis]; decide) haccepts] at hsent
    subst hsent
    refine ⟨_, hrep.advance_one (.inl (.device hphase)) hgood hdriver hrep.serving ?_ ?_ ?_⟩
    · rw [Meeting.set_phase, if_pos rfl]
      exact ⟨by simp [ProcessStatus.Runnable], .inr ⟨_, hown, by simpa using hcont⟩⟩
    · exact fun other hother => ⟨by simp [Meeting.set_phase, hother], rfl,
        (hwritten other).trans (afterDeliver_same hintr hother hheld)⟩
    · intro client hserved
      rw [← hrep.client h.driver client hdriver hserved]
      simp [hobject, hown.symm]
  · rcases (Service.written st.sys interruptPcb this message).ipc.send_cases interruptPcb this
      h.driver with ⟨hnet, -⟩ | ⟨hnet, -⟩ | ⟨-, hyes, -⟩ | ⟨-, -, heq⟩ | ⟨-, hdisk, -⟩
    · exact absurd (hthis.symm.trans hnet) (by decide)
    · exact absurd (hthis.symm.trans hnet) (by decide)
    · exact absurd hyes haccepts
    · rw [IpcSystem.doSend, heq] at hsent
      subst hsent
      refine ⟨meeting, hrep.unchanged hgood rfl fun other => (hwritten other).trans ?_⟩
      exact recordSend_same hintr rfl rfl fun _ _ => rfl
    · exact absurd hthis hdisk

/-- The interrupt of the network wakes a main loop, or is counted. -/
theorem network_step {message : Message} {dest : Addr} (hrep : h.Represents st meeting)
    (hadmits : h.Admits st (.network this message dest))
    (hstep : h.step fuel st (.network this message dest) = some next) :
    ∃ after, h.Represents next after := by
  have hgood := hrep.kept hadmits hstep
  obtain ⟨sys, hsys, rfl⟩ := Option.map_eq_some_iff.mp hstep
  obtain ⟨howner, hsource, hdest⟩ := hadmits
  have hintr : ∀ {other : Addr}, IsProcess other → other ≠ interruptNetPcb := And.right ∘ And.right
  have hobject : h.object dest ≠ this := by
    rintro rfl
    exact hintr hdest ((h.object_owner dest).symm.trans howner)
  have hwritten : ∀ other,
      h.SameProcess other st.sys (Service.written st.sys interruptNetPcb this message) :=
    fun other => written_same hintr howner message
  have hsent : ((Service.written st.sys interruptNetPcb this message).doSend interruptNetPcb this
      dest).1 = sys := by
    have hsent := Option.some.inj hsys
    rwa [written_eq hsource, hsource] at hsent
  have hthis := written_source st.sys interruptNetPcb this message
  rcases (Service.written st.sys interruptNetPcb this message).ipc.send_cases interruptNetPcb this
    dest with ⟨-, -, heq⟩ | ⟨-, hwaits, heq⟩ | ⟨hnet, -⟩ | ⟨hdisk, -⟩ | ⟨hnet, -⟩
  · rw [IpcSystem.doSend, heq] at hsent
    subst hsent
    refine ⟨meeting, hrep.unchanged hgood rfl fun other => (hwritten other).trans ?_⟩
    exact recordSend_same hintr rfl rfl fun _ _ => rfl
  · have hheld := hrep.sound.held.waiting dest hwaits.1
    have hphase : meeting.phase dest = .listening := by
      have hany := hwaits.2
      rw [(hwritten dest).message, (hwritten dest).objects hdest _ hheld] at hany
      rcases hrep.waiting hwaits.1 with hphase | hphase | ⟨-, hdisk⟩
      · exact hphase
      · exact absurd hany (hrep.phase hphase).2.1.1
      · exact absurd (hdisk.symm.trans hany) (by decide)
    obtain ⟨-, hcont, hmessage, -⟩ := hrep.phase hphase
    rw [IpcSystem.doSend, heq] at hsent
    subst hsent
    refine ⟨_, hrep.advance_one (.inl (.postListening hphase)) hgood hdest hrep.serving ?_ ?_ ?_⟩
    · rw [Meeting.set_phase, if_pos rfl]
      refine ⟨by simp [IpcSystem.recordSend, Ipc.notify, ProcessStatus.Runnable], hcont, ?_⟩
      simp [IpcSystem.recordSend, Ipc.notify, obtained, hmessage, h.intr_unanswered]
    · intro other hother
      refine ⟨by simp [Meeting.set_phase, hother], rfl, (hwritten other).trans ?_⟩
      refine recordSend_same hintr (by simp [Ipc.notify, hother]) rfl fun object howned => ?_
      have hne := owned_ne howned hheld hother
      simp [Ipc.notify, hne]
    · intro client hserved
      cases (hrep.serving_of_idle (by rw [hphase]; trivial)).symm.trans hserved
  · exact absurd hthis hnet
  · exact absurd (hthis.symm.trans hdisk) (by decide)
  · exact absurd hthis hnet

/-- Every event is a step of the meeting, or none. -/
theorem step (hrep : h.Represents st meeting) (hadmits : h.Admits st event)
    (hstep : h.step fuel st event = some next) : ∃ after, h.Represents next after := by
  cases event with
  | call proc this message server => exact hrep.call_step hadmits hstep
  | post proc this message server => exact hrep.post_step hadmits hstep
  | receive proc => exact hrep.receive_step hadmits hstep
  | reply proc context => exact hrep.reply_step hadmits hstep
  | await this message => exact hrep.await_step hadmits hstep
  | resume proc => exact hrep.resume_step hadmits hstep
  | disk this message => exact hrep.disk_step hadmits hstep
  | network this message dest => exact hrep.network_step hadmits hstep

end Represents

/-! ## Nobody waits in a circle -/

/-- In the beginning every process runs. -/
theorem initial_represents : h.Represents initial ⟨fun _ => .running, fun _ => none⟩ where
  sound := IpcSystem.initial_sound h.owner
  named _ _ := .inl rfl
  phases _ := ⟨.inl rfl, rfl⟩
  others _ _ := rfl
  serving := rfl
  client _ _ _ hserved := by cases hserved
  orderly := by
    constructor
    case ranked => exact fun _ _ hbelow => hbelow.elim
    case paired => exact fun _ _ => ⟨fun hpair => (by cases hpair), fun hpair => (by cases hpair)⟩
    case alone => exact fun _ hphase => (by cases hphase)
    case idle => exact fun _ _ => rfl
    all_goals exact fun _ _ hphase => (by cases hphase)

/-- The first process is blocked in a send to the second one or waits for its message. -/
def WaitsFor (sys : IpcSystem) (proc other : Addr) : Prop :=
  (sys.ipc.status proc = .sendingMsg ∧ sys.target proc = other) ∨
    (sys.ipc.status proc = .waitingMsg ∧
      (sys.ipc.msgs (sys.ipc.message proc)).destination = other)

/-- The driver waits for the interrupt of the disk. -/
def AwaitsDisk (sys : IpcSystem) (proc : Addr) : Prop :=
  proc = h.driver ∧ WaitsFor sys proc interruptPcb

section

variable {h} {st : HierarchyState} {meeting : Meeting Addr} {proc other : Addr}

/-- Who waits in the meeting waits in the system. -/
theorem Represents.waitsFor (hrep : h.Represents st meeting)
    (hwaits : meeting.WaitsFor proc other) : WaitsFor st.sys proc other := by
  have his := hrep.phases proc
  rw [Meeting.WaitsFor] at hwaits
  generalize meeting.phase proc = phase at his hwaits
  cases phase with
  | calling | posting | answering =>
      cases hwaits
      exact .inl ⟨his.1, his.2.1⟩
  | waiting =>
      cases hwaits
      exact .inr ⟨his.1, his.2.2.2.2⟩
  | running | called | listening | woken | awaiting | resuming => exact hwaits.elim

/-- Who waits for a process in the system waits for it in the meeting. -/
theorem Represents.of_waitsFor (hrep : h.Represents st meeting)
    (hwaits : WaitsFor st.sys proc other) :
    IsProcess proc ∧ (meeting.WaitsFor proc other ∨ ¬ IsProcess other) := by
  rcases hwaits with ⟨hsending, rfl⟩ | ⟨hwaiting, rfl⟩
  · have hphase := hrep.sending hsending
    refine ⟨hrep.isProcess ?_, .inl ?_⟩
    · rcases hphase with hphase | hphase | hphase <;> simp [hphase]
    · rw [Meeting.WaitsFor]
      rcases hphase with hphase | hphase | hphase <;> rw [hphase] <;> rfl
  · rcases hrep.waiting hwaiting with hphase | hphase | ⟨hphase, hdisk⟩
    · obtain ⟨-, -, hmessage, hany⟩ := hrep.phase hphase
      refine ⟨hrep.isProcess (by simp [hphase]), .inr fun hproc => hproc.1 ?_⟩
      rw [hmessage, hany]
    · refine ⟨hrep.isProcess (by simp [hphase]), .inl ?_⟩
      rw [Meeting.WaitsFor, hphase]
      rfl
    · exact ⟨hrep.isProcess (by simp [hphase]), .inr fun hproc => hproc.2.1 hdisk⟩

/-- Who is waited for in the meeting is a process. -/
theorem Represents.waited_isProcess (hrep : h.Represents st meeting)
    (hwaits : meeting.WaitsFor proc other) : IsProcess other := by
  have his := hrep.phases proc
  rw [Meeting.WaitsFor] at hwaits
  cases hphase : meeting.phase proc with
  | calling server =>
      rw [hphase] at his hwaits
      obtain rfl : server = other := hwaits
      exact his.2.2.1
  | waiting server =>
      rw [hphase] at his hwaits
      obtain rfl : server = other := hwaits
      exact his.2.1
  | posting server =>
      rw [hphase] at his hwaits
      obtain rfl : server = other := hwaits
      exact his.2.2.1
  | answering client =>
      rw [hphase] at hwaits
      obtain rfl : client = other := hwaits
      exact hrep.isProcess (by simp [hrep.orderly.answering proc client hphase])
  | running | called | listening | woken | awaiting | resuming =>
      rw [hphase] at hwaits
      exact hwaits.elim

theorem Represents.path_isProcess (hrep : h.Represents st meeting) (hproc : IsProcess proc)
    (hpath : Relation.ReflTransGen meeting.WaitsFor proc other) : IsProcess other := by
  cases hpath with
  | refl => exact hproc
  | tail _ hwaits => exact hrep.waited_isProcess hwaits

theorem Represents.free (hrep : h.Represents st meeting) (hfree : (meeting.phase proc).Free) :
    (st.sys.ipc.status proc).Runnable ∨ h.AwaitsDisk st.sys proc := by
  have his := hrep.phases proc
  generalize meeting.phase proc = phase at his hfree
  cases phase with
  | running | called | woken | resuming => exact .inl his.1
  | awaiting => exact .inr ⟨his.1, .inr ⟨his.2.1, his.2.2.2.2⟩⟩
  | calling | waiting | posting | answering | listening => exact hfree.elim

theorem Represents.acyclic (hrep : h.Represents st meeting) (proc : Addr) :
    ¬ Relation.TransGen (WaitsFor st.sys) proc proc := by
  have hpath : ∀ {other : Addr}, Relation.TransGen (WaitsFor st.sys) proc other →
      Relation.TransGen meeting.WaitsFor proc other ∨ ¬ IsProcess other := by
    intro other hpath
    induction hpath with
    | single hwaits => exact (hrep.of_waitsFor hwaits).2.imp_left .single
    | tail hbefore hwaits ih =>
        obtain ⟨hproc, hlast⟩ := hrep.of_waitsFor hwaits
        exact hlast.imp_left (ih.resolve_right (not_not.mpr hproc)).tail
  intro hcycle
  obtain ⟨next, hfirst, -⟩ := Relation.TransGen.head'_iff.mp hcycle
  rcases hpath hcycle with hmeeting | hnot
  · exact hrep.orderly.acyclic proc hmeeting
  · exact hnot (hrep.of_waitsFor hfirst).1

end

/-- In every reachable state of every interleaving of processes and interrupts, nobody
waits for itself, not even through others; and every process besides those whose main
loops wait for anybody can run, or waits, perhaps through others, for a process that
can run or for the disk. -/
theorem blocked_wait_for_runnable (h : Hierarchy) (fuel : Nat) (events : List HierarchyEvent)
    (st : HierarchyState) (hrun : Run (h.step fuel) h.Admits initial events st) :
    (∀ proc, ¬ Relation.TransGen (WaitsFor st.sys) proc proc) ∧
      ∀ proc, IsProcess proc → ¬ st.sys.ipc.WaitsForAny proc →
        ∃ other, IsProcess other ∧ Relation.ReflTransGen (WaitsFor st.sys) proc other ∧
          ((st.sys.ipc.status other).Runnable ∨ h.AwaitsDisk st.sys other) := by
  have hrepresents : ∃ meeting, h.Represents st meeting := by
    apply hrun.invariant (fun st => ∃ meeting, h.Represents st meeting)
    · exact ⟨_, initial_represents h⟩
    · intro before event after hbefore hadmits hstep
      obtain ⟨meeting, hrep⟩ := hbefore
      exact hrep.step hadmits hstep
  obtain ⟨meeting, hrep⟩ := hrepresents
  refine ⟨hrep.acyclic, fun proc hproc hbusy => ?_⟩
  have hphase : meeting.phase proc ≠ .listening := by
    intro hphase
    obtain ⟨hwaiting, -, hmessage, hany⟩ := hrep.phase hphase
    exact hbusy ⟨hwaiting, hmessage ▸ hany⟩
  obtain ⟨other, hpath, hfree⟩ := hrep.orderly.exists_free proc hphase
  exact ⟨other, hrep.path_isProcess hproc hpath,
    Relation.ReflTransGen.mono (fun _ _ => hrep.waitsFor) _ _ hpath, hrep.free hfree⟩

/-- The processes of the system: the memory manager, the driver, the file system and the
network, and above them the terminal and the processes that are created later. -/
def system : Hierarchy where
  rank proc := match proc with
    | 0x91000 => 0
    | 0x94000 => 1
    | 0x92000 | 0x95000 => 2
    | _ => 3
  object proc := 2 * proc
  owner object := object / 2
  answers server type := match server with
    | 0x91000 => decide (type ∈ [1, 2, 256])
    | 0x94000 => decide (type ∈ [3, 4, 5, 6, 7, 8, 9, 10])
    | 0x92000 => decide (type ∈ [1, 2, 3, 4, 5, 6, 7, 8, 9, 10, 11, 256, 257, 258, 259, 260, 261,
        262, 263])
    | 0x95000 => decide (type ∈ [2, 3, 4, 5, 6, 7, 9, 10])
    | _ => false
  driver := 0x94000
  driver_process := by decide
  object_owner proc := Nat.mul_div_cancel_left proc (by decide)
  intr_unanswered proc := by
    split <;> rfl

/-- The terminal waits for the file system, which waits for the driver, which waits for
the disk. -/
theorem blocked_wait_for_runnable_disk :
    ∃ st, Run (system.step 0) system.Admits initial
        [.receive 0x92000, .receive 0x94000, .call 0x96000 0x12c001 ⟨0, 0, 1, default⟩ 0x92000,
          .resume 0x92000, .call 0x92000 0x124001 ⟨0, 0, 3, default⟩ 0x94000, .resume 0x94000,
          .await 0x128001 default] st ∧
      (st.sys.ipc.status 0x96000 = .waitingMsg ∧ ¬ st.sys.ipc.WaitsForAny 0x96000) ∧
      ∃ other, IsProcess other ∧ Relation.ReflTransGen (WaitsFor st.sys) 0x96000 other ∧
        ((st.sys.ipc.status other).Runnable ∨ system.AwaitsDisk st.sys other) := by
  have hrun := Run.of_exec (system.step 0) system.Admits initial
    [.receive 0x92000, .receive 0x94000, .call 0x96000 0x12c001 ⟨0, 0, 1, default⟩ 0x92000,
      .resume 0x92000, .call 0x92000 0x124001 ⟨0, 0, 3, default⟩ 0x94000, .resume 0x94000,
      .await 0x128001 default] rfl
  exact ⟨_, hrun, ⟨rfl, by decide⟩, (blocked_wait_for_runnable _ _ _ _ hrun).2 _ (by decide) (by decide)⟩

/-- The same without the condition that an answer that is queued is the first. -/
def AdmitsAnyOrder (st : HierarchyState) : HierarchyEvent → Prop
  | .resume _ => True
  | event => h.Admits st event

instance (st : HierarchyState) (event : HierarchyEvent) :
    Decidable (h.AdmitsAnyOrder st event) :=
  match event with
  | .resume _ => .isTrue trivial
  | .call proc this message server => h.instDecidableAdmits st (.call proc this message server)
  | .post proc this message server => h.instDecidableAdmits st (.post proc this message server)
  | .receive proc => h.instDecidableAdmits st (.receive proc)
  | .reply proc context => h.instDecidableAdmits st (.reply proc context)
  | .await this message => h.instDecidableAdmits st (.await this message)
  | .disk this message => h.instDecidableAdmits st (.disk this message)
  | .network this message dest => h.instDecidableAdmits st (.network this message dest)

/-- The driver's answer is queued at the file system behind the request of the terminal.
It is taken, but the terminal is released in place of the driver, and the next call of
the file system waits for the driver that waits for the file system. -/
theorem answer_behind_deadlocks :
    ¬ ∀ (h : Hierarchy) (fuel : Nat) (events : List HierarchyEvent) (st : HierarchyState),
      Run (h.step fuel) h.AdmitsAnyOrder initial events st →
      ∀ proc, ¬ Relation.TransGen (WaitsFor st.sys) proc proc := by
  intro hacyclic
  have hrun := Run.of_exec (system.step 2) system.AdmitsAnyOrder initial
    [.call 0x92000 0x124001 ⟨0, 0, 6, default⟩ 0x94000, .receive 0x94000, .reply 0x94000 default,
      .call 0x96000 0x12c001 ⟨0, 0, 1, default⟩ 0x92000, .resume 0x92000,
      .call 0x92000 0x124001 ⟨0, 0, 6, default⟩ 0x94000] rfl
  apply hacyclic _ _ _ _ hrun 0x92000
  exact .head (.inl ⟨rfl, rfl⟩) (.single (.inl ⟨rfl, rfl⟩) : Relation.TransGen _ 0x94000 0x92000)

end Hierarchy

end Shmily.Kernel
