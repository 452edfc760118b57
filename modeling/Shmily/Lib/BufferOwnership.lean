import Shmily.Foundation.RingPositions
import Shmily.Foundation.Run
import Shmily.Lib.IndirectRingBuffer

/-! # Who may use a packet buffer

The interrupt handler of the network card asks for free buffers and the network
process for used ones. An interrupt can come between any two statements of
`get_first_used_buffer`. The slot is released before the process has looked into
the buffer; the slot that the ring keeps free is what protects it meanwhile.
-/

namespace Shmily.Lib

open Foundation

/-- Where the network process is in `get_first_used_buffer`. -/
inductive Fetching
  | outside
  /-- The ring was not empty. -/
  | nonempty
  /-- The local variable `ret` is set. -/
  | loaded (ret : Nat)
  deriving DecidableEq, Repr

/-- The ring, the progress of the network process, and a record of the buffers
given to the interrupt handler and of those the process has obtained. -/
structure BufferOwnership where
  ring : IndirectRingBuffer
  fetching : Fetching
  given : List Nat
  fetched : List Nat

/-- What can happen next. -/
inductive BufferEvent
  /-- The interrupt handler calls `get_first_free_buffer`. -/
  | interrupt
  /-- `if (is_empty()) return NULL` -/
  | check
  /-- `char *ret = this->buf[this->tail]` -/
  | load
  /-- The tail is moved and `ret` returned. -/
  | release
  deriving DecidableEq, Repr

namespace BufferOwnership

/-- A ring over the given buffers that nobody has used. -/
def initial (buf : Nat → Nat) : BufferOwnership where
  ring := .initializeRing buf
  fetching := .outside
  given := []
  fetched := []

def step (own : BufferOwnership) : BufferEvent → Option BufferOwnership
  | .interrupt =>
      let result := own.ring.getFirstFreeBuffer
      some { own with
        ring := result.2
        given := if result.1 = 0 then own.given else own.given ++ [result.1] }
  | .check =>
      match own.fetching with
      | .outside => some (if own.ring.isEmpty then own else { own with fetching := .nonempty })
      | _ => none
  | .load =>
      match own.fetching with
      | .nonempty => some { own with fetching := .loaded (own.ring.buf own.ring.tail) }
      | _ => none
  | .release =>
      match own.fetching with
      | .loaded ret => some { own with
          ring := { own.ring with tail := (own.ring.tail + 1) % ringLen }
          fetching := .outside
          fetched := own.fetched ++ [ret] }
      | _ => none

/-- Every event may happen in every state in which it can. -/
def Admits (_ : BufferOwnership) (_ : BufferEvent) : Prop := True

instance (own : BufferOwnership) (event : BufferEvent) : Decidable (Admits own event) :=
  inferInstanceAs (Decidable True)

/-- Without an interrupt in between, the statements make up `get_first_used_buffer`. -/
theorem exec_fetch (own : BufferOwnership) (houtside : own.fetching = .outside)
    (hempty : own.ring.isEmpty = false) :
    exec step Admits own [.check, .load, .release] = some { own with
      ring := own.ring.getFirstUsedBuffer.2
      fetched := own.fetched ++ [own.ring.getFirstUsedBuffer.1] } := by
  simp [exec, step, Admits, IndirectRingBuffer.getFirstUsedBuffer, houtside, hempty]

end BufferOwnership

/-- The array holds ten different buffers. -/
structure DistinctBuffers (buf : Nat → Nat) : Prop where
  ne_null : ∀ i < ringLen, buf i ≠ 0
  injective : ∀ i < ringLen, ∀ j < ringLen, buf i = buf j → i = j

/-- The first buffers that a ring gives away, in order. -/
def roundRobin (buf : Nat → Nat) (count : Nat) : List Nat :=
  (List.range count).map fun i => buf (i % ringLen)

@[simp]
theorem length_roundRobin (buf : Nat → Nat) (count : Nat) :
    (roundRobin buf count).length = count := by
  simp [roundRobin]

theorem roundRobin_succ (buf : Nat → Nat) (count : Nat) :
    roundRobin buf (count + 1) = roundRobin buf count ++ [buf (count % ringLen)] := by
  simp [roundRobin, List.range_succ]

theorem roundRobin_prefix (buf : Nat → Nat) {first second : Nat} (hle : first ≤ second) :
    roundRobin buf first <+: roundRobin buf second := by
  obtain ⟨more, rfl⟩ := Nat.exists_eq_add_of_le hle
  rw [roundRobin, roundRobin, List.range_add, List.map_append]
  exact List.prefix_append _ _

theorem mem_drop_roundRobin {buf : Nat → Nat} {first second buffer : Nat}
    (hmem : buffer ∈ (roundRobin buf second).drop first) :
    ∃ i, first ≤ i ∧ i < second ∧ buffer = buf (i % ringLen) := by
  obtain ⟨i, hi, rfl⟩ := List.mem_iff_getElem.mp hmem
  simp only [List.length_drop, length_roundRobin] at hi
  refine ⟨first + i, by omega, by omega, ?_⟩
  simp [roundRobin]

namespace BufferOwnership

/-- `written` buffers have been given away and `taken` of them obtained, both in
the order of the ring; a call that is under way will succeed. -/
structure InOrder (buf : Nat → Nat) (own : BufferOwnership) (written taken : Nat) : Prop where
  ring_buf : own.ring.buf = buf
  positions : RingPositions ringLen own.ring.head own.ring.tail written taken
  given_eq : own.given = roundRobin buf written
  fetched_eq : own.fetched = roundRobin buf taken
  pending : own.fetching ≠ .outside → taken < written
  loaded : ∀ ret, own.fetching = .loaded ret → ret = buf (taken % ringLen)

variable {buf : Nat → Nat} {own next : BufferOwnership} {written taken : Nat}

theorem initial_inOrder (buf : Nat → Nat) : (initial buf).InOrder buf 0 0 where
  ring_buf := rfl
  positions := .start (by decide)
  given_eq := rfl
  fetched_eq := rfl
  pending houtside := absurd rfl houtside
  loaded _ hloaded := by cases hloaded

namespace InOrder

/-- The next buffer to be given away, if the ring is not full. -/
theorem free_eq (horder : own.InOrder buf written taken) (hfull : own.ring.isFull = false) :
    own.ring.getFirstFreeBuffer.1 = buf (written % ringLen) := by
  simp [IndirectRingBuffer.getFirstFreeBuffer, hfull, horder.ring_buf, horder.positions.head_eq]

theorem interrupt (hdistinct : DistinctBuffers buf) (horder : own.InOrder buf written taken)
    (hstep : own.step .interrupt = some next) :
    ∃ written' taken', next.InOrder buf written' taken' := by
  rw [step, Option.some.injEq] at hstep
  subst hstep
  cases hfull : own.ring.isFull with
  | true =>
      refine ⟨written, taken, ?_⟩
      simpa [IndirectRingBuffer.getFirstFreeBuffer, hfull] using horder
  | false =>
      have hbuffer := horder.free_eq hfull
      -- only a null buffer means that the ring is full
      have hne := hdistinct.ne_null _ (Nat.mod_lt written (by decide))
      have hroom : own.ring.tail ≠ (own.ring.head + 1) % ringLen := by
        simpa [IndirectRingBuffer.isFull] using hfull
      refine ⟨written + 1, taken, ?_⟩
      constructor
      · simp [IndirectRingBuffer.getFirstFreeBuffer_buf, horder.ring_buf]
      · simpa [IndirectRingBuffer.getFirstFreeBuffer, hfull] using horder.positions.put hroom
      · simp [hbuffer, hne, roundRobin_succ, horder.given_eq]
      · exact horder.fetched_eq
      · exact fun hpending => Nat.lt_succ_of_lt (horder.pending hpending)
      · exact horder.loaded

theorem check (horder : own.InOrder buf written taken) (hstep : own.step .check = some next) :
    next.InOrder buf written taken := by
  rw [step] at hstep
  split at hstep
  next houtside =>
    rw [Option.some.injEq] at hstep
    subst hstep
    split
    next => exact horder
    next hempty =>
      have hne : own.ring.tail ≠ own.ring.head := by
        simpa [IndirectRingBuffer.isEmpty] using hempty
      have hpending : taken < written := by
        have hle := horder.positions.taken_le
        have hcount := mt horder.positions.empty_iff.mpr hne
        omega
      exact { horder with
        pending := fun _ => hpending
        loaded := fun _ hloaded => by cases hloaded }
  next => cases hstep

theorem load (horder : own.InOrder buf written taken) (hstep : own.step .load = some next) :
    next.InOrder buf written taken := by
  rw [step] at hstep
  split at hstep
  next hnonempty =>
    rw [Option.some.injEq] at hstep
    subst hstep
    have hpending : taken < written := horder.pending (by simp [hnonempty])
    refine { horder with pending := fun _ => hpending, loaded := fun ret hloaded => ?_ }
    rw [Fetching.loaded.injEq] at hloaded
    rw [← hloaded, horder.ring_buf, horder.positions.tail_eq]
  next => cases hstep

theorem release (horder : own.InOrder buf written taken) (hstep : own.step .release = some next) :
    next.InOrder buf written (taken + 1) := by
  rw [step] at hstep
  split at hstep
  next ret hloaded =>
    rw [Option.some.injEq] at hstep
    subst hstep
    have hpending : taken < written := horder.pending (by simp [hloaded])
    -- no other process empties the ring meanwhile
    have hne : own.ring.tail ≠ own.ring.head := fun heq =>
      absurd (horder.positions.empty_iff.mp heq) (Nat.ne_of_lt hpending)
    constructor
    · exact horder.ring_buf
    · exact horder.positions.take hne
    · exact horder.given_eq
    · rw [horder.fetched_eq, horder.loaded ret hloaded, roundRobin_succ]
    · exact fun houtside => absurd rfl houtside
    · intro other hother
      cases hother
  next => cases hstep

/-- Every step keeps the order. -/
theorem step (hdistinct : DistinctBuffers buf) (horder : own.InOrder buf written taken)
    {event : BufferEvent} (hstep : own.step event = some next) :
    ∃ written' taken', next.InOrder buf written' taken' := by
  cases event with
  | interrupt => exact horder.interrupt hdistinct hstep
  | check => exact ⟨written, taken, horder.check hstep⟩
  | load => exact ⟨written, taken, horder.load hstep⟩
  | release => exact ⟨written, taken + 1, horder.release hstep⟩

/-- The next buffer to be given away holds no packet that the process has yet to
obtain, and is not the one it obtained last. -/
theorem free_unused (hdistinct : DistinctBuffers buf) (horder : own.InOrder buf written taken)
    (hfree : own.ring.getFirstFreeBuffer.1 ≠ 0) :
    own.ring.getFirstFreeBuffer.1 ∉ own.given.drop own.fetched.length ∧
      own.fetched.getLast? ≠ some own.ring.getFirstFreeBuffer.1 := by
  cases hfull : own.ring.isFull with
  | true => simp [IndirectRingBuffer.getFirstFreeBuffer, hfull] at hfree
  | false =>
      have hroom : own.ring.tail ≠ (own.ring.head + 1) % ringLen := by
        simpa [IndirectRingBuffer.isFull] using hfull
      -- the slot at the head differs from those still in use
      have hslot : ∀ i, taken ≤ i + 1 → i < written →
          buf (i % ringLen) ≠ buf (written % ringLen) := by
        intro i hle hlt heq
        refine horder.positions.slot_ne_head hroom hle hlt ?_
        rw [horder.positions.head_eq]
        exact hdistinct.injective _ (Nat.mod_lt _ (by decide)) _ (Nat.mod_lt _ (by decide)) heq
      rw [horder.free_eq hfull, horder.given_eq, horder.fetched_eq, length_roundRobin]
      constructor
      · intro hmem
        obtain ⟨i, hle, hlt, heq⟩ := mem_drop_roundRobin hmem
        exact hslot i (Nat.le_succ_of_le hle) hlt heq.symm
      · cases taken with
        | zero => simp [roundRobin]
        | succ last =>
            have hle := horder.positions.taken_le
            rw [roundRobin_succ, List.getLast?_concat]
            simpa using hslot last le_rfl hle

end InOrder

/-- The process obtains the buffers in the order in which they were given away;
the handler is never given a buffer that is still to be fetched or the one that
was fetched last. -/
theorem fetched_in_order (hdistinct : DistinctBuffers buf) {events : List BufferEvent}
    (hrun : Run step Admits (initial buf) events own) :
    own.fetched <+: own.given ∧
      (own.ring.getFirstFreeBuffer.1 ≠ 0 →
        own.ring.getFirstFreeBuffer.1 ∉ own.given.drop own.fetched.length ∧
        own.fetched.getLast? ≠ some own.ring.getFirstFreeBuffer.1) := by
  obtain ⟨written, taken, horder⟩ := hrun.invariant
    (fun own => ∃ written taken, own.InOrder buf written taken) ⟨0, 0, initial_inOrder buf⟩
    (fun _ _ _ ⟨_, _, horder⟩ _ hstep => horder.step hdistinct hstep)
  refine ⟨?_, horder.free_unused hdistinct⟩
  rw [horder.fetched_eq, horder.given_eq]
  exact roundRobin_prefix buf horder.positions.taken_le

/-- Two packets come in, the second while the first is being fetched. -/
theorem fetched_during_interrupt :
    ∃ own, Run step Admits (initial (· + 1)) [.interrupt, .check, .interrupt, .load, .release] own ∧
      own.given = [1, 2] ∧ own.fetched = [1] ∧ own.fetched <+: own.given := by
  have hdistinct : DistinctBuffers (· + 1) :=
    ⟨fun i _ => Nat.succ_ne_zero i, fun _ _ _ _ heq => Nat.succ.inj heq⟩
  have hrun := Run.of_exec step Admits (initial (· + 1))
    [.interrupt, .check, .interrupt, .load, .release] rfl
  exact ⟨_, hrun, rfl, rfl, (fetched_in_order hdistinct hrun).1⟩

end BufferOwnership

end Shmily.Lib
