import Mathlib.Logic.Function.Basic
import Shmily.Foundation.RingPositions
import Shmily.Foundation.Run

/-! # The keyboard queue

`struct ring_buffer` holds up to 63 bytes. The keyboard interrupt puts bytes in at
`head` and the terminal takes them out at `tail`; an interrupt can come between
any two statements of the terminal.
-/

namespace Shmily.Lib

open Foundation

/-- `struct ring_buffer`. -/
structure RingBuffer where
  buffer : Nat → UInt8
  head : UInt8
  tail : UInt8

namespace RingBuffer

/-- `init_ringbuffer`. -/
def initRingbuffer : RingBuffer where
  buffer _ := 0
  head := 0
  tail := 0

/-- The position after this one; the sum is an `int`. -/
def advance (position : UInt8) : UInt8 :=
  UInt8.ofNat ((position.toNat + 1) % 64)

def isFull (rb : RingBuffer) : Bool :=
  rb.tail.toNat == (rb.head.toNat + 1) % 64

def isEmpty (rb : RingBuffer) : Bool :=
  rb.tail == rb.head

/-- `ringbuffer_put`: a byte is dropped if the queue is full. -/
def put (rb : RingBuffer) (ch : UInt8) : RingBuffer :=
  if rb.isFull then rb
  else { rb with
    buffer := Function.update rb.buffer rb.head.toNat ch
    head := advance rb.head }

/-- `ringbuffer_get`, if nothing comes in between. -/
def get (rb : RingBuffer) : UInt8 × RingBuffer :=
  if rb.isEmpty then (0, rb)
  else (rb.buffer rb.tail.toNat, { rb with tail := advance rb.tail })

@[simp]
theorem advance_toNat (position : UInt8) :
    (advance position).toNat = (position.toNat + 1) % 64 := by
  have hlt : (position.toNat + 1) % 64 < 64 := Nat.mod_lt _ (by decide)
  rw [advance, UInt8.toNat_ofNat']
  exact Nat.mod_eq_of_lt (hlt.trans (by decide))

theorem isFull_iff {rb : RingBuffer} : rb.isFull ↔ rb.tail.toNat = (rb.head.toNat + 1) % 64 :=
  beq_iff_eq

theorem isEmpty_iff {rb : RingBuffer} : rb.isEmpty ↔ rb.tail.toNat = rb.head.toNat := by
  rw [isEmpty, beq_iff_eq, UInt8.toNat_inj]

/-- A byte that is put in moves the head. -/
theorem put_eq_self_iff {rb : RingBuffer} (ch : UInt8) :
    rb.put ch = rb ↔ rb.isFull := by
  constructor
  · intro hput
    by_contra hfull
    rw [put, if_neg hfull] at hput
    have hsame := congrArg UInt8.toNat (congrArg RingBuffer.head hput)
    rw [advance_toNat] at hsame
    omega
  · intro hfull
    rw [put, if_pos hfull]

end RingBuffer

/-- Where the terminal is between `ringbuffer_is_empty` and the end of `ringbuffer_get`. -/
inductive Getting
  /-- It polls the queue in `Terminal::run`. -/
  | polling
  /-- The queue was not empty; `ringbuffer_get` is called and tests it again. -/
  | testing
  | loading
  /-- The local variable `ret` is set. -/
  | moving (ret : UInt8)
  /-- The tail has been moved. -/
  | returning (ret : UInt8)
  deriving DecidableEq, Repr

/-- The queue, the progress of the terminal, and a record of the bytes that were
put in, of those that have left the queue, and of those that `ringbuffer_get`
has returned. -/
structure KeyboardQueue where
  ring : RingBuffer
  getting : Getting
  accepted : List UInt8
  taken : List UInt8
  returned : List UInt8

/-- What can happen next. -/
inductive KeyboardEvent
  /-- The interrupt handler calls `ringbuffer_put`. -/
  | put (ch : UInt8)
  /-- The terminal executes its next statement. -/
  | proceed
  deriving DecidableEq, Repr

namespace KeyboardQueue

/-- The queue after `init_keyboard`. -/
def initial : KeyboardQueue where
  ring := .initRingbuffer
  getting := .polling
  accepted := []
  taken := []
  returned := []

/-- The next statement of the terminal. -/
def proceed (queue : KeyboardQueue) : KeyboardQueue :=
  match queue.getting with
  | .polling => if queue.ring.isEmpty then queue else { queue with getting := .testing }
  | .testing =>
      -- an empty queue makes `ringbuffer_get` return 0
      if queue.ring.isEmpty then { queue with getting := .polling }
      else { queue with getting := .loading }
  | .loading => { queue with getting := .moving (queue.ring.buffer queue.ring.tail.toNat) }
  | .moving ret => { queue with
      ring := { queue.ring with tail := RingBuffer.advance queue.ring.tail }
      getting := .returning ret
      taken := queue.taken ++ [ret] }
  | .returning ret => { queue with
      getting := .polling
      returned := queue.returned ++ [ret] }

def step (queue : KeyboardQueue) : KeyboardEvent → Option KeyboardQueue
  | .put ch => some { queue with
      ring := queue.ring.put ch
      accepted := if queue.ring.isFull then queue.accepted else queue.accepted ++ [ch] }
  | .proceed => some queue.proceed

/-- Every event may happen in every state. -/
def Admits (_ : KeyboardQueue) (_ : KeyboardEvent) : Prop := True

instance (queue : KeyboardQueue) (event : KeyboardEvent) : Decidable (Admits queue event) :=
  inferInstanceAs (Decidable True)

/-- Without an interrupt in between, the statements make up `ringbuffer_get`. -/
theorem proceed_get (queue : KeyboardQueue) (htesting : queue.getting = .testing)
    (hempty : queue.ring.isEmpty = false) :
    queue.proceed.proceed.proceed.proceed = { queue with
      ring := queue.ring.get.2
      getting := .polling
      taken := queue.taken ++ [queue.ring.get.1]
      returned := queue.returned ++ [queue.ring.get.1] } := by
  simp [proceed, RingBuffer.get, htesting, hempty]

/-- The bytes that were put in and have not left the queue. -/
def pending (queue : KeyboardQueue) : Nat :=
  queue.accepted.length - queue.taken.length

/-- The terminal is on its way to take a byte out of the queue. -/
def Wants : Getting → Prop
  | .testing | .loading | .moving _ => True
  | .polling | .returning _ => False

/-- The bytes taken but not returned yet. -/
def inHand : Getting → List UInt8
  | .returning ret => [ret]
  | .polling | .testing | .loading | .moving _ => []

/-- The ring holds the bytes that were put in and not taken out, in order. -/
structure Represents (queue : KeyboardQueue) : Prop where
  positions : RingPositions 64 queue.ring.head.toNat queue.ring.tail.toNat
    queue.accepted.length queue.taken.length
  stored : ∀ i, queue.taken.length ≤ i → i < queue.accepted.length →
    queue.accepted[i]? = some (queue.ring.buffer (i % 64))
  taken_prefix : queue.taken <+: queue.accepted
  returned_eq : queue.returned ++ inHand queue.getting = queue.taken
  available : Wants queue.getting → queue.taken.length < queue.accepted.length
  loaded : ∀ ret, queue.getting = .moving ret → queue.accepted[queue.taken.length]? = some ret

variable {queue : KeyboardQueue}

theorem initial_represents : initial.Represents where
  positions := .start (by decide)
  stored i _ hlt := absurd hlt (Nat.not_lt_zero i)
  taken_prefix := List.prefix_rfl
  returned_eq := rfl
  available hwants := hwants.elim
  loaded _ hloaded := by cases hloaded

namespace Represents

/-- A queue that is not empty holds a byte that was not taken. -/
theorem available_of_nonempty (hqueue : queue.Represents) (hempty : ¬ queue.ring.isEmpty) :
    queue.taken.length < queue.accepted.length := by
  have hne : queue.taken.length ≠ queue.accepted.length := fun heq =>
    hempty (RingBuffer.isEmpty_iff.mpr (hqueue.positions.empty_iff.mpr heq))
  exact Nat.lt_of_le_of_ne hqueue.positions.taken_le hne

theorem nonempty_of_wants (hqueue : queue.Represents) (hwants : Wants queue.getting) :
    ¬ queue.ring.isEmpty := by
  intro hempty
  have heq := hqueue.positions.empty_iff.mp (RingBuffer.isEmpty_iff.mp hempty)
  exact absurd heq (Nat.ne_of_lt (hqueue.available hwants))

theorem put (hqueue : queue.Represents) (ch : UInt8) {next : KeyboardQueue}
    (hstep : queue.step (.put ch) = some next) : next.Represents := by
  rw [step, Option.some.injEq] at hstep
  subst hstep
  by_cases hfull : queue.ring.isFull
  · simpa [RingBuffer.put, hfull] using hqueue
  · have hroom : queue.ring.tail.toNat ≠ (queue.ring.head.toNat + 1) % 64 :=
      fun heq => hfull (RingBuffer.isFull_iff.mpr heq)
    have hlen : (queue.accepted ++ [ch]).length = queue.accepted.length + 1 := by simp
    simp only [RingBuffer.put, hfull, Bool.false_eq_true, if_false]
    constructor
    · rw [hlen, RingBuffer.advance_toNat]
      exact hqueue.positions.put hroom
    · intro i hle hlt
      rw [hlen] at hlt
      change (queue.accepted ++ [ch])[i]? =
        some (Function.update queue.ring.buffer queue.ring.head.toNat ch (i % 64))
      -- the slot of the new byte is none of those in use
      cases Nat.lt_succ_iff_lt_or_eq.mp hlt with
      | inl hold =>
          have hslot := hqueue.positions.slot_ne_head hroom (Nat.le_succ_of_le hle) hold
          rw [List.getElem?_append_left hold, Function.update_of_ne hslot]
          exact hqueue.stored i hle hold
      | inr hnew =>
          subst hnew
          rw [← hqueue.positions.head_eq, Function.update_self, List.getElem?_concat_length]
    · exact hqueue.taken_prefix.trans (List.prefix_append _ _)
    · exact hqueue.returned_eq
    · intro hwants
      rw [hlen]
      exact Nat.lt_succ_of_lt (hqueue.available hwants)
    · intro ret hloaded
      change queue.getting = .moving ret at hloaded
      have havailable := hqueue.available (by simp [hloaded, Wants])
      rw [List.getElem?_append_left havailable]
      exact hqueue.loaded ret hloaded

/-- The terminal moves on without touching the queue. -/
theorem advance (hqueue : queue.Represents) {getting : Getting}
    (hhand : inHand getting = inHand queue.getting)
    (havailable : Wants getting → queue.taken.length < queue.accepted.length)
    (hloaded : ∀ ret, getting = .moving ret → queue.accepted[queue.taken.length]? = some ret) :
    ({ queue with getting := getting } : KeyboardQueue).Represents :=
  { hqueue with
    returned_eq := by rw [hhand, hqueue.returned_eq]
    available := havailable
    loaded := hloaded }

theorem proceed (hqueue : queue.Represents) : queue.proceed.Represents := by
  unfold KeyboardQueue.proceed
  split
  next hpolling =>
    split
    next => exact hqueue
    next hempty =>
      refine hqueue.advance (by rw [hpolling]; rfl) (fun _ => ?_) (fun _ hloaded => by cases hloaded)
      exact hqueue.available_of_nonempty hempty
  next htesting =>
    have hwants : Wants queue.getting := by simp [htesting, Wants]
    -- an interrupt only adds to the queue, so that the second test passes
    rw [if_neg (hqueue.nonempty_of_wants hwants)]
    exact hqueue.advance (by rw [htesting]; rfl) (fun _ => hqueue.available hwants)
      (fun _ hloaded => by cases hloaded)
  next hloading =>
    have havailable := hqueue.available (by simp [hloading, Wants])
    refine hqueue.advance (by rw [hloading]; rfl) (fun _ => havailable) (fun ret hmoving => ?_)
    rw [Getting.moving.injEq] at hmoving
    rw [← hmoving, hqueue.positions.tail_eq]
    exact hqueue.stored _ le_rfl havailable
  next ret hmoving =>
    have havailable := hqueue.available (by simp [hmoving, Wants])
    have hlen : (queue.taken ++ [ret]).length = queue.taken.length + 1 := by simp
    have hne : queue.ring.tail.toNat ≠ queue.ring.head.toNat := fun heq =>
      absurd (hqueue.positions.empty_iff.mp heq) (Nat.ne_of_lt havailable)
    constructor
    · rw [hlen, RingBuffer.advance_toNat]
      exact hqueue.positions.take hne
    · intro i hle hlt
      rw [hlen] at hle
      exact hqueue.stored i (Nat.le_of_succ_le hle) hlt
    · -- the byte taken is the next one that was put in
      have hbyte := hqueue.loaded ret hmoving
      obtain ⟨more, hmore⟩ := hqueue.taken_prefix
      rw [← hmore, List.getElem?_append_right le_rfl, Nat.sub_self] at hbyte
      obtain ⟨rest, rfl⟩ := List.head?_eq_some_iff.mp (List.head?_eq_getElem? ▸ hbyte)
      exact ⟨rest, by rw [← hmore, List.append_assoc, List.singleton_append]⟩
    · have hreturned := hqueue.returned_eq
      rw [hmoving] at hreturned
      change queue.returned ++ [ret] = queue.taken ++ [ret]
      rw [← hreturned]
      simp [inHand]
    · exact fun hwants => hwants.elim
    · exact fun _ hloaded => by cases hloaded
  next ret hreturning =>
    have hreturned := hqueue.returned_eq
    rw [hreturning] at hreturned
    exact { hqueue with
      returned_eq := by
        rw [← hreturned]
        simp [inHand]
      available := fun hwants => hwants.elim
      loaded := fun _ hloaded => by cases hloaded }

/-- A byte is dropped just when 63 are pending. -/
theorem put_eq_self_iff (hqueue : queue.Represents) (ch : UInt8) :
    queue.ring.put ch = queue.ring ↔ queue.pending = 63 := by
  rw [RingBuffer.put_eq_self_iff, RingBuffer.isFull_iff, hqueue.positions.full_iff, pending]
  have hle := hqueue.positions.taken_le
  omega

end Represents

theorem represents_of_run {events : List KeyboardEvent}
    (hrun : Run step Admits initial events queue) : queue.Represents := by
  refine hrun.invariant Represents initial_represents fun before event after hbefore _ hstep => ?_
  cases event with
  | put ch => exact hbefore.put ch hstep
  | proceed =>
      rw [step, Option.some.injEq] at hstep
      exact hstep ▸ hbefore.proceed

/-- The terminal gets the bytes that were put in, in order, and a byte is dropped
only for lack of room. -/
theorem returned_prefix_accepted {events : List KeyboardEvent}
    (hrun : Run step Admits initial events queue) :
    queue.returned <+: queue.accepted ∧
      (∀ ch, queue.ring.put ch = queue.ring ↔ queue.pending = 63) ∧
      queue.ring.head.toNat < 64 ∧ queue.ring.tail.toNat < 64 := by
  have hqueue := represents_of_run hrun
  refine ⟨?_, hqueue.put_eq_self_iff, hqueue.positions.head_lt, hqueue.positions.tail_lt⟩
  have htaken : queue.returned <+: queue.taken := ⟨_, hqueue.returned_eq⟩
  exact htaken.trans hqueue.taken_prefix

/-- A byte comes in between the test and the read of another one. -/
theorem returned_during_put :
    ∃ queue, Run step Admits initial
      [.put 104, .proceed, .put 105, .proceed, .proceed, .proceed, .proceed] queue ∧
      queue.accepted = [104, 105] ∧ queue.returned = [104] ∧ queue.returned <+: queue.accepted := by
  have hrun := Run.of_exec step Admits initial
    [.put 104, .proceed, .put 105, .proceed, .proceed, .proceed, .proceed] rfl
  exact ⟨_, hrun, by decide, by decide, (returned_prefix_accepted hrun).1⟩

end KeyboardQueue

end Shmily.Lib
