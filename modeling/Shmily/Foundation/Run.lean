import Mathlib.Data.List.Basic

/-! # Runs of a partial transition function

A component is given by what one event does to a state: `none` when the event
cannot happen there. A run is a finite sequence of events, each of which
satisfies a side condition in the state in which it happens. Properties of
every reachable state are proved by showing that one such event keeps them.
-/

namespace Shmily.Foundation

universe uState uOther uEvent

variable {State : Type uState} {Event : Type uEvent}

/-- Two machines that stay in step, or stop at the same event, on every single event do so on
all events one after the other. -/
theorem rel_foldlM {Other : Type uOther} {related : State → Other → Prop}
    {step : State → Event → Option State} {stepOther : Other → Event → Option Other}
    {events : List Event} {state : State} {other : Other} (hrelated : related state other)
    (hstep : ∀ event ∈ events, ∀ state other, related state other →
      Option.Rel related (step state event) (stepOther other event)) :
    Option.Rel related (events.foldlM step state) (events.foldlM stepOther other) := by
  induction events generalizing state other with
  | nil => exact .some hrelated
  | cons event rest ih =>
      rw [List.foldlM_cons, List.foldlM_cons]
      have hfirst := hstep event List.mem_cons_self state other hrelated
      generalize step state event = next at hfirst ⊢
      generalize stepOther other event = nextOther at hfirst ⊢
      cases hfirst with
      | none => exact .none
      | some hnext => exact ih hnext fun later hlater => hstep later (List.mem_cons_of_mem _ hlater)

/-- `Run step admits start events state`: the events lead from `start` to
`state`, and each of them was admitted by the state it happened in. -/
inductive Run (step : State → Event → Option State) (admits : State → Event → Prop)
    (start : State) : List Event → State → Prop
  | nil : Run step admits start [] start
  | snoc {events : List Event} {state next : State} {event : Event} :
      Run step admits start events state → admits state event →
      step state event = some next → Run step admits start (events ++ [event]) next

/-- Perform the events one after the other, as long as each is admitted. -/
def exec (step : State → Event → Option State) (admits : State → Event → Prop)
    [∀ state event, Decidable (admits state event)] : State → List Event → Option State
  | state, [] => some state
  | state, event :: rest =>
      if admits state event then (step state event).bind (exec step admits · rest) else none

/-- How many of the events meet a condition in the state in which they happen. -/
def occurrences (step : State → Event → Option State) (cond : State → Event → Prop)
    [∀ state event, Decidable (cond state event)] : State → List Event → Nat
  | _, [] => 0
  | state, event :: rest => (if cond state event then 1 else 0) +
      match step state event with
      | some next => occurrences step cond next rest
      | none => 0

namespace Run

variable {step : State → Event → Option State} {admits : State → Event → Prop} {start : State}

/-- A property of the start that every admitted event keeps holds at the end
of every run. -/
theorem invariant {events : List Event} {state : State}
    (hrun : Run step admits start events state) (good : State → Prop) (hstart : good start)
    (hstep : ∀ before event after, good before → admits before event →
      step before event = some after → good after) : good state := by
  induction hrun with
  | nil => exact hstart
  | snoc _ hadmits hnext ih => exact hstep _ _ _ ih hadmits hnext

/-- Weakening the side condition keeps every run. -/
theorem mono {events : List Event} {state : State} {weaker : State → Event → Prop}
    (hrun : Run step admits start events state)
    (hweaker : ∀ before event, admits before event → weaker before event) :
    Run step weaker start events state := by
  induction hrun with
  | nil => exact .nil
  | snoc _ hadmits hnext ih => exact .snoc ih (hweaker _ _ hadmits) hnext

/-- A further side condition that the events satisfy in every state. -/
theorem and_events {events : List Event} {state : State} {extra : State → Event → Prop}
    (hrun : Run step admits start events state)
    (hextra : ∀ event ∈ events, ∀ before, extra before event) :
    Run step (fun before event => admits before event ∧ extra before event) start events state := by
  induction hrun with
  | nil => exact .nil
  | @snoc events before next event _ hadmits hnext ih =>
      have hlast := hextra event (List.mem_append_right _ List.mem_cons_self) before
      exact .snoc (ih fun other hother => hextra other (List.mem_append_left _ hother))
        ⟨hadmits, hlast⟩ hnext

/-- The events determine the state. -/
theorem unique {events : List Event} {state other : State} {admits' : State → Event → Prop}
    (hrun : Run step admits start events state) (hother : Run step admits' start events other) :
    state = other := by
  induction hrun generalizing other with
  | nil =>
      generalize hnil : ([] : List Event) = none at hother
      cases hother with
      | nil => rfl
      | snoc => exact absurd hnil.symm (List.append_ne_nil_of_right_ne_nil _ (List.cons_ne_nil _ _))
  | @snoc events before next event _ _ hnext ih =>
      generalize hevents : events ++ [event] = all at hother
      cases hother with
      | nil => exact absurd hevents (List.append_ne_nil_of_right_ne_nil _ (List.cons_ne_nil _ _))
      | snoc hearlier _ hnext' =>
          obtain ⟨rfl, hevent⟩ := List.append_inj' hevents rfl
          obtain rfl := List.singleton_inj.mp hevent
          obtain rfl := ih hearlier
          exact Option.some.inj (hnext.symm.trans hnext')

/-- The state before the last event. -/
theorem last {events : List Event} {event : Event} {next : State}
    (hrun : Run step admits start (events ++ [event]) next) :
    ∃ state, Run step admits start events state ∧ admits state event ∧
      step state event = some next := by
  generalize hall : events ++ [event] = all at hrun
  cases hrun with
  | nil => exact absurd hall (List.append_ne_nil_of_right_ne_nil _ (List.cons_ne_nil _ _))
  | snoc hearlier hadmits hnext =>
      obtain ⟨rfl, hevent⟩ := List.append_inj' hall rfl
      obtain rfl := List.singleton_inj.mp hevent
      exact ⟨_, hearlier, hadmits, hnext⟩

/-- Two side conditions that agree in every state with an invariant, which the first one
keeps, admit the same runs. -/
theorem congr_of_invariant {events : List Event} {state : State} {admits' : State → Event → Prop}
    (good : State → Prop) (hstart : good start)
    (hagree : ∀ before event after, good before → step before event = some after →
      (admits' before event ↔ admits before event))
    (hstep : ∀ before event after, good before → admits before event →
      step before event = some after → good after) :
    Run step admits' start events state ↔ Run step admits start events state := by
  constructor
  · intro hrun
    induction hrun with
    | nil => exact .nil
    | snoc _ hadmits hnext ih =>
        have hgood := ih.invariant good hstart hstep
        exact ih.snoc ((hagree _ _ _ hgood hnext).mp hadmits) hnext
  · intro hrun
    induction hrun with
    | nil => exact .nil
    | snoc hearlier hadmits hnext ih =>
        have hgood := hearlier.invariant good hstart hstep
        exact ih.snoc ((hagree _ _ _ hgood hnext).mpr hadmits) hnext

/-- Events that can be performed one after the other form a run. -/
theorem append_exec [∀ state event, Decidable (admits state event)] {events : List Event}
    {state : State} (hrun : Run step admits start events state) (more : List Event) {final : State}
    (hexec : exec step admits state more = some final) :
    Run step admits start (events ++ more) final := by
  induction more generalizing events state with
  | nil =>
      rw [exec, Option.some.injEq] at hexec
      subst hexec
      rwa [List.append_nil]
  | cons event rest ih =>
      unfold exec at hexec
      split at hexec
      next hadmits =>
        obtain ⟨next, hnext, hrest⟩ := Option.bind_eq_some_iff.mp hexec
        rw [List.append_cons]
        exact ih (hrun.snoc hadmits hnext) hrest
      next => cases hexec

theorem of_exec (step : State → Event → Option State) (admits : State → Event → Prop)
    [∀ state event, Decidable (admits state event)] (start : State) (events : List Event)
    {final : State} (hexec : exec step admits start events = some final) :
    Run step admits start events final :=
  append_exec .nil events hexec

theorem occurrences_append {cond : State → Event → Prop}
    [∀ state event, Decidable (cond state event)] {events : List Event} {state : State}
    (hrun : Run step admits start events state) (more : List Event) :
    occurrences step cond start (events ++ more) =
      occurrences step cond start events + occurrences step cond state more := by
  induction hrun generalizing more with
  | nil => rw [List.nil_append, occurrences, Nat.zero_add]
  | @snoc events before next event _ _ hnext ih =>
      rw [List.append_assoc, ih, ih, List.singleton_append]
      simp only [occurrences, hnext, Nat.add_zero, Nat.add_assoc]

theorem occurrences_snoc {cond : State → Event → Prop}
    [∀ state event, Decidable (cond state event)] {events : List Event} {state next : State}
    {event : Event} (hrun : Run step admits start events state)
    (hnext : step state event = some next) :
    occurrences step cond start (events ++ [event]) =
      occurrences step cond start events + if cond state event then 1 else 0 := by
  rw [hrun.occurrences_append]
  simp only [occurrences, hnext, Nat.add_zero]

end Run

end Shmily.Foundation
