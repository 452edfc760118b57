import Mathlib.Data.Option.Basic

/-! # Responses to a sequence of requests

A server is given by what a request does to its state and what it answers;
`none` when the request never returns. Two servers that are related in every
step answer the same. Side conditions on requests are only asked of one of them.
-/

namespace Shmily.Foundation

universe uState uOther uEvent uResponse

variable {State : Type uState} {Other : Type uOther} {Event : Type uEvent}
  {Response : Type uResponse}

/-- The responses to requests that are made one after the other. -/
def responses (step : State → Event → Option (State × Response)) :
    State → List Event → Option (List Response)
  | _, [] => some []
  | state, event :: rest =>
      (step state event).bind fun done => (responses step done.1 rest).map (done.2 :: ·)

/-- Each request is admitted by the state it is made in. -/
def Allowed (step : State → Event → Option (State × Response)) (admits : State → Event → Prop) :
    State → List Event → Prop
  | _, [] => True
  | state, event :: rest =>
      admits state event ∧ ∀ done ∈ step state event, Allowed step admits done.1 rest

/-- Steps from related states that end in related states, with the same response. -/
def Matches (related : State → Other → Prop) (left : Option (State × Response))
    (right : Option (Other × Response)) : Prop :=
  Option.Rel (fun left right => related left.1 right.1 ∧ left.2 = right.2) left right

variable {step : State → Event → Option (State × Response)}
  {other : Other → Event → Option (Other × Response)} {admits : State → Event → Prop}
  {related : State → Other → Prop}

theorem allowed_of_forall (hadmits : ∀ state event, admits state event) (state : State)
    (events : List Event) : Allowed step admits state events := by
  induction events generalizing state with
  | nil => trivial
  | cons event rest ih => exact ⟨hadmits state event, fun done _ => ih done.1⟩

/-- Related servers give the same responses to allowed requests. -/
theorem responses_eq
    (hstep : ∀ left right event, related left right → admits left event →
      Matches related (step left event) (other right event))
    {left : State} {right : Other} (hrelated : related left right) {events : List Event}
    (hallowed : Allowed step admits left events) :
    responses step left events = responses other right events := by
  induction events generalizing left right with
  | nil => rfl
  | cons event rest ih =>
      obtain ⟨hadmits, hrest⟩ := hallowed
      have hmatches := hstep left right event hrelated hadmits
      rw [responses, responses]
      generalize hleft : step left event = done at hmatches hrest
      generalize other right event = done' at hmatches
      cases hmatches with
      | none => rfl
      | some hboth =>
          rw [Option.bind_some, Option.bind_some, ih hboth.1 (hrest _ rfl), hboth.2]

end Shmily.Foundation
