import Mathlib.Logic.Function.Iterate
import Mathlib.Tactic.Common

/-! # Loops that may not end

One turn of a loop either goes on with a new state or leaves the loop with a result. The loop
itself is run with fuel, and ends if some amount of it is enough. A loop that moves a position
towards a target ends when the moves lead there; a loop that only moves where a condition
holds, and stays where it is otherwise, must meet the condition all the way.
-/

namespace Shmily.Foundation

universe uState uResult uPosition

variable {State : Type uState} {Result : Type uResult} {Position : Type uPosition}

/-- Take turns until one leaves the loop; `none` when the fuel is used up. -/
def loop (turn : State → State ⊕ Result) : Nat → State → Option Result
  | 0, _ => none
  | fuel + 1, state =>
      match turn state with
      | .inl next => loop turn fuel next
      | .inr result => some result

/-- The loop ends with the result. -/
def Leaves (turn : State → State ⊕ Result) (state : State) (result : Result) : Prop :=
  ∃ fuel, loop turn fuel state = some result

/-- Move where the condition holds, and stay otherwise. -/
def guarded (good : Position → Prop) [DecidablePred good] (advance : Position → Position)
    (position : Position) : Position :=
  if good position then advance position else position

variable {turn : State → State ⊕ Result} {state next : State} {result other : Result}

theorem loop_inl (hturn : turn state = .inl next) (fuel : Nat) :
    loop turn (fuel + 1) state = loop turn fuel next := by
  rw [loop, hturn]

theorem loop_inr (hturn : turn state = .inr result) (fuel : Nat) :
    loop turn (fuel + 1) state = some result := by
  rw [loop, hturn]

/-- More fuel does not change the result. -/
theorem loop_add {fuel : Nat} (hloop : loop turn fuel state = some result) (more : Nat) :
    loop turn (fuel + more) state = some result := by
  induction fuel generalizing state with
  | zero => cases hloop
  | succ fuel ih =>
      rw [Nat.add_right_comm]
      cases hturn : turn state with
      | inl next =>
          rw [loop_inl hturn] at hloop ⊢
          exact ih hloop
      | inr left =>
          rw [loop_inr hturn] at hloop ⊢
          exact hloop

theorem leaves_inl (hturn : turn state = .inl next) :
    Leaves turn state result ↔ Leaves turn next result := by
  constructor
  · rintro ⟨fuel, hloop⟩
    cases fuel with
    | zero => cases hloop
    | succ fuel => exact ⟨fuel, (loop_inl hturn fuel).symm.trans hloop⟩
  · rintro ⟨fuel, hloop⟩
    exact ⟨fuel + 1, (loop_inl hturn fuel).trans hloop⟩

theorem leaves_inr (hturn : turn state = .inr result) : Leaves turn state result :=
  ⟨1, loop_inr hturn 0⟩

theorem Leaves.unique (hleaves : Leaves turn state result) (hother : Leaves turn state other) :
    result = other := by
  obtain ⟨fuel, hloop⟩ := hleaves
  obtain ⟨more, hmore⟩ := hother
  have hresult := loop_add hloop more
  rw [Nat.add_comm, loop_add hmore fuel] at hresult
  exact (Option.some.inj hresult).symm

/-- A property that every turn keeps holds in the state in which the loop is left. -/
theorem Leaves.invariant (hleaves : Leaves turn state result) (good : State → Prop)
    (hstate : good state) (hturn : ∀ before after, good before → turn before = .inl after →
      good after) : ∃ last, good last ∧ turn last = .inr result := by
  obtain ⟨fuel, hloop⟩ := hleaves
  induction fuel generalizing state with
  | zero => cases hloop
  | succ fuel ih =>
      cases hnext : turn state with
      | inl next =>
          rw [loop_inl hnext] at hloop
          exact ih (hturn _ _ hstate hnext) hloop
      | inr left =>
          rw [loop_inr hnext] at hloop
          exact ⟨state, hstate, hnext.trans (congrArg _ (Option.some.inj hloop))⟩

/-- A loop that moves until it is at the target. -/
theorem leaves_iff_iterate (position : State → Position) {advance : Position → Position}
    {target : Position}
    (hgo : ∀ before, position before ≠ target → ∃ after, turn before = .inl after ∧
      position after = advance (position before))
    (hstop : ∀ before, position before = target → ∃ result, turn before = .inr result)
    (state : State) :
    (∃ result, Leaves turn state result) ↔ ∃ n, advance^[n] (position state) = target := by
  constructor
  · rintro ⟨result, fuel, hloop⟩
    induction fuel generalizing state with
    | zero => cases hloop
    | succ fuel ih =>
        by_cases hat : position state = target
        · exact ⟨0, hat⟩
        · obtain ⟨next, hturn, hnext⟩ := hgo state hat
          obtain ⟨n, hn⟩ := ih next ((loop_inl hturn fuel).symm.trans hloop)
          rw [hnext] at hn
          exact ⟨n + 1, hn⟩
  · rintro ⟨n, hn⟩
    induction n generalizing state with
    | zero =>
        obtain ⟨result, hturn⟩ := hstop state hn
        exact ⟨result, leaves_inr hturn⟩
    | succ n ih =>
        by_cases hat : position state = target
        · obtain ⟨result, hturn⟩ := hstop state hat
          exact ⟨result, leaves_inr hturn⟩
        · obtain ⟨next, hturn, hnext⟩ := hgo state hat
          rw [Function.iterate_succ_apply, ← hnext] at hn
          obtain ⟨result, hleaves⟩ := ih next hn
          exact ⟨result, (leaves_inl hturn).mpr hleaves⟩

/-- Moves that lead to the target still do when they are guarded, exactly if the guard lets
each of them through. -/
theorem guarded_reaches_iff {good : Position → Prop} [DecidablePred good]
    {advance : Position → Position} {start target : Position}
    (hreach : ∃ n, advance^[n] start = target) :
    (∃ n, (guarded good advance)^[n] start = target) ↔
      ∀ i, (∀ j ≤ i, advance^[j] start ≠ target) → good (advance^[i] start) := by
  constructor
  · rintro ⟨n, hn⟩
    clear hreach
    induction n generalizing start with
    | zero => exact fun i hbefore => absurd hn (hbefore 0 (Nat.zero_le i))
    | succ n ih =>
        rw [Function.iterate_succ_apply] at hn
        by_cases hgood : good start
        · rw [guarded, if_pos hgood] at hn
          intro i hbefore
          cases i with
          | zero => exact hgood
          | succ i => exact ih hn i fun j hj => hbefore (j + 1) (Nat.succ_le_succ hj)
        · rw [guarded, if_neg hgood] at hn
          exact ih hn
  · intro hguard
    obtain ⟨n, hn⟩ := hreach
    induction n generalizing start with
    | zero => exact ⟨0, hn⟩
    | succ n ih =>
        by_cases hat : start = target
        · exact ⟨0, hat⟩
        · have hgood : good start := hguard 0 fun j hj => by
            obtain rfl := Nat.le_zero.mp hj
            exact hat
          have hlater : ∀ i, (∀ j ≤ i, advance^[j] (advance start) ≠ target) →
              good (advance^[i] (advance start)) := by
            intro i hbefore
            refine hguard (i + 1) fun j hj => ?_
            cases j with
            | zero => exact hat
            | succ j => exact hbefore j (Nat.le_of_succ_le_succ hj)
          obtain ⟨m, hm⟩ := ih hlater hn
          refine ⟨m + 1, ?_⟩
          rw [Function.iterate_succ_apply, guarded, if_pos hgood]
          exact hm

/-! ### Loops over a list -/

section Lists

universe uElement

variable {Element : Type uElement} {body : State → Element → Option State}

/-- A loop over a list whose body never fails. -/
theorem exists_foldlM (elements : List Element) (state : State)
    (hbody : ∀ before, ∀ element ∈ elements, ∃ after, body before element = some after) :
    ∃ final, elements.foldlM body state = some final := by
  induction elements generalizing state with
  | nil => exact ⟨state, rfl⟩
  | cons element rest ih =>
      obtain ⟨next, hnext⟩ := hbody state element List.mem_cons_self
      rw [List.foldlM_cons, hnext]
      exact ih next fun before other hother => hbody before other (List.mem_cons_of_mem _ hother)

/-- In a loop over a list that does not fail, the body does not fail for any element. -/
theorem exists_body_of_foldlM {elements : List Element} {element : Element} {final : State}
    (hloop : elements.foldlM body state = some final) (hmem : element ∈ elements) :
    ∃ before after, body before element = some after := by
  induction elements generalizing state with
  | nil => exact absurd hmem List.not_mem_nil
  | cons first rest ih =>
      rw [List.foldlM_cons] at hloop
      obtain ⟨next, hnext, hrest⟩ := Option.bind_eq_some_iff.mp hloop
      rcases List.mem_cons.mp hmem with rfl | hlater
      · exact ⟨state, next, hnext⟩
      · exact ih hrest hlater

end Lists

end Shmily.Foundation
