import Mathlib.Data.List.Nodup
import Mathlib.Logic.Function.Basic

/-! # Null-terminated singly linked chains

A chain is what a traversal through one link field visits before it meets the
null node. It is determined by its first node, hence visits no node twice.
-/

namespace Shmily.Foundation

universe uNode

variable {Node : Type uNode} [Zero Node]

/-- Following `next` from `start` visits exactly the listed nodes, none of which
is null, and then meets null. -/
def NullChain (next : Node → Node) : Node → List Node → Prop
  | start, [] => start = 0
  | start, node :: rest => start = node ∧ node ≠ 0 ∧ NullChain next (next node) rest

namespace NullChain

variable {next : Node → Node} {start node : Node} {nodes rest : List Node}

theorem ne_zero (hchain : NullChain next start nodes) (hmem : node ∈ nodes) : node ≠ 0 := by
  induction nodes generalizing start with
  | nil => cases hmem
  | cons first rest ih =>
      cases List.mem_cons.mp hmem with
      | inl heq => exact heq ▸ hchain.2.1
      | inr htail => exact ih hchain.2.2 htail

theorem eq_nil_iff (hchain : NullChain next start nodes) : nodes = [] ↔ start = 0 := by
  cases nodes with
  | nil => exact ⟨fun _ => hchain, fun _ => rfl⟩
  | cons first rest =>
      refine ⟨fun h => (by cases h), fun hzero => ?_⟩
      exact absurd (hchain.1.symm.trans hzero) hchain.2.1

/-- A traversal is determined by its first node. -/
theorem unique {other : List Node} (hchain : NullChain next start nodes)
    (hother : NullChain next start other) : nodes = other := by
  induction nodes generalizing start other with
  | nil => exact ((hother.eq_nil_iff).mpr hchain).symm
  | cons first rest ih =>
      cases other with
      | nil => exact absurd (hchain.1.symm.trans hother) hchain.2.1
      | cons second tail =>
          have hsame : first = second := hchain.1.symm.trans hother.1
          subst hsame
          rw [ih hchain.2.2 hother.2.2]

/-- The rest of a chain after one of its nodes. -/
theorem suffix {front : List Node} (hchain : NullChain next start (front ++ node :: rest)) :
    NullChain next node (node :: rest) := by
  induction front generalizing start with
  | nil => exact ⟨rfl, hchain.2⟩
  | cons first front ih => exact ih hchain.2.2

/-- A chain that ends cannot come back to a node it has passed. -/
theorem nodup (hchain : NullChain next start nodes) : nodes.Nodup := by
  induction nodes generalizing start with
  | nil => exact List.nodup_nil
  | cons first rest ih =>
      refine List.nodup_cons.mpr ⟨?_, ih hchain.2.2⟩
      intro hmem
      obtain ⟨front, back, hsplit⟩ := List.append_of_mem hmem
      have hwhole : NullChain next first (first :: rest) := ⟨rfl, hchain.2⟩
      have hback : NullChain next first (first :: back) := by
        have hrest := hchain.2.2
        rw [hsplit] at hrest
        exact hrest.suffix
      have hlength := congrArg List.length (hwhole.unique hback)
      simp [hsplit] at hlength
      omega

/-- No node of a chain links to itself. -/
theorem next_ne (hchain : NullChain next start (node :: rest)) : next node ≠ node := by
  intro hloop
  have hrest := hchain.2.2
  rw [hloop] at hrest
  have hwhole : NullChain next node (node :: rest) := ⟨rfl, hchain.2⟩
  have hlength := congrArg List.length (hrest.unique hwhole)
  simp at hlength

theorem exists_cons (hchain : NullChain next start nodes) (hne : start ≠ 0) :
    ∃ rest, nodes = start :: rest := by
  cases nodes with
  | nil => exact absurd hchain hne
  | cons first rest => exact ⟨rest, by rw [hchain.1]⟩

/-- The link of a node off the chain does not matter. -/
theorem update_of_notMem [DecidableEq Node] {value : Node} (hchain : NullChain next start nodes)
    (hnot : node ∉ nodes) : NullChain (Function.update next node value) start nodes := by
  induction nodes generalizing start with
  | nil => exact hchain
  | cons first rest ih =>
      rw [List.mem_cons, not_or] at hnot
      refine ⟨hchain.1, hchain.2.1, ?_⟩
      rw [Function.update_of_ne (Ne.symm hnot.1)]
      exact ih hchain.2.2 hnot.2

/-- Linking a new node in front. -/
theorem push [DecidableEq Node] (hchain : NullChain next start nodes) (hnot : node ∉ nodes)
    (hne : node ≠ 0) : NullChain (Function.update next node start) node (node :: nodes) := by
  refine ⟨rfl, hne, ?_⟩
  rw [Function.update_self]
  exact hchain.update_of_notMem hnot

/-- A node behind another one is not the first. -/
theorem behind_ne_start {front back : List Node} {before : Node}
    (hchain : NullChain next start (front ++ before :: node :: back)) : node ≠ start := by
  intro heq
  rw [List.append_cons, ← heq] at hchain
  have hlength := congrArg List.length (hchain.suffix.unique hchain)
  simp at hlength
  omega

/-- The chain that starts at null is empty. -/
theorem nil : NullChain next (0 : Node) [] := rfl

end NullChain

end Shmily.Foundation
