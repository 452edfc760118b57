import Mathlib.Data.List.Chain
import Mathlib.Data.List.Nodup
import Mathlib.Logic.Function.Basic

/-! # Intrusive doubly linked lists

Nodes of an arbitrary type carry a `prev` and a `next` link in two shared
maps. A spine is a duplicate-free list of nodes in which neighbours point at
each other; a list between two sentinels is a spine whose ends are the
sentinels. Insertion between two neighbours and removal of an inner node are
the only two ways a spine is edited, and everything off the spine is framed.
-/

namespace Shmily.Foundation

universe uNode

variable {Node : Type uNode}

/-- The link fields of all nodes. -/
structure Links (Node : Type uNode) where
  prev : Node → Node
  next : Node → Node

namespace Links

/-- The two nodes are neighbours, seen from both sides. -/
def Joined (links : Links Node) (left right : Node) : Prop :=
  links.next left = right ∧ links.prev right = left

/-- Neighbouring nodes are joined and no node occurs twice. -/
structure Spine (links : Links Node) (nodes : List Node) : Prop where
  joined : nodes.IsChain links.Joined
  nodup : nodes.Nodup

/-- The same links, seen from the other side. -/
def mirror (links : Links Node) : Links Node := ⟨links.next, links.prev⟩

instance [DecidableEq Node] (links : Links Node) (left right : Node) :
    Decidable (links.Joined left right) := inferInstanceAs (Decidable (_ ∧ _))

instance [DecidableEq Node] (links : Links Node) (nodes : List Node) :
    Decidable (links.Spine nodes) :=
  decidable_of_iff (nodes.IsChain links.Joined ∧ nodes.Nodup)
    ⟨fun h => ⟨h.1, h.2⟩, fun h => ⟨h.joined, h.nodup⟩⟩

section Edit

variable [DecidableEq Node]

def setPrev (links : Links Node) (node target : Node) : Links Node :=
  { links with prev := Function.update links.prev node target }

def setNext (links : Links Node) (node target : Node) : Links Node :=
  { links with next := Function.update links.next node target }

@[simp] theorem setPrev_next (links : Links Node) (node target : Node) :
    (links.setPrev node target).next = links.next := rfl

@[simp] theorem setNext_prev (links : Links Node) (node target : Node) :
    (links.setNext node target).prev = links.prev := rfl

@[simp] theorem setPrev_prev (links : Links Node) (node target other : Node) :
    (links.setPrev node target).prev other =
      if other = node then target else links.prev other := by
  simp only [setPrev, Function.update_apply]

@[simp] theorem setNext_next (links : Links Node) (node target other : Node) :
    (links.setNext node target).next other =
      if other = node then target else links.next other := by
  simp only [setNext, Function.update_apply]

end Edit

/-- Following the links visits the nodes of a chain. -/
theorem iterate_next {links : Links Node} {node : Node} {rest : List Node}
    (hjoined : (node :: rest).IsChain links.Joined) :
    List.iterate links.next node (rest.length + 1) = node :: rest := by
  induction rest generalizing node with
  | nil => rfl
  | cons second rest ih =>
      obtain ⟨hfirst, hrest⟩ := List.isChain_cons_cons.mp hjoined
      rw [List.length_cons, List.iterate, hfirst.1, ih hrest]

theorem isChain_mirror {links : Links Node} {nodes : List Node}
    (hjoined : nodes.IsChain links.Joined) : nodes.reverse.IsChain links.mirror.Joined := by
  refine List.isChain_reverse.mpr (hjoined.imp ?_)
  intro left right hpair
  exact ⟨hpair.2, hpair.1⟩

namespace Spine

variable {links other : Links Node} {nodes front back : List Node} {left right elem : Node}

/-- A spine only depends on the `next` links of its nodes but the last and on
the `prev` links of its nodes but the first. -/
theorem congr (hspine : links.Spine nodes)
    (hnext : ∀ node ∈ nodes.dropLast, other.next node = links.next node)
    (hprev : ∀ node ∈ nodes.tail, other.prev node = links.prev node) :
    other.Spine nodes := by
  refine ⟨?_, hspine.nodup⟩
  have hjoined := hspine.joined
  clear hspine
  induction nodes with
  | nil => exact .nil
  | cons first rest ih =>
      cases rest with
      | nil => exact .singleton _
      | cons second rest =>
          rw [List.isChain_cons_cons] at hjoined ⊢
          have hfirst : other.next first = links.next first := hnext first (by simp)
          have hsecond : other.prev second = links.prev second := hprev second (by simp)
          refine ⟨⟨hfirst.trans hjoined.1.1, hsecond.trans hjoined.1.2⟩, ih ?_ ?_ hjoined.2⟩
          · intro node hnode
            exact hnext node (by simp [hnode])
          · intro node hnode
            exact hprev node (by simp at hnode ⊢; exact .inr hnode)

/-- A spine is not affected by edits of nodes that are not on it. -/
theorem frame (hspine : links.Spine nodes)
    (hsame : ∀ node ∈ nodes, other.next node = links.next node ∧
      other.prev node = links.prev node) :
    other.Spine nodes :=
  hspine.congr (fun node hnode => (hsame node ((List.dropLast_sublist _).subset hnode)).1)
    (fun node hnode => (hsame node (List.mem_of_mem_tail hnode)).2)

theorem joined_at (hspine : links.Spine (front ++ left :: right :: back)) :
    links.Joined left right :=
  (List.isChain_append_cons_cons.mp hspine.joined).2.1

/-- Edits that leave alone every `next` link but that of `left` and every `prev`
link but that of `right` keep the parts of a spine outside these two. -/
theorem outer_joined (mid : List Node)
    (hspine : links.Spine (front ++ left :: (mid ++ right :: back)))
    (hnext : ∀ node ∈ front ++ left :: (mid ++ right :: back), node ≠ left →
      other.next node = links.next node)
    (hprev : ∀ node ∈ front ++ left :: (mid ++ right :: back), node ≠ right →
      other.prev node = links.prev node) :
    (front ++ [left]).IsChain other.Joined ∧ (right :: back).IsChain other.Joined := by
  obtain ⟨-, hrestNodup, hdisjoint⟩ := List.nodup_append.mp hspine.nodup
  obtain ⟨hleft, hinner⟩ := List.nodup_cons.mp hrestNodup
  obtain ⟨-, hbackNodup, -⟩ := List.nodup_append.mp hinner
  have hfront : links.Spine (front ++ [left]) :=
    ⟨(List.isChain_split.mp hspine.joined).1, hspine.nodup.sublist (by simp)⟩
  have hback : links.Spine (right :: back) := by
    have htail := (List.isChain_split.mp hspine.joined).2.tail
    exact ⟨htail.right_of_append, hbackNodup⟩
  constructor
  · refine (hfront.congr ?_ ?_).joined
    · intro node hnode
      rw [List.dropLast_concat] at hnode
      apply hnext node (by simp [hnode])
      rintro rfl
      exact hdisjoint node hnode node (by simp) rfl
    · intro node hnode
      have hmem : node ∈ front ++ [left] := List.mem_of_mem_tail hnode
      rw [List.mem_append, List.mem_singleton] at hmem
      apply hprev node (by rcases hmem with hmem | hmem <;> simp [hmem])
      rintro rfl
      rcases hmem with hmem | hmem
      · exact hdisjoint node hmem node (by simp) rfl
      · exact hleft (by simp [hmem])
  · refine (hback.congr ?_ ?_).joined
    · intro node hnode
      have hmem : node ∈ right :: back := (List.dropLast_sublist _).subset hnode
      apply hnext node (by simp [List.mem_cons.mp hmem])
      rintro rfl
      exact hleft (by simp [List.mem_cons.mp hmem])
    · intro node hnode
      apply hprev node (by simp at hnode; simp [hnode])
      rintro rfl
      exact (List.nodup_cons.mp hbackNodup).1 hnode

/-- Linking a new node in between two neighbours. -/
theorem insert (hspine : links.Spine (front ++ left :: right :: back))
    (hfresh : elem ∉ front ++ left :: right :: back)
    (hnextLeft : other.next left = elem) (hprevElem : other.prev elem = left)
    (hnextElem : other.next elem = right) (hprevRight : other.prev right = elem)
    (hnext : ∀ node, node ≠ left → node ≠ elem → other.next node = links.next node)
    (hprev : ∀ node, node ≠ right → node ≠ elem → other.prev node = links.prev node) :
    other.Spine (front ++ left :: elem :: right :: back) := by
  have houter : (front ++ [left]).IsChain other.Joined ∧
      (right :: back).IsChain other.Joined := by
    apply outer_joined [] hspine
    · intro node hnode hne
      exact hnext node hne (fun heq => hfresh (heq ▸ hnode))
    · intro node hnode hne
      exact hprev node hne (fun heq => hfresh (heq ▸ hnode))
  refine ⟨?_, ?_⟩
  · rw [List.isChain_append_cons_cons, List.isChain_cons_cons]
    exact ⟨houter.1, ⟨hnextLeft, hprevElem⟩, ⟨hnextElem, hprevRight⟩, houter.2⟩
  · have hperm : (front ++ left :: elem :: right :: back).Perm
        (elem :: (front ++ left :: right :: back)) := by
      have hmiddle : ((front ++ [left]) ++ elem :: (right :: back)).Perm
          (elem :: ((front ++ [left]) ++ right :: back)) := List.perm_middle
      simpa using hmiddle
    exact hperm.nodup_iff.mpr (List.nodup_cons.mpr ⟨hfresh, hspine.nodup⟩)

/-- Unlinking a node joins its two neighbours. -/
theorem remove (hspine : links.Spine (front ++ left :: elem :: right :: back))
    (hnextLeft : other.next left = right) (hprevRight : other.prev right = left)
    (hnext : ∀ node, node ≠ left → other.next node = links.next node)
    (hprev : ∀ node, node ≠ right → other.prev node = links.prev node) :
    other.Spine (front ++ left :: right :: back) := by
  have houter := outer_joined [elem] hspine
    (fun node _ hne => hnext node hne) (fun node _ hne => hprev node hne)
  refine ⟨?_, hspine.nodup.sublist (by simp)⟩
  rw [List.isChain_append_cons_cons]
  exact ⟨houter.1, ⟨hnextLeft, hprevRight⟩, houter.2⟩

end Spine

end Links

end Shmily.Foundation
