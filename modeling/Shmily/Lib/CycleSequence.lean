import Mathlib.Algebra.Order.Ring.Nat
import Shmily.Foundation.Run
import Shmily.Lib.CycleList

/-! # Cycle lists as sequences

Some lists share one memory. What a list is for is to keep a sequence: elements are added at one of
the ends and taken away at the front or anywhere else. This is what the links say after any number
of operations, as long as an element is added only while it is in no list and removed only from the
list it is in.
-/

namespace Shmily.Lib

open Foundation

universe uIndex uNode

variable {Index : Type uIndex} {Node : Type uNode} [DecidableEq Index] [DecidableEq Node]

/-- Some list objects. No two sentinels are the same element. -/
structure CycleLists (Index : Type uIndex) (Node : Type uNode) where
  list : Index → CycleList Node
  heads : Function.Injective fun idx => (list idx).head
  tails : Function.Injective fun idx => (list idx).tail
  apart : ∀ idx other, (list idx).head ≠ (list other).tail

/-- The operations on a list. -/
inductive ListOp (Index : Type uIndex) (Node : Type uNode)
  | initializeList (idx : Index)
  | append (idx : Index) (elem : Node)
  | push (idx : Index) (elem : Node)
  | remove (idx : Index) (elem : Node)
  | pop (idx : Index)

namespace ListOp

/-- The list it is called on. -/
def idx : ListOp Index Node → Index
  | .initializeList idx => idx
  | .append idx _ => idx
  | .push idx _ => idx
  | .remove idx _ => idx
  | .pop idx => idx

/-- The element it adds. -/
def added : ListOp Index Node → Option Node
  | .append _ elem => some elem
  | .push _ elem => some elem
  | .initializeList _ => none
  | .remove _ _ => none
  | .pop _ => none

end ListOp

/-- The sequences of the lists that have been initialized. -/
abbrev Sequences (Index : Type uIndex) (Node : Type uNode) := Index → Option (List Node)

/-- What an operation is for. -/
def Sequences.step (seqs : Sequences Index Node) : ListOp Index Node → Sequences Index Node
  | .initializeList idx => Function.update seqs idx (some [])
  | .append idx elem => Function.update seqs idx ((seqs idx).map (· ++ [elem]))
  | .push idx elem => Function.update seqs idx ((seqs idx).map (elem :: ·))
  | .remove idx elem => Function.update seqs idx ((seqs idx).map (·.erase elem))
  | .pop idx => Function.update seqs idx ((seqs idx).map List.tail)

/-- The memory, and the sequences as they should be. -/
structure ListMemory (Index : Type uIndex) (Node : Type uNode) where
  links : Links Node
  seqs : Sequences Index Node

namespace CycleLists

/-- What an operation does to the links. -/
def perform [Zero Node] (lists : CycleLists Index Node) (links : Links Node) :
    ListOp Index Node → Links Node
  | .initializeList idx => (lists.list idx).initializeList links
  | .append idx elem => (lists.list idx).append links elem
  | .push idx elem => (lists.list idx).push links elem
  | .remove _ elem => CycleList.remove links elem
  | .pop idx => ((lists.list idx).pop links).1

def step [Zero Node] (lists : CycleLists Index Node) (mem : ListMemory Index Node)
    (op : ListOp Index Node) : ListMemory Index Node :=
  ⟨lists.perform mem.links op, mem.seqs.step op⟩

/-- The sentinels and the members of a list. -/
def nodes (lists : CycleLists Index Node) (mem : ListMemory Index Node) (idx : Index) : List Node :=
  (lists.list idx).nodes ((mem.seqs idx).getD [])

/-- The element is in no list. -/
def Outside (lists : CycleLists Index Node) (mem : ListMemory Index Node) (elem : Node) : Prop :=
  ∀ idx, elem ∉ lists.nodes mem idx

/-- What the callers keep to. -/
def Admits (lists : CycleLists Index Node) (mem : ListMemory Index Node) :
    ListOp Index Node → Prop
  | .initializeList _ => True
  | .append idx elem => mem.seqs idx ≠ none ∧ lists.Outside mem elem
  | .push idx elem => mem.seqs idx ≠ none ∧ lists.Outside mem elem
  | .remove idx elem => ∃ elems, mem.seqs idx = some elems ∧ elem ∈ elems
  | .pop idx => ∃ elems, mem.seqs idx = some elems ∧ elems ≠ []

/-- Some operations one after the other. -/
abbrev Run [Zero Node] (lists : CycleLists Index Node) :=
  Foundation.Run (fun mem op => some (lists.step mem op)) lists.Admits

end CycleLists

namespace CycleList

/-- The links and the functions of a list give back a sequence. -/
structure Represents (list : CycleList Node) (links : Links Node) (elems : List Node) : Prop where
  nodup : (list.nodes elems).Nodup
  forward : List.iterate links.next list.head (elems.length + 2) = list.nodes elems
  backward : List.iterate links.prev list.tail (elems.length + 2) = (list.nodes elems).reverse
  length : ∀ fuel, elems.length < fuel → list.getLength links fuel = some elems.length
  empty : list.isEmpty links = true ↔ elems = []
  front : ∀ elem rest, elems = elem :: rest → (list.pop links).2 = elem
  successor : ∀ front elem back, elems = front ++ elem :: back →
    (back ++ front ++ [elem]).head? = some (list.nextElem links elem)

variable {list : CycleList Node} {links : Links Node} {elems front back : List Node} {elem : Node}

omit [DecidableEq Node] in
theorem Holds.next_member (hholds : list.Holds links (front ++ elem :: back)) :
    links.next elem = back.headD list.tail := by
  obtain ⟨-, after, -, hafter⟩ := hholds.exists_around
  cases back with
  | nil => exact (List.head_eq_of_cons_eq hafter).symm
  | cons first rest => exact (List.head_eq_of_cons_eq hafter).symm

/-- The cyclic successor of an element that still points at a place in the list. -/
theorem Holds.head?_nextElem (hholds : list.Holds links (front ++ back))
    (hnext : links.next elem = back.headD list.tail) (hne : front ++ back ≠ []) :
    (back ++ front).head? = some (list.nextElem links elem) := by
  rw [nextElem, hnext]
  cases back with
  | nil =>
      rw [List.append_nil] at hholds hne
      rw [List.headD_nil, if_pos rfl, hholds.next_head, List.nil_append]
      cases front with
      | nil => exact absurd rfl hne
      | cons first rest => rfl
  | cons first rest =>
      have hfirst : first ≠ list.tail := by
        rintro rfl
        exact hholds.tail_notMem (List.mem_append_right front List.mem_cons_self)
      rw [List.headD_cons, if_neg hfirst]
      rfl

/-- What the links of a list say is what it stands for. -/
theorem Holds.represents (hholds : list.Holds links elems) : list.Represents links elems where
  nodup := Links.Spine.nodup hholds
  forward := by
    have hiterate := Links.iterate_next (Links.Spine.joined hholds)
    rwa [List.length_append, List.length_singleton] at hiterate
  backward := by
    have hreverse : (list.nodes elems).reverse = list.tail :: (list.head :: elems).reverse := by
      rw [nodes, ← List.cons_append, List.reverse_append]
      rfl
    have hjoined := Links.isChain_mirror (Links.Spine.joined hholds)
    rw [hreverse] at hjoined ⊢
    have hiterate := Links.iterate_next hjoined
    rwa [List.length_reverse, List.length_cons] at hiterate
  length _ hfuel := getLength_eq hholds hfuel
  empty := isEmpty_iff hholds
  front := by
    rintro elem rest rfl
    exact (pop_holds hholds).1
  successor := by
    rintro front elem back rfl
    have hshape : front ++ elem :: back = (front ++ [elem]) ++ back := List.append_cons ..
    rw [List.append_assoc]
    exact Holds.head?_nextElem (hshape ▸ hholds) hholds.next_member (by simp)

/-- The cyclic successor by position. -/
theorem Holds.getElem?_nextElem (hholds : list.Holds links elems) {pos : Nat}
    (hpos : elems[pos]? = some elem) :
    elems[(pos + 1) % elems.length]? = some (list.nextElem links elem) := by
  obtain ⟨hlt, rfl⟩ := List.getElem?_eq_some_iff.mp hpos
  have hsplit : elems = elems.take pos ++ elems[pos] :: elems.drop (pos + 1) := by
    rw [← List.drop_eq_getElem_cons hlt, List.take_append_drop]
  have hnext := hholds.represents.successor _ _ _ hsplit
  by_cases hlast : pos + 1 < elems.length
  · rw [Nat.mod_eq_of_lt hlast, ← hnext, List.drop_eq_getElem_cons hlast]
    exact List.getElem?_eq_getElem hlast
  · have hlength : pos + 1 = elems.length := Nat.le_antisymm hlt (Nat.not_lt.mp hlast)
    have hback : elems.drop (pos + 1) = [] := List.drop_eq_nil_of_le (Nat.not_lt.mp hlast)
    have hfront : elems.take pos ++ [elems[pos]] = elems := by rw [← hback, ← hsplit]
    rw [hback, List.nil_append, hfront] at hnext
    rw [hlength, Nat.mod_self, ← hnext, List.head?_eq_getElem?]

end CycleList

/-! ## One operation -/

namespace Sequences

variable {seqs : Sequences Index Node} {op : ListOp Index Node} {other : Index} {elem : Node}

theorem step_of_ne (hne : other ≠ op.idx) : seqs.step op other = seqs other := by
  cases op <;> exact Function.update_of_ne hne _ _

omit [DecidableEq Node] in
theorem exists_of_mem_map {seq : Option (List Node)} {change : List Node → List Node}
    (hmem : elem ∈ (seq.map change).getD []) :
    ∃ elems, seq.getD [] = elems ∧ elem ∈ change elems := by
  cases seq with
  | none => exact absurd hmem List.not_mem_nil
  | some elems => exact ⟨elems, rfl, hmem⟩

/-- Only what is added is new in a sequence. -/
theorem mem_step (hmem : elem ∈ (seqs.step op other).getD []) :
    elem ∈ (seqs other).getD [] ∨ other = op.idx ∧ op.added = some elem := by
  by_cases hother : other = op.idx
  · subst hother
    cases op with
    | initializeList idx =>
        rw [step, ListOp.idx, Function.update_self] at hmem
        exact absurd hmem List.not_mem_nil
    | append idx new =>
        rw [step, ListOp.idx, Function.update_self] at hmem
        obtain ⟨elems, hseq, hmem⟩ := exists_of_mem_map hmem
        obtain hold | hnew := List.mem_append.mp hmem
        · exact .inl (hseq ▸ hold)
        · exact .inr ⟨rfl, congrArg some (List.mem_singleton.mp hnew).symm⟩
    | push idx new =>
        rw [step, ListOp.idx, Function.update_self] at hmem
        obtain ⟨elems, hseq, hmem⟩ := exists_of_mem_map hmem
        obtain hnew | hold := List.mem_cons.mp hmem
        · exact .inr ⟨rfl, congrArg some hnew.symm⟩
        · exact .inl (hseq ▸ hold)
    | remove idx gone =>
        rw [step, ListOp.idx, Function.update_self] at hmem
        obtain ⟨elems, hseq, hmem⟩ := exists_of_mem_map hmem
        exact .inl (hseq ▸ List.mem_of_mem_erase hmem)
    | pop idx =>
        rw [step, ListOp.idx, Function.update_self] at hmem
        obtain ⟨elems, hseq, hmem⟩ := exists_of_mem_map hmem
        exact .inl (hseq ▸ List.mem_of_mem_tail hmem)
  · rw [step_of_ne hother] at hmem
    exact .inl hmem

end Sequences

namespace CycleLists

variable {lists : CycleLists Index Node} {mem after : ListMemory Index Node}
  {ops : List (ListOp Index Node)} {op : ListOp Index Node} {idx other : Index} {elem node : Node}
  {elems : List Node}

/-- What is kept: every list holds its sequence, and no element is in two lists. -/
structure Good (lists : CycleLists Index Node) (mem : ListMemory Index Node) : Prop where
  holds : ∀ idx elems, mem.seqs idx = some elems → (lists.list idx).Holds mem.links elems
  apart : ∀ idx other, idx ≠ other → ∀ elem ∈ (mem.seqs idx).getD [], elem ∉ lists.nodes mem other

omit [DecidableEq Index] [DecidableEq Node] in
theorem nodes_eq (hseq : mem.seqs idx = some elems) :
    lists.nodes mem idx = (lists.list idx).nodes elems := by
  rw [nodes, hseq, Option.getD_some]

omit [DecidableEq Index] [DecidableEq Node] in
/-- Two lists have no node in common. -/
theorem Good.disjoint (hgood : lists.Good mem) (hne : idx ≠ other)
    (hnode : node ∈ lists.nodes mem idx) : node ∉ lists.nodes mem other := by
  intro hother
  obtain hhead | hmem | htail := CycleList.mem_nodes.mp hnode
  · obtain hhead' | hmem' | htail' := CycleList.mem_nodes.mp hother
    · exact hne (lists.heads (hhead.symm.trans hhead'))
    · exact hgood.apart other idx hne.symm node hmem' hnode
    · exact lists.apart idx other (hhead.symm.trans htail')
  · exact hgood.apart idx other hne node hmem hother
  · obtain hhead' | hmem' | htail' := CycleList.mem_nodes.mp hother
    · exact lists.apart other idx (hhead'.symm.trans htail)
    · exact hgood.apart other idx hne.symm node hmem' hnode
    · exact hne (lists.tails (htail.symm.trans htail'))

omit [DecidableEq Index] [DecidableEq Node] in
theorem outside_of_added (hadmits : lists.Admits mem op) (hadded : op.added = some elem) :
    lists.Outside mem elem := by
  cases op with
  | initializeList idx => exact nomatch hadded
  | append idx new => exact Option.some.inj hadded ▸ hadmits.2
  | push idx new => exact Option.some.inj hadded ▸ hadmits.2
  | remove idx gone => exact nomatch hadded
  | pop idx => exact nomatch hadded

theorem mem_nodes_step [Zero Node] (hnode : node ∈ lists.nodes (lists.step mem op) other) :
    node ∈ lists.nodes mem other ∨ other = op.idx ∧ op.added = some node := by
  obtain hhead | hmem | htail := CycleList.mem_nodes.mp hnode
  · exact .inl (CycleList.mem_nodes.mpr (.inl hhead))
  · obtain hold | hnew := Sequences.mem_step hmem
    · exact .inl (CycleList.mem_nodes.mpr (.inr (.inl hold)))
    · exact .inr hnew
  · exact .inl (CycleList.mem_nodes.mpr (.inr (.inr htail)))

omit [DecidableEq Index] in
/-- The front is removed. -/
theorem perform_pop [Zero Node] {first : Node} {rest : List Node}
    (hholds : (lists.list idx).Holds mem.links (first :: rest)) :
    lists.perform mem.links (.pop idx) = CycleList.remove mem.links first :=
  congrArg (CycleList.remove mem.links) hholds.next_head

/-- The list that an operation is called on. -/
theorem Good.perform_holds [Zero Node] (hgood : lists.Good mem) (hadmits : lists.Admits mem op)
    (hseq : mem.seqs.step op op.idx = some elems) :
    (lists.list op.idx).Holds (lists.perform mem.links op) elems := by
  cases op with
  | initializeList idx =>
      obtain rfl := Option.some.inj ((Function.update_self idx _ _).symm.trans hseq)
      exact CycleList.initializeList_holds (lists.apart idx idx)
  | append idx new =>
      obtain ⟨old, hold⟩ := Option.ne_none_iff_exists'.mp hadmits.1
      rw [Sequences.step, ListOp.idx, Function.update_self, hold] at hseq
      obtain rfl := Option.some.inj hseq
      exact CycleList.append_holds (hgood.holds idx old hold) (nodes_eq hold ▸ hadmits.2 idx)
  | push idx new =>
      obtain ⟨old, hold⟩ := Option.ne_none_iff_exists'.mp hadmits.1
      rw [Sequences.step, ListOp.idx, Function.update_self, hold] at hseq
      obtain rfl := Option.some.inj hseq
      exact CycleList.push_holds (hgood.holds idx old hold) (nodes_eq hold ▸ hadmits.2 idx)
  | remove idx gone =>
      obtain ⟨old, hold, hgone⟩ := hadmits
      have hholds := hgood.holds idx old hold
      rw [Sequences.step, ListOp.idx, Function.update_self, hold] at hseq
      obtain rfl := Option.some.inj hseq
      obtain ⟨front, back, hfront, hsplit, herase⟩ := List.exists_erase_eq hgone
      change (lists.list idx).Holds (CycleList.remove mem.links gone) (old.erase gone)
      rw [herase]
      exact CycleList.remove_holds (hsplit ▸ hholds)
  | pop idx =>
      obtain ⟨old, hold, hne⟩ := hadmits
      obtain ⟨first, rest, rfl⟩ := List.exists_cons_of_ne_nil hne
      rw [Sequences.step, ListOp.idx, Function.update_self, hold] at hseq
      obtain rfl := Option.some.inj hseq
      exact (CycleList.pop_holds (hgood.holds idx _ hold)).2

omit [DecidableEq Index] in
/-- Everything else keeps its links. -/
theorem Good.perform_frame [Zero Node] (hgood : lists.Good mem) (hadmits : lists.Admits mem op)
    (hnode : node ∉ lists.nodes mem op.idx) (hadded : op.added ≠ some node) :
    (lists.perform mem.links op).next node = mem.links.next node ∧
      (lists.perform mem.links op).prev node = mem.links.prev node := by
  cases op with
  | initializeList idx =>
      refine CycleList.initializeList_frame ?_ ?_
      · exact fun heq => hnode (CycleList.mem_nodes.mpr (.inl heq))
      · exact fun heq => hnode (CycleList.mem_nodes.mpr (.inr (.inr heq)))
  | append idx new =>
      obtain ⟨old, hold⟩ := Option.ne_none_iff_exists'.mp hadmits.1
      exact CycleList.append_frame (hgood.holds idx old hold) (nodes_eq hold ▸ hadmits.2 idx)
        (nodes_eq hold ▸ hnode) fun heq => hadded (congrArg some heq.symm)
  | push idx new =>
      obtain ⟨old, hold⟩ := Option.ne_none_iff_exists'.mp hadmits.1
      exact CycleList.push_frame (hgood.holds idx old hold) (nodes_eq hold ▸ hadmits.2 idx)
        (nodes_eq hold ▸ hnode) fun heq => hadded (congrArg some heq.symm)
  | remove idx gone =>
      obtain ⟨old, hold, hgone⟩ := hadmits
      obtain ⟨front, back, rfl⟩ := List.append_of_mem hgone
      exact CycleList.remove_frame (hgood.holds idx _ hold) (.inr (nodes_eq hold ▸ hnode))
  | pop idx =>
      obtain ⟨old, hold, hne⟩ := hadmits
      obtain ⟨first, rest, rfl⟩ := List.exists_cons_of_ne_nil hne
      have hholds : (lists.list idx).Holds mem.links ([] ++ first :: rest) :=
        hgood.holds idx _ hold
      rw [perform_pop hholds]
      exact CycleList.remove_frame hholds (.inr (nodes_eq hold ▸ hnode))

omit [DecidableEq Index] in
/-- The other lists keep their links. -/
theorem Good.perform_other [Zero Node] (hgood : lists.Good mem) (hadmits : lists.Admits mem op)
    (hne : other ≠ op.idx) (hnode : node ∈ lists.nodes mem other) :
    (lists.perform mem.links op).next node = mem.links.next node ∧
      (lists.perform mem.links op).prev node = mem.links.prev node := by
  refine hgood.perform_frame hadmits (hgood.disjoint hne hnode) ?_
  intro hadded
  exact outside_of_added hadmits hadded other hnode

theorem Good.step [Zero Node] (hgood : lists.Good mem) (hadmits : lists.Admits mem op) :
    lists.Good (lists.step mem op) where
  holds idx elems hseq := by
    by_cases hidx : idx = op.idx
    · subst hidx
      exact hgood.perform_holds hadmits hseq
    · have hold : mem.seqs idx = some elems := (Sequences.step_of_ne hidx).symm.trans hseq
      refine (hgood.holds idx elems hold).frame ?_
      intro node hnode
      exact hgood.perform_other hadmits hidx (nodes_eq hold ▸ hnode)
  apart idx other hne elem hmem hother := by
    obtain hold | ⟨rfl, hadded⟩ := Sequences.mem_step hmem
    · obtain hother | ⟨rfl, hadded⟩ := mem_nodes_step hother
      · exact hgood.apart idx other hne elem hold hother
      · refine outside_of_added hadmits hadded idx ?_
        exact CycleList.mem_nodes.mpr (.inr (.inl hold))
    · obtain hother | ⟨hidx, -⟩ := mem_nodes_step hother
      · exact outside_of_added hadmits hadded other hother
      · exact hne hidx.symm

/-! ## Any number of operations -/

/-- Nothing has been initialized. -/
def start (links : Links Node) : ListMemory Index Node := ⟨links, fun _ => none⟩

omit [DecidableEq Index] [DecidableEq Node] in
theorem good_start (lists : CycleLists Index Node) (links : Links Node) :
    lists.Good (start links) where
  holds _ _ hseq := nomatch hseq
  apart _ _ _ _ hmem := absurd hmem List.not_mem_nil

theorem Good.run [Zero Node] (hgood : lists.Good mem) (hrun : lists.Run mem ops after) :
    lists.Good after := by
  refine hrun.invariant lists.Good hgood ?_
  intro before op next hbefore hadmits hnext
  exact Option.some.inj hnext ▸ hbefore.step hadmits

/-- An element that is in no list keeps its links until it is added to one. -/
theorem Good.run_outside [Zero Node] (hgood : lists.Good mem) (houtside : lists.Outside mem elem)
    (hrun : lists.Run mem ops after) (hadded : ∀ op ∈ ops, op.added ≠ some elem) :
    after.links.next elem = mem.links.next elem := by
  -- the invariant needs to know of every operation that it does not add the element
  have hextra : Foundation.Run (fun before op => some (lists.step before op))
      (fun before op => lists.Admits before op ∧ op.added ≠ some elem) mem ops after :=
    hrun.and_events fun op hop _ => hadded op hop
  refine (hextra.invariant (fun state => lists.Good state ∧ lists.Outside state elem ∧
    state.links.next elem = mem.links.next elem) ⟨hgood, houtside, rfl⟩ ?_).2.2
  rintro before op next ⟨hbefore, hout, hsame⟩ ⟨hadmits, hnew⟩ hnext
  obtain rfl := Option.some.inj hnext
  refine ⟨hbefore.step hadmits, ?_, ?_⟩
  · intro idx hnode
    obtain hold | ⟨-, hadd⟩ := mem_nodes_step hnode
    · exact hout idx hold
    · exact hnew hadd
  · exact (hbefore.perform_frame hadmits (hout op.idx) hnew).1.trans hsame

/-- An element that was just removed is in no list and still points at its neighbours. -/
theorem Good.remove [Zero Node] {front back : List Node} (hgood : lists.Good mem)
    (hseq : mem.seqs idx = some (front ++ elem :: back)) :
    lists.Admits mem (.remove idx elem) ∧ lists.Outside (lists.step mem (.remove idx elem)) elem ∧
      (lists.step mem (.remove idx elem)).links.next elem = back.headD (lists.list idx).tail := by
  have hholds := hgood.holds idx _ hseq
  have hmem : elem ∈ front ++ elem :: back := List.mem_append_right front List.mem_cons_self
  refine ⟨⟨_, hseq, hmem⟩, ?_, ?_⟩
  · intro other hnode
    by_cases hother : other = idx
    · subst hother
      have hstep : (lists.step mem (.remove other elem)).seqs other =
          some ((front ++ elem :: back).erase elem) := by
        change Function.update _ _ _ _ = _
        rw [Function.update_self, hseq]
        rfl
      rw [nodes_eq hstep] at hnode
      obtain hhead | hleft | htail := CycleList.mem_nodes.mp hnode
      · exact hholds.head_notMem (hhead ▸ hmem)
      · exact (List.Nodup.mem_erase_iff hholds.nodup).mp hleft |>.1 rfl
      · exact hholds.tail_notMem (htail ▸ hmem)
    · obtain hold | ⟨hidx, -⟩ := mem_nodes_step hnode
      · refine hgood.apart idx other (Ne.symm hother) elem ?_ hold
        rw [hseq]
        exact hmem
      · exact hother hidx
  · exact (CycleList.remove_frame hholds (.inl rfl)).1.trans hholds.next_member

/-- Whatever the operations are, every list represents its sequence, an operation leaves the cells
of the other lists alone, and a removed element still finds its successor as long as that is in
its place. -/
theorem run_represents [Zero Node] (lists : CycleLists Index Node) (links : Links Node)
    (hrun : lists.Run (start links) ops mem) :
    (∀ idx elems, mem.seqs idx = some elems →
        (lists.list idx).Represents mem.links elems) ∧
      (∀ op, lists.Admits mem op → ∀ other, other ≠ op.idx → ∀ node ∈ lists.nodes mem other,
        (lists.perform mem.links op).next node = mem.links.next node ∧
          (lists.perform mem.links op).prev node = mem.links.prev node) ∧
      ∀ idx elem front back, mem.seqs idx = some (front ++ elem :: back) →
        ∀ more after, lists.Run (lists.step mem (.remove idx elem)) more after →
          (∀ op ∈ more, op.added ≠ some elem) →
          ∀ front' back', after.seqs idx = some (front' ++ back') → front' ++ back' ≠ [] →
            back'.head? = back.head? →
              (back' ++ front').head? = some ((lists.list idx).nextElem after.links elem) := by
  have hgood := (good_start lists links).run hrun
  refine ⟨?_, ?_, ?_⟩
  · intro idx elems hseq
    exact (hgood.holds idx elems hseq).represents
  · intro op hadmits other hne node hnode
    exact hgood.perform_other hadmits hne hnode
  · intro idx elem front back hseq more after hmore hadded front' back' hafter hne hback
    obtain ⟨hadmits, houtside, hnext⟩ := hgood.remove hseq
    have hremoved := hgood.step hadmits
    have hsame := hremoved.run_outside houtside hmore hadded
    refine ((hremoved.run hmore).holds idx _ hafter).head?_nextElem ?_ hne
    rw [hsame, hnext, List.headD_eq_head?_getD, List.headD_eq_head?_getD, hback]

/-- Two lists in a memory of numbers. -/
def twoLists : CycleLists Bool Nat where
  list idx := ⟨if idx then 1 else 3, if idx then 2 else 4⟩
  heads := by unfold Function.Injective; decide
  tails := by unfold Function.Injective; decide
  apart := by decide

/-- Both are initialized, and two elements go to one of them. -/
def filled : ListMemory Bool Nat :=
  [.initializeList true, .initializeList false, .append true 10, .push true 11].foldl twoLists.step
    (start ⟨id, id⟩)

theorem run_filled :
    twoLists.Run (start ⟨id, id⟩) ([] ++ [.initializeList true] ++ [.initializeList false] ++
      [.append true 10] ++ [.push true 11]) filled := by
  refine .snoc (.snoc (.snoc (.snoc .nil trivial rfl) trivial rfl) ⟨nofun, ?_⟩ rfl) ⟨nofun, ?_⟩ rfl
  · unfold Outside
    decide
  · unfold Outside
    decide

/-- The first of the two elements is removed, and its successor is the other one. -/
theorem run_represents_filled :
    (twoLists.list true).Represents filled.links [11, 10] ∧
      (twoLists.list true).nextElem (twoLists.step filled (.remove true 11)).links 11 = 10 := by
  obtain ⟨hrepresents, -, hremoved⟩ := run_represents twoLists ⟨id, id⟩ run_filled
  refine ⟨hrepresents true [11, 10] rfl, ?_⟩
  have hnext := hremoved true 11 [] [10] rfl [] _ .nil nofun [] [10] rfl nofun rfl
  exact (Option.some.inj hnext).symm

end CycleLists

end Shmily.Lib
