import Shmily.Foundation.LinkedSpine

/-! # The intrusive list `CycleList`

The list object owns two sentinel elements, `head` and `tail`; the members are
`cyclelist_elem` records embedded in the objects that are queued. Members keep
their own links after a removal, so a removed element still points at its
former neighbours.
-/

namespace Shmily.Lib

open Foundation

universe uNode

/-- The addresses of the two sentinel elements of a list object. -/
structure CycleList (Node : Type uNode) where
  head : Node
  tail : Node

namespace CycleList

variable {Node : Type uNode} [DecidableEq Node]

/-- `CycleList::initialize`; `0` is the null pointer. -/
def initializeList [Zero Node] (list : CycleList Node) (links : Links Node) : Links Node :=
  (((links.setPrev list.head 0).setNext list.tail 0).setNext list.head list.tail).setPrev
    list.tail list.head

/-- `CycleList::append`: the element becomes the last one. -/
def append (list : CycleList Node) (links : Links Node) (elem : Node) : Links Node :=
  let links := (links.setPrev elem (links.prev list.tail)).setNext elem list.tail
  (links.setNext (links.prev list.tail) elem).setPrev list.tail elem

/-- `CycleList::push`: the element becomes the first one. -/
def push (list : CycleList Node) (links : Links Node) (elem : Node) : Links Node :=
  let links := (links.setPrev elem list.head).setNext elem (links.next list.head)
  (links.setPrev (links.next list.head) elem).setNext list.head elem

/-- `CycleList::remove` does not look at the list object. -/
def remove (links : Links Node) (elem : Node) : Links Node :=
  let links := links.setPrev (links.next elem) (links.prev elem)
  links.setNext (links.prev elem) (links.next elem)

/-- `CycleList::pop`: the removed element is returned. -/
def pop (list : CycleList Node) (links : Links Node) : Links Node × Node :=
  (remove links (links.next list.head), links.next list.head)

/-- `CycleList::is_empty`. -/
def isEmpty (list : CycleList Node) (links : Links Node) : Bool :=
  links.next list.head = list.tail

/-- The loop of `CycleList::get_length`, from an element on. It returns only if
the tail is met within the given number of links. -/
def lengthFrom (list : CycleList Node) (links : Links Node) : Nat → Node → Option Nat
  | 0, _ => none
  | fuel + 1, elem =>
      if elem = list.tail then some 0
      else (lengthFrom list links fuel (links.next elem)).map (· + 1)

/-- `CycleList::get_length`. -/
def getLength (list : CycleList Node) (links : Links Node) (fuel : Nat) : Option Nat :=
  list.lengthFrom links fuel (links.next list.head)

/-- `CycleList::get_elem`. The counting loop of the source has an empty body, so
every index below the length yields the first element. -/
def getElem [Zero Node] (list : CycleList Node) (links : Links Node) (fuel idx : Nat) :
    Option Node :=
  (list.getLength links fuel).map fun length =>
    if length ≤ idx then 0 else links.next list.head

/-- `CycleList::get_elem(0)` on a list whose links do reach the tail. -/
def firstElem [Zero Node] (list : CycleList Node) (links : Links Node) : Node :=
  if list.isEmpty links then 0 else links.next list.head

/-- `CycleList::next_elem`: the successor, or the first element after the last. -/
def nextElem (list : CycleList Node) (links : Links Node) (elem : Node) : Node :=
  if links.next elem = list.tail then links.next list.head else links.next elem

/-- All nodes of the list, sentinels included. -/
def nodes (list : CycleList Node) (elems : List Node) : List Node :=
  list.head :: (elems ++ [list.tail])

/-- The list object holds exactly the given elements, in this order. -/
def Holds (list : CycleList Node) (links : Links Node) (elems : List Node) : Prop :=
  links.Spine (list.nodes elems)

instance (list : CycleList Node) (links : Links Node) (elems : List Node) :
    Decidable (list.Holds links elems) := inferInstanceAs (Decidable (links.Spine _))

variable {list : CycleList Node} {links other : Links Node} {elems front back : List Node}
  {elem node : Node}

omit [DecidableEq Node] in
theorem mem_nodes : node ∈ list.nodes elems ↔ node = list.head ∨ node ∈ elems ∨ node = list.tail := by
  simp [nodes]

omit [DecidableEq Node] in
theorem Holds.frame (hholds : list.Holds links elems)
    (hsame : ∀ node ∈ list.nodes elems, other.next node = links.next node ∧
      other.prev node = links.prev node) :
    list.Holds other elems :=
  Links.Spine.frame hholds hsame

omit [DecidableEq Node] in
theorem Holds.nodup (hholds : list.Holds links elems) : elems.Nodup :=
  (Links.Spine.nodup hholds).sublist (by simp [nodes])

omit [DecidableEq Node] in
theorem Holds.head_notMem (hholds : list.Holds links elems) : list.head ∉ elems := by
  have hnodup := Links.Spine.nodup hholds
  simp only [nodes, List.nodup_cons, List.mem_append] at hnodup
  exact fun hmem => hnodup.1 (.inl hmem)

omit [DecidableEq Node] in
theorem Holds.tail_notMem (hholds : list.Holds links elems) : list.tail ∉ elems := by
  have hnodup := Links.Spine.nodup hholds
  simp only [nodes, List.nodup_cons, List.nodup_append] at hnodup
  exact fun hmem => hnodup.2.2.2 _ hmem _ (by simp) rfl

omit [DecidableEq Node] in
theorem Holds.head_ne_tail (hholds : list.Holds links elems) : list.head ≠ list.tail := by
  have hnodup := Links.Spine.nodup hholds
  simp only [nodes, List.nodup_cons, List.mem_append] at hnodup
  exact fun heq => hnodup.1 (.inr (by simp [heq]))

omit [DecidableEq Node] in
/-- The first member, or the tail of an empty list. -/
theorem Holds.next_head (hholds : list.Holds links elems) :
    links.next list.head = elems.headD list.tail := by
  have hjoined := Links.Spine.joined hholds
  cases elems with
  | nil => exact (List.isChain_cons_cons.mp hjoined).1.1
  | cons first rest => exact (List.isChain_cons_cons.mp hjoined).1.1

omit [DecidableEq Node] in
/-- The nodes next to a member, sentinels included. -/
theorem Holds.exists_around (hholds : list.Holds links (front ++ elem :: back)) :
    ∃ before after, list.head :: front = before ++ [links.prev elem] ∧
      back ++ [list.tail] = links.next elem :: after := by
  obtain ⟨before, left, hleft⟩ := (List.eq_nil_or_concat (list.head :: front)).resolve_left
    (by simp)
  rw [List.concat_eq_append] at hleft
  obtain ⟨right, after, hright⟩ : ∃ right after, back ++ [list.tail] = right :: after := by
    cases back <;> simp
  have hnodes : list.nodes (front ++ elem :: back) =
      (list.head :: front) ++ elem :: (back ++ [list.tail]) := by simp [nodes]
  have hspine : links.Spine (before ++ left :: elem :: right :: after) := by
    rw [Holds, hnodes, hleft, hright] at hholds
    simpa using hholds
  have hafter : links.Spine ((before ++ [left]) ++ elem :: right :: after) := by
    simpa using hspine
  refine ⟨before, after, ?_, ?_⟩
  · rw [hleft, hspine.joined_at.2]
  · rw [hright, hafter.joined_at.1]

omit [DecidableEq Node] in
/-- The links determine what a list holds: the same members follow every node. -/
theorem Holds.unique_from {node : Node} {left right : List Node}
    (hleft : (node :: (left ++ [list.tail])).IsChain links.Joined) (hnotLeft : list.tail ∉ left)
    (hright : (node :: (right ++ [list.tail])).IsChain links.Joined)
    (hnotRight : list.tail ∉ right) : left = right := by
  induction left generalizing node right with
  | nil =>
      cases right with
      | nil => rfl
      | cons first rest =>
          have htail := (List.isChain_cons_cons.mp hleft).1.1
          have hfirst := (List.isChain_cons_cons.mp hright).1.1
          exact absurd (htail.symm.trans hfirst) fun heq => hnotRight (by simp [heq])
  | cons first rest ih =>
      have hfirst := (List.isChain_cons_cons.mp hleft).1.1
      cases right with
      | nil =>
          have htail := (List.isChain_cons_cons.mp hright).1.1
          exact absurd (htail.symm.trans hfirst) fun heq => hnotLeft (by simp [heq])
      | cons second others =>
          have hsecond := (List.isChain_cons_cons.mp hright).1.1
          obtain rfl := hfirst.symm.trans hsecond
          rw [List.mem_cons, not_or] at hnotLeft hnotRight
          rw [ih (List.isChain_cons_cons.mp hleft).2 hnotLeft.2
            (List.isChain_cons_cons.mp hright).2 hnotRight.2]

omit [DecidableEq Node] in
theorem Holds.unique {left right : List Node} (hleft : list.Holds links left)
    (hright : list.Holds links right) : left = right :=
  Holds.unique_from (Links.Spine.joined hleft) hleft.tail_notMem (Links.Spine.joined hright)
    hright.tail_notMem

omit [DecidableEq Node] in
/-- What follows a member is the tail or a member. -/
theorem Holds.next_mem (hholds : list.Holds links elems) (hmem : elem ∈ elems) :
    links.next elem = list.tail ∨ links.next elem ∈ elems := by
  obtain ⟨front, back, rfl⟩ := List.append_of_mem hmem
  obtain ⟨-, after, -, hafter⟩ := hholds.exists_around
  have hnext : links.next elem ∈ back ++ [list.tail] := by simp [hafter]
  rcases List.mem_append.mp hnext with hback | htail
  · exact .inr (by simp [hback])
  · exact .inl (List.mem_singleton.mp htail)

/-- An initialized list is empty. -/
theorem initializeList_holds [Zero Node] (hne : list.head ≠ list.tail) :
    list.Holds (list.initializeList links) [] := by
  refine ⟨?_, ?_⟩
  · simp [nodes, initializeList, Links.Joined]
  · simp [nodes, hne]

theorem initializeList_frame [Zero Node] (hhead : node ≠ list.head) (htail : node ≠ list.tail) :
    (list.initializeList links).next node = links.next node ∧
      (list.initializeList links).prev node = links.prev node := by
  simp [initializeList, hhead, htail]

omit [DecidableEq Node] in
/-- The node before the tail, sentinel included, is the one the tail points back to. -/
theorem Holds.exists_before_tail (hholds : list.Holds links elems) :
    ∃ before, list.head :: elems = before ++ [links.prev list.tail] := by
  obtain ⟨before, last, hlast⟩ := (List.eq_nil_or_concat (list.head :: elems)).resolve_left
    (by simp)
  rw [List.concat_eq_append] at hlast
  have hspine : links.Spine (before ++ last :: list.tail :: []) := by
    have hnodes : list.nodes elems = (list.head :: elems) ++ [list.tail] := rfl
    rw [Holds, hnodes, hlast] at hholds
    simpa using hholds
  exact ⟨before, by rw [hlast, hspine.joined_at.2]⟩

theorem append_holds (hholds : list.Holds links elems) (hfresh : elem ∉ list.nodes elems) :
    list.Holds (list.append links elem) (elems ++ [elem]) := by
  obtain ⟨before, hbefore⟩ := hholds.exists_before_tail
  have htail : list.tail ≠ elem := by
    rintro rfl
    exact hfresh (by simp [nodes])
  have hlast : links.prev list.tail ≠ elem := by
    intro heq
    have hmem : links.prev list.tail ∈ list.head :: elems := by simp [hbefore]
    exact hfresh (by rw [heq] at hmem; simp only [nodes, List.mem_cons, List.mem_append] at hmem ⊢
                     tauto)
  have hspine : links.Spine (before ++ links.prev list.tail :: list.tail :: []) := by
    have hnodes : list.nodes elems = (list.head :: elems) ++ [list.tail] := rfl
    rw [Holds, hnodes, hbefore] at hholds
    simpa using hholds
  have hnodes : list.nodes (elems ++ [elem]) =
      before ++ links.prev list.tail :: elem :: list.tail :: [] := by
    have hshape : list.nodes (elems ++ [elem]) = (list.head :: elems) ++ [elem, list.tail] := by
      simp [nodes]
    rw [hshape, hbefore]
    simp
  have hfresh' : elem ∉ before ++ links.prev list.tail :: list.tail :: [] := by
    have hshape : list.nodes elems = before ++ links.prev list.tail :: list.tail :: [] := by
      have hsplit : list.nodes elems = (list.head :: elems) ++ [list.tail] := rfl
      rw [hsplit, hbefore]
      simp
    rwa [← hshape]
  rw [Holds, hnodes]
  apply hspine.insert hfresh'
  · simp [append, htail]
  · simp [append, htail.symm]
  · simp [append, htail, hlast.symm]
  · simp [append]
  · intro node hnode helem
    simp [append, htail, hnode, helem]
  · intro node hnode helem
    simp [append, hnode, helem]

theorem append_frame (hholds : list.Holds links elems) (hfresh : elem ∉ list.nodes elems)
    (hnode : node ∉ list.nodes elems) (hne : node ≠ elem) :
    (list.append links elem).next node = links.next node ∧
      (list.append links elem).prev node = links.prev node := by
  obtain ⟨before, hbefore⟩ := hholds.exists_before_tail
  have htail : list.tail ≠ elem := by
    rintro rfl
    exact hfresh (by simp [nodes])
  have hnodeTail : node ≠ list.tail := by
    rintro rfl
    exact hnode (by simp [nodes])
  have hlast : node ≠ links.prev list.tail := by
    rintro rfl
    have hmem : links.prev list.tail ∈ list.head :: elems := by simp [hbefore]
    apply hnode
    simp only [nodes, List.mem_cons, List.mem_append] at hmem ⊢
    tauto
  simp [append, hne, htail, hnodeTail, hlast]

theorem push_holds (hholds : list.Holds links elems) (hfresh : elem ∉ list.nodes elems) :
    list.Holds (list.push links elem) (elem :: elems) := by
  have hhead : list.head ≠ elem := by
    rintro rfl
    exact hfresh (by simp [nodes])
  have hne := hholds.head_ne_tail
  obtain ⟨first, rest, hfirst⟩ : ∃ first rest, elems ++ [list.tail] = first :: rest := by
    cases elems <;> simp
  have hspine : links.Spine ([] ++ list.head :: first :: rest) := by
    simpa [Holds, nodes, hfirst] using hholds
  have hnext : links.next list.head = first := hspine.joined_at.1
  have helem : first ≠ elem := by
    rintro rfl
    exact hfresh (by simp [nodes, hfirst])
  have hnodes : list.nodes (elem :: elems) = [] ++ list.head :: elem :: first :: rest := by
    simp [nodes, hfirst]
  rw [Holds, hnodes]
  apply hspine.insert (by simpa [nodes, hfirst] using hfresh)
  · simp [push]
  · simp [push, hhead, hnext, helem.symm]
  · simp [push, hhead.symm, hnext]
  · simp [push, hhead, hnext]
  · intro node hnode hother
    simp [push, hnode, hother]
  · intro node hnode hother
    simp [push, hhead, hnext, hnode, hother]

theorem push_frame (hholds : list.Holds links elems) (hfresh : elem ∉ list.nodes elems)
    (hnode : node ∉ list.nodes elems) (hne : node ≠ elem) :
    (list.push links elem).next node = links.next node ∧
      (list.push links elem).prev node = links.prev node := by
  have hhead : list.head ≠ elem := by
    rintro rfl
    exact hfresh (by simp [nodes])
  have hnodeHead : node ≠ list.head := by
    rintro rfl
    exact hnode (by simp [nodes])
  have hfirst : node ≠ links.next list.head := by
    rw [hholds.next_head]
    rintro rfl
    apply hnode
    cases elems <;> simp [nodes]
  simp [push, hne, hhead, hnodeHead, hfirst]

theorem remove_holds (hholds : list.Holds links (front ++ elem :: back)) :
    list.Holds (remove links elem) (front ++ back) := by
  obtain ⟨before, after, hbefore, hafter⟩ := hholds.exists_around
  have hspine : links.Spine
      (before ++ links.prev elem :: elem :: links.next elem :: after) := by
    have hnodes : list.nodes (front ++ elem :: back) =
        (list.head :: front) ++ elem :: (back ++ [list.tail]) := by simp [nodes]
    rw [Holds, hnodes, hbefore, hafter] at hholds
    simpa using hholds
  have hnodes : list.nodes (front ++ back) =
      before ++ links.prev elem :: links.next elem :: after := by
    have hshape : list.nodes (front ++ back) = (list.head :: front) ++ (back ++ [list.tail]) := by
      simp [nodes]
    rw [hshape, hbefore, hafter]
    simp
  have hnext : elem ≠ links.next elem := by
    intro heq
    have hnodup := (List.nodup_append.mp hspine.nodup).2.1
    simp [← heq] at hnodup
  rw [Holds, hnodes]
  apply hspine.remove
  · simp [remove, hnext]
  · simp [remove]
  · intro node hnode
    simp [remove, hnext, hnode]
  · intro node hnode
    simp [remove, hnode]

/-- Removal edits only nodes of the list, and not the removed element itself. -/
theorem remove_frame (hholds : list.Holds links (front ++ elem :: back))
    (hnode : node = elem ∨ node ∉ list.nodes (front ++ elem :: back)) :
    (remove links elem).next node = links.next node ∧
      (remove links elem).prev node = links.prev node := by
  obtain ⟨before, after, hbefore, hafter⟩ := hholds.exists_around
  have hnodes : list.nodes (front ++ elem :: back) =
      before ++ links.prev elem :: elem :: links.next elem :: after := by
    have hshape : list.nodes (front ++ elem :: back) =
        (list.head :: front) ++ elem :: (back ++ [list.tail]) := by simp [nodes]
    rw [hshape, hbefore, hafter]
    simp
  have hspine : links.Spine
      (before ++ links.prev elem :: elem :: links.next elem :: after) := by
    rw [← hnodes]
    exact hholds
  have hnodup := (List.nodup_append.mp hspine.nodup).2.1
  have hnext : elem ≠ links.next elem := by
    intro heq
    simp [← heq] at hnodup
  have hprev : elem ≠ links.prev elem := by
    intro heq
    simp [← heq] at hnodup
  have houtside : node ≠ links.prev elem ∧ node ≠ links.next elem := by
    rcases hnode with rfl | hnode
    · exact ⟨hprev, hnext⟩
    · rw [hnodes] at hnode
      simp only [List.mem_append, List.mem_cons, not_or] at hnode
      exact ⟨hnode.2.1, hnode.2.2.2.1⟩
  simp [remove, hnext, houtside.1, houtside.2]

theorem pop_holds (hholds : list.Holds links (elem :: elems)) :
    (list.pop links).2 = elem ∧ list.Holds (list.pop links).1 elems := by
  have hfirst : links.next list.head = elem := hholds.next_head
  refine ⟨hfirst, ?_⟩
  have hsplit : list.Holds links ([] ++ elem :: elems) := hholds
  simp only [pop, hfirst]
  exact remove_holds hsplit

theorem isEmpty_iff (hholds : list.Holds links elems) :
    list.isEmpty links = true ↔ elems = [] := by
  simp only [isEmpty, decide_eq_true_eq, hholds.next_head]
  cases elems with
  | nil => simp
  | cons first rest =>
      simp only [List.headD_cons, reduceCtorEq, iff_false]
      rintro rfl
      exact hholds.tail_notMem (by simp)

/-- The successor of a member, or of an element just removed, is a member. -/
theorem nextElem_mem (hholds : list.Holds links elems) (hne : elems ≠ [])
    (hnext : links.next elem = list.tail ∨ links.next elem ∈ elems) :
    list.nextElem links elem ∈ elems := by
  unfold nextElem
  split
  next htail =>
    rw [hholds.next_head]
    cases elems with
    | nil => exact absurd rfl hne
    | cons first rest => simp
  next htail => exact hnext.resolve_left htail

theorem lengthFrom_eq (hholds : list.Holds links (front ++ back)) {fuel : Nat}
    (hfuel : back.length < fuel) :
    list.lengthFrom links fuel (back.headD list.tail) = some back.length := by
  induction back generalizing front fuel with
  | nil =>
      cases fuel with
      | zero => simp at hfuel
      | succ fuel => simp [lengthFrom]
  | cons first rest ih =>
      cases fuel with
      | zero => simp at hfuel
      | succ fuel =>
          have hfirst : first ≠ list.tail := by
            rintro rfl
            exact hholds.tail_notMem (by simp)
          obtain ⟨-, after, -, hafter⟩ := hholds.exists_around
          have hnext : links.next first = rest.headD list.tail := by
            cases rest <;> simp_all
          have hrest : list.Holds links ((front ++ [first]) ++ rest) := by simpa using hholds
          simp only [List.length_cons] at hfuel
          have hlength : list.lengthFrom links fuel (rest.headD list.tail) = some rest.length :=
            ih hrest (by omega)
          simp only [lengthFrom, List.headD_cons, hfirst, if_false, hnext, hlength,
            Option.map_some, List.length_cons]

/-- `get_length` counts the members once the bound on its loop exceeds their number. -/
theorem getLength_eq (hholds : list.Holds links elems) {fuel : Nat}
    (hfuel : elems.length < fuel) : list.getLength links fuel = some elems.length := by
  have hsplit : list.Holds links ([] ++ elems) := hholds
  rw [getLength, hholds.next_head]
  exact lengthFrom_eq hsplit hfuel

/-- On a list that holds some elements, every call of `get_elem` with an index
below their number terminates and yields the first of them. -/
theorem getElem_eq_firstElem [Zero Node] (hholds : list.Holds links elems) {fuel idx : Nat}
    (hfuel : elems.length < fuel) (hidx : idx < elems.length) :
    list.getElem links fuel idx = some (list.firstElem links) := by
  have hempty : list.isEmpty links ≠ true := by
    rw [Ne, isEmpty_iff hholds]
    rintro rfl
    simp at hidx
  simp [getElem, getLength_eq hholds hfuel, firstElem, hempty, Nat.not_le.mpr hidx]

end CycleList

end Shmily.Lib
