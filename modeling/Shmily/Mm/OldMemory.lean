import Shmily.Foundation.Responses
import Shmily.Mm.HeapSafety

/-! # What the memory held before

`DoublebitMap::initialize` fills no byte, so the two-bit map starts with what
the memory held before. A slot whose two bits are not clear then is taken for
ever. Two managers return the same addresses to clients that free what they hold
when they start with the same free slots, whatever the codes of the others are, and
only then; and to all clients when they start with the same codes, and only then.
What the bitmap of physical pages held before makes no difference.
-/

namespace Shmily.Mm

open Foundation Lib MemoryManager

/-! ## Managers that differ in their maps -/

/-- Two managers that differ in the pages behind the heap and in their two-bit maps only. -/
structure SameBut (related : DoublebitMap → DoublebitMap → Prop) (mm other : MemoryManager) :
    Prop where
  map : related mm.vaddrBmap other.vaddrBmap
  start_eq : other.vaddrStart = mm.vaddrStart
  exhausted_eq : other.virExhausted = mm.virExhausted
  desc_eq : other.memDesc = mm.memDesc
  memory_eq : other.memory = mm.memory

/-- Maps that no search can tell apart. -/
structure Unseen (related : DoublebitMap → DoublebitMap → Prop) : Prop where
  slots_eq : ∀ {bmap other}, related bmap other → other.slots = bmap.slots
  found_eq : ∀ {bmap other}, related bmap other → ∀ cnt,
    (other.getFreeSlots cnt).2 = (bmap.getFreeSlots cnt).2
  kept : ∀ {bmap other}, related bmap other → ∀ cnt,
    related (bmap.getFreeSlots cnt).1 (other.getFreeSlots cnt).1

namespace SameBut

variable {related : DoublebitMap → DoublebitMap → Prop} {mm other : MemoryManager}

theorem getVirPage (hunseen : Unseen related) (hsame : SameBut related mm other) (cnt : Nat) :
    SameBut related (mm.getVirPage cnt).1 (other.getVirPage cnt).1 ∧
      (mm.getVirPage cnt).2 = (other.getVirPage cnt).2 := by
  have hmap := hunseen.kept hsame.map cnt
  rw [MemoryManager.getVirPage, MemoryManager.getVirPage, hunseen.found_eq hsame.map cnt]
  cases (mm.vaddrBmap.getFreeSlots cnt).2 with
  | none => exact ⟨⟨hmap, hsame.start_eq, rfl, hsame.desc_eq, hsame.memory_eq⟩, rfl⟩
  | some start =>
      refine ⟨⟨hmap, hsame.start_eq, hsame.exhausted_eq, hsame.desc_eq, hsame.memory_eq⟩, ?_⟩
      simp only [hsame.start_eq]

theorem mallocPage (hunseen : Unseen related) (hsame : SameBut related mm other) (cnt : Nat) :
    SameBut related (mm.mallocPage cnt).1 (other.mallocPage cnt).1 ∧
      (mm.mallocPage cnt).2 = (other.mallocPage cnt).2 := by
  obtain ⟨htaken, haddr⟩ := hsame.getVirPage hunseen cnt
  exact ⟨⟨htaken.map, htaken.start_eq, htaken.exhausted_eq, htaken.desc_eq, htaken.memory_eq⟩, haddr⟩

theorem withMemory (hsame : SameBut related mm other) (memory : Memory) :
    SameBut related { mm with memory := memory } { other with memory := memory } :=
  ⟨hsame.map, hsame.start_eq, hsame.exhausted_eq, hsame.desc_eq, rfl⟩

theorem mallocLarge (hunseen : Unseen related) (hsame : SameBut related mm other) (cntBytes : Nat) :
    SameBut related (mm.mallocLarge cntBytes).1 (other.mallocLarge cntBytes).1 ∧
      (mm.mallocLarge cntBytes).2 = (other.mallocLarge cntBytes).2 := by
  obtain ⟨htaken, haddr⟩ := hsame.mallocPage hunseen (pageCnt cntBytes)
  simp only [MemoryManager.mallocLarge, ← haddr, htaken.memory_eq]
  exact ⟨htaken.withMemory _, trivial⟩

theorem newBlock (hunseen : Unseen related) (hsame : SameBut related mm other)
    (list : CycleList Nat) (descIdx : Nat) :
    SameBut related (mm.newBlock list descIdx).1 (other.newBlock list descIdx).1 ∧
      (mm.newBlock list descIdx).2 = (other.newBlock list descIdx).2 := by
  obtain ⟨htaken, haddr⟩ := hsame.mallocPage hunseen 1
  simp only [MemoryManager.newBlock, ← haddr, htaken.memory_eq]
  exact ⟨htaken.withMemory _, trivial⟩

theorem reuseBlock (hsame : SameBut related mm other) (list : CycleList Nat) (page : Nat) :
    SameBut related (mm.reuseBlock list page).1 (other.reuseBlock list page).1 ∧
      (mm.reuseBlock list page).2 = (other.reuseBlock list page).2 := by
  simp only [MemoryManager.reuseBlock, hsame.memory_eq]
  exact ⟨hsame.withMemory _, trivial⟩

theorem findPage (hunseen : Unseen related) (hsame : SameBut related mm other) (descIdx : Nat) :
    other.findPage descIdx = mm.findPage descIdx := by
  have hbound : other.listBound = mm.listBound := by
    rw [listBound, listBound, hunseen.slots_eq hsame.map]
  have hscan : ∀ (list : CycleList Nat) (left i : Nat),
      other.scanPages list left i = mm.scanPages list left i := by
    intro list left
    induction left with
    | zero => exact fun _ => rfl
    | succ left ih =>
        intro i
        simp only [scanPages, hbound, hsame.memory_eq, ih]
  simp only [MemoryManager.findPage, desc, hsame.desc_eq, hsame.memory_eq, hbound, hscan]

/-- `malloc` does not see the difference. -/
theorem malloc (hunseen : Unseen related) (hsame : SameBut related mm other) (cntBytes : Nat) :
    Matches (SameBut related) (mm.malloc cntBytes) (other.malloc cntBytes) := by
  rw [MemoryManager.malloc, MemoryManager.malloc]
  split
  next => exact .some ⟨hsame, rfl⟩
  next =>
    split
    next => exact .some (hsame.mallocLarge hunseen cntBytes)
    next =>
      simp only [mallocSmall, hsame.findPage hunseen]
      cases descIdxOf cntBytes with
      | none => exact .none
      | some descIdx =>
          have hdesc : other.desc descIdx = mm.desc descIdx := by rw [desc, desc, hsame.desc_eq]
          rw [Option.bind_some, Option.bind_some, hdesc]
          cases mm.findPage descIdx with
          | none => exact .none
          | some found =>
              cases found with
              | none => exact .some (hsame.newBlock hunseen _ _)
              | some page => exact .some (hsame.reuseBlock _ _)

end SameBut

/-! ## Maps that are the same -/

theorem unseen_eq : Unseen Eq where
  slots_eq heq := by rw [heq]
  found_eq heq _ := by rw [heq]
  kept heq _ := by rw [heq]

theorem sameBut_withPaging (mm : MemoryManager) (paging : Paging) :
    SameBut Eq mm { mm with paging := paging } := ⟨rfl, rfl, rfl, rfl, rfl⟩

theorem SameBut.eq_withPaging {mm other : MemoryManager} (hsame : SameBut Eq mm other) :
    other = { mm with paging := other.paging } := by
  cases other
  obtain ⟨rfl, rfl, rfl, rfl, rfl⟩ := hsame
  rfl

theorem freePage_withPaging (mm : MemoryManager) (paging : Paging) (viraddr : Nat) :
    Option.Rel (SameBut Eq) (mm.freePage viraddr)
      ({ mm with paging := paging }.freePage viraddr) := by
  rw [freePage, freePage]
  cases mm.vaddrBmap.freeSlots (subU32 viraddr mm.vaddrStart / pageSize) with
  | none => exact .none
  | some freed => exact .some ⟨rfl, rfl, rfl, rfl, rfl⟩

/-- `free` does not see the physical pages, whatever address it is given. -/
theorem SameBut.free {mm other : MemoryManager} (hsame : SameBut Eq mm other) (buf : Nat) :
    Option.Rel (SameBut Eq) (mm.free buf) (other.free buf) := by
  rw [hsame.eq_withPaging, MemoryManager.free, MemoryManager.free]
  split
  next => exact freePage_withPaging mm _ buf
  next =>
    simp only [freeSmall]
    cases descIdxOf _ with
    | none => exact .none
    | some descIdx =>
        rw [Option.bind_some, Option.bind_some]
        split
        next => exact freePage_withPaging { mm with memory := _ } _ _
        next =>
          split
          next => exact .some (sameBut_withPaging { mm with memory := _ } _)
          next => exact .some (sameBut_withPaging { mm with memory := _ } _)

/-! ## Maps that agree off the garbage -/

/-- Two maps agree but for slots that are free in neither. -/
structure AgreeOff (garbage : Nat → Prop) (bmap other : DoublebitMap) : Prop where
  length : other.bytesLen = bmap.bytesLen
  same : ∀ slot < bmap.slots, ¬ garbage slot → other.getSlotStatus slot = bmap.getSlotStatus slot
  taken : ∀ slot < bmap.slots, garbage slot → ¬ bmap.IsFree slot ∧ ¬ other.IsFree slot

namespace AgreeOff

variable {garbage : Nat → Prop} {bmap other : DoublebitMap} {slot start cnt : Nat}

theorem slots_eq (hagree : AgreeOff garbage bmap other) : other.slots = bmap.slots := by
  rw [DoublebitMap.slots, hagree.length, DoublebitMap.slots]

theorem isFree_iff (hagree : AgreeOff garbage bmap other) (hslot : slot < bmap.slots) :
    other.IsFree slot ↔ bmap.IsFree slot := by
  by_cases hgarbage : garbage slot
  · obtain ⟨hused, hused'⟩ := hagree.taken slot hslot hgarbage
    exact iff_of_false hused' hused
  · rw [DoublebitMap.IsFree, hagree.same slot hslot hgarbage]

theorem isRun_iff (hagree : AgreeOff garbage bmap other) :
    FirstFit.IsRun other.IsFree other.slots start cnt ↔
      FirstFit.IsRun bmap.IsFree bmap.slots start cnt := by
  rw [hagree.slots_eq]
  constructor
  · intro hrun
    refine ⟨hrun.inside, fun slot hlow hhigh => ?_⟩
    exact (hagree.isFree_iff (lt_of_lt_of_le hhigh hrun.inside)).mp (hrun.free slot hlow hhigh)
  · intro hrun
    refine ⟨hrun.inside, fun slot hlow hhigh => ?_⟩
    exact (hagree.isFree_iff (lt_of_lt_of_le hhigh hrun.inside)).mpr (hrun.free slot hlow hhigh)

/-- An edit of a run without garbage that is the same in both maps. -/
theorem edit (hagree : AgreeOff garbage bmap other) {next next' : DoublebitMap}
    (code : Nat → Byte) (hrun : ∀ slot, start ≤ slot → slot < start + cnt → ¬ garbage slot)
    (hlength : next.bytesLen = bmap.bytesLen) (hlength' : next'.bytesLen = other.bytesLen)
    (hstatus : ∀ slot, next.getSlotStatus slot =
      if start ≤ slot ∧ slot < start + cnt then code slot else bmap.getSlotStatus slot)
    (hstatus' : ∀ slot, next'.getSlotStatus slot =
      if start ≤ slot ∧ slot < start + cnt then code slot else other.getSlotStatus slot) :
    AgreeOff garbage next next' := by
  have hslots : next.slots = bmap.slots := by rw [DoublebitMap.slots, hlength, DoublebitMap.slots]
  refine ⟨by rw [hlength, hlength', hagree.length], fun slot hslot hclean => ?_,
    fun slot hslot hgarbage => ?_⟩
  · rw [hstatus, hstatus']
    split
    next => rfl
    next => exact hagree.same slot (hslots ▸ hslot) hclean
  · have hout : ¬ (start ≤ slot ∧ slot < start + cnt) := fun h => hrun slot h.1 h.2 hgarbage
    simp only [DoublebitMap.IsFree, hstatus, hstatus', if_neg hout]
    exact hagree.taken slot (hslots ▸ hslot) hgarbage

theorem sync (hagree : AgreeOff garbage bmap other) (hcnt : 1 ≤ cnt)
    (hrun : FirstFit.IsRun bmap.IsFree bmap.slots start cnt) :
    AgreeOff garbage (bmap.sync start cnt) (other.sync start cnt) := by
  refine hagree.edit (fun slot => DoublebitMap.mark cnt (slot - start))
    (fun slot hlow hhigh hgarbage => ?_) (DoublebitMap.sync_bytesLen ..)
    (DoublebitMap.sync_bytesLen ..) (DoublebitMap.sync_status bmap start hcnt)
    (DoublebitMap.sync_status other start hcnt)
  exact (hagree.taken slot (lt_of_lt_of_le hhigh hrun.inside) hgarbage).1 (hrun.free slot hlow hhigh)

theorem clear (hagree : AgreeOff garbage bmap other)
    (hrun : ∀ slot, start ≤ slot → slot < start + cnt → ¬ garbage slot) :
    AgreeOff garbage (DoublebitMap.clear cnt bmap start) (DoublebitMap.clear cnt other start) :=
  hagree.edit (fun _ => DoublebitMap.slotFree) hrun (DoublebitMap.clear_bytesLen ..)
    (DoublebitMap.clear_bytesLen ..) (fun slot => DoublebitMap.clear_status cnt start slot bmap)
    (fun slot => DoublebitMap.clear_status cnt start slot other)

/-- Both searches take the same run, or none. -/
theorem getFreeSlots (hagree : AgreeOff garbage bmap other) (cnt : Nat) :
    (other.getFreeSlots cnt).2 = (bmap.getFreeSlots cnt).2 ∧
      AgreeOff garbage (bmap.getFreeSlots cnt).1 (other.getFreeSlots cnt).1 := by
  rcases Nat.eq_zero_or_pos cnt with rfl | hcnt
  · rw [DoublebitMap.getFreeSlots_zero, DoublebitMap.getFreeSlots_zero]
    exact ⟨rfl, hagree⟩
  rcases bmap.getFreeSlots_cases hcnt with ⟨start, hleast, hfound⟩ | ⟨hnone, hfound⟩
  · rcases other.getFreeSlots_cases hcnt with ⟨start', hleast', hfound'⟩ | ⟨hnone', -⟩
    · simp only [hagree.isRun_iff] at hleast'
      obtain rfl := hleast.unique hleast'
      rw [hfound, hfound']
      exact ⟨rfl, hagree.sync hcnt hleast.1⟩
    · exact absurd (hagree.isRun_iff.mpr hleast.1) (hnone' start)
  · rcases other.getFreeSlots_cases hcnt with ⟨start', hleast', -⟩ | ⟨-, hfound'⟩
    · exact absurd (hagree.isRun_iff.mp hleast'.1) (hnone start')
    · rw [hfound, hfound']
      exact ⟨rfl, hagree⟩

theorem unseen (garbage : Nat → Prop) : Unseen (AgreeOff garbage) where
  slots_eq hagree := hagree.slots_eq
  found_eq hagree cnt := (hagree.getFreeSlots cnt).1
  kept hagree cnt := (hagree.getFreeSlots cnt).2

end AgreeOff

/-! ## Requests -/

namespace Heap

/-- An event, with the address that a `malloc` returns. -/
def answer (heap : Heap) : HeapEvent → Option (Heap × Option Nat)
  | .malloc cntBytes =>
      (heap.mm.malloc cntBytes).map fun done =>
        (⟨done.1, Function.update heap.live done.2 (some cntBytes)⟩, some done.2)
  | .free addr => (heap.step (.free addr)).map fun next => (next, none)
  | .write block cell first second =>
      (heap.step (.write block cell first second)).map fun next => (next, none)

/-- The addresses that a sequence of events returns, in order. -/
def answers (heap : Heap) (events : List HeapEvent) : Option (List (Option Nat)) :=
  responses answer heap events

/-- Clients free and write what they hold, and do not go on once a search for virtual pages has
failed. -/
def Proper (heap : Heap) (events : List HeapEvent) : Prop :=
  Allowed answer (fun heap event => heap.mm.virExhausted = false ∧ heap.Admits event) heap events

variable {heap other ghost next : Heap} {event : HeapEvent} {garbage : Nat → Prop} {shape : Shape}

theorem answer_step (heap : Heap) (event : HeapEvent) :
    (heap.answer event).map Prod.fst = heap.step event := by
  cases event with
  | malloc cntBytes => rw [answer, step, Option.map_map]; rfl
  | free addr => rw [answer, Option.map_map]; exact Option.map_id'
  | write block cell first second => rw [answer, Option.map_map]; exact Option.map_id'

theorem admits_congr (hlive : other.live = heap.live) : other.Admits event ↔ heap.Admits event := by
  cases event with
  | malloc cntBytes => rfl
  | free addr => simp only [Admits, hlive]
  | write block cell first second => simp only [Admits, hlive]

/-- The heap is the ghost without the page that the ghost holds in each garbage slot. -/
structure Hides (garbage : Nat → Prop) (ghost heap : Heap) : Prop where
  rest : SameBut (AgreeOff garbage) ghost.mm heap.mm
  held : ∀ {slot}, garbage slot → ghost.live (pageAddr slot) = some pageSize
  live : ∀ {addr cntBytes}, heap.live addr = some cntBytes ↔
    ghost.live addr = some cntBytes ∧ ∀ slot, garbage slot → addr ≠ pageAddr slot

/-- The same, as long as no search has failed. -/
def HidesUnless (garbage : Nat → Prop) (ghost heap : Heap) : Prop :=
  heap.mm.virExhausted = ghost.mm.virExhausted ∧
    (ghost.mm.virExhausted = false → Hides garbage ghost heap)

namespace Hides

variable {addr start cntBytes : Nat}

theorem of_ne (hhides : Hides garbage ghost heap) (hlive : heap.live addr ≠ none) :
    ∃ cntBytes, ghost.live addr = some cntBytes ∧ ∀ slot, garbage slot → addr ≠ pageAddr slot := by
  obtain ⟨cntBytes, hheld⟩ := Option.ne_none_iff_exists'.mp hlive
  exact ⟨cntBytes, hhides.live.mp hheld⟩

/-- An allocation that is not one of the garbage pages has no garbage slot. -/
theorem clean_run (hhides : Hides garbage ghost heap) (hinv : HeapInv ghost shape)
    (hlive : ghost.live (pageAddr start) = some cntBytes)
    (hclean : ∀ slot, garbage slot → pageAddr start ≠ pageAddr slot) {slot : Nat}
    (hlow : start ≤ slot) (hhigh : slot < start + pageCnt cntBytes) : ¬ garbage slot := by
  intro hgarbage
  have howner := (hinv.placed_page hlive).2 (slot - start) (by omega)
  have hself := (hinv.placed_page (hhides.held hgarbage)).2 0 (by decide)
  rw [Nat.add_sub_cancel' hlow] at howner
  rw [Nat.add_zero, howner, Owner.large.injEq] at hself
  exact hclean slot hgarbage (by rw [hself])

/-- The address that is freed is held in neither heap any more. -/
theorem drop (hhides : Hides garbage ghost heap) {mm mm' : MemoryManager}
    (hclean : ∀ slot, garbage slot → addr ≠ pageAddr slot)
    (hrest : SameBut (AgreeOff garbage) mm mm') :
    Hides garbage ⟨mm, Function.update ghost.live addr none⟩
      ⟨mm', Function.update heap.live addr none⟩ where
  rest := hrest
  held hgarbage := by
    rw [← hhides.held hgarbage]
    exact Function.update_of_ne (hclean _ hgarbage).symm _ _
  live := by
    intro other cntBytes
    by_cases heq : other = addr
    · subst heq
      simp only [Function.update_self]
      exact iff_of_false (Option.some_ne_none _).symm fun h => absurd h.1.symm (Option.some_ne_none _)
    · simp only [Function.update_of_ne heq]
      exact hhides.live

/-- A new address is not one of the garbage pages, which the ghost holds. -/
theorem take (hhides : Hides garbage ghost heap) {mm mm' : MemoryManager}
    (hnone : ghost.live addr = none) (hrest : SameBut (AgreeOff garbage) mm mm') :
    Hides garbage ⟨mm, Function.update ghost.live addr (some cntBytes)⟩
      ⟨mm', Function.update heap.live addr (some cntBytes)⟩ := by
  have hclean : ∀ slot, garbage slot → addr ≠ pageAddr slot := by
    rintro slot hgarbage rfl
    rw [hhides.held hgarbage] at hnone
    cases hnone
  refine ⟨hrest, fun hgarbage => ?_, ?_⟩
  · rw [← hhides.held hgarbage]
    exact Function.update_of_ne (hclean _ hgarbage).symm _ _
  · intro other bytes
    by_cases heq : other = addr
    · subst heq
      simp only [Function.update_self]
      exact (and_iff_left hclean).symm
    · simp only [Function.update_of_ne heq]
      exact hhides.live

theorem free_large (hhides : Hides garbage ghost heap) (hinv : HeapInv ghost shape)
    (hlive : ghost.live (pageAddr start) = some cntBytes)
    (hclean : ∀ slot, garbage slot → pageAddr start ≠ pageAddr slot) :
    Option.Rel (SameBut (AgreeOff garbage)) (ghost.mm.freePage (pageAddr start))
      (heap.mm.freePage (pageAddr start)) := by
  have hagree := hhides.rest.map
  have hend := hinv.live_end hlive
  have hcnt := (pageCnt_spec (hinv.size hlive).1 (hinv.size hlive).2).1
  have hrun : ∀ slot, start ≤ slot → slot < start + pageCnt cntBytes → ¬ garbage slot :=
    fun slot hlow hhigh => hhides.clean_run hinv hlive hclean hlow hhigh
  have hmarked : heap.mm.vaddrBmap.Marked start (pageCnt cntBytes) := by
    intro offset hoffset
    rw [hagree.same _ (by omega) (hrun _ (by omega) (by omega))]
    exact hinv.marked hlive offset hoffset
  rw [HeapInv.freePage_eq hinv.start_eq hinv.room hcnt hend (hinv.marked hlive),
    HeapInv.freePage_eq (hhides.rest.start_eq.trans hinv.start_eq) (hagree.slots_eq ▸ hinv.room)
      hcnt (hagree.slots_eq ▸ hend) hmarked]
  exact .some ⟨hagree.clear hrun, hhides.rest.start_eq, hhides.rest.exhausted_eq,
    hhides.rest.desc_eq, hhides.rest.memory_eq⟩

theorem free_small (hhides : Hides garbage ghost heap) (hinv : HeapInv ghost shape)
    {slot descIdx i : Nat} (hi : i < blockCount descIdx) (howner : shape.owner slot = .small descIdx)
    (hlive : ghost.live (blockAddr slot descIdx i) = some cntBytes) :
    Option.Rel (SameBut (AgreeOff garbage)) (ghost.mm.freeSmall (blockAddr slot descIdx i))
      (heap.mm.freeSmall (blockAddr slot descIdx i)) := by
  obtain ⟨hblocks, hheader, -⟩ := hinv.giveBlock_header hi howner hlive
  have hlength := hblocks.length_le hheader.holds.nodup
  rw [← hheader.cnts] at hlength
  have hdesc := hinv.wf.desc_lt howner
  have hsize := hheader.size
  rw [HeapInv.freeSmall_eq hi hdesc hsize hlength]
  rw [← hhides.rest.memory_eq] at hsize hlength ⊢
  rw [HeapInv.freeSmall_eq hi hdesc hsize hlength]
  exact .some (hhides.rest.withMemory _)

/-- A request that both heaps admit. -/
theorem answer (hhides : Hides garbage ghost heap) (hinv : HeapInv ghost shape)
    (hadmits : heap.Admits event) :
    Matches (HidesUnless garbage) (ghost.answer event) (heap.answer event) := by
  cases event with
  | malloc cntBytes =>
      obtain ⟨mm, addr, hmalloc, hnext⟩ := hinv.malloc_spec hadmits.1 hadmits.2
      have hmatches := hhides.rest.malloc (AgreeOff.unseen garbage) cntBytes
      rw [Heap.answer, Heap.answer]
      rw [hmalloc] at hmatches ⊢
      generalize heap.mm.malloc cntBytes = done at hmatches ⊢
      cases hmatches with
      | @some _ done hboth =>
          obtain ⟨mm', addr'⟩ := done
          obtain ⟨hrest, rfl⟩ := hboth
          exact .some ⟨⟨hrest.exhausted_eq, fun hroom => hhides.take (hnext hroom).2.1 hrest⟩, rfl⟩
  | free addr =>
      obtain ⟨cntBytes, hlive, hclean⟩ := hhides.of_ne hadmits
      have hmatches : Option.Rel (SameBut (AgreeOff garbage)) (ghost.mm.free addr)
          (heap.mm.free addr) := by
        rw [MemoryManager.free, MemoryManager.free]
        cases hinv.placed hlive with
        | large hlarge haddr howner =>
            subst haddr
            rw [if_pos (pageAddr_mod _), if_pos (pageAddr_mod _)]
            exact hhides.free_large hinv hlive hclean
        | small hsmall hdesc hi haddr howner =>
            subst haddr
            rw [if_neg (block_mod_ne hi), if_neg (block_mod_ne hi)]
            exact hhides.free_small hinv hi howner hlive
      rw [Heap.answer, Heap.answer, step, step]
      generalize ghost.mm.free addr = done at hmatches ⊢
      generalize heap.mm.free addr = done' at hmatches ⊢
      cases hmatches with
      | none => exact .none
      | some hrest =>
          exact .some ⟨⟨hrest.exhausted_eq, fun _ => hhides.drop hclean hrest⟩, rfl⟩
  | write block cell first second =>
      refine .some ⟨⟨hhides.rest.exhausted_eq, fun _ => ⟨?_, hhides.held, hhides.live⟩⟩, rfl⟩
      have hwrite := hhides.rest.withMemory ((ghost.mm.memory.setPrev cell first).setNext cell second)
      rw [← hhides.rest.memory_eq] at hwrite ⊢
      exact hwrite

/-- What the heap admits, the ghost admits too. -/
theorem admits (hhides : Hides garbage ghost heap) (hadmits : heap.Admits event) :
    ghost.Admits event := by
  cases event with
  | malloc cntBytes => exact hadmits
  | free addr =>
      obtain ⟨cntBytes, hlive, -⟩ := hhides.of_ne hadmits
      rw [Admits, hlive]
      exact Option.some_ne_none _
  | write block cell first second =>
      obtain ⟨hcell, hlow, cntBytes, hlive, hhigh⟩ := hadmits
      exact ⟨hcell, hlow, cntBytes, (hhides.live.mp hlive).1, hhigh⟩

end Hides

/-- Two heaps that hide the same ghost, as long as no search has failed. -/
def Twins (garbage : Nat → Prop) (heap other : Heap) : Prop :=
  heap.mm.virExhausted = false → ∃ ghost shape, HeapInv ghost shape ∧
    Hides garbage ghost heap ∧ Hides garbage ghost other

theorem Twins.answer (htwins : Twins garbage heap other)
    (hadmits : heap.mm.virExhausted = false ∧ heap.Admits event) :
    Matches (Twins garbage) (heap.answer event) (other.answer event) := by
  obtain ⟨ghost, shape, hinv, hhides, hhides'⟩ := htwins hadmits.1
  have hlive : other.live = heap.live := by
    funext addr
    exact Option.ext fun cntBytes => hhides'.live.trans hhides.live.symm
  have hmatches := hhides.answer hinv hadmits.2
  have hmatches' := hhides'.answer hinv ((admits_congr hlive).mpr hadmits.2)
  have hstep := ghost.answer_step event
  generalize ghost.answer event = done at hmatches hmatches' hstep
  generalize heap.answer event = left at hmatches ⊢
  generalize other.answer event = right at hmatches' ⊢
  cases hmatches with
  | none =>
      cases hmatches' with
      | none => exact .none
  | some hleft =>
      cases hmatches' with
      | some hright =>
          refine .some ⟨fun hroom => ?_, hleft.2.symm.trans hright.2⟩
          rw [hleft.1.1] at hroom
          obtain ⟨nextShape, hinv', -⟩ :=
            step_spec hinv (hhides.admits hadmits.2) hstep.symm hroom
          exact ⟨_, nextShape, hinv', hleft.1.2 hroom, hright.1.2 hroom⟩

/-! ## Requests that tell two maps apart -/

/-- A request for a page calls `malloc_page` for one page. -/
theorem malloc_page (mm : MemoryManager) :
    ∃ memory, mm.malloc pageSize =
      some ({ (mm.mallocPage 1).1 with memory := memory }, (mm.mallocPage 1).2) := by
  rw [malloc, if_neg (by decide), if_pos (by decide)]
  exact ⟨_, rfl⟩

/-- It takes the first free slot. -/
theorem malloc_first {mm : MemoryManager} {slot : Nat} (hslot : slot < mm.vaddrBmap.slots)
    (hfree : mm.vaddrBmap.IsFree slot) (hfirst : ∀ other < slot, ¬ mm.vaddrBmap.IsFree other) :
    ∃ after, mm.malloc pageSize = some (after, mm.vaddrStart + slot * pageSize) ∧
      after.vaddrBmap = mm.vaddrBmap.sync slot 1 ∧ after.vaddrStart = mm.vaddrStart ∧
      after.virExhausted = mm.virExhausted := by
  have hrun : FirstFit.IsRun mm.vaddrBmap.IsFree mm.vaddrBmap.slots slot 1 := by
    refine ⟨hslot, fun other hlow hhigh => ?_⟩
    obtain rfl : other = slot := by omega
    exact hfree
  obtain ⟨memory, hmalloc⟩ := malloc_page mm
  rcases HeapInv.mallocPage_cases mm le_rfl with ⟨start, hleast, hpage⟩ | ⟨hnone, -⟩
  · have hle := hleast.2 hrun
    have hstart := hleast.1.free start le_rfl (Nat.lt_succ_self start)
    obtain rfl : start = slot := by
      by_contra hne
      exact hfirst start (lt_of_le_of_ne hle hne) hstart
    rw [hpage] at hmalloc
    exact ⟨_, hmalloc, rfl, rfl, rfl⟩
  · exact absurd hrun (hnone slot)

/-- Whatever it returns is the page of a slot that was free, or null. -/
theorem malloc_page_free (mm : MemoryManager) :
    ∃ after addr, mm.malloc pageSize = some (after, addr) ∧
      (addr = 0 ∨ ∃ slot, mm.vaddrBmap.IsFree slot ∧ addr = mm.vaddrStart + slot * pageSize) := by
  obtain ⟨memory, hmalloc⟩ := malloc_page mm
  refine ⟨_, _, hmalloc, ?_⟩
  rcases HeapInv.mallocPage_cases mm le_rfl with ⟨start, hleast, hpage⟩ | ⟨-, hpage⟩
  · exact .inr ⟨start, hleast.1.free start le_rfl (Nat.lt_succ_self start), by rw [hpage]⟩
  · exact .inl (by rw [hpage])

theorem answers_malloc {mm : MemoryManager} {cntBytes addr : Nat}
    (hmalloc : heap.mm.malloc cntBytes = some (mm, addr)) (rest : List HeapEvent) :
    heap.answers (.malloc cntBytes :: rest) =
      (answers ⟨mm, Function.update heap.live addr (some cntBytes)⟩ rest).map (some addr :: ·) := by
  rw [answers, responses, answer, hmalloc]
  rfl

theorem proper_malloc {mm : MemoryManager} {addr : Nat} (hroom : heap.mm.virExhausted = false)
    (hmalloc : heap.mm.malloc pageSize = some (mm, addr)) {rest : List HeapEvent}
    (hrest : Proper ⟨mm, Function.update heap.live addr (some pageSize)⟩ rest) :
    heap.Proper (.malloc pageSize :: rest) := by
  refine ⟨⟨hroom, by decide, by decide⟩, ?_⟩
  rw [answer, hmalloc]
  rintro done hdone
  obtain rfl := Option.some.inj hdone
  exact hrest

/-- The maps differ in a slot and in none before it, and the slots before `first` are taken. -/
structure Differ (slot first : Nat) (heap other : Heap) : Prop where
  slots_eq : other.mm.vaddrBmap.slots = heap.mm.vaddrBmap.slots
  start_eq : heap.mm.vaddrStart = stationaryMem ∧ other.mm.vaddrStart = stationaryMem
  room : heap.mm.virExhausted = false
  lt : slot < heap.mm.vaddrBmap.slots
  free : heap.mm.vaddrBmap.IsFree slot
  used : ¬ other.mm.vaddrBmap.IsFree slot
  below : ∀ low < slot, other.mm.vaddrBmap.IsFree low ↔ heap.mm.vaddrBmap.IsFree low
  filled : ∀ low < first, ¬ heap.mm.vaddrBmap.IsFree low

namespace Differ

variable {slot first left : Nat}

theorem skip (hdiffer : Differ slot first heap other) (hused : ¬ heap.mm.vaddrBmap.IsFree first) :
    Differ slot (first + 1) heap other where
  __ := hdiffer
  filled low hlow := by
    rcases Nat.lt_succ_iff_lt_or_eq.mp hlow with hlt | rfl
    · exact hdiffer.filled low hlt
    · exact hused

/-- Requests for a page take the same slot of both maps. -/
theorem take (hdiffer : Differ slot first heap other) (hlt : first < slot) {mm mm' : MemoryManager}
    (hmap : mm.vaddrBmap = heap.mm.vaddrBmap.sync first 1)
    (hmap' : mm'.vaddrBmap = other.mm.vaddrBmap.sync first 1)
    (hkept : mm.vaddrStart = heap.mm.vaddrStart) (hkept' : mm'.vaddrStart = other.mm.vaddrStart)
    (hroom : mm.virExhausted = heap.mm.virExhausted) (live live' : Nat → Option Nat) :
    Differ slot (first + 1) ⟨mm, live⟩ ⟨mm', live'⟩ := by
  have hfree : ∀ (bmap : DoublebitMap) low,
      ((bmap.sync first 1).IsFree low ↔ low ≠ first ∧ bmap.IsFree low) := by
    intro bmap low
    rw [DoublebitMap.IsFree, DoublebitMap.sync_status _ _ le_rfl]
    split
    next hin => exact iff_of_false (DoublebitMap.mark_ne_free _ _) fun h => h.1 (by omega)
    next hout => exact ⟨fun h => ⟨by omega, h⟩, fun h => h.2⟩
  have hlen : ∀ bmap : DoublebitMap, (bmap.sync first 1).slots = bmap.slots := by
    intro bmap
    rw [DoublebitMap.slots, DoublebitMap.sync_bytesLen, DoublebitMap.slots]
  constructor
  case slots_eq => rw [hmap, hmap', hlen, hlen, hdiffer.slots_eq]
  case start_eq => exact ⟨hkept.trans hdiffer.start_eq.1, hkept'.trans hdiffer.start_eq.2⟩
  case room => exact hroom.trans hdiffer.room
  case lt => rw [hmap, hlen]; exact hdiffer.lt
  case free => rw [hmap, hfree]; exact ⟨hlt.ne', hdiffer.free⟩
  case used => rw [hmap', hfree]; exact fun h => hdiffer.used h.2
  case below =>
    intro low hlow
    rw [hmap, hmap', hfree, hfree, hdiffer.below low hlow]
  case filled =>
    intro low hlow
    rw [hmap, hfree]
    rintro ⟨hne, hlowFree⟩
    exact hdiffer.filled low (by omega) hlowFree

/-- Requests for a page fill the slots before the difference, and then show it. -/
theorem exists_answers (hdiffer : Differ slot first heap other) (hleft : first + left = slot) :
    ∃ events, heap.Proper events ∧ heap.answers events ≠ other.answers events := by
  obtain ⟨hstart, hstart'⟩ := hdiffer.start_eq
  induction left generalizing first heap other with
  | zero =>
      obtain rfl : first = slot := hleft
      obtain ⟨after, hmalloc, -⟩ := malloc_first hdiffer.lt hdiffer.free hdiffer.filled
      obtain ⟨after', addr, hmalloc', haddr⟩ := malloc_page_free other.mm
      refine ⟨[.malloc pageSize], proper_malloc hdiffer.room hmalloc trivial, ?_⟩
      rw [answers_malloc hmalloc, answers_malloc hmalloc', hstart]
      intro heq
      have hsame : stationaryMem + first * pageSize = addr := by simpa [answers, responses] using heq
      rcases haddr with rfl | ⟨start, hfree, rfl⟩
      · simp only [stationaryMem] at hsame
        omega
      · rw [hstart'] at hsame
        exact hdiffer.used (pageAddr_inj hsame ▸ hfree)
  | succ left ih =>
      by_cases hfree : heap.mm.vaddrBmap.IsFree first
      · have hlt : first < slot := by omega
        have hlt' := hlt.trans hdiffer.lt
        obtain ⟨after, hmalloc, hmap, hkept, hroom⟩ := malloc_first hlt' hfree hdiffer.filled
        obtain ⟨after', hmalloc', hmap', hkept', -⟩ :=
          malloc_first (hdiffer.slots_eq ▸ hlt') ((hdiffer.below first hlt).mpr hfree)
            fun low hlow hused => hdiffer.filled low hlow ((hdiffer.below low (hlow.trans hlt)).mp hused)
        rw [hstart] at hmalloc
        rw [hstart'] at hmalloc'
        have hnext := hdiffer.take hlt hmap hmap' hkept hkept' hroom
          (Function.update heap.live (stationaryMem + first * pageSize) (some pageSize))
          (Function.update other.live (stationaryMem + first * pageSize) (some pageSize))
        obtain ⟨rest, hproper, hrest⟩ :=
          ih hnext (by omega) hnext.start_eq.1 hnext.start_eq.2
        refine ⟨.malloc pageSize :: rest, proper_malloc hdiffer.room hmalloc hproper, ?_⟩
        rw [answers_malloc hmalloc, answers_malloc hmalloc']
        exact fun heq => hrest (Option.map_injective List.cons_injective heq)
      · exact ih (hdiffer.skip hfree) (by omega) hstart hstart'

end Differ

/-- Two heaps whose maps do not show the same slots as free answer differently. -/
theorem exists_answers_of_isFree (hslots : other.mm.vaddrBmap.slots = heap.mm.vaddrBmap.slots)
    (hstart : heap.mm.vaddrStart = stationaryMem ∧ other.mm.vaddrStart = stationaryMem)
    (hroom : heap.mm.virExhausted = false ∧ other.mm.virExhausted = false)
    (hne : ∃ slot < heap.mm.vaddrBmap.slots,
      ¬ (other.mm.vaddrBmap.IsFree slot ↔ heap.mm.vaddrBmap.IsFree slot)) :
    ∃ events, (heap.Proper events ∨ other.Proper events) ∧
      heap.answers events ≠ other.answers events := by
  classical
  -- the first slot that differs is seen from the side on which it is free
  obtain ⟨hslot, hdiffers⟩ := Nat.find_spec hne
  have hbelow : ∀ low < Nat.find hne,
      (other.mm.vaddrBmap.IsFree low ↔ heap.mm.vaddrBmap.IsFree low) := by
    intro low hlow
    by_contra hlowDiffers
    exact Nat.find_min hne hlow ⟨hlow.trans hslot, hlowDiffers⟩
  by_cases hfree : heap.mm.vaddrBmap.IsFree (Nat.find hne)
  · have hused : ¬ other.mm.vaddrBmap.IsFree (Nat.find hne) :=
      fun hother => hdiffers (iff_of_true hother hfree)
    have hdiffer : Differ (Nat.find hne) 0 heap other :=
      ⟨hslots, hstart, hroom.1, hslot, hfree, hused, hbelow,
        fun low hlow => absurd hlow (Nat.not_lt_zero low)⟩
    obtain ⟨events, hproper, hanswers⟩ := hdiffer.exists_answers (Nat.zero_add _)
    exact ⟨events, .inl hproper, hanswers⟩
  · have hother : other.mm.vaddrBmap.IsFree (Nat.find hne) := by
      by_contra hused
      exact hdiffers (iff_of_false hused hfree)
    have hdiffer : Differ (Nat.find hne) 0 other heap :=
      ⟨hslots.symm, hstart.symm, hroom.2, hslot.trans_eq hslots.symm, hother, hfree,
        fun low hlow => (hbelow low hlow).symm, fun low hlow => absurd hlow (Nat.not_lt_zero low)⟩
    obtain ⟨events, hproper, hanswers⟩ := hdiffer.exists_answers (Nat.zero_add _)
    exact ⟨events, .inr hproper, hanswers.symm⟩

end Heap

/-! ## Codes that a free tells apart -/

namespace DoublebitMap

variable {bmap other : DoublebitMap} {slot idx n : Nat}

/-- The two bits of a slot are one of the four codes. -/
theorem status_cases (bmap : DoublebitMap) (slot : Nat) :
    bmap.getSlotStatus slot = slotFree ∨ bmap.getSlotStatus slot = slotUsedSingle ∨
      bmap.getSlotStatus slot = slotSeqStart ∨ bmap.getSlotStatus slot = slotSeqEnd := by
  have hcodes : ∀ (byte : Byte) (place : Fin 4), slotIn byte (2 * place) = slotFree ∨
      slotIn byte (2 * place) = slotUsedSingle ∨ slotIn byte (2 * place) = slotSeqStart ∨
      slotIn byte (2 * place) = slotSeqEnd := by
    decide
  have hplace : slot * 2 % 8 = 2 * (slot % 4) := by omega
  rw [getSlotStatus, hplace]
  exact hcodes _ ⟨slot % 4, Nat.mod_lt _ (by decide)⟩

/-- A walk that has an end in what it has not yet freed has one from its start. -/
theorem WalkEnds.cons (hinner : bmap.getSlotStatus idx ≠ slotSeqEnd)
    (hwalk : (bmap.setSlotValue idx slotFree).WalkEnds (idx + 1) n) : bmap.WalkEnds idx (n + 1) := by
  have hsame : ∀ k, bmap.getSlotStatus (idx + (k + 1)) =
      (bmap.setSlotValue idx slotFree).getSlotStatus (idx + 1 + k) := by
    intro k
    rw [getSlotStatus_setSlotValue _ _ _ (by decide), if_neg (by omega), Nat.add_assoc,
      Nat.add_comm 1 k]
  constructor
  · intro k hk
    cases k with
    | zero => exact hinner
    | succ k =>
        rw [hsame]
        exact hwalk.inner k (Nat.lt_of_succ_lt_succ hk)
  · rw [hsame]
    exact hwalk.last

/-- The walk finds an end or none. -/
theorem freeToEnd_cases (fuel : Nat) (bmap : DoublebitMap) (idx cnt : Nat) :
    freeToEnd fuel bmap idx cnt = none ∨ ∃ n < fuel, bmap.WalkEnds idx n := by
  induction fuel generalizing bmap idx cnt with
  | zero => exact .inl rfl
  | succ fuel ih =>
      rw [freeToEnd]
      by_cases hend : bmap.getSlotStatus idx = slotSeqEnd
      · exact .inr ⟨0, Nat.succ_pos fuel, fun k hk => absurd hk (Nat.not_lt_zero k), hend⟩
      · rw [if_neg hend]
        refine (ih (bmap.setSlotValue idx slotFree) (idx + 1) (cnt + 1)).imp_right ?_
        rintro ⟨n, hn, hwalk⟩
        exact ⟨n + 1, Nat.succ_lt_succ hn, hwalk.cons hend⟩

/-- What `free_slots` does at a slot that is not free: the number of slots that it frees tells
the code of the slot, and the last of them was not free. -/
structure Frees (bmap : DoublebitMap) (slot : Nat) (next : DoublebitMap) (n : Nat) : Prop where
  length : next.bytesLen = bmap.bytesLen
  status : ∀ place, next.getSlotStatus place =
    if slot ≤ place ∧ place < slot + n then slotFree else bmap.getSlotStatus place
  code : bmap.getSlotStatus slot =
    if n = 0 then slotSeqEnd else if n = 1 then slotUsedSingle else slotSeqStart
  last : 0 < n → bmap.getSlotStatus (slot + n - 1) ≠ slotFree

theorem freeSlots_cases (hused : ¬ bmap.IsFree slot) :
    bmap.getSlotStatus slot = slotSeqStart ∧ bmap.freeSlots slot = none ∨
      ∃ next n, bmap.freeSlots slot = some (next, n) ∧ bmap.Frees slot next n := by
  rcases bmap.status_cases slot with hfree | hsingle | hstart | hend
  · exact absurd hfree hused
  · refine .inr ⟨bmap.setSlotValue slot slotFree, 1, by rw [freeSlots, if_pos hsingle],
      rfl, fun place => ?_, hsingle, fun _ => hused⟩
    rw [getSlotStatus_setSlotValue _ _ _ (by decide)]
    exact if_congr (by omega) rfl rfl
  · have hwalk : bmap.freeSlots slot = freeToEnd bmap.slots bmap slot 0 := by
      rw [freeSlots, hstart, if_neg (by decide), if_neg fun hne => hne rfl]
    rw [hwalk]
    refine (freeToEnd_cases bmap.slots bmap slot 0).imp (fun hnone => ⟨hstart, hnone⟩) ?_
    rintro ⟨n, hn, hends⟩
    have hpos : n ≠ 0 := by
      rintro rfl
      have hlast := hends.at_end
      rw [hstart] at hlast
      exact absurd hlast (by decide)
    refine ⟨clear (n + 1) bmap slot, n + 1, by rw [hends.freeToEnd hn, Nat.zero_add],
      clear_bytesLen .., fun place => clear_status _ _ _ _, ?_, fun _ => ?_⟩
    · rw [if_neg (Nat.succ_ne_zero n), if_neg (by omega)]
      exact hstart
    · have hlast := hends.last
      rw [← Nat.add_assoc, Nat.add_sub_cancel, hlast]
      decide
  · refine .inr ⟨bmap, 0, ?_, rfl, fun place => (if_neg (by omega)).symm, hend,
      fun hpos => absurd hpos (Nat.lt_irrefl 0)⟩
    rw [freeSlots, hend, if_neg (by decide), if_pos (by decide)]

/-- Where more slots are freed, one of them is free afterwards that is not in the other map. -/
theorem Frees.exists_ne {next next' : DoublebitMap} {n' : Nat} (hfrees : bmap.Frees slot next n)
    (hfrees' : other.Frees slot next' n') (hmore : n' < n)
    (hsame : ∀ place < bmap.slots, other.IsFree place ↔ bmap.IsFree place)
    (hbehind : ∀ place ≥ bmap.slots, bmap.IsFree place) :
    ∃ place < bmap.slots, next.IsFree place ∧ ¬ next'.IsFree place := by
  have hlast := hfrees.last (Nat.zero_lt_of_lt hmore)
  have hinside : slot + n - 1 < bmap.slots := by
    by_contra hout
    exact hlast (hbehind _ (Nat.le_of_not_lt hout))
  refine ⟨slot + n - 1, hinside, ?_, ?_⟩
  · rw [IsFree, hfrees.status, if_pos (by omega)]
  · rw [IsFree, hfrees'.status, if_neg (by omega)]
    exact fun hfree => hlast ((hsame _ hinside).mp hfree)

/-- Where the two calls free different numbers of slots, the maps differ afterwards. -/
theorem Frees.exists_isFree_ne {next next' : DoublebitMap} {n' : Nat}
    (hfrees : bmap.Frees slot next n) (hfrees' : other.Frees slot next' n') (hcount : n ≠ n')
    (hslots : other.slots = bmap.slots)
    (hsame : ∀ place < bmap.slots, other.IsFree place ↔ bmap.IsFree place)
    (hbehind : ∀ place ≥ bmap.slots, bmap.IsFree place ∧ other.IsFree place) :
    ∃ place < bmap.slots, ¬ (next'.IsFree place ↔ next.IsFree place) := by
  rcases Nat.lt_or_gt_of_ne hcount with hless | hmore
  · obtain ⟨place, hplace, hin, hout⟩ := hfrees'.exists_ne hfrees hless
      (fun place hplace => (hsame place (hslots ▸ hplace)).symm)
      fun place hplace => (hbehind place (hslots ▸ hplace)).2
    exact ⟨place, hslots ▸ hplace, fun hiff => hout (hiff.mp hin)⟩
  · obtain ⟨place, hplace, hin, hout⟩ :=
      hfrees.exists_ne hfrees' hmore hsame fun place hplace => (hbehind place hplace).1
    exact ⟨place, hplace, fun hiff => hout (hiff.mpr hin)⟩

/-- The codes of the slots of a byte are the byte. -/
theorem eq_of_slotIn {left right : Byte}
    (hsame : ∀ place : Fin 4, slotIn left (2 * place) = slotIn right (2 * place)) : left = right := by
  apply BitVec.eq_of_getLsbD_eq
  intro bit hbit
  have hplace : bit / 2 < 4 := by omega
  have hlow : bit % 2 < 2 := Nat.mod_lt _ (by decide)
  have hcode := congrArg (BitVec.getLsbD · (bit % 2)) (hsame ⟨bit / 2, hplace⟩)
  dsimp only at hcode
  rw [getLsbD_slotIn _ ⟨bit / 2, hplace⟩, getLsbD_slotIn _ ⟨bit / 2, hplace⟩, decide_eq_true hlow,
    Bool.true_and, Bool.true_and] at hcode
  rwa [Nat.div_add_mod] at hcode

end DoublebitMap

namespace Heap

variable {heap other : Heap} {slot : Nat}

/-- `free` of the page of a slot. -/
theorem free_page {mm : MemoryManager} (hstart : mm.vaddrStart = stationaryMem)
    (hroom : pageAddr mm.vaddrBmap.slots ≤ 2 ^ 32) (hslot : slot < mm.vaddrBmap.slots) :
    mm.free (pageAddr slot) = (mm.vaddrBmap.freeSlots slot).map fun freed =>
      { mm with
        vaddrBmap := freed.1
        paging := mm.paging.unmapPages freed.2 (pageAddr slot) } := by
  rw [MemoryManager.free, if_pos (pageAddr_mod slot), freePage,
    HeapInv.slot_of_pageAddr hstart hroom hslot]

theorem answers_free_none {addr : Nat} (hfree : heap.mm.free addr = none)
    (rest : List HeapEvent) : heap.answers (.free addr :: rest) = none := by
  rw [answers, responses, answer, step, hfree]
  rfl

theorem answers_free {mm : MemoryManager} {addr : Nat} (hfree : heap.mm.free addr = some mm)
    (rest : List HeapEvent) :
    heap.answers (.free addr :: rest) =
      (answers ⟨mm, Function.update heap.live addr none⟩ rest).map (none :: ·) := by
  rw [answers, responses, answer, step, hfree]
  rfl

/-- Two heaps whose maps hold different codes in a slot answer differently, if no slot behind the
maps has a mark. -/
theorem exists_answers_of_code (hlength : other.mm.vaddrBmap.bytesLen = heap.mm.vaddrBmap.bytesLen)
    (hstart : heap.mm.vaddrStart = stationaryMem ∧ other.mm.vaddrStart = stationaryMem)
    (hroom : heap.mm.virExhausted = false ∧ other.mm.virExhausted = false)
    (hpages : pageAddr heap.mm.vaddrBmap.slots ≤ 2 ^ 32)
    (hbehind : ∀ place ≥ heap.mm.vaddrBmap.slots,
      heap.mm.vaddrBmap.IsFree place ∧ other.mm.vaddrBmap.IsFree place)
    (hslot : slot < heap.mm.vaddrBmap.slots)
    (hne : other.mm.vaddrBmap.getSlotStatus slot ≠ heap.mm.vaddrBmap.getSlotStatus slot) :
    ∃ events, heap.answers events ≠ other.answers events := by
  have hslots : other.mm.vaddrBmap.slots = heap.mm.vaddrBmap.slots := by
    rw [DoublebitMap.slots, hlength, DoublebitMap.slots]
  by_cases hsame : ∀ place < heap.mm.vaddrBmap.slots,
      (other.mm.vaddrBmap.IsFree place ↔ heap.mm.vaddrBmap.IsFree place)
  case neg =>
    rw [not_forall] at hsame
    obtain ⟨place, hplace⟩ := hsame
    obtain ⟨events, -, hanswers⟩ := exists_answers_of_isFree hslots hstart hroom
      ⟨place, (Classical.not_imp.mp hplace)⟩
    exact ⟨events, hanswers⟩
  have hused : ¬ heap.mm.vaddrBmap.IsFree slot := by
    intro hfree
    have hfree' : other.mm.vaddrBmap.getSlotStatus slot = DoublebitMap.slotFree :=
      (hsame slot hslot).mpr hfree
    exact hne (hfree'.trans (Eq.symm hfree))
  have hused' : ¬ other.mm.vaddrBmap.IsFree slot := fun hfree => hused ((hsame slot hslot).mp hfree)
  have hfree := free_page hstart.1 hpages hslot
  have hfree' := @free_page slot other.mm hstart.2 (hslots ▸ hpages) (hslots ▸ hslot)
  rcases DoublebitMap.freeSlots_cases hused with ⟨hcode, hnone⟩ | ⟨next, n, hsome, hfrees⟩ <;>
    rcases DoublebitMap.freeSlots_cases hused' with
      ⟨hcode', hnone'⟩ | ⟨next', n', hsome', hfrees'⟩
  · exact absurd (hcode'.trans hcode.symm) hne
  · rw [hnone, Option.map_none] at hfree
    rw [hsome', Option.map_some] at hfree'
    refine ⟨[.free (pageAddr slot)], ?_⟩
    rw [answers_free_none hfree, answers_free hfree']
    intro heq
    cases heq
  · rw [hsome, Option.map_some] at hfree
    rw [hnone', Option.map_none] at hfree'
    refine ⟨[.free (pageAddr slot)], ?_⟩
    rw [answers_free hfree, answers_free_none hfree']
    intro heq
    cases heq
  · rw [hsome, Option.map_some] at hfree
    rw [hsome', Option.map_some] at hfree'
    have hcount : n ≠ n' := by
      rintro rfl
      exact hne (hfrees'.code.trans hfrees.code.symm)
    have hdiffers := hfrees.exists_isFree_ne hfrees' hcount hslots hsame hbehind
    have hnextSlots : next.slots = heap.mm.vaddrBmap.slots := by
      rw [DoublebitMap.slots, hfrees.length, DoublebitMap.slots]
    have hnextSlots' : next'.slots = heap.mm.vaddrBmap.slots := by
      rw [DoublebitMap.slots, hfrees'.length, hlength, DoublebitMap.slots]
    obtain ⟨events, -, hanswers⟩ := @exists_answers_of_isFree
      ⟨{ heap.mm with
          vaddrBmap := next
          paging := heap.mm.paging.unmapPages n (pageAddr slot) },
        Function.update heap.live (pageAddr slot) none⟩
      ⟨{ other.mm with
          vaddrBmap := next'
          paging := other.mm.paging.unmapPages n' (pageAddr slot) },
        Function.update other.live (pageAddr slot) none⟩
      (hnextSlots'.trans hnextSlots.symm) hstart hroom (hnextSlots.symm ▸ hdiffers)
    refine ⟨.free (pageAddr slot) :: events, ?_⟩
    rw [answers_free hfree events, answers_free hfree' events]
    exact fun heq => hanswers (Option.map_injective List.cons_injective heq)

end Heap

/-! ## What the memory held -/

/-- The slots of a map that are taken. -/
def DoublebitMap.Taken (bmap : DoublebitMap) (slot : Nat) : Prop :=
  slot < bmap.slots ∧ ¬ bmap.IsFree slot

instance (bmap : DoublebitMap) (slot : Nat) : Decidable (bmap.Taken slot) :=
  inferInstanceAs (Decidable (_ ∧ _))

/-- Every slot below a bound that is not free gets the code of a single page. -/
def DoublebitMap.occupy (bmap : DoublebitMap) : Nat → DoublebitMap
  | 0 => bmap
  | slot + 1 =>
      if bmap.IsFree slot then bmap.occupy slot
      else (bmap.occupy slot).setSlotValue slot slotUsedSingle

@[simp] theorem DoublebitMap.occupy_bytesLen (bmap : DoublebitMap) (bound : Nat) :
    (bmap.occupy bound).bytesLen = bmap.bytesLen := by
  induction bound with
  | zero => rfl
  | succ slot ih =>
      rw [occupy]
      split
      next => exact ih
      next => exact ih

theorem DoublebitMap.occupy_status (bmap : DoublebitMap) (bound slot : Nat) :
    (bmap.occupy bound).getSlotStatus slot =
      if slot < bound ∧ ¬ bmap.IsFree slot then slotUsedSingle else bmap.getSlotStatus slot := by
  induction bound with
  | zero => rw [occupy, if_neg fun h => Nat.not_lt_zero _ h.1]
  | succ last ih =>
      rw [occupy]
      by_cases hfree : bmap.IsFree last
      · rw [if_pos hfree, ih]
        refine if_congr (and_congr_left fun hused => ?_) rfl rfl
        have hne : slot ≠ last := fun heq => hused (heq ▸ hfree)
        omega
      · rw [if_neg hfree, getSlotStatus_setSlotValue _ _ _ (by decide), ih]
        split
        next heq => rw [if_pos ⟨heq ▸ Nat.lt_succ_self last, heq ▸ hfree⟩]
        next hne => exact if_congr (and_congr_left' (by omega)) rfl rfl

/-- The same slots are free. -/
structure SameFree (bmap other : DoublebitMap) : Prop where
  length : other.bytesLen = bmap.bytesLen
  free : ∀ slot < bmap.slots, other.IsFree slot ↔ bmap.IsFree slot

theorem SameFree.refl (bmap : DoublebitMap) : SameFree bmap bmap := ⟨rfl, fun _ _ => Iff.rfl⟩

theorem SameFree.symm {bmap other : DoublebitMap} (hsame : SameFree bmap other) :
    SameFree other bmap := by
  refine ⟨hsame.length.symm, fun slot hslot => (hsame.free slot ?_).symm⟩
  rwa [DoublebitMap.slots, ← hsame.length]

/-- The constructor where the memory held other bytes in the place of the two maps. -/
def Boot.onMemory (boot : Boot) (phyaddrBytes vaddrBytes : Nat → Byte) : MemoryManager :=
  { boot.memoryManager with
    vaddrBmap := ⟨boot.bmapLength, vaddrBytes⟩
    paging := { boot.memoryManager.paging with
      phyaddrBmap := (⟨boot.bmapLength, phyaddrBytes⟩ : Bitmap).initBitmap } }

/-- The bytes of the two-bit map, four slots each, and what is behind it. -/
def Boot.mapMemory (boot : Boot) (vaddrBytes behind : Nat → Byte) : Nat → Byte := fun byteIdx =>
  if byteIdx < 2 * boot.bmapLength then vaddrBytes byteIdx else behind byteIdx

/-- A slot of the map, and one behind it. -/
theorem Boot.mapMemory_status (boot : Boot) (vaddrBytes behind : Nat → Byte) (slot : Nat) :
    DoublebitMap.getSlotStatus ⟨boot.bmapLength, boot.mapMemory vaddrBytes behind⟩ slot =
      if slot < boot.bmapLength * 8 then
        DoublebitMap.getSlotStatus ⟨boot.bmapLength, vaddrBytes⟩ slot
      else DoublebitMap.getSlotStatus ⟨boot.bmapLength, behind⟩ slot := by
  dsimp only [DoublebitMap.getSlotStatus, mapMemory]
  split
  next hbyte => rw [if_pos (by omega)]
  next hbyte => rw [if_neg (by omega)]

/-- The same codes are the same bytes. -/
theorem Boot.mapMemory_congr {boot : Boot} {vaddrBytes vaddrBytes' : Nat → Byte}
    (hsame : ∀ slot < boot.bmapLength * 8,
      DoublebitMap.getSlotStatus ⟨boot.bmapLength, vaddrBytes'⟩ slot =
        DoublebitMap.getSlotStatus ⟨boot.bmapLength, vaddrBytes⟩ slot) (behind : Nat → Byte) :
    boot.mapMemory vaddrBytes' behind = boot.mapMemory vaddrBytes behind := by
  funext byteIdx
  rw [mapMemory, mapMemory]
  split
  next hbyte =>
    apply DoublebitMap.eq_of_slotIn
    intro place
    have hcode := hsame (4 * byteIdx + place) (by omega)
    have hdiv : (4 * byteIdx + place.val) * 2 / 8 = byteIdx := by omega
    have hmod : (4 * byteIdx + place.val) * 2 % 8 = 2 * place := by omega
    simpa only [DoublebitMap.getSlotStatus, hdiv, hmod] using hcode
  next => rfl

namespace Heap

variable {boot : Boot} {phyaddrBytes vaddrBytes phyaddrBytes' vaddrBytes' : Nat → Byte}

/-- The server has just started on a memory that held these bytes. -/
def startOn (boot : Boot) (phyaddrBytes vaddrBytes : Nat → Byte) : Heap :=
  ⟨boot.onMemory phyaddrBytes vaddrBytes, fun _ => none⟩

theorem startOn_bytesLen : (startOn boot phyaddrBytes vaddrBytes).mm.vaddrBmap.bytesLen =
    boot.bmapLength := rfl

theorem startOn_slots : (startOn boot phyaddrBytes vaddrBytes).mm.vaddrBmap.slots =
    (initial boot).mm.vaddrBmap.slots := rfl

/-- The server with a page in every slot that its map shows as taken. -/
def phantom (mm : MemoryManager) : Heap where
  mm := { mm with vaddrBmap := mm.vaddrBmap.occupy mm.vaddrBmap.slots }
  live addr :=
    if ∃ slot < mm.vaddrBmap.slots, ¬ mm.vaddrBmap.IsFree slot ∧ addr = pageAddr slot then
      some pageSize
    else none

/-- Each of these pages is an allocation of its own. -/
def phantomShape (bmap : DoublebitMap) : Shape where
  owner slot := if bmap.Taken slot then .large slot else .free
  pages _ := []
  queue _ := []

theorem phantom_live {mm : MemoryManager} {addr cntBytes : Nat} :
    (phantom mm).live addr = some cntBytes ↔
      (∃ slot, mm.vaddrBmap.Taken slot ∧ addr = pageAddr slot) ∧ pageSize = cntBytes := by
  simp only [phantom, Option.ite_none_right_eq_some, Option.some.injEq, DoublebitMap.Taken,
    and_assoc]

theorem phantomShape_large {bmap : DoublebitMap} {slot start : Nat} :
    (phantomShape bmap).owner slot = .large start ↔ bmap.Taken slot ∧ slot = start := by
  simp only [phantomShape]
  split
  next htaken => simp [htaken]
  next htaken => simp [htaken]

theorem phantomShape_small {bmap : DoublebitMap} {slot descIdx : Nat} :
    (phantomShape bmap).owner slot ≠ .small descIdx := by
  simp only [phantomShape]
  split
  next => exact Owner.large_ne_small
  next => exact Owner.free_ne_small

theorem pageCnt_pageSize : pageCnt pageSize = 1 := by decide

/-- The allocations that nobody has made keep the invariant. -/
theorem phantom_inv {mm : MemoryManager} (hfollows : Follows mm.memory mm.memDesc emptyShape)
    (hstart : mm.vaddrStart = stationaryMem) (hbelow : mm.memDesc + 112 ≤ stationaryMem)
    (hroom : pageAddr mm.vaddrBmap.slots ≤ 2 ^ 32) :
    HeapInv (phantom mm) (phantomShape mm.vaddrBmap) := by
  have hstatus := mm.vaddrBmap.occupy_status mm.vaddrBmap.slots
  have hslots : (phantom mm).mm.vaddrBmap.slots = mm.vaddrBmap.slots := by
    rw [DoublebitMap.slots, phantom, DoublebitMap.occupy_bytesLen, DoublebitMap.slots]
  constructor
  case wf =>
    constructor
    case owner_lt =>
      intro slot howner
      rw [hslots]
      by_contra hge
      exact howner (if_neg fun htaken => hge htaken.1)
    case desc_lt => exact fun howner => absurd howner phantomShape_small
    case mem_pages =>
      intro descIdx page _
      refine iff_of_false List.not_mem_nil ?_
      rintro ⟨_, _, howner⟩
      exact phantomShape_small howner
    case blocks => exact fun howner => absurd howner phantomShape_small
  case follows => exact ⟨hfollows.desc, fun howner => absurd howner phantomShape_small⟩
  case start_eq => exact hstart
  case below => exact hbelow
  case room => rwa [hslots]
  case free_status =>
    intro slot hslot howner
    rw [hslots] at hslot
    have hfree : mm.vaddrBmap.IsFree slot := by
      by_contra hused
      rw [phantomShape_large.mpr ⟨⟨hslot, hused⟩, rfl⟩] at howner
      cases howner
    exact ((hstatus slot).trans (if_neg fun h => h.2 hfree)).trans hfree
  case small_status => exact fun howner => absurd howner phantomShape_small
  case marked =>
    intro start cntBytes hlive offset hoffset
    obtain ⟨⟨slot, htaken, haddr⟩, rfl⟩ := phantom_live.mp hlive
    obtain rfl := pageAddr_inj haddr
    rw [pageCnt_pageSize] at hoffset ⊢
    obtain rfl := Nat.lt_one_iff.mp hoffset
    exact (hstatus start).trans (if_pos htaken)
  case size =>
    intro addr cntBytes hlive
    obtain ⟨-, rfl⟩ := phantom_live.mp hlive
    decide
  case placed =>
    intro addr cntBytes hlive
    obtain ⟨⟨slot, htaken, haddr⟩, rfl⟩ := phantom_live.mp hlive
    refine .large (by decide) haddr fun i hi => ?_
    rw [pageCnt_pageSize] at hi
    obtain rfl := Nat.lt_one_iff.mp hi
    exact phantomShape_large.mpr ⟨htaken, rfl⟩
  case owned =>
    intro slot start howner
    obtain ⟨htaken, rfl⟩ := phantomShape_large.mp howner
    refine ⟨pageSize, phantom_live.mpr ⟨⟨slot, htaken, rfl⟩, rfl⟩, le_rfl, ?_⟩
    rw [pageCnt_pageSize]
    exact Nat.lt_succ_self slot
  case split => exact fun howner => absurd howner phantomShape_small

/-- Whatever the codes of its taken slots are, a map is that of the phantom pages without them. -/
theorem phantom_hides {mm other : MemoryManager} (hsame : SameBut SameFree mm other) :
    Hides mm.vaddrBmap.Taken (phantom mm) ⟨other, fun _ => none⟩ := by
  have hstatus := mm.vaddrBmap.occupy_status mm.vaddrBmap.slots
  have hslots : (mm.vaddrBmap.occupy mm.vaddrBmap.slots).slots = mm.vaddrBmap.slots := by
    rw [DoublebitMap.slots, DoublebitMap.occupy_bytesLen, DoublebitMap.slots]
  have hmap : AgreeOff mm.vaddrBmap.Taken (mm.vaddrBmap.occupy mm.vaddrBmap.slots)
      other.vaddrBmap := by
    constructor
    case length => exact hsame.map.length.trans (DoublebitMap.occupy_bytesLen ..).symm
    case same =>
      intro slot hslot huntaken
      rw [hslots] at hslot
      have hfree : mm.vaddrBmap.IsFree slot := by
        by_contra hused
        exact huntaken ⟨hslot, hused⟩
      rw [hstatus, if_neg fun h => h.2 hfree]
      exact ((hsame.map.free slot hslot).mpr hfree).trans hfree.symm
    case taken =>
      intro slot _ htaken
      refine ⟨?_, fun hfree => htaken.2 ((hsame.map.free slot htaken.1).mp hfree)⟩
      rw [DoublebitMap.IsFree, hstatus, if_pos ⟨htaken.1, htaken.2⟩]
      decide
  constructor
  case rest => exact ⟨hmap, hsame.start_eq, hsame.exhausted_eq, hsame.desc_eq, hsame.memory_eq⟩
  case held => exact fun htaken => phantom_live.mpr ⟨⟨_, htaken, rfl⟩, rfl⟩
  case live =>
    refine iff_of_false (Option.some_ne_none _).symm ?_
    rintro ⟨hlive, hclean⟩
    obtain ⟨⟨slot, htaken, haddr⟩, -⟩ := phantom_live.mp hlive
    exact hclean slot htaken haddr

theorem startOn_sameBut {related : DoublebitMap → DoublebitMap → Prop}
    (hmap : related ⟨boot.bmapLength, vaddrBytes⟩ ⟨boot.bmapLength, vaddrBytes'⟩) :
    SameBut related (boot.onMemory phyaddrBytes vaddrBytes)
      (boot.onMemory phyaddrBytes' vaddrBytes') := ⟨hmap, rfl, rfl, rfl, rfl⟩

/-- Two starts with the same free slots hide the same phantom pages. -/
theorem startOn_twins
    (hsame : SameFree ⟨boot.bmapLength, vaddrBytes⟩ ⟨boot.bmapLength, vaddrBytes'⟩) :
    Twins (DoublebitMap.Taken ⟨boot.bmapLength, vaddrBytes⟩)
      (startOn boot phyaddrBytes vaddrBytes) (startOn boot phyaddrBytes' vaddrBytes') := by
  have hinitial := initial_inv boot
  have hinv := @phantom_inv (boot.onMemory phyaddrBytes vaddrBytes) hinitial.follows
    hinitial.start_eq hinitial.below hinitial.room
  intro _
  exact ⟨_, _, hinv, phantom_hides (startOn_sameBut (.refl _)),
    phantom_hides (startOn_sameBut hsame)⟩

/-- The same requests give the same answers to clients that free what they hold. -/
theorem answers_of_sameFree
    (hsame : SameFree ⟨boot.bmapLength, vaddrBytes⟩ ⟨boot.bmapLength, vaddrBytes'⟩)
    {events : List HeapEvent} (hproper : (startOn boot phyaddrBytes vaddrBytes).Proper events) :
    (startOn boot phyaddrBytes vaddrBytes).answers events =
      (startOn boot phyaddrBytes' vaddrBytes').answers events := by
  have hstep : ∀ (heap other : Heap) (event : HeapEvent),
      Twins (DoublebitMap.Taken ⟨boot.bmapLength, vaddrBytes⟩) heap other →
      heap.mm.virExhausted = false ∧ heap.Admits event →
      Matches (Twins _) (heap.answer event) (other.answer event) :=
    fun _ _ _ htwins hadmits => htwins.answer hadmits
  exact responses_eq hstep (startOn_twins hsame) hproper

/-- Managers that differ in their physical pages only. -/
theorem answer_of_eq {heap other : Heap} (hmm : SameBut Eq heap.mm other.mm)
    (hlive : other.live = heap.live) (event : HeapEvent) :
    Matches (fun heap other => SameBut Eq heap.mm other.mm ∧ other.live = heap.live)
      (heap.answer event) (other.answer event) := by
  cases event with
  | malloc cntBytes =>
      have hmatches := hmm.malloc unseen_eq cntBytes
      rw [answer, answer, hlive]
      generalize heap.mm.malloc cntBytes = done at hmatches ⊢
      generalize other.mm.malloc cntBytes = done' at hmatches ⊢
      cases hmatches with
      | none => exact .none
      | @some left right hboth =>
          obtain ⟨mm, addr⟩ := left
          obtain ⟨mm', addr'⟩ := right
          obtain ⟨hafter, rfl⟩ := hboth
          exact .some ⟨⟨hafter, rfl⟩, rfl⟩
  | free addr =>
      have hmatches := hmm.free addr
      rw [answer, answer, step, step, hlive]
      generalize heap.mm.free addr = done at hmatches ⊢
      generalize other.mm.free addr = done' at hmatches ⊢
      cases hmatches with
      | none => exact .none
      | some hboth => exact .some ⟨⟨hboth, rfl⟩, rfl⟩
  | write block cell first second =>
      refine .some ⟨⟨?_, hlive⟩, rfl⟩
      have hwrite := hmm.withMemory ((heap.mm.memory.setPrev cell first).setNext cell second)
      rw [← hmm.memory_eq] at hwrite ⊢
      exact hwrite

theorem answers_of_eq {heap other : Heap} (hmm : SameBut Eq heap.mm other.mm)
    (hlive : other.live = heap.live) (events : List HeapEvent) :
    heap.answers events = other.answers events := by
  have hstep : ∀ (heap other : Heap) (event : HeapEvent),
      SameBut Eq heap.mm other.mm ∧ other.live = heap.live → True →
      Matches (fun heap other => SameBut Eq heap.mm other.mm ∧ other.live = heap.live)
        (heap.answer event) (other.answer event) :=
    fun _ _ event hsame _ => answer_of_eq hsame.1 hsame.2 event
  exact responses_eq hstep ⟨hmm, hlive⟩ (allowed_of_forall (fun _ _ => trivial) heap events)

/-- Two starts with different codes in a slot answer differently where zeros follow the map. -/
theorem exists_answers_of_status (phyaddrBytes phyaddrBytes' : Nat → Byte) {slot : Nat}
    (hslot : slot < boot.bmapLength * 8)
    (hne : DoublebitMap.getSlotStatus ⟨boot.bmapLength, vaddrBytes'⟩ slot ≠
      DoublebitMap.getSlotStatus ⟨boot.bmapLength, vaddrBytes⟩ slot) :
    ∃ events, (startOn boot phyaddrBytes (boot.mapMemory vaddrBytes 0)).answers events ≠
      (startOn boot phyaddrBytes' (boot.mapMemory vaddrBytes' 0)).answers events := by
  have hroom : pageAddr (startOn boot phyaddrBytes (boot.mapMemory vaddrBytes 0)).mm.vaddrBmap.slots ≤
      2 ^ 32 := by
    rw [startOn_slots]
    exact (initial_inv boot).room
  have hzeros : ∀ place ≥ boot.bmapLength * 8, ∀ bytes,
      DoublebitMap.IsFree ⟨boot.bmapLength, boot.mapMemory bytes 0⟩ place := by
    intro place hplace bytes
    rw [DoublebitMap.IsFree, boot.mapMemory_status, if_neg (Nat.not_lt.mpr hplace)]
    simp [DoublebitMap.getSlotStatus, DoublebitMap.slotIn, DoublebitMap.slotFree]
  refine @exists_answers_of_code _ _ slot (startOn_bytesLen.trans startOn_bytesLen.symm) ⟨rfl, rfl⟩
    ⟨rfl, rfl⟩ hroom (fun place hplace => ⟨hzeros place hplace _, hzeros place hplace _⟩) hslot ?_
  change DoublebitMap.getSlotStatus ⟨boot.bmapLength, _⟩ slot ≠
    DoublebitMap.getSlotStatus ⟨boot.bmapLength, _⟩ slot
  rwa [boot.mapMemory_status, boot.mapMemory_status, if_pos hslot, if_pos hslot]

/-- Two starts answer all requests in the same way, whatever is behind the two-bit map, if and
only if its slots hold the same codes. They answer all requests of clients that free what they hold
in the same way, as long as no search for virtual pages has failed, if and only if the same slots
are free. -/
theorem answers_independent_iff (boot : Boot)
    (phyaddrBytes vaddrBytes phyaddrBytes' vaddrBytes' : Nat → Byte) :
    ((∀ behind events,
        (startOn boot phyaddrBytes (boot.mapMemory vaddrBytes behind)).answers events =
          (startOn boot phyaddrBytes' (boot.mapMemory vaddrBytes' behind)).answers events) ↔
      ∀ slot < boot.bmapLength * 8,
        DoublebitMap.getSlotStatus ⟨boot.bmapLength, vaddrBytes'⟩ slot =
          DoublebitMap.getSlotStatus ⟨boot.bmapLength, vaddrBytes⟩ slot) ∧
    ((∀ events, (startOn boot phyaddrBytes vaddrBytes).Proper events ∨
          (startOn boot phyaddrBytes' vaddrBytes').Proper events →
        (startOn boot phyaddrBytes vaddrBytes).answers events =
          (startOn boot phyaddrBytes' vaddrBytes').answers events) ↔
      ∀ slot < boot.bmapLength * 8,
        (DoublebitMap.IsFree ⟨boot.bmapLength, vaddrBytes'⟩ slot ↔
          DoublebitMap.IsFree ⟨boot.bmapLength, vaddrBytes⟩ slot)) := by
  refine ⟨⟨fun hanswers slot hslot => ?_, fun hsame behind => ?_⟩, fun hanswers slot hslot => ?_,
    fun hsame events hproper => ?_⟩
  · by_contra hne
    obtain ⟨events, hdiffers⟩ := exists_answers_of_status phyaddrBytes phyaddrBytes' hslot hne
    exact hdiffers (hanswers _ events)
  · rw [Boot.mapMemory_congr hsame]
    exact fun events => answers_of_eq (startOn_sameBut rfl)
      (show (startOn boot phyaddrBytes' _).live = (startOn boot phyaddrBytes _).live from rfl) events
  · by_contra hne
    obtain ⟨events, hproper, hdiffers⟩ := @exists_answers_of_isFree
      (startOn boot phyaddrBytes vaddrBytes) (startOn boot phyaddrBytes' vaddrBytes') rfl ⟨rfl, rfl⟩
      ⟨rfl, rfl⟩ ⟨slot, hslot, hne⟩
    exact hdiffers (hanswers events hproper)
  · have hfree : SameFree ⟨boot.bmapLength, vaddrBytes⟩ ⟨boot.bmapLength, vaddrBytes'⟩ :=
      ⟨rfl, hsame⟩
    rcases hproper with hproper | hproper
    · exact answers_of_sameFree hfree hproper
    · exact (answers_of_sameFree hfree.symm hproper).symm

/-- A slot that held the code of a single page is never handed out. -/
theorem answers_depend :
    ¬ ∀ (boot : Boot) (phyaddrBytes vaddrBytes phyaddrBytes' vaddrBytes' : Nat → Byte)
      (events : List HeapEvent),
      (startOn boot phyaddrBytes vaddrBytes).answers events =
        (startOn boot phyaddrBytes' vaddrBytes').answers events := by
  intro hall
  have hsame := hall fourMegabytes (fun _ => 0) (fun _ => 0) (fun _ => 0)
    (Function.update (fun _ => 0) 0 1) [.malloc 4096]
  have hleft : (startOn fourMegabytes (fun _ => 0) fun _ => 0).answers [.malloc 4096] =
      some [some 0x200000] := by decide
  have hright : (startOn fourMegabytes (fun _ => 0)
      (Function.update (fun _ => 0) 0 1)).answers [.malloc 4096] = some [some 0x201000] := by
    decide
  rw [hleft, hright] at hsame
  cases hsame

end Heap

end Shmily.Mm
