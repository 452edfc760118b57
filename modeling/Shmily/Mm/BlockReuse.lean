import Shmily.Mm.HeapSafety

/-! # Reuse of free blocks

`get_elem` returns the first page for every index, so the search for a free
block looks at one page however long the list is. It misses a free block when a
full page stands before the page of the block. Requests keep the full pages
behind the others. A `free` keeps them there unless it gives a block back to a
full page that comes after another full page.
-/

namespace Shmily.Mm

open Foundation Lib MemoryManager

/-! ## The state of the lists -/

namespace MemoryManager

/-- A request of 1 to 1024 bytes calls `malloc_page`: the search has found no page. -/
def CallsMallocPage (mm : MemoryManager) (cntBytes : Nat) : Prop :=
  (descIdxOf cntBytes).bind mm.findPage = some none

/-- The list of a size class holds these pages. -/
def ClassHolds (mm : MemoryManager) (cntBytes : Nat) (pages : List Nat) : Prop :=
  ∃ descIdx, descIdxOf cntBytes = some descIdx ∧ (mm.desc descIdx).Holds mm.memory pages

/-- A request calls `malloc_page` only if every page in the list of its class is full. -/
def ReusesBlocks (mm : MemoryManager) (cntBytes : Nat) : Prop :=
  mm.CallsMallocPage cntBytes → ∀ pages, mm.ClassHolds cntBytes pages →
    ∀ page ∈ pages, freeCnts mm.memory page = 0

/-- Behind a full first page come full pages only. -/
def FirstTells (mm : MemoryManager) (cntBytes : Nat) : Prop :=
  ∀ first others, mm.ClassHolds cntBytes (first :: others) → freeCnts mm.memory first = 0 →
    ∀ page ∈ others, freeCnts mm.memory page = 0

end MemoryManager

/-- A `free` does not give a block back to a full page that comes after a full page in the
list that `free` computes. -/
def Heap.FreesInOrder (heap : Heap) : HeapEvent → Prop
  | .free addr => ∀ front back,
      heap.mm.ClassHolds (eachBlockSize heap.mm.memory (addr / pageSize * pageSize))
        (front ++ addr / pageSize * pageSize :: back) →
      freeCnts heap.mm.memory (addr / pageSize * pageSize) = 0 →
      ∀ other ∈ front, freeCnts heap.mm.memory other ≠ 0
  | _ => True

/-! ## Full pages -/

namespace Shape

/-- A page without a free block. -/
def Full (shape : Shape) (page : Nat) : Prop := ∃ slot, page = pageAddr slot ∧ shape.queue slot = []

/-- No list has a page with a free block behind a full one. -/
def FullLast (shape : Shape) : Prop :=
  ∀ descIdx < 7, (shape.pages descIdx).Pairwise fun page later => shape.Full page → shape.Full later

variable {shape next : Shape} {slots slot descIdx cntBytes addr page : Nat} {queue : List Nat}

theorem full_pageAddr : shape.Full (pageAddr slot) ↔ shape.queue slot = [] := by
  constructor
  · rintro ⟨other, hpage, hqueue⟩
    rwa [pageAddr_inj hpage]
  · exact fun hqueue => ⟨slot, rfl, hqueue⟩

theorem full_setQueue_self : (shape.setQueue slot queue).Full (pageAddr slot) ↔ queue = [] := by
  rw [full_pageAddr, setQueue_queue, Function.update_self]

theorem full_setQueue_of_ne (hne : page ≠ pageAddr slot) :
    (shape.setQueue slot queue).Full page ↔ shape.Full page := by
  refine exists_congr fun other => and_congr_right fun hpage => ?_
  rw [setQueue_queue, Function.update_of_ne]
  rintro rfl
  exact hne hpage

/-- A page whose queue stays empty, or stays nonempty, is as full as it was. -/
theorem full_setQueue (hsame : queue = [] ↔ shape.queue slot = []) :
    (shape.setQueue slot queue).Full page ↔ shape.Full page := by
  by_cases heq : page = pageAddr slot
  · rw [heq, full_setQueue_self, full_pageAddr, hsame]
  · exact full_setQueue_of_ne heq

/-- A list is in order if no page of it has changed. -/
theorem FullLast.same (hlast : shape.FullLast) (hdesc : descIdx < 7)
    (hsame : ∀ page ∈ shape.pages descIdx, next.Full page ↔ shape.Full page) :
    (shape.pages descIdx).Pairwise fun page later => next.Full page → next.Full later :=
  (hlast descIdx hdesc).imp_of_mem fun hpage hlater hfull hnow =>
    (hsame _ hlater).mpr (hfull ((hsame _ hpage).mp hnow))

/-- A page is in the list of its own class only. -/
theorem WF.page_class (hwf : shape.WF slots) {kind : Nat} (hkind : kind < 7)
    (hmem : pageAddr slot ∈ shape.pages kind) (howner : shape.owner slot = .small descIdx) :
    kind = descIdx := by
  obtain ⟨other, hpage, hother⟩ := (hwf.mem_pages hkind).mp hmem
  rw [← pageAddr_inj hpage, howner, Owner.small.injEq] at hother
  exact hother.symm

/-- A page that has become full goes to the tail of its list. -/
theorem FullLast.fill (hlast : shape.FullLast) (hwf : shape.WF slots) {others : List Nat}
    (howner : shape.owner slot = .small descIdx)
    (hpages : shape.pages descIdx = pageAddr slot :: others) (hnodup : (shape.pages descIdx).Nodup) :
    ((shape.setQueue slot []).setPages descIdx (others ++ [pageAddr slot])).FullLast := by
  have hdesc := hwf.desc_lt howner
  have hfull : ∀ {page}, page ≠ pageAddr slot →
      (((shape.setQueue slot []).setPages descIdx (others ++ [pageAddr slot])).Full page ↔
        shape.Full page) := fun hne => full_setQueue_of_ne hne
  intro kind hkind
  rw [setPages_pages]
  by_cases heq : kind = descIdx
  · subst heq
    rw [hpages, List.nodup_cons] at hnodup
    have hordered := hlast kind hkind
    rw [hpages, List.pairwise_cons] at hordered
    have hne : ∀ page ∈ others, page ≠ pageAddr slot := by
      rintro page hpage rfl
      exact hnodup.1 hpage
    rw [Function.update_self, List.pairwise_append]
    refine ⟨?_, List.pairwise_singleton .., fun page _ later hlater _ => ?_⟩
    · refine hordered.2.imp_of_mem fun hpage hlater hkeep hnow => ?_
      exact (hfull (hne _ hlater)).mpr (hkeep ((hfull (hne _ hpage)).mp hnow))
    · rw [List.mem_singleton.mp hlater]
      exact full_setQueue_self.mpr rfl
  · rw [Function.update_of_ne heq]
    refine hlast.same hkind fun page hpage => hfull ?_
    rintro rfl
    exact heq (hwf.page_class hkind hpage howner)

/-- A new page has free blocks and comes first. -/
theorem FullLast.fresh (hlast : shape.FullLast) (hwf : shape.WF slots)
    (hfree : shape.owner slot = .free) {blocks rest : List Nat} (hrest : rest ≠ []) :
    ((shape.addPage slot descIdx blocks).setQueue slot rest).FullLast := by
  have hfull : ∀ {kind page}, kind < 7 → page ∈ shape.pages kind →
      (((shape.addPage slot descIdx blocks).setQueue slot rest).Full page ↔ shape.Full page) := by
    intro kind page hkind hpage
    obtain ⟨other, rfl, howner⟩ := (hwf.mem_pages hkind).mp hpage
    have hne : other ≠ slot := by
      rintro rfl
      rw [hfree] at howner
      cases howner
    rw [full_pageAddr, full_pageAddr, setQueue_queue, addPage_queue, Function.update_of_ne hne,
      Function.update_of_ne hne]
  intro kind hkind
  rw [setQueue_pages, addPage_pages]
  by_cases heq : kind = descIdx
  · subst heq
    rw [Function.update_self, List.pairwise_cons]
    refine ⟨fun later _ hnow => absurd (full_setQueue_self.mp hnow) hrest, ?_⟩
    exact hlast.same hkind fun page hpage => hfull hkind hpage
  · rw [Function.update_of_ne heq]
    exact hlast.same hkind fun page hpage => hfull hkind hpage

/-- A page that gets a block back, with no full page before it if it was full itself. -/
theorem FullLast.give (hlast : shape.FullLast) (hwf : shape.WF slots)
    (howner : shape.owner slot = .small descIdx) {block : Nat}
    (hnodup : (shape.pages descIdx).Nodup)
    (horder : ∀ front back, shape.pages descIdx = front ++ pageAddr slot :: back →
      shape.Full (pageAddr slot) → ∀ other ∈ front, ¬ shape.Full other) :
    (shape.setQueue slot (shape.queue slot ++ [block])).FullLast := by
  have hdesc := hwf.desc_lt howner
  have hfull : ∀ {page}, page ≠ pageAddr slot →
      ((shape.setQueue slot (shape.queue slot ++ [block])).Full page ↔ shape.Full page) :=
    fun hne => full_setQueue_of_ne hne
  have hself : ¬ (shape.setQueue slot (shape.queue slot ++ [block])).Full (pageAddr slot) := by
    rw [full_setQueue_self]
    exact List.append_ne_nil_of_right_ne_nil _ (List.cons_ne_nil _ _)
  intro kind hkind
  rw [setQueue_pages]
  by_cases heq : kind = descIdx
  · subst heq
    by_cases hwas : shape.Full (pageAddr slot)
    · obtain ⟨front, back, hpages⟩ :=
        List.append_of_mem ((hwf.mem_pages hdesc).mpr ⟨slot, rfl, howner⟩)
      have hordered := hlast kind hkind
      rw [hpages, List.nodup_append, List.nodup_cons] at hnodup
      rw [hpages, List.pairwise_append, List.pairwise_cons] at hordered
      -- The pages before it have free blocks, so only those behind it are left to compare.
      have hfront : ∀ page ∈ front,
          ¬ (shape.setQueue slot (shape.queue slot ++ [block])).Full page := by
        intro page hpage
        rw [hfull (hnodup.2.2 page hpage _ List.mem_cons_self)]
        exact horder front back hpages hwas page hpage
      have hback : ∀ page ∈ back, page ≠ pageAddr slot := by
        rintro page hpage rfl
        exact hnodup.2.1.1 hpage
      rw [hpages, List.pairwise_append, List.pairwise_cons]
      refine ⟨?_, ⟨fun _ _ hnow => absurd hnow hself, ?_⟩, fun page hpage _ _ hnow =>
        absurd hnow (hfront page hpage)⟩
      · exact hordered.1.imp_of_mem fun hpage _ _ hnow => absurd hnow (hfront _ hpage)
      · refine hordered.2.1.2.imp_of_mem fun hpage hlater hkeep hnow => ?_
        exact (hfull (hback _ hlater)).mpr (hkeep ((hfull (hback _ hpage)).mp hnow))
    · refine hlast.same hkind fun page hpage => ?_
      by_cases hpageEq : page = pageAddr slot
      · rw [hpageEq]
        exact iff_of_false hself hwas
      · exact hfull hpageEq
  · refine hlast.same hkind fun page hpage => hfull ?_
    rintro rfl
    exact heq (hwf.page_class hkind hpage howner)

/-- A request keeps the full pages behind the others. -/
theorem FullLast.takes (hlast : shape.FullLast) (hwf : shape.WF slots)
    (hnodup : ∀ descIdx < 7, (shape.pages descIdx).Nodup)
    (htakes : shape.Takes cntBytes addr next) : next.FullLast := by
  cases htakes with
  | large => exact hlast
  | reuse _ howner hqueue hleft =>
      refine fun kind hkind => hlast.same hkind fun page _ => full_setQueue (iff_of_false hleft ?_)
      rw [hqueue]
      exact List.cons_ne_nil _ _
  | fill _ howner hpages _ =>
      exact hlast.fill hwf howner hpages (hnodup _ (hwf.desc_lt howner))
  | @fresh slot descIdx block rest _ hdesc hfree hqueue =>
      refine hlast.fresh hwf hfree ?_
      rintro rfl
      have hlength := congrArg List.length hqueue
      have hthree : 3 ≤ blockCount descIdx :=
        calc 3 = (pageSize - headerSize) / 1024 := by decide
          _ ≤ blockCount descIdx := Nat.div_le_div_left (classSize_le hdesc)
              (lt_of_lt_of_le (by decide) (classSize_pos descIdx))
      rw [allBlocks, List.length_map, List.length_range, List.length_singleton] at hlength
      omega

end Shape

/-! ## Requests -/

namespace HeapInv

variable {heap : Heap} {shape : Shape} {slot descIdx cntBytes : Nat}

theorem full_iff (hinv : HeapInv heap shape) (hdesc : descIdx < 7) {page : Nat}
    (hpage : page ∈ shape.pages descIdx) :
    shape.Full page ↔ freeCnts heap.mm.memory page = 0 := by
  obtain ⟨slot, rfl, howner⟩ := (hinv.wf.mem_pages hdesc).mp hpage
  rw [Shape.full_pageAddr, (hinv.follows.header howner).cnts, List.length_eq_zero_iff]

/-- The list of a class is the one of the shape. -/
theorem classHolds_iff (hinv : HeapInv heap shape) (hdesc : descIdx < 7)
    (hclass : descIdxOf cntBytes = some descIdx) {pages : List Nat} :
    heap.mm.ClassHolds cntBytes pages ↔ pages = shape.pages descIdx := by
  have hholds := hinv.follows.desc hdesc
  constructor
  · rintro ⟨other, hother, hpages⟩
    rw [hclass, Option.some.injEq] at hother
    subst hother
    exact hpages.unique hholds
  · rintro rfl
    exact ⟨descIdx, hclass, hholds⟩

/-- `malloc_page` is called when there is no page, or the first one is full. -/
theorem callsMallocPage_iff (hinv : HeapInv heap shape) (hdesc : descIdx < 7)
    (hclass : descIdxOf cntBytes = some descIdx) :
    heap.mm.CallsMallocPage cntBytes ↔
      ∀ first others, shape.pages descIdx = first :: others → freeCnts heap.mm.memory first = 0 := by
  rw [CallsMallocPage, hclass, Option.bind_some, hinv.findPage_eq hdesc, Option.some.injEq]
  cases hpages : shape.pages descIdx with
  | nil => exact iff_of_true rfl fun _ _ h => nomatch h
  | cons page rest =>
      rw [List.head?_cons, Option.filter_some]
      constructor
      · intro hnone first others hcons
        obtain ⟨rfl, -⟩ := List.cons.inj hcons
        by_contra hcnts
        rw [if_pos (decide_eq_true hcnts)] at hnone
        cases hnone
      · intro hfirst
        rw [if_neg (by simp [hfirst page rest rfl])]

theorem reusesBlocks_iff (hinv : HeapInv heap shape) (hsmall : cntBytes ≤ 1024) :
    heap.mm.ReusesBlocks cntBytes ↔ heap.mm.FirstTells cntBytes := by
  obtain ⟨descIdx, hdesc, hclass, -⟩ := descIdxOf_small hsmall
  simp only [ReusesBlocks, FirstTells, hinv.classHolds_iff hdesc hclass,
    hinv.callsMallocPage_iff hdesc hclass]
  constructor
  · intro hreuses first others hpages hfull page hpage
    refine hreuses (fun other rest hcons => ?_) _ hpages page (List.mem_cons_of_mem _ hpage)
    rw [← hpages] at hcons
    rwa [← (List.cons.inj hcons).1]
  · rintro hfirst hcalls pages rfl page hpage
    cases hpages : shape.pages descIdx with
    | nil =>
        rw [hpages] at hpage
        cases hpage
    | cons first others =>
        have hfull := hcalls first others hpages
        rw [hpages] at hpage
        rcases List.mem_cons.mp hpage with rfl | hother
        · exact hfull
        · exact hfirst first others hpages.symm hfull page hother

theorem reusesBlocks_of_fullLast (hinv : HeapInv heap shape) (hlast : shape.FullLast)
    (hsmall : cntBytes ≤ 1024) : heap.mm.ReusesBlocks cntBytes := by
  rw [hinv.reusesBlocks_iff hsmall]
  intro first others hholds hfull page hpage
  obtain ⟨descIdx, hdesc, hclass, -⟩ := descIdxOf_small hsmall
  rw [hinv.classHolds_iff hdesc hclass] at hholds
  have hordered := hlast descIdx hdesc
  have hfirst := hinv.full_iff hdesc (by rw [← hholds]; exact List.mem_cons_self)
  have hlater : shape.Full page ↔ freeCnts heap.mm.memory page = 0 := hinv.full_iff hdesc
    (by rw [← hholds]; exact List.mem_cons_of_mem _ hpage)
  rw [← hholds, List.pairwise_cons] at hordered
  exact hlater.mp (hordered.1 page hpage (hfirst.mpr hfull))

/-- An event keeps the full pages behind the others. -/
theorem fullLast_steps (hinv : HeapInv heap shape) {event : HeapEvent} {next : Shape}
    (horder : heap.FreesInOrder event) (hsteps : shape.Steps event next) (hlast : shape.FullLast) :
    next.FullLast := by
  have hnodup : ∀ descIdx < 7, (shape.pages descIdx).Nodup :=
    fun descIdx hdesc => (hinv.follows.desc hdesc).nodup
  cases hsteps with
  | malloc htakes => exact hlast.takes hinv.wf hnodup htakes
  | free hgives =>
      cases hgives with
      | large => exact hlast
      | small howner hi =>
          have hdesc := hinv.wf.desc_lt howner
          refine hlast.give hinv.wf howner (hnodup _ hdesc) fun front back hpages hfull other hother => ?_
          have hmem : ∀ page ∈ front ++ pageAddr _ :: back, page ∈ shape.pages _ :=
            fun page hpage => hpages ▸ hpage
          rw [hinv.full_iff hdesc (hmem other (List.mem_append_left _ hother))]
          rw [hinv.full_iff hdesc (hmem _ (List.mem_append_right _ List.mem_cons_self))] at hfull
          have hfirst := horder front back
          rw [page_of_block hi, (hinv.follows.header howner).size,
            hinv.classHolds_iff hdesc (descIdxOf_classSize hdesc)] at hfirst
          exact hfirst hpages.symm hfull other hother
  | write => exact hlast

end HeapInv

/-! ## Runs -/

namespace Heap

variable {boot : Boot} {events : List HeapEvent} {heap : Heap} {cntBytes : Nat}

/-- In every state of every run a small request takes a new page only if all pages of its
class are full, exactly if a full first page is followed by full pages only. That is
so in every run in which no block is given back to a full page that comes after a full page. -/
theorem blocks_reused (hrun : Run step Admits (initial boot) events heap)
    (hroom : heap.mm.virExhausted = false) (hsmall : cntBytes ≤ 1024) :
    (Run step (fun heap event => heap.Admits event ∧ heap.FreesInOrder event) (initial boot)
      events heap → heap.mm.ReusesBlocks cntBytes) ∧
    (heap.mm.ReusesBlocks cntBytes ↔ heap.mm.FirstTells cntBytes) := by
  constructor
  · intro hordered
    obtain ⟨shape, hinv, hlast⟩ := run_shape (fun _ shape => shape.FullLast)
      (fun _ _ => List.Pairwise.nil) (fun _ _ hadmits => hadmits.1)
      (fun _ _ _ _ _ hinv hadmits hsteps hlast => hinv.fullLast_steps hadmits.2 hsteps hlast)
      hordered hroom
    exact hinv.reusesBlocks_of_fullLast hlast hsmall
  · obtain ⟨shape, hinv⟩ := run_inv hrun hroom
    exact hinv.reusesBlocks_iff hsmall

/-- Three blocks of 1024 bytes fill a page. The fourth one is in a second page, which comes
before the first one when that gets a block back. -/
theorem blocks_reused_four :
    ∃ heap, Run step (fun heap event => heap.Admits event ∧ heap.FreesInOrder event)
        (initial fourMegabytes)
        [.malloc 1024, .malloc 1024, .malloc 1024, .malloc 1024, .free 0x200020] heap ∧
      heap.mm.ReusesBlocks 1024 := by
  have hseen : (exec step Admits (initial fourMegabytes)
      [.malloc 1024, .malloc 1024, .malloc 1024, .malloc 1024]).map (fun heap =>
        (decide ((heap.mm.desc 6).Holds heap.mm.memory [0x201000, 0x200000]),
          eachBlockSize heap.mm.memory 0x200000, freeCnts heap.mm.memory 0x201000,
          heap.live 0x200020,
          (heap.step (.free 0x200020)).map fun next => next.mm.virExhausted)) =
      some (true, 1024, 2, some 1024, some false) := by
    decide +kernel
  obtain ⟨heap, hexec, hseen⟩ := Option.map_eq_some_iff.mp hseen
  simp only [Prod.mk.injEq, decide_eq_true_eq] at hseen
  obtain ⟨hholds, hsize, hcnts, hlive, hfree⟩ := hseen
  obtain ⟨next, hstep, hroom⟩ := Option.map_eq_some_iff.mp hfree
  have horder : heap.FreesInOrder (.free 0x200020) := by
    rintro front back ⟨descIdx, hclass, hpages⟩ - other hother
    rw [show (0x200020 : Nat) / pageSize * pageSize = 0x200000 from rfl] at hclass hpages
    rw [hsize] at hclass
    obtain rfl : 6 = descIdx := Option.some.inj hclass
    -- Only the second page comes before the first one.
    have hlist := hpages.unique hholds
    cases front with
    | nil => cases hother
    | cons first rest =>
        obtain ⟨rfl, hrest⟩ := List.cons.inj hlist
        cases rest with
        | nil =>
            rw [List.mem_singleton.mp hother, hcnts]
            decide
        | cons => simp at hrest
  have hmallocs : Run step (fun heap event => heap.Admits event ∧ heap.FreesInOrder event) _ _ heap :=
    (Run.of_exec _ _ _ _ hexec).and_events (by simp [FreesInOrder])
  have hrun := hmallocs.snoc ⟨by simp [Admits, hlive], horder⟩ hstep
  exact ⟨next, hrun, (blocks_reused (hrun.mono fun _ _ h => h.1) hroom (by decide)).1 hrun⟩

/-- Six blocks fill two pages. When the second one gets a block back, the next request takes a
third page. -/
theorem free_block_missed :
    ¬ ∀ (boot : Boot) (events : List HeapEvent) (heap : Heap) (cntBytes : Nat),
      Run step Admits (initial boot) events heap → heap.mm.virExhausted = false →
      1 ≤ cntBytes → cntBytes ≤ 1024 → heap.mm.ReusesBlocks cntBytes := by
  intro hall
  have hseen : (exec step Admits (initial fourMegabytes)
      [.malloc 1024, .malloc 1024, .malloc 1024, .malloc 1024, .malloc 1024, .malloc 1024,
        .free 0x201020]).map (fun heap => (heap.mm.virExhausted,
          (descIdxOf 1024).bind heap.mm.findPage, freeCnts heap.mm.memory 0x201000,
          decide ((heap.mm.desc 6).Holds heap.mm.memory [0x200000, 0x201000]))) =
      some (false, some none, 1, true) := by
    decide +kernel
  obtain ⟨heap, hexec, hseen⟩ := Option.map_eq_some_iff.mp hseen
  simp only [Prod.mk.injEq, decide_eq_true_eq] at hseen
  obtain ⟨hroom, hcalls, hcnts, hholds⟩ := hseen
  have hreuses := hall _ _ _ 1024 (Run.of_exec _ _ _ _ hexec) hroom (by decide) (by decide)
  have hfull := hreuses hcalls _ ⟨6, rfl, hholds⟩ 0x201000 (by decide)
  rw [hcnts] at hfull
  cases hfull

end Heap

end Shmily.Mm
