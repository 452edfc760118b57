import Shmily.Fs.AccessControl
import Shmily.Fs.Removal

/-! # What the removal of an entry does

`remove_dir_entry` takes exactly the name out of the directory. Its sector buffer is
another matter: the loop over the entries frees it when the name is found, and then goes
on with it.
-/

namespace Shmily.Fs.Server

open Foundation Lib

variable {fs : Server} {inode : Inode} {owner lba : Nat} {name : List Byte}

/-- Removing a name removes exactly this name. No other lookup changes, and of the block
bitmap at most the bit of a sector that is empty now and no longer in the inode. -/
theorem removeDirEntry_exactly (hdir : fs.OnDisk owner) (hname : IsName name)
    (hunique : fs.UniqueName (fs.ino2inode owner) name) :
    (fs.removeDirEntry (fs.ino2inode owner) name).findDirEntry
        ((fs.removeDirEntry (fs.ino2inode owner) name).ino2inode owner) name = minusOne ∧
      (∀ child : List Byte, child.length < 64 → 0 ∉ child → child ≠ name →
        (fs.removeDirEntry (fs.ino2inode owner) name).findDirEntry
            ((fs.removeDirEntry (fs.ino2inode owner) name).ino2inode owner) child =
          fs.findDirEntry (fs.ino2inode owner) child) ∧
      ((fs.removeDirEntry (fs.ino2inode owner) name).blockBmap = fs.blockBmap ∨
        ∃ i, GivesBack fs (fs.removeDirEntry (fs.ino2inode owner) name) owner
          (fs.ino2inode owner) i) := by
  refine ⟨?_, fun child hlen hnul hother => ?_, removeFrom_givesBack hname hdir rfl⟩
  · rw [hdir.removeDirEntry_findDirEntry hname hunique hname.length hname.nulFree, if_pos rfl]
  · rw [hdir.removeDirEntry_findDirEntry hname hunique hlen hnul, if_neg hother]

/-- The file `a` is taken out of the root. -/
theorem removeDirEntry_exactly_a :
    (treeServer.removeDirEntry (treeServer.ino2inode 0) [0x61]).findDirEntry
        ((treeServer.removeDirEntry (treeServer.ino2inode 0) [0x61]).ino2inode 0) [0x61] = minusOne ∧
      (∀ child : List Byte, child.length < 64 → 0 ∉ child → child ≠ [0x61] →
        (treeServer.removeDirEntry (treeServer.ino2inode 0) [0x61]).findDirEntry
            ((treeServer.removeDirEntry (treeServer.ino2inode 0) [0x61]).ino2inode 0) child =
          treeServer.findDirEntry (treeServer.ino2inode 0) child) ∧
      ((treeServer.removeDirEntry (treeServer.ino2inode 0) [0x61]).blockBmap = treeServer.blockBmap ∨
        ∃ i, GivesBack treeServer (treeServer.removeDirEntry (treeServer.ino2inode 0) [0x61]) 0
          (treeServer.ino2inode 0) i) := by
  have hentries : ∀ slot ∈ dirSlots, (treeServer.entryAt (treeServer.ino2inode 0) slot).map
      Entry.name = some [0x61] → slot = (0, 0) := by decide
  have hdir : treeServer.OnDisk 0 :=
    (treeServer_consistent.sound (by decide)).onDisk treeServer_consistent.layout
  refine removeDirEntry_exactly hdir ⟨by decide, by decide, by decide⟩ ?_
  intro a ha b hb entry entry' hentry hentry' hname hname'
  rw [hentries a ha (by rw [hentry, Option.map_some, hname]),
    hentries b hb (by rw [hentry', Option.map_some, hname'])]

/-! ### The sector buffer -/

/-- What is done with the buffer that `malloc` has returned. -/
inductive BufferEvent where
  | use
  | free
  deriving DecidableEq

/-- One entry in `remove_dir_entry`: the comparison, then the entry is cleared, the sector
is written and the buffer is freed, or the first byte is looked at. -/
def entryEvents (name : List Byte) (scan : RemoveScan) (j : Nat) : List BufferEvent :=
  if strcmp scan.buf (entryOffset j) name then [.use, .use, .use, .free] else [.use, .use]

/-- The loop of `remove_dir_entry` over some entries of a sector. -/
def scanEvents (lba : Nat) (name : List Byte) : List Nat → RemoveScan → List BufferEvent
  | [], _ => []
  | j :: rest, scan =>
      entryEvents name scan j ++ scanEvents lba name rest (removeEntry lba name scan j)

/-- One turn of the loop over the sectors; the buffer is cleared and filled first. -/
def sectorEvents (fs : Server) (lba : Nat) (name : List Byte) (isFound : Bool) :
    List BufferEvent :=
  [.use, .use] ++ scanEvents lba name (List.range DirEntry.perSector)
    { fs := fs, buf := fs.disk lba, isFound := isFound, emptyCnts := 0 }

/-- The loop of `remove_dir_entry` over the sectors; behind it the buffer is freed. -/
def removeEvents (inode : Inode) (name : List Byte) :
    List (Fin 9) → Bool → Server → List BufferEvent
  | [], _, _ => [.free]
  | i :: rest, isFound, fs =>
      if inode.sectors i = 0 then removeEvents inode name rest isFound fs
      else
        let scan := fs.removeInSector (inode.sectors i) name isFound
        let events := fs.sectorEvents (inode.sectors i) name isFound
        if scan.isFound ∧ scan.emptyCnts = DirEntry.perSector then events
        else events ++ removeEvents inode name rest scan.isFound scan.fs

/-- What `remove_dir_entry` does with its buffer. -/
def removeDirEntryEvents (fs : Server) (inode : Inode) (pathDel : List Byte) :
    List BufferEvent :=
  removeEvents inode pathDel (List.finRange 9) false fs

/-- The buffer is freed once, and this is the last thing that is done with it. -/
def FreedOnce (events : List BufferEvent) : Prop :=
  ∃ uses, events = uses ++ [.free] ∧ .free ∉ uses

/-- The comparison finds the name in a slot. -/
def Hits (fs : Server) (inode : Inode) (name : List Byte) (i : Fin 9) (j : Nat) : Prop :=
  inode.sectors i ≠ 0 ∧ strcmp (fs.disk (inode.sectors i)) (entryOffset j) name = true

/-- The name is in no slot of a sector. -/
def Lacks (fs : Server) (inode : Inode) (name : List Byte) (i : Fin 9) : Prop :=
  ∀ j < DirEntry.perSector, ¬ fs.Hits inode name i j

/-- The name is in the last slot of a sector, and all other slots of it are empty. -/
def AloneInLast (fs : Server) (inode : Inode) (name : List Byte) (i : Fin 9) : Prop :=
  fs.Hits inode name i (DirEntry.perSector - 1) ∧
    ∀ j < DirEntry.perSector - 1,
      ¬ fs.Hits inode name i j ∧ fs.disk (inode.sectors i) (entryOffset j) = 0

section Events

variable {uses rest : List BufferEvent} {scan : RemoveScan} {js : List Nat} {j : Nat}
  {isFound : Bool}

theorem freedOnce_append (huses : .free ∉ uses) : FreedOnce (uses ++ rest) ↔ FreedOnce rest := by
  constructor
  · rintro ⟨before, heq, hnot⟩
    rcases List.append_eq_append_iff.mp heq with ⟨mid, rfl, hmid⟩ | ⟨mid, rfl, hmid⟩
    · exact ⟨mid, hmid, fun hmem => hnot (List.mem_append_right uses hmem)⟩
    · -- the last event is not one of the uses
      cases mid with
      | nil => exact ⟨[], by simpa using hmid.symm, List.not_mem_nil⟩
      | cons event mid =>
          rw [List.cons_append, List.cons.injEq] at hmid
          exact absurd (hmid.1 ▸ List.mem_append_right before List.mem_cons_self) huses
  · rintro ⟨before, rfl, hnot⟩
    exact ⟨uses ++ before, (List.append_assoc ..).symm, List.not_mem_append huses hnot⟩

/-- After the buffer was freed nothing may follow. -/
theorem freedOnce_free : FreedOnce (.free :: rest) ↔ rest = [] := by
  constructor
  · rintro ⟨before, heq, hnot⟩
    cases before with
    | nil => exact (List.cons.inj heq).2
    | cons event before =>
        rw [List.cons_append, List.cons.injEq] at heq
        exact absurd (heq.1 ▸ List.mem_cons_self) hnot
  · rintro rfl
    exact ⟨[], rfl, List.not_mem_nil⟩

theorem entryEvents_ne_nil (name : List Byte) (scan : RemoveScan) (j : Nat) :
    entryEvents name scan j ≠ [] := by
  unfold entryEvents
  split
  next => exact List.cons_ne_nil _ _
  next => exact List.cons_ne_nil _ _

theorem removeEvents_ne_nil (inode : Inode) (name : List Byte) (indices : List (Fin 9))
    (isFound : Bool) (fs : Server) : removeEvents inode name indices isFound fs ≠ [] := by
  induction indices generalizing isFound fs with
  | nil => exact List.cons_ne_nil _ _
  | cons i rest ih =>
      unfold removeEvents
      split
      next => exact ih isFound fs
      next =>
        dsimp only
        split
        next => exact List.cons_ne_nil _ _
        next => exact List.cons_ne_nil _ _

/-- Entries without the name are passed over. -/
theorem removeEntry_of_not (lba : Nat) (hnot : strcmp scan.buf (entryOffset j) name = false) :
    removeEntry lba name scan j =
      { scan with
        emptyCnts := scan.emptyCnts + if scan.buf (entryOffset j) = 0 then 1 else 0 } := by
  rw [removeEntry, if_neg (by rw [hnot]; decide)]
  split
  next => rfl
  next => rfl

/-- As long as the name is not found, the buffer is only used. -/
theorem scanEvents_of_not (lba : Nat) (scan : RemoveScan)
    (hnot : ∀ j ∈ js, strcmp scan.buf (entryOffset j) name = false) (after : List Nat) :
    ∃ uses, scanEvents lba name (js ++ after) scan =
        uses ++ scanEvents lba name after (js.foldl (removeEntry lba name) scan) ∧
      .free ∉ uses := by
  induction js generalizing scan with
  | nil => exact ⟨[], rfl, List.not_mem_nil⟩
  | cons j js ih =>
      have hj := hnot j List.mem_cons_self
      have hstep := removeEntry_of_not lba hj
      have hbuf : (removeEntry lba name scan j).buf = scan.buf := by rw [hstep]
      obtain ⟨uses, hrest, hfree⟩ := ih (removeEntry lba name scan j) fun k hk => by
        rw [hbuf]
        exact hnot k (List.mem_cons_of_mem j hk)
      refine ⟨[.use, .use] ++ uses, ?_, List.not_mem_append (by decide) hfree⟩
      rw [List.cons_append, scanEvents, hrest, entryEvents, if_neg (by rw [hj]; decide),
        List.foldl_cons, List.append_assoc]

theorem foldl_removeEntry_of_not (lba : Nat) (scan : RemoveScan)
    (hnot : ∀ j ∈ js, strcmp scan.buf (entryOffset j) name = false) :
    js.foldl (removeEntry lba name) scan =
      { scan with
        emptyCnts := scan.emptyCnts + js.countP fun j => scan.buf (entryOffset j) = 0 } := by
  induction js generalizing scan with
  | nil => rfl
  | cons j js ih =>
      rw [List.foldl_cons, removeEntry_of_not lba (hnot j List.mem_cons_self), ih, List.countP_cons,
        Nat.add_assoc, Nat.add_comm (js.countP _)]
      · simp only [decide_eq_true_eq]
      · exact fun k hk => hnot k (List.mem_cons_of_mem j hk)

/-- A sector without the name. -/
theorem sectorEvents_of_not (isFound : Bool)
    (hnot : ∀ j < DirEntry.perSector, strcmp (fs.disk lba) (entryOffset j) name = false) :
    .free ∉ fs.sectorEvents lba name isFound ∧
      (fs.removeInSector lba name isFound).isFound = isFound ∧
      (fs.removeInSector lba name isFound).fs = fs := by
  have hall : ∀ j ∈ List.range DirEntry.perSector,
      strcmp (fs.disk lba) (entryOffset j) name = false := fun j hj => hnot j (List.mem_range.mp hj)
  obtain ⟨uses, hevents, hfree⟩ :=
    scanEvents_of_not lba ⟨fs, fs.disk lba, isFound, 0⟩ hall []
  refine ⟨?_, ?_, ?_⟩
  · rw [List.append_nil] at hevents
    rw [sectorEvents, hevents, scanEvents, List.append_nil]
    exact List.not_mem_append (by decide) hfree
  · rw [removeInSector, foldl_removeEntry_of_not lba _ hall]
  · rw [removeInSector, foldl_removeEntry_of_not lba _ hall]

/-- A sector with the name: after the first slot that has it the loop goes on, unless this
is the last one. -/
theorem freedOnce_sectorEvents (hj : j < DirEntry.perSector)
    (hhit : strcmp (fs.disk lba) (entryOffset j) name = true)
    (hnot : ∀ k < j, strcmp (fs.disk lba) (entryOffset k) name = false) :
    FreedOnce (fs.sectorEvents lba name isFound ++ rest) ↔
      j = DirEntry.perSector - 1 ∧ rest = [] := by
  have hsplit : ∀ j < DirEntry.perSector, List.range DirEntry.perSector =
      List.range j ++ j :: List.range' (j + 1) (DirEntry.perSector - 1 - j) := by decide
  have hbefore : ∀ k ∈ List.range j, strcmp (fs.disk lba) (entryOffset k) name = false :=
    fun k hk => hnot k (List.mem_range.mp hk)
  obtain ⟨uses, hevents, hfree⟩ := scanEvents_of_not lba ⟨fs, fs.disk lba, isFound, 0⟩ hbefore
    (j :: List.range' (j + 1) (DirEntry.perSector - 1 - j))
  rw [foldl_removeEntry_of_not lba _ hbefore, scanEvents, entryEvents, if_pos hhit] at hevents
  rw [sectorEvents, hsplit j hj, hevents, List.append_assoc, freedOnce_append (by decide),
    List.append_assoc, freedOnce_append hfree]
  generalize removeEntry lba name _ j = scan
  change FreedOnce ([.use, .use, .use] ++ .free :: (scanEvents lba name _ scan ++ rest)) ↔ _
  rw [freedOnce_append (by decide), freedOnce_free, List.append_eq_nil_iff]
  refine and_congr_left fun _ => ?_
  cases hpost : List.range' (j + 1) (DirEntry.perSector - 1 - j) with
  | nil =>
      have hlen := congrArg List.length hpost
      rw [List.length_range', List.length_nil] at hlen
      exact iff_of_true rfl (by omega)
  | cons k post =>
      refine iff_of_false ?_ ?_
      · rw [scanEvents, List.append_eq_nil_iff]
        exact fun h => entryEvents_ne_nil _ _ _ h.1
      · rintro rfl
        rw [Nat.sub_self] at hpost
        cases hpost

/-- The sector is given back if its other slots are empty. -/
theorem emptyCnts_of_last
    (hhit : strcmp (fs.disk lba) (entryOffset (DirEntry.perSector - 1)) name = true)
    (hnot : ∀ k < DirEntry.perSector - 1, strcmp (fs.disk lba) (entryOffset k) name = false) :
    ((fs.removeInSector lba name isFound).isFound = true ∧
      (fs.removeInSector lba name isFound).emptyCnts = DirEntry.perSector) ↔
      ∀ k < DirEntry.perSector - 1, fs.disk lba (entryOffset k) = 0 := by
  have hbefore : ∀ k ∈ List.range (DirEntry.perSector - 1),
      strcmp (fs.disk lba) (entryOffset k) name = false := fun k hk => hnot k (List.mem_range.mp hk)
  have hrange : List.range DirEntry.perSector =
      List.range (DirEntry.perSector - 1) ++ [DirEntry.perSector - 1] := by decide
  have hcount : (List.range (DirEntry.perSector - 1)).countP
      (fun j => fs.disk lba (entryOffset j) = 0) + 1 = DirEntry.perSector ↔
        ∀ k < DirEntry.perSector - 1, fs.disk lba (entryOffset k) = 0 := by
    have hlen := List.countP_eq_length (p := fun j => decide (fs.disk lba (entryOffset j) = 0))
      (l := List.range (DirEntry.perSector - 1))
    simp only [List.length_range, List.mem_range, decide_eq_true_eq] at hlen
    rw [← hlen]
    exact Nat.succ_inj (b := DirEntry.perSector - 1)
  have hfold := foldl_removeEntry_of_not lba ⟨fs, fs.disk lba, isFound, 0⟩ hbefore
  rw [removeInSector, hrange, List.foldl_append, hfold, List.foldl_cons, List.foldl_nil, removeEntry,
    if_pos hhit, ← hcount]
  dsimp only
  rw [Nat.zero_add]
  exact and_iff_right rfl

/-- What follows a sector with the name: it may only be in its last slot, and alone. -/
theorem freedOnce_sectorEvents_iff {i : Fin 9} (hne : inode.sectors i ≠ 0)
    (hfound : ¬ fs.Lacks inode name i) (hrest : rest ≠ []) :
    FreedOnce (if (fs.removeInSector (inode.sectors i) name isFound).isFound = true ∧
          (fs.removeInSector (inode.sectors i) name isFound).emptyCnts = DirEntry.perSector then
        fs.sectorEvents (inode.sectors i) name isFound
      else fs.sectorEvents (inode.sectors i) name isFound ++ rest) ↔ fs.AloneInLast inode name i := by
  have hexists : ∃ j, j < DirEntry.perSector ∧
      strcmp (fs.disk (inode.sectors i)) (entryOffset j) name = true := by
    by_contra hnone
    exact hfound fun j hj hhit => hnone ⟨j, hj, hhit.2⟩
  obtain ⟨hj, hhit⟩ := Nat.find_spec hexists
  have hbefore : ∀ k < Nat.find hexists,
      strcmp (fs.disk (inode.sectors i)) (entryOffset k) name = false := fun k hk =>
    Bool.eq_false_iff.mpr fun hit => Nat.find_min hexists hk ⟨hk.trans hj, hit⟩
  generalize Nat.find hexists = j at hj hhit hbefore
  have htail : (if (fs.removeInSector (inode.sectors i) name isFound).isFound = true ∧
        (fs.removeInSector (inode.sectors i) name isFound).emptyCnts = DirEntry.perSector then
      fs.sectorEvents (inode.sectors i) name isFound
      else fs.sectorEvents (inode.sectors i) name isFound ++ rest) =
      fs.sectorEvents (inode.sectors i) name isFound ++
        if (fs.removeInSector (inode.sectors i) name isFound).isFound = true ∧
          (fs.removeInSector (inode.sectors i) name isFound).emptyCnts = DirEntry.perSector then []
        else rest := by
    split
    next => exact (List.append_nil _).symm
    next => rfl
  rw [htail, freedOnce_sectorEvents hj hhit hbefore, ite_eq_left_iff, imp_iff_not hrest, not_not]
  constructor
  · rintro ⟨rfl, hreleased⟩
    have hempty := (emptyCnts_of_last hhit hbefore).mp hreleased
    refine ⟨⟨hne, hhit⟩, fun k hk => ⟨fun hit => ?_, hempty k hk⟩⟩
    exact absurd hit.2 (by rw [hbefore k hk]; decide)
  · rintro ⟨hlast, hothers⟩
    obtain rfl : j = DirEntry.perSector - 1 := by
      by_contra hother
      have hlt : j < DirEntry.perSector - 1 := by omega
      exact (hothers j hlt).1 ⟨hne, hhit⟩
    exact ⟨rfl, (emptyCnts_of_last hhit hbefore).mpr fun k hk => (hothers k hk).2⟩

theorem freedOnce_removeEvents_iff {indices : List (Fin 9)} (hsorted : indices.Pairwise (· < ·)) :
    FreedOnce (removeEvents inode name indices false fs) ↔
      (∀ i ∈ indices, fs.Lacks inode name i) ∨
        ∃ i ∈ indices, fs.AloneInLast inode name i ∧
          ∀ k ∈ indices, k < i → fs.Lacks inode name k := by
  induction indices with
  | nil =>
      refine iff_of_true ⟨[], rfl, List.not_mem_nil⟩ (.inl (List.forall_mem_nil _))
  | cons i rest ih =>
      obtain ⟨hlt, hsorted⟩ := List.pairwise_cons.mp hsorted
      -- a sector without the name does not count
      have hskip : fs.Lacks inode name i →
          ((∀ k ∈ rest, fs.Lacks inode name k) ∨ (∃ k ∈ rest, fs.AloneInLast inode name k ∧
              ∀ k' ∈ rest, k' < k → fs.Lacks inode name k') ↔
          (∀ k ∈ i :: rest, fs.Lacks inode name k) ∨ ∃ k ∈ i :: rest, fs.AloneInLast inode name k ∧
              ∀ k' ∈ i :: rest, k' < k → fs.Lacks inode name k') := by
        intro hlacks
        have hnot : ¬ fs.AloneInLast inode name i := fun h => hlacks _ (by decide) h.1
        simp only [List.forall_mem_cons, List.exists_mem_cons_iff, hlacks, hnot, implies_true,
          true_and, false_and, false_or]
      unfold removeEvents
      split
      next hzero =>
        rw [ih hsorted]
        exact hskip fun j _ hhit => hhit.1 hzero
      next hne =>
        dsimp only
        by_cases hlacks : fs.Lacks inode name i
        · have hnot : ∀ j < DirEntry.perSector,
              strcmp (fs.disk (inode.sectors i)) (entryOffset j) name = false := fun j hj =>
            Bool.eq_false_iff.mpr fun hhit => hlacks j hj ⟨hne, hhit⟩
          obtain ⟨hfree, hfound, hsame⟩ := sectorEvents_of_not false hnot
          rw [hfound, hsame, if_neg (by simp), freedOnce_append hfree, ih hsorted]
          exact hskip hlacks
        · rw [freedOnce_sectorEvents_iff hne hlacks (removeEvents_ne_nil inode name rest _ _)]
          constructor
          · intro halone
            refine .inr ⟨i, List.mem_cons_self, halone, fun k hk hlt' => ?_⟩
            rcases List.mem_cons.mp hk with rfl | hk
            · exact absurd hlt' (lt_irrefl k)
            · exact absurd hlt' (hlt k hk).asymm
          · rintro (hnone | ⟨k, hk, halone, hnone⟩)
            · exact absurd (hnone i List.mem_cons_self) hlacks
            · rcases List.mem_cons.mp hk with rfl | hk
              · exact halone
              · exact absurd (hnone i List.mem_cons_self (hlt k hk)) hlacks

/-- The buffer is freed exactly once and not used afterwards if and only if no slot has the
name, or the first one that does is the last slot of a sector that is empty otherwise. -/
theorem freedOnce_removeDirEntry_iff (fs : Server) (inode : Inode) (name : List Byte) :
    FreedOnce (fs.removeDirEntryEvents inode name) ↔
      (∀ i, fs.Lacks inode name i) ∨
        ∃ i, fs.AloneInLast inode name i ∧ ∀ k < i, fs.Lacks inode name k := by
  have hsorted : (List.finRange 9).Pairwise (· < ·) := by decide
  rw [removeDirEntryEvents, freedOnce_removeEvents_iff hsorted]
  simp only [List.mem_finRange, true_and, forall_const]

/-- The file `a` is removed from the first slot of the root: the buffer is freed there, and
once more at the end. -/
theorem removed_entry_frees_twice :
    ¬ ∀ (fs : Server) (inode : Inode) (name : List Byte),
      FreedOnce (fs.removeDirEntryEvents inode name) := by
  intro hall
  obtain ⟨uses, heq, hnot⟩ := hall treeServer (treeServer.ino2inode 0) [0x61]
  have hcount := congrArg (List.count BufferEvent.free) heq
  rw [List.count_append, List.count_eq_zero.mpr hnot] at hcount
  exact absurd hcount (by decide)

end Events

end Shmily.Fs.Server
