import Shmily.Fs.Ownership

/-! # The entries of a directory

A directory maps its slots to names and inode numbers; a slot whose name is empty is
free. `find_dir_entry` looks a name up, `create_dir_entry` fills a free slot or the
first slot of a new block, and `remove_dir_entry` frees the slots with a name.
-/

namespace Shmily.Fs

open Foundation Lib

/-- The string at an offset, up to its NUL or a length. -/
def cstringAt (area : ByteArea) : Nat → Nat → List Byte
  | 0, _ => []
  | fuel + 1, offset =>
      if area offset = 0 then [] else area offset :: cstringAt area fuel (offset + 1)

/-- A name that fits into an entry with its NUL, and is not empty. -/
structure IsName (name : List Byte) : Prop where
  nonempty : name ≠ []
  length : name.length < 64
  nulFree : 0 ∉ name

/-- An entry as it is found in a directory. -/
structure Entry where
  name : List Byte
  inodeNo : Nat
  type : Nat
  deriving DecidableEq

/-- The entry in a slot of a sector. -/
def entryIn (area : ByteArea) (j : Nat) : Option Entry :=
  if area (entryOffset j) = 0 then none
  else
    some
      { name := cstringAt area 64 (entryOffset j)
        inodeNo := area.getLE 4 (entryOffset j + 64)
        type := area.getLE 4 (entryOffset j + 68) }

/-- The slots of a directory in the order of the search. -/
def dirSlots : List (Fin 9 × Nat) :=
  (List.finRange 9).flatMap fun i => (List.range DirEntry.perSector).map fun j => (i, j)

/-- What is found once the entry is stored. -/
def DirEntry.entry (entry : DirEntry) : Entry where
  name := entry.name
  inodeNo := entry.inodeNo
  type := entry.type.code

/-- The inode number if the name is the one that is looked for. -/
def Entry.matching (child : List Byte) (entry : Entry) : Option Nat :=
  if entry.name = child then some entry.inodeNo else none

section Sectors

variable {area other : ByteArea} {fuel offset j k : Nat} {name : List Byte}

theorem strcmp_iff (hlen : name.length < fuel) (hnul : 0 ∉ name) :
    strcmp area offset name = true ↔ cstringAt area fuel offset = name := by
  induction name generalizing fuel offset with
  | nil =>
      obtain ⟨fuel, rfl⟩ : ∃ n, fuel = n + 1 := ⟨fuel - 1, by simp only [List.length_nil] at hlen; omega⟩
      rw [strcmp, cstringAt, decide_eq_true_eq]
      split <;> simp_all
  | cons c rest ih =>
      obtain ⟨fuel, rfl⟩ : ∃ n, fuel = n + 1 := ⟨fuel - 1, by simp only [List.length_cons] at hlen; omega⟩
      rw [List.mem_cons, not_or] at hnul
      simp only [List.length_cons, Nat.add_lt_add_iff_right] at hlen
      rw [strcmp, cstringAt, Bool.and_eq_true, decide_eq_true_eq, ih hlen hnul.2]
      split
      next hzero =>
        rw [hzero]
        exact iff_of_false (fun h => hnul.1 h.1) (by simp)
      next => rw [List.cons.injEq]

theorem cstringAt_congr (hsame : ∀ i < fuel, area (offset + i) = other (offset + i)) :
    cstringAt area fuel offset = cstringAt other fuel offset := by
  induction fuel generalizing offset with
  | zero => rfl
  | succ fuel ih =>
      have hfirst : area offset = other offset := hsame 0 (by omega)
      have hrest : ∀ i < fuel, area (offset + 1 + i) = other (offset + 1 + i) := by
        intro i hi
        rw [Nat.add_assoc, Nat.add_comm 1 i]
        exact hsame (i + 1) (by omega)
      rw [cstringAt, cstringAt, hfirst, ih hrest]

/-- A slot only depends on its own bytes. -/
theorem entryIn_congr (hsame : ∀ i < DirEntry.bytes,
    area (entryOffset j + i) = other (entryOffset j + i)) : entryIn area j = entryIn other j := by
  simp only [DirEntry.bytes] at hsame
  have hfirst : area (entryOffset j) = other (entryOffset j) := hsame 0 (by omega)
  have hname : cstringAt area 64 (entryOffset j) = cstringAt other 64 (entryOffset j) :=
    cstringAt_congr fun i hi => hsame i (by omega)
  have hino : area.getLE 4 (entryOffset j + 64) = other.getLE 4 (entryOffset j + 64) := by
    refine ByteArea.getLE_congr fun i hi => ?_
    rw [Nat.add_assoc]
    exact hsame (64 + i) (by omega)
  have htype : area.getLE 4 (entryOffset j + 68) = other.getLE 4 (entryOffset j + 68) := by
    refine ByteArea.getLE_congr fun i hi => ?_
    rw [Nat.add_assoc]
    exact hsame (68 + i) (by omega)
  rw [entryIn, entryIn, hfirst, hname, hino, htype]

/-- A byte outside an entry is not changed when the entry is stored. -/
theorem store_of_not {entry : DirEntry} (hout : ¬ (offset ≤ k ∧ k < offset + DirEntry.bytes)) :
    entry.store area offset k = area k := by
  simp only [DirEntry.bytes] at hout
  rw [DirEntry.store, ByteArea.putLE_of_not (by omega), ByteArea.putLE_of_not (by omega),
    DirEntry.storeName, if_neg (by omega)]

theorem entryIn_store_of_ne {entry : DirEntry} (hne : k ≠ j) :
    entryIn (entry.store area (entryOffset j)) k = entryIn area k := by
  refine entryIn_congr fun i hi => store_of_not ?_
  simp only [entryOffset, DirEntry.bytes] at hi ⊢
  omega

theorem cstringAt_getD {rest : List Byte} (hlen : rest.length < fuel) (hnul : 0 ∉ rest)
    (hbytes : ∀ i < fuel, area (offset + i) = rest.getD i 0) : cstringAt area fuel offset = rest := by
  induction rest generalizing fuel offset with
  | nil =>
      obtain ⟨fuel, rfl⟩ : ∃ n, fuel = n + 1 := ⟨fuel - 1, by simp only [List.length_nil] at hlen; omega⟩
      have hfirst : area offset = 0 := hbytes 0 (by omega)
      rw [cstringAt, if_pos hfirst]
  | cons c rest ih =>
      obtain ⟨fuel, rfl⟩ : ∃ n, fuel = n + 1 := ⟨fuel - 1, by simp only [List.length_cons] at hlen; omega⟩
      rw [List.mem_cons, not_or] at hnul
      simp only [List.length_cons, Nat.add_lt_add_iff_right] at hlen
      have hfirst : area offset = c := hbytes 0 (by omega)
      have hrest : ∀ i < fuel, area (offset + 1 + i) = rest.getD i 0 := by
        intro i hi
        have := hbytes (i + 1) (by omega)
        rwa [List.getD_cons_succ, Nat.add_comm i 1, ← Nat.add_assoc] at this
      rw [cstringAt, hfirst, if_neg (Ne.symm hnul.1), ih hlen hnul.2 hrest]

/-- A stored entry is read back. -/
theorem entryIn_store_self {entry : DirEntry} (hname : IsName entry.name)
    (hino : entry.inodeNo < 2 ^ 32) :
    entryIn (entry.store area (entryOffset j)) j = some entry.entry := by
  have hbytes : ∀ i < 64, entry.store area (entryOffset j) (entryOffset j + i) =
      entry.name.getD i 0 := by
    intro i hi
    rw [DirEntry.store, ByteArea.putLE_of_not (by omega), ByteArea.putLE_of_not (by omega),
      DirEntry.storeName, if_pos (by omega), Nat.add_sub_cancel_left]
  have hstring := cstringAt_getD hname.length hname.nulFree hbytes
  have hfirst : entry.store area (entryOffset j) (entryOffset j) ≠ 0 := by
    intro hzero
    rw [cstringAt, if_pos hzero] at hstring
    exact hname.nonempty hstring.symm
  have hstored : (entry.store area (entryOffset j)).getLE 4 (entryOffset j + 64) =
      entry.inodeNo := by
    rw [DirEntry.store, ByteArea.getLE_putLE_of_disjoint (by omega), ByteArea.getLE_putLE_self,
      Nat.mod_eq_of_lt (by omega)]
  have htype : (entry.store area (entryOffset j)).getLE 4 (entryOffset j + 68) =
      entry.type.code := by
    rw [DirEntry.store, ByteArea.getLE_putLE_self]
    cases entry.type <;> rfl
  rw [entryIn, if_neg hfirst, hstring, hstored, htype, DirEntry.entry]

end Sectors

namespace Server

variable {fs fs' : Server} {inode inode' : Inode} {child : List Byte}

/-- The entry in a slot of a directory. -/
def entryAt (fs : Server) (inode : Inode) (slot : Fin 9 × Nat) : Option Entry :=
  if inode.sectors slot.1 = 0 then none else entryIn (fs.disk (inode.sectors slot.1)) slot.2

/-- The inode number that a slot has for a name. -/
def lookupAt (fs : Server) (inode : Inode) (child : List Byte) (slot : Fin 9 × Nat) : Option Nat :=
  (fs.entryAt inode slot).bind (Entry.matching child)

theorem findSome?_flatMap {α β γ : Type} (list : List α) (g : α → List β) (f : β → Option γ) :
    (list.flatMap g).findSome? f = list.findSome? fun a => (g a).findSome? f := by
  induction list with
  | nil => rfl
  | cons a rest ih =>
      rw [List.flatMap_cons, List.findSome?_append, ih, List.findSome?_cons]
      cases (g a).findSome? f <;> rfl

theorem findSome?_congr {α β : Type} {list : List α} {f g : α → Option β}
    (hsame : ∀ a ∈ list, f a = g a) : list.findSome? f = list.findSome? g := by
  induction list with
  | nil => rfl
  | cons a rest ih =>
      rw [List.findSome?_cons, List.findSome?_cons, hsame a List.mem_cons_self,
        ih fun b hb => hsame b (List.mem_cons_of_mem a hb)]

theorem findInSector_eq (area : ByteArea) (hlen : child.length < 64) (hnul : 0 ∉ child) :
    findInSector area child = (List.range DirEntry.perSector).findSome? fun j =>
      (entryIn area j).bind (Entry.matching child) := by
  rw [findInSector, entryOffsets, List.findSome?_map]
  congr 1
  funext j
  rw [Function.comp_apply, entryIn]
  split
  next => rfl
  next =>
    rw [Option.bind_some, Entry.matching]
    simp only [strcmp_iff hlen hnul]

/-- The search goes through the slots and takes the first one with the name. -/
theorem findDirEntry_eq (fs : Server) (inode : Inode) (hlen : child.length < 64)
    (hnul : 0 ∉ child) :
    fs.findDirEntry inode child = (dirSlots.findSome? (fs.lookupAt inode child)).getD minusOne := by
  rw [findDirEntry, dirSlots, findSome?_flatMap]
  congr 2
  funext i
  rw [List.findSome?_map]
  split
  next hzero =>
    symm
    rw [List.findSome?_eq_none_iff]
    intro j _
    rw [Function.comp_apply, lookupAt, entryAt, if_pos hzero]
    rfl
  next hne =>
    rw [findInSector_eq _ hlen hnul]
    congr 1
    funext j
    rw [Function.comp_apply, lookupAt, entryAt, if_neg hne]

theorem mem_dirSlots {slot : Fin 9 × Nat} : slot ∈ dirSlots ↔ slot.2 < DirEntry.perSector := by
  obtain ⟨i, j⟩ := slot
  simp [dirSlots]

/-- A directory is searched as it was if its inode and its sectors are the same. -/
theorem Spared.entryAt {ino : Nat} (hspared : Spared fs fs' ino) :
    fs'.entryAt (fs'.ino2inode ino) = fs.entryAt (fs.ino2inode ino) := by
  funext slot
  rw [Server.entryAt, Server.entryAt, hspared.inode]
  split
  next => rfl
  next hne => rw [hspared.data slot.1 hne]

theorem Spared.findDirEntry {ino : Nat} (hspared : Spared fs fs' ino) (hlen : child.length < 64)
    (hnul : 0 ∉ child) :
    fs'.findDirEntry (fs'.ino2inode ino) child = fs.findDirEntry (fs.ino2inode ino) child := by
  rw [findDirEntry_eq _ _ hlen hnul, findDirEntry_eq _ _ hlen hnul]
  congr 2
  funext slot
  rw [lookupAt, lookupAt, hspared.entryAt]

/-! ### The search for a free slot -/

/-- One slot in the search of `create_dir_entry`. -/
def scanSlot (fs : Server) (inode : Inode) (name : List Byte) (found : FreeSlot)
    (slot : Fin 9 × Nat) : Option FreeSlot :=
  if inode.sectors slot.1 = 0 then some found
  else scanEntry (inode.sectors slot.1) (fs.disk (inode.sectors slot.1)) name found slot.2

theorem foldlM_flatMap {α β σ : Type} (list : List α) (g : α → List β) (f : σ → β → Option σ)
    (init : σ) : (list.flatMap g).foldlM f init = list.foldlM (fun acc a => (g a).foldlM f acc) init := by
  induction list generalizing init with
  | nil => rfl
  | cons a rest ih =>
      rw [List.flatMap_cons, List.foldlM_append, List.foldlM_cons]
      congr 1
      funext acc
      exact ih acc

theorem foldlM_some {α σ : Type} (list : List α) (init : σ) :
    list.foldlM (fun acc _ => some acc) init = some init := by
  induction list with
  | nil => rfl
  | cons a rest ih => exact ih

theorem scanDir_eq (fs : Server) (inode : Inode) (name : List Byte) :
    fs.scanDir inode name = dirSlots.foldlM (fs.scanSlot inode name) ⟨0, 0⟩ := by
  rw [scanDir, dirSlots, foldlM_flatMap]
  congr 1
  funext found i
  rw [scanSector, List.foldlM_map]
  split
  next hzero =>
    symm
    refine Eq.trans ?_ (foldlM_some (List.range DirEntry.perSector) found)
    congr 1
    funext acc j
    rw [scanSlot, if_pos hzero]
  next hne =>
    congr 1
    funext acc j
    rw [scanSlot, if_neg hne]

/-- No entry has the name. -/
def Absent (fs : Server) (inode : Inode) (name : List Byte) : Prop :=
  ∀ slot ∈ dirSlots, fs.lookupAt inode name slot = none

/-- A slot of a sector that holds no entry. -/
def IsFree (fs : Server) (inode : Inode) (slot : Fin 9 × Nat) : Prop :=
  inode.sectors slot.1 ≠ 0 ∧ fs.entryAt inode slot = none

/-- What the search has found: nothing in a full directory, or its first free slot. -/
def Found (fs : Server) (inode : Inode) (slots : List (Fin 9 × Nat)) (before after : FreeSlot) :
    Prop :=
  after = before ∧ (before = ⟨0, 0⟩ → ∀ slot ∈ slots, ¬ fs.IsFree inode slot) ∨
    before = ⟨0, 0⟩ ∧ ∃ slot ∈ slots, fs.IsFree inode slot ∧ after = ⟨inode.sectors slot.1, slot.2⟩

theorem lookupAt_eq_none_iff (hname : IsName child) {slot : Fin 9 × Nat}
    (hne : inode.sectors slot.1 ≠ 0) :
    fs.lookupAt inode child slot = none ↔
      strcmp (fs.disk (inode.sectors slot.1)) (entryOffset slot.2) child = false := by
  rw [← Bool.not_eq_true, strcmp_iff hname.length hname.nulFree, lookupAt, Server.entryAt,
    if_neg hne, entryIn]
  split
  next hzero =>
    -- a free slot has the empty name
    rw [cstringAt, if_pos hzero]
    exact iff_of_true rfl (Ne.symm hname.nonempty)
  next =>
    rw [Option.bind_some, Entry.matching]
    split <;> simp_all

/-- One step of the search. -/
theorem scanSlot_eq_some_iff (hname : IsName child) {slot : Fin 9 × Nat} {before after : FreeSlot} :
    fs.scanSlot inode child before slot = some after ↔
      fs.lookupAt inode child slot = none ∧ Found fs inode [slot] before after := by
  by_cases hne : inode.sectors slot.1 = 0
  · have hnone : fs.lookupAt inode child slot = none := by
      rw [lookupAt, Server.entryAt, if_pos hne]
      rfl
    have hnot : ¬ fs.IsFree inode slot := fun h => h.1 hne
    simp [scanSlot, hne, hnone, Found, hnot, eq_comm]
  · have hfree : fs.IsFree inode slot ↔ fs.disk (inode.sectors slot.1) (entryOffset slot.2) = 0 := by
      rw [IsFree, Server.entryAt, if_neg hne, entryIn]
      simp [hne]
    have hcond : (fs.disk (inode.sectors slot.1) (entryOffset slot.2) = 0 ∧ before.offset = 0 ∧
        before.sector = 0) ↔ fs.IsFree inode slot ∧ before = ⟨0, 0⟩ := by
      rw [hfree, FreeSlot.mk.injEq, and_comm (a := before.offset = 0)]
    rw [scanSlot, if_neg hne, scanEntry, lookupAt_eq_none_iff hname hne]
    by_cases htake : fs.IsFree inode slot ∧ before = ⟨0, 0⟩
    · have hdiffers : strcmp (fs.disk (inode.sectors slot.1)) (entryOffset slot.2) child = false := by
        rw [← lookupAt_eq_none_iff hname hne, lookupAt, htake.1.2]
        rfl
      rw [if_pos (hcond.mpr htake)]
      simp [Found, htake.1, htake.2, hdiffers, eq_comm]
    · rw [if_neg fun h => htake (hcond.mp h)]
      cases hsame : strcmp (fs.disk (inode.sectors slot.1)) (entryOffset slot.2) child with
      | true => simp
      | false =>
          simp only [Bool.false_eq_true, if_false, Option.some.injEq, true_and, Found,
            List.mem_singleton, forall_eq, exists_eq_left]
          constructor
          · rintro rfl
            exact .inl ⟨rfl, fun hbefore hslot => htake ⟨hslot, hbefore⟩⟩
          · rintro (⟨rfl, -⟩ | ⟨hbefore, hslot, -⟩)
            · rfl
            · exact absurd ⟨hslot, hbefore⟩ htake

theorem Found.cons {slot : Fin 9 × Nat} {slots : List (Fin 9 × Nat)} {before mid after : FreeSlot}
    (hfirst : Found fs inode [slot] before mid) (hrest : Found fs inode slots mid after) :
    Found fs inode (slot :: slots) before after := by
  rcases hfirst with ⟨rfl, hnot⟩ | ⟨rfl, found, hmem, hfree, rfl⟩
  · rcases hrest with ⟨rfl, hnone⟩ | ⟨rfl, found, hmem, hfree, rfl⟩
    · refine .inl ⟨rfl, fun hzero other hother => ?_⟩
      rcases List.mem_cons.mp hother with rfl | hother
      · exact hnot hzero other (List.mem_singleton_self other)
      · exact hnone hzero other hother
    · exact .inr ⟨rfl, found, List.mem_cons_of_mem slot hmem, hfree, rfl⟩
  · -- the first free slot is kept
    rcases hrest with ⟨rfl, -⟩ | ⟨hzero, -⟩
    · rw [List.mem_singleton] at hmem
      exact .inr ⟨rfl, found, hmem ▸ List.mem_cons_self, hfree, rfl⟩
    · exact absurd (congrArg FreeSlot.sector hzero) hfree.1

/-- The search goes through all slots if it does not meet the name. -/
theorem foldlM_scanSlot_spec (hname : IsName child) {slots : List (Fin 9 × Nat)}
    {before after : FreeSlot}
    (hfold : slots.foldlM (fs.scanSlot inode child) before = some after) :
    (∀ slot ∈ slots, fs.lookupAt inode child slot = none) ∧ Found fs inode slots before after := by
  induction slots generalizing before with
  | nil =>
      rw [List.foldlM_nil] at hfold
      cases hfold
      exact ⟨List.forall_mem_nil _, .inl ⟨rfl, fun _ => List.forall_mem_nil _⟩⟩
  | cons slot rest ih =>
      rw [List.foldlM_cons, Option.bind_eq_bind, Option.bind_eq_some_iff] at hfold
      obtain ⟨mid, hslot, hrest⟩ := hfold
      obtain ⟨hnone, hfirst⟩ := (scanSlot_eq_some_iff hname).mp hslot
      obtain ⟨hnones, hfound⟩ := ih hrest
      refine ⟨fun other hother => ?_, hfirst.cons hfound⟩
      rcases List.mem_cons.mp hother with rfl | hother
      · exact hnone
      · exact hnones other hother

theorem exists_foldlM_scanSlot (hname : IsName child) {slots : List (Fin 9 × Nat)}
    (before : FreeSlot) (hnone : ∀ slot ∈ slots, fs.lookupAt inode child slot = none) :
    ∃ after, slots.foldlM (fs.scanSlot inode child) before = some after := by
  induction slots generalizing before with
  | nil => exact ⟨before, rfl⟩
  | cons slot rest ih =>
      have hfirst := hnone slot List.mem_cons_self
      obtain ⟨mid, hmid⟩ : ∃ mid, fs.scanSlot inode child before slot = some mid := by
        by_cases htake : before = ⟨0, 0⟩ ∧ fs.IsFree inode slot
        · exact ⟨_, (scanSlot_eq_some_iff hname).mpr
            ⟨hfirst, .inr ⟨htake.1, slot, List.mem_singleton_self slot, htake.2, rfl⟩⟩⟩
        · refine ⟨before, (scanSlot_eq_some_iff hname).mpr ⟨hfirst, .inl ⟨rfl, ?_⟩⟩⟩
          intro hzero other hother hfree
          rw [List.mem_singleton.mp hother] at hfree
          exact htake ⟨hzero, hfree⟩
      obtain ⟨after, hafter⟩ := ih mid fun other hother => hnone other (List.mem_cons_of_mem slot hother)
      exact ⟨after, by rw [List.foldlM_cons, hmid]; exact hafter⟩

theorem scanDir_eq_none_iff (hname : IsName child) :
    fs.scanDir inode child = none ↔ ¬ fs.Absent inode child := by
  rw [scanDir_eq]
  constructor
  · intro hnone habsent
    obtain ⟨after, hafter⟩ := exists_foldlM_scanSlot hname ⟨0, 0⟩ habsent
    cases hafter.symm.trans hnone
  · intro hpresent
    by_contra hsome
    obtain ⟨after, hafter⟩ := Option.ne_none_iff_exists'.mp hsome
    exact hpresent (foldlM_scanSlot_spec hname hafter).1

/-! ### A new entry -/

/-- A name is added in a slot that was free. -/
def Inserted (fs fs' : Server) (owner : Nat) (entry : Entry) : Prop :=
  fs.Absent (fs.ino2inode owner) entry.name ∧
    ∃ slot ∈ dirSlots, fs.entryAt (fs.ino2inode owner) slot = none ∧
      ∀ other ∈ dirSlots, fs'.entryAt (fs'.ino2inode owner) other =
        if other = slot then some entry else fs.entryAt (fs.ino2inode owner) other

/-- Behind its first slot, the block that is allocated next holds no entries. -/
def CleanBlock (fs : Server) : Prop :=
  ∀ blockNo, fs.blockBmap.bitmapScan 1 = some blockNo →
    ∀ j, j ≠ 0 → j < DirEntry.perSector → entryIn (fs.disk (fs.blockLba blockNo)) j = none

/-- There is a free slot, or room for another sector that holds no stale entries. -/
def HasSlot (fs : Server) (inode : Inode) : Prop :=
  (∃ slot ∈ dirSlots, fs.IsFree inode slot) ∨ fs.CleanBlock

variable {owner : Nat} {entry : DirEntry}

theorem freeIndex_eq_some {i : Fin 9} (hfree : freeIndex inode = some i) : inode.sectors i = 0 := by
  have h := List.find?_some hfree
  simpa using h

/-- An entry is stored in a free slot of a sector that the directory has. -/
theorem inserted_slot (hmarked : fs.Marked) (hsound : fs.Sound owner) (hname : IsName entry.name)
    (hino : entry.inodeNo < 2 ^ 32) {slot : Fin 9 × Nat} (hmem : slot ∈ dirSlots)
    (hfree : fs.IsFree (fs.ino2inode owner) slot)
    (hresult : fs' = fs.writeDisk ((fs.ino2inode owner).sectors slot.1) (entry.store
      (fs.disk ((fs.ino2inode owner).sectors slot.1)) (entryOffset slot.2))) :
    ∃ slot ∈ dirSlots, fs.entryAt (fs.ino2inode owner) slot = none ∧
      ∀ other ∈ dirSlots, fs'.entryAt (fs'.ino2inode owner) other =
        if other = slot then some entry.entry
        else fs.entryAt (fs.ino2inode owner) other := by
  refine ⟨slot, hmem, hfree.2, fun other _ => ?_⟩
  rw [hresult, (Working.start hmarked hsound).ino2inode_writeDisk hmarked.layout hsound.inUse.1]
  obtain ⟨i, j⟩ := slot
  obtain ⟨i', j'⟩ := other
  simp only [entryAt]
  by_cases hsame : (fs.ino2inode owner).sectors i' = (fs.ino2inode owner).sectors i
  · have hi : i' = i := by
      refine hsound.owned.injective i' i ?_ hsame
      rw [hsame]
      exact hfree.1
    subst hi
    rw [if_neg hfree.1, if_neg hfree.1, writeDisk_disk_self]
    by_cases hj : j' = j
    · subst hj
      rw [if_pos rfl, entryIn_store_self hname hino]
    · rw [if_neg (by simp [hj]), entryIn_store_of_ne hj]
  · have hi : (i', j') ≠ (i, j) := by
      rintro ⟨⟩
      exact hsame rfl
    rw [if_neg hi, writeDisk_disk_of_ne hsame]

theorem allocateBlock_scan {fs₁ : Server} {blockNo : Nat}
    (halloc : fs.allocateBlock = some (fs₁, blockNo)) :
    fs.blockBmap.bitmapScan 1 = some blockNo := by
  obtain ⟨slot, hscan, hslot⟩ := Option.map_eq_some_iff.mp halloc
  rw [Prod.mk.injEq] at hslot
  rw [hscan, hslot.2]

/-- The slots of a directory with a new sector: an entry is stored in its first slot, and
what the block held behind it is there. -/
theorem entryAt_newBlock (hmarked : fs.Marked) (hsound : fs.Sound owner) (hname : IsName entry.name)
    (hino : entry.inodeNo < 2 ^ 32) {i : Fin 9} {fs₁ : Server} {blockNo : Nat}
    (halloc : fs.allocateBlock = some (fs₁, blockNo))
    (hresult : fs' = ((fs₁.writeDisk (fs₁.blockLba blockNo)
      (entry.store (fs₁.disk (fs₁.blockLba blockNo)) (entryOffset 0))).syncInode
        ((fs.ino2inode owner).setSector i (fs₁.blockLba blockNo))).syncBlockBitmap)
    (other : Fin 9 × Nat) :
    fs'.entryAt (fs'.ino2inode owner) other =
      if other.1 = i then
        if other.2 = 0 then some entry.entry
        else entryIn (fs.disk (fs.blockLba blockNo)) other.2
      else fs.entryAt (fs.ino2inode owner) other := by
  have hstarted := (Working.start hmarked hsound).allocate_writeDisk hmarked.layout halloc i
    (entry.store (fs₁.disk (fs₁.blockLba blockNo)) (entryOffset 0))
  have hlba : fs₁.Occupied (fs₁.blockLba blockNo) := occupied_blockLba hmarked.layout halloc
  obtain ⟨hlt, hclear, hfs₁⟩ := allocateBlock_spec halloc
  have hdisk₁ : fs₁.disk = fs.disk := by rw [hfs₁]
  have hsame₁ : fs₁.blockLba blockNo = fs.blockLba blockNo := by rw [hfs₁]; rfl
  generalize hlbaDef : fs₁.blockLba blockNo = lba at *
  generalize hmid : fs₁.writeDisk lba (entry.store (fs₁.disk lba) (entryOffset 0)) = mid at *
  obtain ⟨-, hsectors⟩ := hstarted.stored hmarked hsound.inUse.1
  have hmidLayout := hstarted.works.layout hmarked.layout
  have hmidIn : mid.InTable ((fs.ino2inode owner).setSector i lba).inodeNo := by
    rw [hstarted.number]
    exact hsound.inUse.1.congr hstarted.works.sb
  have hlayout' : (mid.syncInode ((fs.ino2inode owner).setSector i lba)).Layout :=
    hmidLayout.congr rfl rfl
  have hdisk : ∀ sector, mid.IsDataSector sector → fs'.disk sector = mid.disk sector := by
    intro sector hdata
    rw [hresult, syncBlockBitmap_disk hlayout' (hdata.table_le hmidLayout),
      syncInode_disk_of_ne (hdata.ne_inodeSector hmidLayout hmidIn)]
  have hinode : (fs'.ino2inode owner).sectors = ((fs.ino2inode owner).setSector i lba).sectors := by
    rw [hresult, ← hsectors, ino2inode_syncBlockBitmap hlayout' (hsound.inUse.1.congr hstarted.works.sb)]
  have hmidSb : mid.sb = fs.sb := hstarted.works.sb
  have hdataOf : ∀ {sector}, fs.IsDataSector sector → mid.IsDataSector sector :=
    fun h => h.congr hmidSb
  have hlbaData : fs.IsDataSector lba := by
    have := hlba.isDataSector
    rwa [IsDataSector, hfs₁] at this
  obtain ⟨i', j'⟩ := other
  simp only [entryAt, hinode, setSector_sectors]
  by_cases hi : i' = i
  · subst hi
    rw [if_pos rfl, if_pos rfl, if_neg (hlbaData.ne_zero hmarked.layout), hdisk lba (hdataOf hlbaData),
      ← hmid, writeDisk_disk_self]
    split
    next hj => rw [hj, entryIn_store_self hname hino]
    next hj => rw [entryIn_store_of_ne hj, hdisk₁, hsame₁]
  · rw [if_neg hi, if_neg hi]
    by_cases hzero : (fs.ino2inode owner).sectors i' = 0
    · rw [if_pos hzero, if_pos hzero]
    · have hold := hsound.owned.occupied i' hzero
      have hne : (fs.ino2inode owner).sectors i' ≠ lba := by
        rw [hsame₁]
        exact (blockLba_ne hmarked.layout hlt hclear hold).symm
      rw [if_neg hzero, if_neg hzero, hdisk _ (hdataOf hold.isDataSector), ← hmid,
        writeDisk_disk_of_ne hne, hdisk₁]

/-- An entry is stored in the first slot of a new sector. -/
theorem inserted_block (hmarked : fs.Marked) (hsound : fs.Sound owner) (hname : IsName entry.name)
    (hino : entry.inodeNo < 2 ^ 32) (hclean : fs.CleanBlock) {i : Fin 9} {fs₁ : Server}
    {blockNo : Nat} (hfree : (fs.ino2inode owner).sectors i = 0)
    (halloc : fs.allocateBlock = some (fs₁, blockNo))
    (hresult : fs' = ((fs₁.writeDisk (fs₁.blockLba blockNo)
      (entry.store (fs₁.disk (fs₁.blockLba blockNo)) (entryOffset 0))).syncInode
        ((fs.ino2inode owner).setSector i (fs₁.blockLba blockNo))).syncBlockBitmap) :
    ∃ slot ∈ dirSlots, fs.entryAt (fs.ino2inode owner) slot = none ∧
      ∀ other ∈ dirSlots, fs'.entryAt (fs'.ino2inode owner) other =
        if other = slot then some entry.entry
        else fs.entryAt (fs.ino2inode owner) other := by
  have hunused : ∀ j, fs.entryAt (fs.ino2inode owner) (i, j) = none := fun j => by
    rw [entryAt, if_pos hfree]
  refine ⟨(i, 0), mem_dirSlots.mpr (Nat.zero_lt_succ 6), hunused 0, fun other hother => ?_⟩
  rw [entryAt_newBlock hmarked hsound hname hino halloc hresult other]
  obtain ⟨i', j'⟩ := other
  rw [mem_dirSlots] at hother
  dsimp only at hother ⊢
  by_cases hi : i' = i
  · subst hi
    rw [if_pos rfl, hunused]
    by_cases hj : j' = 0
    · subst hj
      rw [if_pos rfl, if_pos rfl]
    · rw [if_neg hj, if_neg (by simp [hj])]
      exact hclean blockNo (allocateBlock_scan halloc) j' hj hother
  · rw [if_neg hi, if_neg (by simp [hi])]

/-- `create_dir_entry` adds the name unless it is there or the directory is full. -/
theorem createDirEntry_cases (hmarked : fs.Marked) (hsound : fs.Sound owner)
    (hname : IsName entry.name) (hino : entry.inodeNo < 2 ^ 32)
    (hslot : fs.Absent (fs.ino2inode owner) entry.name →
      fs.HasSlot (fs.ino2inode owner) ∨ freeIndex (fs.ino2inode owner) = none)
    (hcreate : fs.createDirEntry (fs.ino2inode owner) entry = some fs') :
    fs' = fs ∧ (fs.Absent (fs.ino2inode owner) entry.name →
        (∀ slot ∈ dirSlots, ¬ fs.IsFree (fs.ino2inode owner) slot) ∧
          freeIndex (fs.ino2inode owner) = none) ∨
      Inserted fs fs' owner entry.entry := by
  unfold createDirEntry at hcreate
  split at hcreate
  next hscan =>
    cases hcreate
    exact .inl ⟨rfl, fun habsent => absurd habsent ((scanDir_eq_none_iff hname).mp hscan)⟩
  next free hscan =>
    rw [scanDir_eq] at hscan
    obtain ⟨habsent, hfound⟩ := foldlM_scanSlot_spec hname hscan
    split at hcreate
    next hsector =>
      cases hcreate
      right
      rcases hfound with ⟨rfl, -⟩ | ⟨-, slot, hmem, hfree, rfl⟩
      · exact absurd rfl hsector
      · exact ⟨habsent, inserted_slot hmarked hsound hname hino hmem hfree rfl⟩
    next hsector =>
      have hnone : ∀ slot ∈ dirSlots, ¬ fs.IsFree (fs.ino2inode owner) slot := by
        rcases hfound with ⟨-, h⟩ | ⟨-, slot, -, hfree, rfl⟩
        · exact h rfl
        · exact absurd hfree.1 hsector
      split at hcreate
      next hindex =>
        cases hcreate
        exact .inl ⟨rfl, fun _ => ⟨hnone, hindex⟩⟩
      next i hindex =>
        simp only [Option.bind_eq_bind, Option.bind_eq_some_iff, Prod.exists] at hcreate
        obtain ⟨fs₁, blockNo, halloc, hcreate⟩ := hcreate
        have hclean : fs.CleanBlock := by
          rcases hslot habsent with (⟨slot, hmem, hfree⟩ | hclean) | hfull
          · exact absurd hfree (hnone slot hmem)
          · exact hclean
          · exact nomatch hindex.symm.trans hfull
        refine .inr ⟨habsent, inserted_block hmarked hsound hname hino hclean (freeIndex_eq_some hindex)
          halloc ?_⟩
        rw [entryOffset, Nat.zero_mul]
        exact (Option.some.inj hcreate).symm

/-- A name that was there is found as before; the new one is found now. -/
theorem Inserted.findDirEntry {entry : Entry} (hinserted : Inserted fs fs' owner entry)
    (hlen : child.length < 64) (hnul : 0 ∉ child) :
    fs'.findDirEntry (fs'.ino2inode owner) child =
      if child = entry.name then entry.inodeNo else fs.findDirEntry (fs.ino2inode owner) child := by
  obtain ⟨habsent, slot, hmem, hfree, hentries⟩ := hinserted
  have hlookup : ∀ other ∈ dirSlots, fs'.lookupAt (fs'.ino2inode owner) child other =
      if other = slot then Entry.matching child entry
      else fs.lookupAt (fs.ino2inode owner) child other := by
    intro other hother
    rw [lookupAt, hentries other hother]
    split
    next => rfl
    next => rfl
  rw [findDirEntry_eq _ _ hlen hnul, findDirEntry_eq _ _ hlen hnul]
  split
  next heq =>
    subst heq
    have hfound : dirSlots.findSome? (fs'.lookupAt (fs'.ino2inode owner) entry.name) = some entry.inodeNo := by
      have hall : ∀ other ∈ dirSlots, ∀ ino, fs'.lookupAt (fs'.ino2inode owner) entry.name other =
          some ino → ino = entry.inodeNo := by
        intro other hother ino hsome
        rw [hlookup other hother] at hsome
        split at hsome
        next =>
          rw [Entry.matching, if_pos rfl] at hsome
          exact (Option.some.inj hsome).symm
        next =>
          rw [habsent other hother] at hsome
          cases hsome
      have hself : fs'.lookupAt (fs'.ino2inode owner) entry.name slot = some entry.inodeNo := by
        rw [hlookup slot hmem, if_pos rfl, Entry.matching, if_pos rfl]
      cases hsearch : dirSlots.findSome? (fs'.lookupAt (fs'.ino2inode owner) entry.name) with
      | none =>
          rw [List.findSome?_eq_none_iff] at hsearch
          cases hself.symm.trans (hsearch slot hmem)
      | some ino =>
          obtain ⟨other, hother, hsome⟩ := List.exists_of_findSome?_eq_some hsearch
          rw [hall other hother ino hsome]
    rw [hfound]
    rfl
  next hne =>
    congr 1
    refine findSome?_congr fun other hother => ?_
    rw [hlookup other hother]
    split
    next heq =>
      -- the new entry has another name, and the slot was free
      rw [heq, lookupAt, hfree, Entry.matching, if_neg (Ne.symm hne)]
      rfl
    next => rfl

end Server

end Shmily.Fs
