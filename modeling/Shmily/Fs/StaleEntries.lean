import Shmily.Fs.AccessControl

/-! # Stale entries

`create_dir_entry` does not clear a new block. What a removed file has left behind the
first slot of the block is then read as entries of the directory. Where the directory has
a free slot, or what is left there changes no lookup, only the new name is added.
-/

namespace Shmily.Fs.Server

open Foundation Lib

/-- What a block has for a name behind its first slot. -/
def staleLookup (area : ByteArea) (child : List Byte) : Option Nat :=
  (List.range' 1 (DirEntry.perSector - 1)).findSome? fun j =>
    (entryIn area j).bind (Entry.matching child)

/-- The slots of the sectors before one, and behind it. -/
def slotsBefore (i : Fin 9) : List (Fin 9 × Nat) := dirSlots.filter (·.1 < i)

def slotsAfter (i : Fin 9) : List (Fin 9 × Nat) := dirSlots.filter (i < ·.1)

/-- There is a free slot, or a free inode sector and a free block. -/
def HasPlace (fs : Server) (inode : Inode) : Prop :=
  (∃ slot ∈ dirSlots, fs.IsFree inode slot) ∨
    freeIndex inode ≠ none ∧ fs.blockBmap.bitmapScan 1 ≠ none

/-- What is left in the block that is allocated next makes no difference: where it is
found first, it gives the number that the directory has for the name already. -/
def StaleHarmless (fs : Server) (owner : Nat) (name : List Byte) : Prop :=
  ∀ i blockNo, freeIndex (fs.ino2inode owner) = some i → fs.blockBmap.bitmapScan 1 = some blockNo →
    ∀ child, child.length < 64 → 0 ∉ child → child ≠ name →
      (∀ slot ∈ slotsBefore i, fs.lookupAt (fs.ino2inode owner) child slot = none) →
      ∀ ino, staleLookup (fs.disk (fs.blockLba blockNo)) child = some ino → fs.find owner child = ino

/-- The entry is found afterwards, and every other name as before. -/
def AddsExactly (fs : Server) (owner : Nat) (entry : DirEntry) : Prop :=
  ∃ fs', fs.createDirEntry (fs.ino2inode owner) entry = some fs' ∧
    fs'.find owner entry.name = entry.inodeNo ∧
    ∀ child, child.length < 64 → 0 ∉ child → child ≠ entry.name →
      fs'.find owner child = fs.find owner child

variable {fs fs' : Server} {owner : Nat} {entry : DirEntry} {i : Fin 9} {child : List Byte}

/-- The search reaches a sector after those before it. -/
theorem dirSlots_split (i : Fin 9) :
    dirSlots = slotsBefore i ++ ((List.range DirEntry.perSector).map (i, ·) ++ slotsAfter i) := by
  revert i
  decide

theorem find_eq_sectors (fs : Server) (owner : Nat) (i : Fin 9) (hlen : child.length < 64)
    (hnul : 0 ∉ child) :
    fs.find owner child =
      (((slotsBefore i).findSome? (fs.lookupAt (fs.ino2inode owner) child)).or
        (((List.range DirEntry.perSector).findSome? fun j =>
            fs.lookupAt (fs.ino2inode owner) child (i, j)).or
          ((slotsAfter i).findSome? (fs.lookupAt (fs.ino2inode owner) child)))).getD minusOne := by
  have hsector : ((List.range DirEntry.perSector).findSome? fun j =>
      fs.lookupAt (fs.ino2inode owner) child (i, j)) =
      ((List.range DirEntry.perSector).map (i, ·)).findSome? (fs.lookupAt (fs.ino2inode owner) child) := by
    rw [List.findSome?_map]
    rfl
  rw [find, findDirEntry_eq _ _ hlen hnul, hsector, ← List.findSome?_append, ← List.findSome?_append,
    ← dirSlots_split]

/-- The search of a directory whose free slot is filled, or that has a new sector. -/
theorem exists_createDirEntry (hmarked : fs.Marked) (hsound : fs.Sound owner)
    (hname : IsName entry.name) (hino : entry.inodeNo < 2 ^ 32)
    (habsent : fs.Absent (fs.ino2inode owner) entry.name)
    (hplace : fs.HasPlace (fs.ino2inode owner)) :
    ∃ fs', fs.createDirEntry (fs.ino2inode owner) entry = some fs' ∧
      ((∃ slot ∈ dirSlots, fs.IsFree (fs.ino2inode owner) slot) ∧
          Inserted fs fs' owner entry.entry ∨
        (∀ slot ∈ dirSlots, ¬ fs.IsFree (fs.ino2inode owner) slot) ∧
          ∃ i blockNo, freeIndex (fs.ino2inode owner) = some i ∧
            fs.blockBmap.bitmapScan 1 = some blockNo ∧
            ∀ other, fs'.entryAt (fs'.ino2inode owner) other =
              if other.1 = i then
                if other.2 = 0 then some entry.entry
                else entryIn (fs.disk (fs.blockLba blockNo)) other.2
              else fs.entryAt (fs.ino2inode owner) other) := by
  obtain ⟨free, hscan⟩ : ∃ free, fs.scanDir (fs.ino2inode owner) entry.name = some free := by
    rw [← Option.ne_none_iff_exists']
    exact fun hnone => (scanDir_eq_none_iff hname).mp hnone habsent
  have hslots := hscan
  rw [scanDir_eq] at hslots
  rcases (foldlM_scanSlot_spec hname hslots).2 with ⟨rfl, hfull⟩ | ⟨-, slot, hmem, hfree, rfl⟩
  · have hnone := hfull rfl
    obtain ⟨hindex, hblock⟩ := hplace.resolve_left fun ⟨slot, hmem, hfree⟩ => hnone slot hmem hfree
    obtain ⟨i, hi⟩ := Option.ne_none_iff_exists'.mp hindex
    obtain ⟨blockNo, hblockNo⟩ := Option.ne_none_iff_exists'.mp hblock
    have halloc : fs.allocateBlock =
        some ({ fs with blockBmap := fs.blockBmap.setBit blockNo true }, blockNo) := by
      rw [allocateBlock, hblockNo, Option.map_some]
    refine ⟨_, ?_, .inr ⟨hnone, i, blockNo, hi, hblockNo,
      entryAt_newBlock hmarked hsound hname hino halloc rfl⟩⟩
    rw [createDirEntry, hscan]
    simp only [ne_eq, not_true_eq_false, if_false, hi, halloc, Option.bind_eq_bind, Option.bind_some,
      entryOffset, Nat.zero_mul]
  · refine ⟨_, ?_, .inl ⟨⟨slot, hmem, hfree⟩, habsent,
      inserted_slot hmarked hsound hname hino hmem hfree rfl⟩⟩
    rw [createDirEntry, hscan]
    exact if_pos hfree.1

/-- Another name is found first before the new sector, then among what the block held. -/
theorem find_newBlock (hlen : child.length < 64) (hnul : 0 ∉ child) (hother : child ≠ entry.name)
    {area : ByteArea}
    (hentries : ∀ other, fs'.entryAt (fs'.ino2inode owner) other =
      if other.1 = i then if other.2 = 0 then some entry.entry else entryIn area other.2
      else fs.entryAt (fs.ino2inode owner) other) :
    fs'.find owner child =
      (((slotsBefore i).findSome? (fs.lookupAt (fs.ino2inode owner) child)).or
        ((staleLookup area child).or
          ((slotsAfter i).findSome? (fs.lookupAt (fs.ino2inode owner) child)))).getD minusOne := by
  have hkept : ∀ slot : Fin 9 × Nat, slot.1 ≠ i → fs'.lookupAt (fs'.ino2inode owner) child slot =
      fs.lookupAt (fs.ino2inode owner) child slot := by
    intro slot hslot
    rw [lookupAt, hentries, if_neg hslot, lookupAt]
  have hbefore : (slotsBefore i).findSome? (fs'.lookupAt (fs'.ino2inode owner) child) =
      (slotsBefore i).findSome? (fs.lookupAt (fs.ino2inode owner) child) := by
    refine findSome?_congr fun slot hslot => hkept slot ?_
    exact (of_decide_eq_true (List.mem_filter.mp hslot).2).ne
  have hafter : (slotsAfter i).findSome? (fs'.lookupAt (fs'.ino2inode owner) child) =
      (slotsAfter i).findSome? (fs.lookupAt (fs.ino2inode owner) child) := by
    refine findSome?_congr fun slot hslot => hkept slot ?_
    exact (of_decide_eq_true (List.mem_filter.mp hslot).2).ne'
  have hnew : ((List.range DirEntry.perSector).findSome? fun j =>
      fs'.lookupAt (fs'.ino2inode owner) child (i, j)) = staleLookup area child := by
    have hrange : List.range DirEntry.perSector = 0 :: List.range' 1 (DirEntry.perSector - 1) := rfl
    have hfirst : fs'.lookupAt (fs'.ino2inode owner) child (i, 0) = none := by
      rw [lookupAt, hentries, if_pos rfl, if_pos rfl, Option.bind_some, Entry.matching]
      exact if_neg (Ne.symm hother)
    rw [hrange, List.findSome?_cons, hfirst, staleLookup]
    refine findSome?_congr fun j hj => ?_
    have hpos : j ≠ 0 := by
      rw [List.mem_range'_1] at hj
      omega
    rw [lookupAt, hentries, if_pos rfl, if_neg hpos]
  rw [find_eq_sectors fs' owner i hlen hnul, hbefore, hafter, hnew]

/-- Whether another name is found as before when the directory has a new sector. -/
theorem find_newBlock_eq_iff (hlen : child.length < 64) (hnul : 0 ∉ child)
    (hother : child ≠ entry.name) {area : ByteArea} (hunused : (fs.ino2inode owner).sectors i = 0)
    (hentries : ∀ other, fs'.entryAt (fs'.ino2inode owner) other =
      if other.1 = i then if other.2 = 0 then some entry.entry else entryIn area other.2
      else fs.entryAt (fs.ino2inode owner) other) :
    fs'.find owner child = fs.find owner child ↔
      ((∀ slot ∈ slotsBefore i, fs.lookupAt (fs.ino2inode owner) child slot = none) →
        ∀ ino, staleLookup area child = some ino → fs.find owner child = ino) := by
  have hnone : ((List.range DirEntry.perSector).findSome? fun j =>
      fs.lookupAt (fs.ino2inode owner) child (i, j)) = none := by
    rw [List.findSome?_eq_none_iff]
    intro j _
    rw [lookupAt, Server.entryAt, if_pos hunused]
    rfl
  have hnow := find_newBlock hlen hnul hother hentries
  have hthen := find_eq_sectors fs owner i hlen hnul
  rw [hnone, Option.none_or] at hthen
  rw [← List.findSome?_eq_none_iff]
  cases hbefore : (slotsBefore i).findSome? (fs.lookupAt (fs.ino2inode owner) child) with
  | some ino =>
      rw [hbefore, Option.some_or] at hnow hthen
      rw [hnow, hthen]
      exact iff_of_true rfl fun h => absurd h (Option.some_ne_none _)
  | none =>
      rw [hbefore, Option.none_or] at hnow hthen
      cases hstale : staleLookup area child with
      | none =>
          rw [hstale, Option.none_or] at hnow
          rw [hnow, hthen]
          exact iff_of_true rfl fun _ _ h => absurd h.symm (Option.some_ne_none _)
      | some ino =>
          rw [hstale, Option.some_or, Option.getD_some] at hnow
          rw [hnow]
          constructor
          · rintro hsame - _ ⟨⟩
            exact hsame.symm
          · intro hharmless
            exact (hharmless rfl ino rfl).symm

/-- The new entry itself is found, whatever the block held. -/
theorem find_newBlock_self (hname : IsName entry.name)
    (habsent : fs.Absent (fs.ino2inode owner) entry.name) {area : ByteArea}
    (hentries : ∀ other, fs'.entryAt (fs'.ino2inode owner) other =
      if other.1 = i then if other.2 = 0 then some entry.entry else entryIn area other.2
      else fs.entryAt (fs.ino2inode owner) other) :
    fs'.find owner entry.name = entry.inodeNo := by
  have hbefore : (slotsBefore i).findSome? (fs'.lookupAt (fs'.ino2inode owner) entry.name) = none := by
    rw [List.findSome?_eq_none_iff]
    intro slot hslot
    obtain ⟨hmem, hlt⟩ := List.mem_filter.mp hslot
    have hne : slot.1 ≠ i := (of_decide_eq_true hlt).ne
    rw [lookupAt, hentries, if_neg hne]
    exact habsent slot hmem
  have hfirst : fs'.lookupAt (fs'.ino2inode owner) entry.name (i, 0) = some entry.inodeNo := by
    rw [lookupAt, hentries, if_pos rfl, if_pos rfl, Option.bind_some, Entry.matching]
    exact if_pos rfl
  have hnew : ((List.range DirEntry.perSector).findSome? fun j =>
      fs'.lookupAt (fs'.ino2inode owner) entry.name (i, j)) = some entry.inodeNo := by
    have hrange : List.range DirEntry.perSector = 0 :: List.range' 1 (DirEntry.perSector - 1) := rfl
    rw [hrange, List.findSome?_cons, hfirst]
  rw [find_eq_sectors fs' owner i hname.length hname.nulFree, hbefore, hnew]
  rfl

/-- Only the new name is added if and only if the directory has a free slot or what is
left in the new block makes no difference. -/
theorem addsExactly_iff (hcons : fs.Consistent) (huse : fs.InUse owner) (hname : IsName entry.name)
    (hino : entry.inodeNo < 2 ^ 32) (habsent : fs.Absent (fs.ino2inode owner) entry.name)
    (hplace : fs.HasPlace (fs.ino2inode owner)) :
    fs.AddsExactly owner entry ↔
      (∃ slot ∈ dirSlots, fs.IsFree (fs.ino2inode owner) slot) ∨
        fs.StaleHarmless owner entry.name := by
  obtain ⟨fs', hcreate, ⟨hfree, hinserted⟩ | ⟨hfull, i, blockNo, hi, hblockNo, hentries⟩⟩ :=
    exists_createDirEntry hcons.marked (hcons.sound huse) hname hino habsent hplace
  · refine iff_of_true ⟨fs', hcreate, ?_, fun child hlen hnul hother => ?_⟩ (.inl hfree)
    · rw [find, hinserted.findDirEntry hname.length hname.nulFree]
      exact if_pos rfl
    · rw [find, hinserted.findDirEntry hlen hnul]
      exact if_neg hother
  · have hunused := freeIndex_eq_some hi
    have hself := find_newBlock_self hname habsent hentries
    constructor
    · rintro ⟨_, hcreate', -, hsame⟩
      obtain rfl := Option.some.inj (hcreate.symm.trans hcreate')
      right
      rintro i' blockNo' hi' hblockNo' child hlen hnul hother
      obtain rfl := Option.some.inj (hi.symm.trans hi')
      obtain rfl := Option.some.inj (hblockNo.symm.trans hblockNo')
      exact (find_newBlock_eq_iff hlen hnul hother hunused hentries).mp (hsame child hlen hnul hother)
    · rintro (⟨slot, hmem, hfree⟩ | hharmless)
      · exact absurd hfree (hfull slot hmem)
      · refine ⟨fs', hcreate, hself, fun child hlen hnul hother => ?_⟩
        rw [find_newBlock_eq_iff hlen hnul hother hunused hentries]
        exact hharmless i blockNo hi hblockNo child hlen hnul hother

/-- A third name in the root. -/
theorem addsExactly_third :
    treeServer.AddsExactly 0 ⟨[0x63], 1, .file⟩ ↔
      (∃ slot ∈ dirSlots, treeServer.IsFree (treeServer.ino2inode 0) slot) ∨
        treeServer.StaleHarmless 0 [0x63] := by
  refine addsExactly_iff treeServer_consistent (by decide) ?_ (by decide) ?_ ?_
  · exact ⟨by decide, by decide, by decide⟩
  · have habsent : ∀ slot ∈ dirSlots,
        treeServer.lookupAt (treeServer.ino2inode 0) [0x63] slot = none := by decide
    exact habsent
  · exact .inl ⟨(0, 2), mem_dirSlots.mpr (by decide), by decide, by decide⟩

/-- A root directory without sectors. The first free block holds what was an entry `b`
behind its first slot. -/
def staleServer : Server where
  sb := smallSuperBlock
  disk lba :=
    if lba = 5 then (DirEntry.mk [0x62] 2 .file).store ByteArea.zeros (entryOffset 1)
    else ByteArea.zeros
  blockBmap := { bytesLen := 2, base := fun _ => 0 }
  inodeBmap := { bytesLen := 1, base := fun byteIdx => if byteIdx = 0 then 1 else 0 }
  fileDescTbl := fun _ => none
  uid := 0
  now := 0

theorem staleServer_consistent : staleServer.Consistent := by
  have hall : ∀ ino < 8, staleServer.InUse ino → ino = 0 := by decide
  have hroot : ∀ {ino}, staleServer.InUse ino → ino = 0 := fun huse => hall _ huse.1 huse
  have hsectors : ∀ i, (staleServer.ino2inode 0).sectors i = 0 := by decide
  constructor
  case layout => constructor <;> decide
  case numbers => decide
  case number =>
    intro ino huse
    rw [hroot huse]
    decide
  case owned =>
    intro ino huse
    rw [hroot huse]
    exact ⟨fun i hi => absurd (hsectors i) hi, fun i _ hi => absurd (hsectors i) hi⟩
  case disjoint =>
    intro a b ha hb hab
    exact absurd ((hroot ha).trans (hroot hb).symm) hab

/-- With the entry `a` the name `b` appears as well. -/
theorem stale_entry_appears :
    ¬ ∀ (fs : Server) (owner : Nat) (entry : DirEntry), fs.Consistent → fs.InUse owner →
      IsName entry.name → entry.inodeNo < 2 ^ 32 → fs.Absent (fs.ino2inode owner) entry.name →
      fs.HasPlace (fs.ino2inode owner) → fs.AddsExactly owner entry := by
  intro hall
  have habsent : ∀ slot ∈ dirSlots,
      staleServer.lookupAt (staleServer.ino2inode 0) [0x61] slot = none := by decide
  obtain ⟨fs', hcreate, -, hsame⟩ := hall staleServer 0 ⟨[0x61], 1, .file⟩ staleServer_consistent
    (by decide) ⟨by decide, by decide, by decide⟩ (by decide) habsent
    (.inr ⟨by decide, by decide⟩)
  have hseen : (staleServer.createDirEntry (staleServer.ino2inode 0) ⟨[0x61], 1, .file⟩).map
      (fun fs' => fs'.find 0 [0x62]) = some 2 := by decide
  have hbefore : staleServer.find 0 [0x62] = minusOne := by decide
  rw [hcreate, Option.map_some, Option.some.injEq,
    hsame [0x62] (by decide) (by decide) (by decide), hbefore] at hseen
  exact absurd hseen (by decide)

end Shmily.Fs.Server
