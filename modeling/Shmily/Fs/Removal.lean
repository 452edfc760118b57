import Shmily.Fs.DirEntries

/-! # Entries that are removed

`remove_dir_entry` goes through the sectors of a directory, clears the first byte of every
entry with the name, and stops at a sector that is empty once the name was found. A name
that occurs once is gone afterwards, and all other entries are found as before.
-/

namespace Shmily.Fs

open Foundation Lib

/-- An entry, unless it has the name. -/
def Entry.without (name : List Byte) (entry : Option Entry) : Option Entry :=
  entry.filter fun entry => entry.name ≠ name

section Sectors

variable {area : ByteArea} {j k : Nat} {name : List Byte}

theorem entryIn_eq_none_iff : entryIn area j = none ↔ area (entryOffset j) = 0 := by
  unfold entryIn
  split
  next hzero => exact iff_of_true rfl hzero
  next hne => exact iff_of_false (Option.some_ne_none _) hne

/-- The comparison in the loop finds the entries with the name. -/
theorem strcmp_entryIn (hname : IsName name) :
    strcmp area (entryOffset j) name = true ↔ ∃ entry, entryIn area j = some entry ∧ entry.name = name := by
  rw [strcmp_iff hname.length hname.nulFree, entryIn]
  split
  next hzero =>
    rw [cstringAt, if_pos hzero]
    exact iff_of_false (Ne.symm hname.nonempty) (by simp)
  next =>
    constructor
    · intro heq
      exact ⟨_, rfl, heq⟩
    · rintro ⟨entry, hentry, rfl⟩
      cases hentry
      rfl

theorem entryIn_clear_self : entryIn (Function.update area (entryOffset j) 0) j = none :=
  entryIn_eq_none_iff.mpr (Function.update_self ..)

theorem entryIn_clear_of_ne (hne : k ≠ j) :
    entryIn (Function.update area (entryOffset j) 0) k = entryIn area k := by
  refine entryIn_congr fun i hi => Function.update_of_ne ?_ _ _
  simp only [entryOffset, DirEntry.bytes] at hi ⊢
  omega

theorem Entry.without_of_ne {entry : Option Entry} (hne : ∀ e, entry = some e → e.name ≠ name) :
    Entry.without name entry = entry := by
  cases entry with
  | none => rfl
  | some e => rw [Entry.without, Option.filter_some, if_pos (by simpa using hne e rfl)]

theorem Entry.without_of_eq {e : Entry} (heq : e.name = name) :
    Entry.without name (some e) = none := by
  rw [Entry.without, Option.filter_some, if_neg (by simp [heq])]

end Sectors

namespace Server

variable {fs fs' : Server} {inode : Inode} {name : List Byte} {lba n : Nat} {isFound : Bool}

/-- What the loop over a sector has done after some entries. -/
structure Scanned (fs : Server) (lba : Nat) (name : List Byte) (isFound : Bool) (n : Nat)
    (scan : RemoveScan) : Prop where
  disk : scan.fs = fs.writeDisk lba scan.buf
  entries : ∀ j, entryIn scan.buf j =
    if j < n then Entry.without name (entryIn (fs.disk lba) j) else entryIn (fs.disk lba) j
  found : scan.isFound = true ↔
    isFound = true ∨ ∃ j < n, ∃ entry, entryIn (fs.disk lba) j = some entry ∧ entry.name = name
  counted : scan.emptyCnts ≤ n ∧
    (scan.emptyCnts = n ↔ ∀ j < n, Entry.without name (entryIn (fs.disk lba) j) = none)

theorem Scanned.init (fs : Server) (lba : Nat) (name : List Byte) (isFound : Bool) :
    Scanned fs lba name isFound 0 ⟨fs, fs.disk lba, isFound, 0⟩ where
  disk := by rw [writeDisk, Function.update_eq_self]
  entries _ := (if_neg (Nat.not_lt_zero _)).symm
  found := by simp
  counted := by simp

/-- An entry without the name is passed over. -/
theorem Scanned.pass {scan : RemoveScan} (hscanned : Scanned fs lba name isFound n scan)
    (hother : ∀ entry, entryIn (fs.disk lba) n = some entry → entry.name ≠ name) :
    (∀ j, entryIn scan.buf j = if j < n + 1 then Entry.without name (entryIn (fs.disk lba) j)
      else entryIn (fs.disk lba) j) ∧
    (scan.isFound = true ↔ isFound = true ∨
      ∃ j < n + 1, ∃ entry, entryIn (fs.disk lba) j = some entry ∧ entry.name = name) := by
  obtain ⟨-, hentries, hfound, -⟩ := hscanned
  constructor
  · intro j
    rw [hentries j]
    by_cases hj : j = n
    · subst hj
      rw [if_neg (Nat.lt_irrefl j), if_pos (Nat.lt_succ_self j), Entry.without_of_ne hother]
    · simp only [Nat.lt_succ_iff_lt_or_eq, hj, or_false]
  · rw [hfound]
    constructor
    · rintro (hbefore | ⟨j, hj, hentry⟩)
      · exact .inl hbefore
      · exact .inr ⟨j, Nat.lt_succ_of_lt hj, hentry⟩
    · rintro (hbefore | ⟨j, hj, entry, hentry, heq⟩)
      · exact .inl hbefore
      · rcases Nat.lt_succ_iff_lt_or_eq.mp hj with hlt | rfl
        · exact .inr ⟨j, hlt, entry, hentry, heq⟩
        · exact absurd heq (hother entry hentry)

theorem Scanned.step {scan : RemoveScan} (hscanned : Scanned fs lba name isFound n scan)
    (hname : IsName name) : Scanned fs lba name isFound (n + 1) (removeEntry lba name scan n) := by
  have hpass := hscanned.pass
  obtain ⟨hdisk, hentries, hfound, hle, hall⟩ := hscanned
  have hhere : entryIn scan.buf n = entryIn (fs.disk lba) n := by
    rw [hentries n, if_neg (Nat.lt_irrefl n)]
  unfold removeEntry
  split
  next hsame =>
    -- the entry has the name and is cleared
    obtain ⟨entry, hentry, heq⟩ := (strcmp_entryIn hname).mp hsame
    rw [hhere] at hentry
    constructor
    case disk =>
      dsimp only
      rw [hdisk, writeDisk, writeDisk, Function.update_idem, writeDisk]
    case entries =>
      intro j
      dsimp only
      by_cases hj : j = n
      · subst hj
        rw [entryIn_clear_self, if_pos (Nat.lt_succ_self j), hentry, Entry.without_of_eq heq]
      · rw [entryIn_clear_of_ne hj, hentries j]
        simp only [Nat.lt_succ_iff_lt_or_eq, hj, or_false]
    case found => exact iff_of_true rfl (.inr ⟨n, Nat.lt_succ_self n, entry, hentry, heq⟩)
    case counted =>
      refine ⟨Nat.succ_le_succ hle, ?_⟩
      rw [Nat.forall_lt_succ_right, ← hall, hentry, Entry.without_of_eq heq]
      simp
  next hdiffers =>
    have hother : ∀ entry, entryIn (fs.disk lba) n = some entry → entry.name ≠ name := by
      intro entry hentry heq
      exact hdiffers ((strcmp_entryIn hname).mpr ⟨entry, hhere.trans hentry, heq⟩)
    obtain ⟨hentries', hfound'⟩ := hpass hother
    split
    next hzero =>
      have hnone : entryIn (fs.disk lba) n = none := by
        rw [← hhere]
        exact entryIn_eq_none_iff.mpr hzero
      refine ⟨hdisk, hentries', hfound', Nat.succ_le_succ hle, ?_⟩
      rw [Nat.forall_lt_succ_right, ← hall, hnone]
      simp [Entry.without]
    next hfull =>
      have hsome : entryIn (fs.disk lba) n ≠ none := by
        rw [← hhere]
        exact fun h => hfull (entryIn_eq_none_iff.mp h)
      refine ⟨hdisk, hentries', hfound', Nat.le_succ_of_le hle, ?_⟩
      rw [Nat.forall_lt_succ_right, Entry.without_of_ne hother]
      exact iff_of_false (by omega) fun h => hsome h.2

/-- The whole sector. -/
theorem removeInSector_scanned (fs : Server) (lba : Nat) (hname : IsName name) (isFound : Bool) :
    Scanned fs lba name isFound DirEntry.perSector (fs.removeInSector lba name isFound) := by
  rw [removeInSector]
  generalize DirEntry.perSector = n
  induction n with
  | zero => exact .init fs lba name isFound
  | succ n ih =>
      rw [List.range_succ, List.foldl_append]
      exact ih.step hname

variable {owner : Nat}

/-! ### Directories on the disk -/

/-- The sectors of an inode are different sectors of the data region. -/
structure Spread (fs : Server) (inode : Inode) : Prop where
  low : ∀ i, inode.sectors i ≠ 0 → fs.IsDataSector (inode.sectors i)
  high : ∀ i, inode.sectors i ≠ 0 →
    inode.sectors i < fs.sb.dataStart + fs.blockBmap.bytesLen * 8
  injective : ∀ i j, inode.sectors i ≠ 0 → inode.sectors i = inode.sectors j → i = j

/-- An inode of the table that has its own number and different data sectors. Whether
they are marked in the bitmap, and who else has them, does not matter. -/
structure OnDisk (fs : Server) (owner : Nat) : Prop where
  layout : fs.Layout
  inTable : fs.InTable owner
  number : (fs.ino2inode owner).inodeNo = owner
  spread : fs.Spread (fs.ino2inode owner)

theorem Owned.spread (howned : fs.Owned inode) : fs.Spread inode where
  low i hne := (howned.occupied i hne).isDataSector
  high i hne := (howned.occupied i hne).2.1
  injective := howned.injective

theorem Sound.onDisk (hsound : fs.Sound owner) (hlayout : fs.Layout) : fs.OnDisk owner where
  layout := hlayout
  inTable := hsound.inUse.1
  number := hsound.number
  spread := hsound.owned.spread

/-- Writing to a sector of the directory leaves its inode where it is. -/
theorem OnDisk.writeDisk (hdir : fs.OnDisk owner) (hstored : fs.ino2inode owner = inode) {i : Fin 9}
    (hne : inode.sectors i ≠ 0) (buf : ByteArea) :
    (fs.writeDisk (inode.sectors i) buf).OnDisk owner ∧
      (fs.writeDisk (inode.sectors i) buf).ino2inode owner = inode := by
  subst hstored
  have hsector := (hdir.spread.low i hne).ne_inodeSector hdir.layout hdir.inTable
  have hsame : (fs.writeDisk ((fs.ino2inode owner).sectors i) buf).ino2inode owner =
      fs.ino2inode owner := ino2inode_congr rfl (writeDisk_disk_of_ne hsector.symm)
  refine ⟨⟨hdir.layout.congr rfl rfl, hdir.inTable, ?_, ?_⟩, hsame⟩
  · rw [hsame]
    exact hdir.number
  · rw [hsame]
    exact ⟨hdir.spread.low, hdir.spread.high, hdir.spread.injective⟩

theorem OnDisk.removeInSector (hdir : fs.OnDisk owner) (hstored : fs.ino2inode owner = inode)
    (hname : IsName name) {i : Fin 9} (hne : inode.sectors i ≠ 0) (isFound : Bool) :
    (fs.removeInSector (inode.sectors i) name isFound).fs.OnDisk owner ∧
      (fs.removeInSector (inode.sectors i) name isFound).fs.ino2inode owner = inode := by
  rw [(fs.removeInSector_scanned (inode.sectors i) hname isFound).disk]
  exact hdir.writeDisk hstored hne _

/-- At most one slot has the name. -/
def UniqueName (fs : Server) (inode : Inode) (name : List Byte) : Prop :=
  ∀ a ∈ dirSlots, ∀ b ∈ dirSlots, ∀ entry entry', fs.entryAt inode a = some entry →
    fs.entryAt inode b = some entry' → entry.name = name → entry'.name = name → a = b

/-- The loop over one sector of the directory. -/
theorem removeInSector_entryAt (hspread : fs.Spread inode) (hname : IsName name) {i : Fin 9}
    (hne : inode.sectors i ≠ 0) {slot : Fin 9 × Nat} (hslot : slot ∈ dirSlots) :
    (fs.removeInSector (inode.sectors i) name isFound).fs.entryAt inode slot =
      if slot.1 = i then Entry.without name (fs.entryAt inode slot) else fs.entryAt inode slot := by
  have hscanned := fs.removeInSector_scanned (inode.sectors i) hname isFound
  generalize fs.removeInSector (inode.sectors i) name isFound = scan at hscanned ⊢
  obtain ⟨i', j⟩ := slot
  rw [mem_dirSlots] at hslot
  rw [hscanned.disk]
  simp only [entryAt]
  by_cases hzero : inode.sectors i' = 0
  · have hi : i' ≠ i := fun h => hne (h ▸ hzero)
    rw [if_pos hzero, if_pos hzero, if_neg hi]
  · rw [if_neg hzero, if_neg hzero]
    by_cases hi : i' = i
    · rw [if_pos hi, hi, writeDisk_disk_self, hscanned.entries j, if_pos hslot]
    · have hsector : inode.sectors i' ≠ inode.sectors i :=
        fun h => hi (hspread.injective i' i hzero h)
      rw [if_neg hi, writeDisk_disk_of_ne hsector]

/-- Once the name was found, the other sectors do not have it. -/
theorem removeInSector_elsewhere (hname : IsName name) (hunique : fs.UniqueName inode name)
    {i : Fin 9} (hne : inode.sectors i ≠ 0)
    (hfound : (fs.removeInSector (inode.sectors i) name isFound).isFound = true)
    {slot : Fin 9 × Nat} (hslot : slot ∈ dirSlots) (hother : slot.1 ≠ i)
    (hbefore : isFound = true → ∀ entry, fs.entryAt inode slot = some entry → entry.name ≠ name) :
    ∀ entry, fs.entryAt inode slot = some entry → entry.name ≠ name := by
  have hscanned := fs.removeInSector_scanned (inode.sectors i) hname isFound
  rcases hscanned.found.mp hfound with hearlier | ⟨j, hj, entry', hentry', heq'⟩
  · exact hbefore hearlier
  · intro entry hentry heq
    have hhere : fs.entryAt inode (i, j) = some entry' := by rw [entryAt, if_neg hne, hentry']
    have hsame := hunique slot hslot (i, j) (mem_dirSlots.mpr hj) entry entry' hentry hhere heq heq'
    exact hother (congrArg Prod.fst hsame)

/-! ### A sector that is given back -/

/-- The end of `remove_dir_entry` at a sector that is empty. -/
def releaseSector (fs : Server) (inode : Inode) (i : Fin 9) : Server :=
  ((fs.freeBlock (fs.blockOf (inode.sectors i))).syncBlockBitmap).syncInode (inode.setSector i 0)

/-- The directory no longer has the sector. -/
theorem OnDisk.release_sectors (hdir : fs.OnDisk owner) (hstored : fs.ino2inode owner = inode)
    (i k : Fin 9) : ((fs.releaseSector inode i).ino2inode owner).sectors k =
      if k = i then 0 else inode.sectors k := by
  have hself := ino2inode_syncInode_self
    ((fs.freeBlock (fs.blockOf (inode.sectors i))).syncBlockBitmap) (inode.setSector i 0)
  have hnumber : (inode.setSector i 0).inodeNo = owner := by
    rw [← hdir.number, hstored]
    rfl
  rw [hnumber] at hself
  have hfits : inode.sectors k % 256 ^ 4 = inode.sectors k := by
    have hloaded := fs.ino2inode_truncate owner
    rw [hstored] at hloaded
    exact congrFun (congrArg Inode.sectors hloaded) k
  rw [releaseSector, hself]
  change (inode.setSector i 0).sectors k % 256 ^ 4 = _
  rw [setSector_sectors]
  split
  next => rfl
  next => exact hfits

/-- The data sectors are as they were. -/
theorem OnDisk.release_disk (hdir : fs.OnDisk owner) (hstored : fs.ino2inode owner = inode)
    (i : Fin 9) {lba : Nat} (hdata : fs.IsDataSector lba) :
    (fs.releaseSector inode i).disk lba = fs.disk lba := by
  have hnumber : (inode.setSector i 0).inodeNo = owner := by
    rw [← hdir.number, hstored]
    rfl
  have hsector : lba ≠ (fs.freeBlock (fs.blockOf (inode.sectors i))).syncBlockBitmap.inodeSector
      (inode.setSector i 0).inodeNo := by
    rw [hnumber]
    exact hdata.ne_inodeSector hdir.layout hdir.inTable
  have hlayout : (fs.freeBlock (fs.blockOf (inode.sectors i))).Layout := hdir.layout.congr rfl rfl
  rw [releaseSector, syncInode_disk_of_ne hsector, syncBlockBitmap_disk hlayout]
  · rfl
  · exact hdata.table_le hdir.layout

/-- A sector that is given back takes its slots along. -/
theorem OnDisk.release_entryAt (hdir : fs.OnDisk owner) (hstored : fs.ino2inode owner = inode)
    (i : Fin 9) (slot : Fin 9 × Nat) :
    (fs.releaseSector inode i).entryAt ((fs.releaseSector inode i).ino2inode owner) slot =
      if slot.1 = i then none else fs.entryAt inode slot := by
  simp only [entryAt, hdir.release_sectors hstored]
  by_cases hi : slot.1 = i
  · rw [if_pos hi, if_pos rfl, if_pos hi]
  · rw [if_neg hi, if_neg hi]
    by_cases hzero : inode.sectors slot.1 = 0
    · rw [if_pos hzero, if_pos hzero]
    · rw [if_neg hzero, if_neg hzero, hdir.release_disk hstored]
      subst hstored
      exact hdir.spread.low slot.1 hzero

/-- The loop over the sectors frees the slots with the name. -/
theorem removeFrom_entryAt {indices : List (Fin 9)} (hname : IsName name) (hdir : fs.OnDisk owner)
    (hstored : fs.ino2inode owner = inode) (hnodup : indices.Nodup)
    (hunique : fs.UniqueName inode name)
    (hfound : isFound = true → ∀ slot ∈ dirSlots, slot.1 ∈ indices →
      ∀ entry, fs.entryAt inode slot = some entry → entry.name ≠ name)
    {slot : Fin 9 × Nat} (hslot : slot ∈ dirSlots) :
    (removeFrom inode name indices isFound fs).entryAt
        ((removeFrom inode name indices isFound fs).ino2inode owner) slot =
      if slot.1 ∈ indices then Entry.without name (fs.entryAt inode slot)
      else fs.entryAt inode slot := by
  induction indices generalizing isFound fs with
  | nil =>
      rw [removeFrom, hstored, if_neg List.not_mem_nil]
  | cons i rest ih =>
      obtain ⟨hnot, hnodup⟩ := List.nodup_cons.mp hnodup
      unfold removeFrom
      split
      next hzero =>
        rw [ih hdir hstored hnodup hunique fun h slot hslot hmem =>
          hfound h slot hslot (List.mem_cons_of_mem i hmem)]
        by_cases hi : slot.1 = i
        · -- the sector has no slots
          have hnone : fs.entryAt inode slot = none := by rw [entryAt, hi, if_pos hzero]
          rw [hnone]
          simp [Entry.without]
        · simp only [List.mem_cons, hi, false_or]
      next hne =>
        have hspread : fs.Spread inode := hstored ▸ hdir.spread
        have hentry : ∀ {other}, other ∈ dirSlots →
            (fs.removeInSector (inode.sectors i) name isFound).fs.entryAt inode other =
              if other.1 = i then Entry.without name (fs.entryAt inode other)
              else fs.entryAt inode other :=
          fun hother => removeInSector_entryAt hspread hname hne hother
        have helsewhere : ∀ {other}, (fs.removeInSector (inode.sectors i) name isFound).isFound = true →
            other ∈ dirSlots → other.1 ∈ rest →
            ∀ entry, fs.entryAt inode other = some entry → entry.name ≠ name := by
          intro other hscan hother hmem
          refine removeInSector_elsewhere hname hunique hne hscan hother
            (fun h => hnot (h ▸ hmem)) fun h => ?_
          exact hfound h other hother (List.mem_cons_of_mem i hmem)
        obtain ⟨hscan, hsame⟩ := hdir.removeInSector hstored hname hne isFound
        have hcounted := (fs.removeInSector_scanned (inode.sectors i) hname isFound).counted
        generalize fs.removeInSector (inode.sectors i) name isFound = scan at *
        dsimp only
        split
        next hempty =>
          refine (hscan.release_entryAt hsame i slot).trans ?_
          split
          next hi =>
            -- all slots of the sector are free now
            obtain ⟨i', j⟩ := slot
            dsimp only at hi
            subst hi
            rw [if_pos List.mem_cons_self, entryAt, if_neg hne,
              hcounted.2.mp hempty.2 j (mem_dirSlots.mp hslot)]
          next hi =>
            rw [hentry hslot, if_neg hi]
            split
            next hmem =>
              rw [Entry.without_of_ne (helsewhere hempty.1 hslot (List.mem_of_ne_of_mem hi hmem))]
            next => rfl
        next =>
          have hkept : ∀ {other entry}, other ∈ dirSlots →
              scan.fs.entryAt inode other = some entry → fs.entryAt inode other = some entry := by
            intro other entry hother hsome
            rw [hentry hother] at hsome
            split at hsome
            next => exact (Option.filter_eq_some_iff.mp hsome).1
            next => exact hsome
          have hunique' : scan.fs.UniqueName inode name :=
            fun a ha b hb entry entry' hentryA hentryB =>
              hunique a ha b hb entry entry' (hkept ha hentryA) (hkept hb hentryB)
          rw [ih hscan hsame hnodup hunique' fun h other hother hmem entry hsome =>
            helsewhere h hother hmem entry (hkept hother hsome), hentry hslot]
          by_cases hi : slot.1 = i
          · rw [hi, if_neg hnot, if_pos rfl, if_pos List.mem_cons_self]
          · simp only [List.mem_cons, hi, if_false, false_or]

/-- A directory has given a sector back that holds no entry. -/
def GivesBack (fs fs' : Server) (owner : Nat) (inode : Inode) (i : Fin 9) : Prop :=
  inode.sectors i ≠ 0 ∧
    fs'.blockBmap = fs.blockBmap.setBit (inode.sectors i - fs.sb.dataStart) false ∧
    (∀ j < DirEntry.perSector, entryIn (fs'.disk (inode.sectors i)) j = none) ∧
    ∀ k, (fs'.ino2inode owner).sectors k ≠ inode.sectors i

/-- The loop over the sectors gives back at most one. -/
theorem removeFrom_givesBack {indices : List (Fin 9)} (hname : IsName name) (hdir : fs.OnDisk owner)
    (hstored : fs.ino2inode owner = inode) :
    (removeFrom inode name indices isFound fs).blockBmap = fs.blockBmap ∨
      ∃ i, GivesBack fs (removeFrom inode name indices isFound fs) owner inode i := by
  induction indices generalizing isFound fs with
  | nil => exact .inl rfl
  | cons i rest ih =>
      unfold removeFrom
      split
      next => exact ih hdir hstored
      next hne =>
        obtain ⟨hscan, hsame⟩ := hdir.removeInSector hstored hname hne isFound
        have hscanned := fs.removeInSector_scanned (inode.sectors i) hname isFound
        generalize fs.removeInSector (inode.sectors i) name isFound = scan at *
        have hbmap : scan.fs.blockBmap = fs.blockBmap := by rw [hscanned.disk]; rfl
        have hsb : scan.fs.sb = fs.sb := by rw [hscanned.disk]; rfl
        dsimp only
        split
        next hempty =>
          have hspread : scan.fs.Spread inode := hsame ▸ hscan.spread
          right
          refine ⟨i, hne, ?_, ?_, ?_⟩
          · have hblock := blockOf_eq hscan.layout (hspread.low i hne) (hspread.high i hne)
            change scan.fs.blockBmap.setBit (scan.fs.blockOf (inode.sectors i)) false = _
            rw [hblock, hbmap, hsb]
          · intro j hj
            have hdisk := hscan.release_disk hsame i (hspread.low i hne)
            change entryIn ((scan.fs.releaseSector inode i).disk (inode.sectors i)) j = none
            rw [hdisk, hscanned.disk, writeDisk_disk_self, hscanned.entries j, if_pos hj]
            exact hscanned.counted.2.mp hempty.2 j hj
          · intro k
            change ((scan.fs.releaseSector inode i).ino2inode owner).sectors k ≠ _
            rw [hscan.release_sectors hsame i k]
            split
            next => exact Ne.symm hne
            next hk => exact fun heq => hk (hspread.injective i k hne heq.symm).symm
        next =>
          have hrest := @ih scan.fs scan.isFound hscan hsame
          simpa only [GivesBack, hbmap, hsb] using hrest

/-- The slot with the name is free afterwards, and no other entry has changed. -/
theorem OnDisk.removeDirEntry_entryAt (hdir : fs.OnDisk owner) (hname : IsName name)
    (hunique : fs.UniqueName (fs.ino2inode owner) name) {slot : Fin 9 × Nat}
    (hslot : slot ∈ dirSlots) :
    (fs.removeDirEntry (fs.ino2inode owner) name).entryAt
        ((fs.removeDirEntry (fs.ino2inode owner) name).ino2inode owner) slot =
      Entry.without name (fs.entryAt (fs.ino2inode owner) slot) := by
  rw [removeDirEntry, removeFrom_entryAt hname hdir rfl (List.nodup_finRange 9) hunique
    (fun h => by cases h) hslot, if_pos (List.mem_finRange slot.1)]

/-- Other names are found as before, and this one no longer. -/
theorem OnDisk.removeDirEntry_findDirEntry (hdir : fs.OnDisk owner) (hname : IsName name)
    (hunique : fs.UniqueName (fs.ino2inode owner) name) {child : List Byte}
    (hlen : child.length < 64) (hnul : 0 ∉ child) :
    (fs.removeDirEntry (fs.ino2inode owner) name).findDirEntry
        ((fs.removeDirEntry (fs.ino2inode owner) name).ino2inode owner) child =
      if child = name then minusOne else fs.findDirEntry (fs.ino2inode owner) child := by
  rw [findDirEntry_eq _ _ hlen hnul, findDirEntry_eq _ _ hlen hnul]
  have hlookup : dirSlots.findSome? ((fs.removeDirEntry (fs.ino2inode owner) name).lookupAt
      ((fs.removeDirEntry (fs.ino2inode owner) name).ino2inode owner) child) =
      dirSlots.findSome? fun slot =>
        if child = name then none else fs.lookupAt (fs.ino2inode owner) child slot := by
    refine findSome?_congr fun slot hslot => ?_
    rw [lookupAt, hdir.removeDirEntry_entryAt hname hunique hslot, lookupAt]
    cases hentry : fs.entryAt (fs.ino2inode owner) slot with
    | none => simp [Entry.without]
    | some entry =>
        by_cases heq : entry.name = name
        · rw [Entry.without_of_eq heq]
          split
          next => rfl
          next hne =>
            rw [Option.bind_some, Entry.matching, if_neg fun h => hne (h.symm.trans heq)]
            rfl
        · rw [Entry.without_of_ne (by rintro e ⟨⟩; exact heq), Option.bind_some, Entry.matching]
          split
          next hchild =>
            rw [if_neg fun h => heq (hchild.trans h)]
          next => rw [ite_self]
  rw [hlookup]
  split
  next =>
    rw [List.findSome?_eq_none_iff.mpr fun _ _ => rfl]
    rfl
  next => rfl

end Server

end Shmily.Fs
