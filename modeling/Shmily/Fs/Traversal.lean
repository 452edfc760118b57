import Shmily.Fs.Boot
import Shmily.Fs.Components

/-! # What is traversed

An entry records whether it is that of a directory or of a file, but resolution never
looks at this: the sectors of a file are searched for a name like those of a directory.
The traversed inodes are directories exactly as long as no file holds such a name.
-/

namespace Shmily.Fs

open Foundation Lib

/-- A component that fits into the 64 bytes it is copied to. -/
structure FitsComponent (name : List Byte) : Prop extends IsComponent name where
  length : name.length < 64

namespace Server

/-- The entry that a lookup finds. -/
def entryFor (fs : Server) (dir : Nat) (name : List Byte) : Option Entry :=
  dirSlots.findSome? fun slot => (fs.entryAt (fs.ino2inode dir) slot).filter (·.name = name)

/-- Every proper prefix of a path that resolves is found by an entry of a directory. -/
def OnlyDirectories (fs : Server) : Prop :=
  ∀ path : CString, componentsFit path.chars → fs.dirIsExists path.chars ≠ minusOne →
    ∀ front name rest, components path.chars = front ++ name :: rest → rest ≠ [] →
      ∃ entry, fs.entryFor (front.foldl fs.lookup fs.sb.rootInodeNo) name = some entry ∧
        entry.type = DirEntryType.dir.code

/-- What resolution reaches from the root by entries of directories. -/
inductive Reached (fs : Server) : Nat → Prop
  | root : Reached fs fs.sb.rootInodeNo
  | entry {dir : Nat} {name : List Byte} {entry : Entry} :
      Reached fs dir → FitsComponent name → fs.entryFor dir name = some entry →
      entry.type = DirEntryType.dir.code → entry.inodeNo ≠ minusOne → Reached fs entry.inodeNo

/-- No other entry in what is reached names an inode in which a name is found. -/
def FilesNameless (fs : Server) : Prop :=
  ∀ dir name entry, fs.Reached dir → FitsComponent name → fs.entryFor dir name = some entry →
    entry.type ≠ DirEntryType.dir.code → entry.inodeNo ≠ minusOne →
    ∀ child, FitsComponent child → fs.find entry.inodeNo child = minusOne

end Server

section Strings

variable {name path : List Byte}

theorem isComponent_of_mem (hnul : 0 ∉ path) (hmem : name ∈ components path) : IsComponent name := by
  induction hlen : path.length using Nat.strong_induction_on generalizing path with
  | _ n ih =>
      subst hlen
      rcases path_cases path with hslash | ⟨rest, rfl⟩ | ⟨first, rest, rfl, hfirst, hslash⟩
      · by_cases hnil : path = []
        · subst hnil
          exact absurd hmem List.not_mem_nil
        · rw [components_last hnil hslash, List.mem_singleton] at hmem
          subst hmem
          exact ⟨hnil, hslash, hnul⟩
      · rw [components_slash] at hmem
        rw [List.mem_cons, not_or] at hnul
        exact ih _ (by simp) hnul.2 hmem rfl
      · rw [components_step hfirst hslash] at hmem
        rw [List.mem_append, List.mem_cons, not_or, not_or] at hnul
        rcases List.mem_cons.mp hmem with rfl | hrest
        · exact ⟨hfirst, hslash, hnul.1⟩
        · refine ih _ ?_ hnul.2.2 hrest rfl
          rw [List.length_append, List.length_cons]
          omega

theorem fitsComponent_of_mem (path : CString) (hfits : componentsFit path.chars)
    (hmem : name ∈ components path.chars) : FitsComponent name := by
  refine ⟨isComponent_of_mem path.nulFree hmem, ?_⟩
  rw [componentsFit, List.all_eq_true] at hfits
  exact of_decide_eq_true (hfits name (List.mem_of_mem_filter hmem))

/-- The path of components that fit. -/
def componentPath (names : List (List Byte)) (hnames : ∀ name ∈ names, FitsComponent name) :
    CString where
  chars := joinPath names
  nulFree := by
    rw [joinPath, List.mem_flatMap]
    rintro ⟨name, hmem, hnul⟩
    rcases List.mem_cons.mp hnul with hslash | hnul
    · exact absurd hslash (by decide)
    · exact (hnames name hmem).nulFree hnul

theorem componentsFit_joinPath {names : List (List Byte)}
    (hnames : ∀ name ∈ names, FitsComponent name) : componentsFit (joinPath names) = true := by
  rw [componentsFit, splitOn_joinPath fun name hname => (hnames name hname).slashFree,
    List.all_eq_true]
  intro name hmem
  rcases List.mem_cons.mp hmem with rfl | hmem
  · rfl
  · exact decide_eq_true (hnames name hmem).length

end Strings

namespace Server

variable {fs : Server} {dir : Nat} {name : List Byte} {names : List (List Byte)}

/-- What a lookup finds is the number in the entry. -/
theorem find_eq_entryFor (fs : Server) (dir : Nat) (hname : FitsComponent name) :
    fs.find dir name = ((fs.entryFor dir name).map Entry.inodeNo).getD minusOne := by
  rw [find, findDirEntry_eq _ _ hname.length hname.nulFree, entryFor, List.map_findSome?]
  congr 2
  funext slot
  rw [lookupAt, Function.comp_apply]
  cases fs.entryAt (fs.ino2inode dir) slot with
  | none => rfl
  | some entry =>
      rw [Option.bind_some, Entry.matching, Option.filter_some]
      split
      next heq => rw [if_pos (decide_eq_true heq), Option.map_some]
      next hne => rw [if_neg (by simpa using hne), Option.map_none]

/-- A name is found by an entry with a number. -/
theorem find_ne_minusOne_iff (hname : FitsComponent name) :
    fs.find dir name ≠ minusOne ↔ ∃ entry, fs.entryFor dir name = some entry ∧
      entry.inodeNo ≠ minusOne ∧ fs.find dir name = entry.inodeNo := by
  rw [find_eq_entryFor fs dir hname]
  cases fs.entryFor dir name with
  | none => simp
  | some entry => simp

/-- A path of entries with numbers is followed from what is reached. -/
theorem Reached.exists_names (hreached : fs.Reached dir) (hroot : fs.sb.rootInodeNo ≠ minusOne) :
    dir ≠ minusOne ∧ ∃ names : List (List Byte), (∀ name ∈ names, FitsComponent name) ∧
      names.foldl fs.lookup fs.sb.rootInodeNo = dir := by
  induction hreached with
  | root => exact ⟨hroot, [], List.forall_mem_nil _, rfl⟩
  | @entry dir name entry _ hname hentry _ hino ih =>
      obtain ⟨hdir, names, hnames, hfold⟩ := ih
      refine ⟨hino, names ++ [name], ?_, ?_⟩
      · intro other hother
        rcases List.mem_append.mp hother with hother | hother
        · exact hnames other hother
        · rw [List.mem_singleton.mp hother]
          exact hname
      · rw [List.foldl_concat, hfold, lookup, if_neg hdir, find_eq_entryFor fs dir hname, hentry]
        rfl

/-- Where no file holds a name, all but the last component lead to directories. -/
theorem FilesNameless.entries (hnameless : fs.FilesNameless) (hreached : fs.Reached dir)
    (hdir : dir ≠ minusOne) (hnames : ∀ name ∈ names, FitsComponent name)
    (hfold : names.foldl fs.lookup dir ≠ minusOne) {front rest : List (List Byte)}
    (hsplit : names = front ++ name :: rest) (hrest : rest ≠ []) :
    ∃ entry, fs.entryFor (front.foldl fs.lookup dir) name = some entry ∧
      entry.type = DirEntryType.dir.code := by
  induction names generalizing dir front with
  | nil => simp at hsplit
  | cons first names ih =>
      have hfirst := hnames first List.mem_cons_self
      have hothers := fun other hother => hnames other (List.mem_cons_of_mem first hother)
      have hstep : fs.lookup dir first = fs.find dir first := if_neg hdir
      rw [List.foldl_cons] at hfold
      have hfound : fs.find dir first ≠ minusOne := by
        intro hmissing
        rw [hstep, hmissing, foldl_lookup_minusOne] at hfold
        exact hfold rfl
      obtain ⟨entry, hentry, hino, hnumber⟩ := (find_ne_minusOne_iff hfirst).mp hfound
      obtain ⟨next, others, rfl⟩ : ∃ next others, names = next :: others := by
        apply List.exists_cons_of_ne_nil
        rintro rfl
        cases front <;> simp_all
      have htype : entry.type = DirEntryType.dir.code := by
        by_contra hother
        have hnext := hnameless dir first entry hreached hfirst hentry hother hino next
          (hothers next List.mem_cons_self)
        rw [List.foldl_cons, hstep, hnumber, lookup, if_neg hino, hnext, foldl_lookup_minusOne] at hfold
        exact hfold rfl
      cases front with
      | nil =>
          rw [List.nil_append, List.cons.injEq] at hsplit
          exact ⟨entry, hsplit.1 ▸ hentry, htype⟩
      | cons _ front =>
          rw [List.cons_append, List.cons.injEq] at hsplit
          obtain ⟨rfl, hsplit⟩ := hsplit
          rw [List.foldl_cons]
          rw [hstep, hnumber] at hfold ⊢
          exact ih (.entry hreached hfirst hentry htype hino) hino hothers hfold hsplit

/-- Only directories are traversed if and only if no name is found in what an entry of
another type names. -/
theorem onlyDirectories_iff (hroot : fs.sb.rootInodeNo = 0) :
    fs.OnlyDirectories ↔ fs.FilesNameless := by
  have hroot' : fs.sb.rootInodeNo ≠ minusOne := by
    rw [hroot]
    decide
  constructor
  · intro honly dir name entry hreached hname hentry htype hino child hchild
    by_contra hfound
    obtain ⟨hdir, names, hnames, hfold⟩ := hreached.exists_names hroot'
    -- the path through the entry
    have hall : ∀ other ∈ names ++ name :: [child], FitsComponent other := by
      intro other hother
      simp only [List.mem_append, List.mem_cons, List.not_mem_nil, or_false] at hother
      rcases hother with hother | rfl | rfl
      · exact hnames other hother
      · exact hname
      · exact hchild
    have hcomponents : ∀ other ∈ names ++ name :: [child], IsComponent other :=
      fun other hother => (hall other hother).toIsComponent
    have hresolved : fs.dirIsExists (joinPath (names ++ name :: [child])) = fs.find entry.inodeNo child := by
      rw [dirIsExists_joinPath hroot (by simp) hcomponents, List.foldl_append, hfold, List.foldl_cons,
        List.foldl_cons, List.foldl_nil, lookup, lookup, if_neg hdir, find_eq_entryFor fs dir hname,
        hentry]
      exact if_neg hino
    obtain ⟨_, hentry', htype'⟩ := honly (componentPath _ hall) (componentsFit_joinPath hall)
      (hresolved ▸ hfound) names name [child] (components_joinPath hcomponents) (List.cons_ne_nil _ _)
    rw [hfold, hentry] at hentry'
    obtain rfl := Option.some.inj hentry'
    exact htype htype'
  · intro hnameless path hfits hfound front name rest hsplit hrest
    have hnames : ∀ name ∈ components path.chars, FitsComponent name :=
      fun _ hmem => fitsComponent_of_mem path hfits hmem
    refine hnameless.entries .root hroot' hnames ?_ hsplit hrest
    rw [dirIsExists] at hfound
    split at hfound
    next => exact absurd rfl hfound
    next hhead =>
      obtain ⟨chars, hchars⟩ := List.head?_eq_some_iff.mp (not_not.mp hhead)
      split at hfound
      next htail =>
        -- the root has no components
        have hnone : components [slash] = [] := by decide
        rw [hchars, List.tail_cons] at htail
        rw [hchars, htail, hnone] at hsplit
        exact absurd hsplit.symm (by simp)
      next =>
        rw [walk_eq hroot' (Nat.lt_succ_self _)] at hfound
        split at hfound
        next => exact absurd rfl hfound
        next => exact hfound

theorem onlyDirectories_tree : treeServer.OnlyDirectories ↔ treeServer.FilesNameless :=
  onlyDirectories_iff rfl

/-- The states that requests lead to from a partition that was just formatted. -/
def Reachable (fs : Server) : Prop :=
  ∃ (part : Partition) (heap : ByteArea) (disk : Nat → ByteArea) (reqs : List Request),
    part.SubtractionsFit ∧
      Run step (fun _ _ => True) (part.mount ((part.installFs heap).foldl DiskWrite.apply disk)) reqs fs

/-- The text of the file `a` is read as an entry. -/
theorem file_is_traversed : ¬ ∀ fs, Reachable fs → fs.OnlyDirectories := by
  intro hall
  have hseen : (exec step (fun _ _ => True)
      (Partition.largePartition.mount ((Partition.largePartition.installFs ByteArea.zeros).foldl
        DiskWrite.apply fun _ => ByteArea.zeros))
      [.mkfile pathA, .openFile pathA, .writeFile 0 (repeatedText 1) 1 0]).map (fun fs =>
        (fs.sb.rootInodeNo, fs.dirIsExists [0x2f, 0x61, 0x2f, 0x61],
          (fs.entryFor 0 [0x61]).map Entry.type)) = some (0, 0, some 1) := by
    decide +kernel
  obtain ⟨fs, hexec, hvalues⟩ := Option.map_eq_some_iff.mp hseen
  rw [Prod.mk.injEq, Prod.mk.injEq] at hvalues
  obtain ⟨hroot, hfound, htype⟩ := hvalues
  have hreachable : Reachable fs :=
    ⟨Partition.largePartition, ByteArea.zeros, fun _ => ByteArea.zeros, _, by decide,
      Run.of_exec step (fun _ _ => True) _ _ hexec⟩
  obtain ⟨entry, hentry, hdir⟩ := hall fs hreachable ⟨[0x2f, 0x61, 0x2f, 0x61], by decide⟩ (by decide)
    (by rw [hfound]; decide) [] [0x61] [[0x61]] (by decide) (List.cons_ne_nil _ _)
  rw [List.foldl_nil, hroot] at hentry
  rw [hentry, Option.map_some, hdir] at htype
  exact absurd htype (by decide)

end Server

end Shmily.Fs
