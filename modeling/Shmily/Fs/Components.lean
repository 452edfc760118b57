import Shmily.Fs.AccessControl

/-! # The components of a path

Resolution goes through the characters of a path; what it computes is the left fold of
the lookups over the components. Splitting a path at its last slash gives the path of
the components but the last one, and this one.
-/

namespace Shmily.Fs

open Foundation Lib
open Server (treeServer)

/-- The path of the components, each behind its slash. -/
def joinPath (components : List (List Byte)) : List Byte := components.flatMap (slash :: ·)

/-- What stands between the slashes of a path, where it is not empty. -/
def components (path : List Byte) : List (List Byte) := (path.splitOn slash).filter (· ≠ [])

/-- A component of a path. -/
structure IsComponent (name : List Byte) : Prop where
  nonempty : name ≠ []
  slashFree : slash ∉ name
  nulFree : 0 ∉ name

/-- A path `/c1/.../cn` that fits into 64 bytes with its NUL. -/
structure AbsolutePath where
  components : List (List Byte)
  nonempty : components ≠ []
  isComponent : ∀ name ∈ components, IsComponent name
  length : (joinPath components).length < 64

namespace AbsolutePath

def chars (path : AbsolutePath) : List Byte := joinPath path.components

/-- The path without its last component; `/` when there is only one. -/
def parent (path : AbsolutePath) : List Byte :=
  if path.components.dropLast = [] then [slash] else joinPath path.components.dropLast

/-- The last component. -/
def name (path : AbsolutePath) : List Byte := path.components.getLast path.nonempty

end AbsolutePath

/-- A lookup that keeps the result `-1`. -/
def Server.lookup (fs : Server) (ino : Nat) (name : List Byte) : Nat :=
  if ino = minusOne then minusOne else fs.find ino name

section Strings

variable {name rest path : List Byte} {names : List (List Byte)}

theorem splitOn_slash : (slash :: rest).splitOn slash = [] :: rest.splitOn slash :=
  List.splitOn_append_cons_self_of_not_mem List.not_mem_nil rest

theorem components_slash : components (slash :: rest) = components rest := by
  rw [components, splitOn_slash, List.filter_cons_of_neg (by simp)]
  rfl

theorem components_last (hne : name ≠ []) (hslash : slash ∉ name) : components name = [name] := by
  rw [components, List.splitOn_eq_singleton hslash, List.filter_cons_of_pos (by simpa using hne)]
  rfl

theorem components_step (hne : name ≠ []) (hslash : slash ∉ name) :
    components (name ++ slash :: rest) = name :: components rest := by
  rw [components, List.splitOn_append_cons_self_of_not_mem hslash,
    List.filter_cons_of_pos (by simpa using hne)]
  rfl

/-- A path has no slash, starts with one, or starts with a component and a slash. -/
theorem path_cases (path : List Byte) :
    slash ∉ path ∨ (∃ rest, path = slash :: rest) ∨
      ∃ name rest, path = name ++ slash :: rest ∧ name ≠ [] ∧ slash ∉ name := by
  by_cases hmem : slash ∈ path
  · obtain ⟨name, rest, hpath, hslash⟩ := List.eq_append_cons_of_mem hmem
    by_cases hname : name = []
    · subst hname
      exact .inr (.inl ⟨rest, hpath⟩)
    · exact .inr (.inr ⟨name, rest, hpath, hname, hslash⟩)
  · exact .inl hmem

/-- Behind a slash the path ends, or ends as its rest does. -/
theorem getLast?_slash :
    (slash :: rest).getLast? = some slash ↔ rest = [] ∨ rest.getLast? = some slash := by
  cases rest with
  | nil => exact iff_of_true rfl (.inl rfl)
  | cons c rest => simp [List.getLast?_cons_cons]

theorem joinPath_cons : joinPath (name :: names) = slash :: (name ++ joinPath names) := rfl

/-- The path of components is split into them, behind what is before the first slash. -/
theorem splitOn_joinPath (hslash : ∀ name ∈ names, slash ∉ name) :
    (joinPath names).splitOn slash = [] :: names := by
  induction names with
  | nil => rfl
  | cons name names ih =>
      have hname := hslash name List.mem_cons_self
      have hrest := ih fun other hother => hslash other (List.mem_cons_of_mem name hother)
      rw [joinPath_cons, splitOn_slash]
      cases names with
      | nil => rw [joinPath, List.flatMap_nil, List.append_nil, List.splitOn_eq_singleton hname]
      | cons next names =>
          rw [joinPath_cons, splitOn_slash, List.cons.injEq] at hrest
          rw [joinPath_cons, List.splitOn_append_cons_self_of_not_mem hname, hrest.2]

theorem components_joinPath (hnames : ∀ name ∈ names, IsComponent name) :
    components (joinPath names) = names := by
  rw [components, splitOn_joinPath fun name hname => (hnames name hname).slashFree,
    List.filter_cons_of_neg (by simp), List.filter_eq_self]
  intro name hname
  simpa using (hnames name hname).nonempty

/-- A path of components does not end with a slash. -/
theorem getLast?_joinPath (hnames : ∀ name ∈ names, IsComponent name) :
    (joinPath names).getLast? ≠ some slash := by
  rcases List.eq_nil_or_concat names with rfl | ⟨front, name, rfl⟩
  · simp [joinPath]
  · have hname := hnames name (by simp)
    intro hlast
    rw [List.concat_eq_append, joinPath, List.flatMap_append, List.flatMap_singleton,
      List.getLast?_append_of_ne_nil _ (List.cons_ne_nil slash name),
      List.getLast?_cons, List.getLast?_eq_some_getLast hname.nonempty, Option.getD_some,
      Option.some.injEq] at hlast
    exact hname.slashFree (hlast ▸ List.getLast_mem hname.nonempty)

theorem joinPath_concat (front : List (List Byte)) (name : List Byte) :
    joinPath (front ++ [name]) = joinPath front ++ slash :: name := by
  rw [joinPath, List.flatMap_append, List.flatMap_singleton, joinPath]

/-- The last slash of a path is at one place. -/
theorem lastSlash_unique {front other : List Byte} (hslash : slash ∉ name) (hslash' : slash ∉ rest)
    (heq : front ++ slash :: name = other ++ slash :: rest) : front = other ∧ name = rest := by
  rcases List.append_eq_append_iff.mp heq with ⟨mid, rfl, hmid⟩ | ⟨mid, rfl, hmid⟩
  · cases mid with
    | nil => exact ⟨(List.append_nil _).symm, (List.cons.inj hmid).2⟩
    | cons c mid =>
        rw [List.cons_append, List.cons.injEq] at hmid
        exact absurd (hmid.2 ▸ List.mem_append_right mid List.mem_cons_self) hslash
  · cases mid with
    | nil => exact ⟨List.append_nil _, (List.cons.inj hmid).2.symm⟩
    | cons c mid =>
        rw [List.cons_append, List.cons.injEq] at hmid
        exact absurd (hmid.2 ▸ List.mem_append_right mid List.mem_cons_self) hslash'

theorem splitPath2parts_single (hslash : slash ∉ name) :
    splitPath2parts (slash :: name) = some ([slash], name) := by
  have hcount : (slash :: name).count slash = 1 := by
    rw [List.count_cons_self, List.count_eq_zero.mpr hslash]
  rw [splitPath2parts, if_pos List.head?_cons, hcount]
  simp [copyThrough]

/-- A path of components is split before the last of them. -/
theorem splitPath2parts_joinPath {front : List (List Byte)}
    (hfront : ∀ name ∈ front, IsComponent name) (hslash : slash ∉ name) :
    splitPath2parts (joinPath (front ++ [name])) =
      some (if front = [] then [slash] else joinPath front, name) := by
  by_cases hnil : front = []
  · subst hnil
    rw [if_pos rfl, List.nil_append, joinPath_cons, joinPath, List.flatMap_nil, List.append_nil]
    exact splitPath2parts_single hslash
  · have hhead : (joinPath (front ++ [name])).head? = some slash := by
      obtain ⟨first, others, rfl⟩ := List.exists_cons_of_ne_nil hnil
      rfl
    obtain ⟨⟨parent, last⟩, hsplit⟩ : ∃ parts, splitPath2parts (joinPath (front ++ [name])) =
        some parts := ⟨_, by rw [splitPath2parts, if_pos hhead]⟩
    obtain ⟨hlast, hshape⟩ := splitPath2parts_spec hsplit
    rw [joinPath_concat] at hshape
    rw [hsplit, if_neg hnil]
    rcases hshape with ⟨-, hpath⟩ | ⟨hpath, -⟩ | hpath
    · -- there is more than one slash
      have hempty : joinPath front = [] := (lastSlash_unique hslash hlast hpath).1
      obtain ⟨first, others, rfl⟩ := List.exists_cons_of_ne_nil hnil
      exact absurd hempty (List.cons_ne_nil _ _)
    · obtain ⟨rfl, rfl⟩ := lastSlash_unique hslash hlast hpath
      rfl
    · -- a component is not empty
      obtain ⟨hends, -⟩ := lastSlash_unique hslash hlast
        (hpath.trans (List.append_cons parent slash (slash :: last)))
      refine absurd ?_ (getLast?_joinPath hfront)
      rw [hends, List.getLast?_concat]

end Strings

namespace Server

variable {fs : Server} {ino : Nat} {path : List Byte}

/-- No entry has the empty name. -/
theorem findDirEntry_nil (fs : Server) (inode : Inode) : fs.findDirEntry inode [] = minusOne := by
  rw [findDirEntry_eq _ _ (by simp) List.not_mem_nil]
  have hnone : dirSlots.findSome? (fs.lookupAt inode []) = none := by
    rw [List.findSome?_eq_none_iff]
    intro slot _
    rw [lookupAt, Server.entryAt]
    split
    next => rfl
    next =>
      rw [entryIn]
      split
      next => rfl
      next hne =>
        rw [Option.bind_some, Entry.matching, cstringAt, if_neg hne, if_neg (List.cons_ne_nil _ _)]
  rw [hnone]
  rfl

theorem foldl_lookup_minusOne (fs : Server) (names : List (List Byte)) :
    names.foldl fs.lookup minusOne = minusOne := by
  induction names with
  | nil => rfl
  | cons name names ih => rwa [List.foldl_cons, lookup, if_pos rfl]

/-- The loop of `dir_is_exists` folds the lookups over the components; behind a slash at
the end it looks for an empty name. -/
theorem walk_eq (hino : ino ≠ minusOne) {fuel : Nat} (hfuel : path.length < fuel) :
    fs.walk fuel ino path =
      if path = [] ∨ path.getLast? = some slash then minusOne
      else (components path).foldl fs.lookup ino := by
  induction fuel generalizing ino path with
  | zero => exact absurd hfuel (Nat.not_lt_zero _)
  | succ fuel ih =>
      rcases path_cases path with hslash | ⟨rest, rfl⟩ | ⟨name, rest, rfl, hname, hslash⟩
      · by_cases hnil : path = []
        · subst hnil
          rw [walk, splitPath, if_pos (.inl rfl)]
          simp [findDirEntry_nil]
        · have hends : ¬ (path = [] ∨ path.getLast? = some slash) := by
            rw [not_or]
            exact ⟨hnil, fun hlast => hslash (List.mem_of_getLast? hlast)⟩
          have hne : path ≠ [slash] := fun h => hslash (h ▸ List.mem_singleton_self _)
          rw [walk, splitPath_last hnil hslash, if_neg hends, components_last hnil hslash,
            List.foldl_cons, List.foldl_nil, lookup, if_neg hino, find]
          simp only [hne, if_false]
          split
          next hmissing => exact hmissing.2.symm
          next => rfl
      · rw [List.length_cons, Nat.add_lt_add_iff_right] at hfuel
        rw [walk, splitPath_slash, components_slash]
        simpa [getLast?_slash] using ih hino hfuel
      · have hne : name ≠ [slash] := fun h => hslash (h ▸ List.mem_singleton_self _)
        rw [List.length_append, List.length_cons] at hfuel
        rw [walk, splitPath_step hname hslash, components_step hname hslash, List.foldl_cons, lookup,
          if_neg hino, find, List.getLast?_append_of_ne_nil _ (List.cons_ne_nil slash rest)]
        simp only [hne, if_false, ne_eq, not_false_eq_true, true_and, List.append_eq_nil_iff, hname,
          false_and, false_or, getLast?_slash]
        split
        next hmissing =>
          rw [hmissing, foldl_lookup_minusOne, ite_self]
        next hfound => exact ih hfound (by omega)

theorem dirIsExists_eq (hroot : fs.sb.rootInodeNo ≠ minusOne) {rest : List Byte} (hne : rest ≠ []) :
    fs.dirIsExists (slash :: rest) =
      if rest.getLast? = some slash then minusOne
      else (components rest).foldl fs.lookup fs.sb.rootInodeNo := by
  rw [dirIsExists, if_neg (by simp), List.tail_cons, if_neg hne,
    walk_eq hroot (Nat.lt_succ_self _), components_slash]
  simp only [List.cons_ne_nil, getLast?_slash, hne, false_or]

/-- Resolution of a path of components. -/
theorem dirIsExists_joinPath (hroot : fs.sb.rootInodeNo = 0) {names : List (List Byte)}
    (hne : names ≠ []) (hnames : ∀ name ∈ names, IsComponent name) :
    fs.dirIsExists (joinPath names) = names.foldl fs.lookup fs.sb.rootInodeNo := by
  have hends := getLast?_joinPath hnames
  have hcomponents := components_joinPath hnames
  obtain ⟨first, others, rfl⟩ := List.exists_cons_of_ne_nil hne
  have hfirst := (hnames first List.mem_cons_self).nonempty
  rw [joinPath_cons, ne_eq, getLast?_slash, not_or] at hends
  rw [joinPath_cons, components_slash] at hcomponents
  have hroot' : fs.sb.rootInodeNo ≠ minusOne := by
    rw [hroot]
    decide
  rw [joinPath_cons, dirIsExists_eq hroot' hends.1, if_neg hends.2, hcomponents]

end Server

/-- Resolution folds the lookups over the components, and splitting a path gives the
directory in which resolution looks the last component up. -/
theorem AbsolutePath.resolution (fs : Server) (path : AbsolutePath)
    (hroot : fs.sb.rootInodeNo = 0) :
    fs.dirIsExists path.chars = path.components.foldl fs.lookup fs.sb.rootInodeNo ∧
      splitPath2parts path.chars = some (path.parent, path.name) ∧
        (fs.dirIsExists path.parent ≠ minusOne →
          fs.dirIsExists path.chars = fs.find (fs.dirIsExists path.parent) path.name) := by
  have hresolved := fs.dirIsExists_joinPath hroot path.nonempty path.isComponent
  obtain ⟨front, name, hcomponents⟩ : ∃ front name, path.components = front ++ [name] :=
    ⟨_, _, (List.dropLast_concat_getLast path.nonempty).symm⟩
  have hparent : path.parent = if front = [] then [slash] else joinPath front := by
    rw [AbsolutePath.parent, hcomponents, List.dropLast_concat]
  have hname : path.name = name := by
    simp only [AbsolutePath.name, hcomponents, List.getLast_concat]
  have hall := path.isComponent
  rw [hcomponents] at hall
  have hfront : ∀ name ∈ front, IsComponent name := fun other hother =>
    hall other (List.mem_append_left [name] hother)
  have hlast : IsComponent name := hall name (List.mem_append_right front (List.mem_singleton_self name))
  refine ⟨hresolved, ?_, ?_⟩
  · rw [AbsolutePath.chars, hcomponents, hparent, hname]
    exact splitPath2parts_joinPath hfront hlast.slashFree
  · have hdirectory : fs.dirIsExists path.parent = front.foldl fs.lookup fs.sb.rootInodeNo := by
      rw [hparent]
      split
      next hnil =>
        subst hnil
        rw [List.foldl_nil, hroot]
        rfl
      next hne => exact fs.dirIsExists_joinPath hroot hne hfront
    intro hfound
    rw [AbsolutePath.chars, hresolved, hcomponents, List.foldl_concat, ← hdirectory, hname, Server.lookup,
      if_neg hfound]

/-- The path `/a/b`, which leads through a file. -/
def pathThroughA : AbsolutePath where
  components := [[0x61], [0x62]]
  nonempty := List.cons_ne_nil _ _
  isComponent name hname := by
    simp only [List.mem_cons, List.not_mem_nil, or_false] at hname
    rcases hname with rfl | rfl <;> constructor <;> decide
  length := by decide

theorem resolution_through_file :
    treeServer.dirIsExists pathThroughA.chars =
        [[0x61], [0x62]].foldl treeServer.lookup 0 ∧
      splitPath2parts pathThroughA.chars = some ([0x2f, 0x61], [0x62]) ∧
        (treeServer.dirIsExists [0x2f, 0x61] ≠ minusOne →
          treeServer.dirIsExists pathThroughA.chars =
            treeServer.find (treeServer.dirIsExists [0x2f, 0x61]) [0x62]) :=
  AbsolutePath.resolution treeServer pathThroughA rfl

end Shmily.Fs
