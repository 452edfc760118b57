import Shmily.Fs.DirEntries

/-! # Paths

A path leads from inode to inode, one name after the other. When every inode on the
way is in use, the result of `dir_is_exists` is determined by the lookups, the parent
that `split_path_2parts` computes leads to the directory of the last name, and
operations that only add names leave the path where it is.
-/

namespace Shmily.Fs

open Foundation Lib

/-- The inode number that a directory has for a name. -/
def Server.find (fs : Server) (dir : Nat) (name : List Byte) : Nat :=
  fs.findDirEntry (fs.ino2inode dir) name

/-- A path leads from one inode to another through inodes in use, by such entries only. -/
inductive Leads (fs : Server) (via : Nat → List Byte → Prop) : Nat → List Byte → Nat → Prop
  | skip {ino last : Nat} {rest : List Byte} :
      Leads fs via ino rest last → Leads fs via ino (slash :: rest) last
  | last {ino next : Nat} {name : List Byte} :
      fs.InUse ino → IsName name → slash ∉ name → via ino name → fs.find ino name = next →
      fs.InUse next → Leads fs via ino name next
  | step {ino next last : Nat} {name rest : List Byte} :
      fs.InUse ino → IsName name → slash ∉ name → via ino name → fs.find ino name = next →
      Leads fs via next rest last → Leads fs via ino (name ++ slash :: rest) last

/-- An absolute path that leads to an inode by such entries. -/
def NamesVia (fs : Server) (via : Nat → List Byte → Prop) (path : List Byte) (ino : Nat) : Prop :=
  path = [slash] ∧ ino = fs.sb.rootInodeNo ∧ fs.InUse ino ∨
    ∃ rest, path = slash :: rest ∧ Leads fs via fs.sb.rootInodeNo rest ino

/-- An absolute path that leads to an inode. -/
def Names (fs : Server) : List Byte → Nat → Prop := NamesVia fs fun _ _ => True

section Strings

variable {name rest path parent : List Byte}

theorem splitPath_slash : splitPath (slash :: rest) = ([slash], some rest) := by
  cases rest <;> simp [splitPath]

theorem splitPath_last (hne : name ≠ []) (hslash : slash ∉ name) :
    splitPath name = (name, none) := by
  induction name with
  | nil => exact absurd rfl hne
  | cons c name ih =>
      rw [List.mem_cons, not_or] at hslash
      cases name with
      | nil => rw [splitPath, if_neg (Ne.symm hslash.1)]
      | cons d name =>
          have hd : d ≠ slash := fun h => hslash.2 (h ▸ List.mem_cons_self)
          rw [splitPath, if_neg (Ne.symm hslash.1)]
          simp only [if_neg hd]
          rw [ih (List.cons_ne_nil d name) hslash.2]

theorem splitPath_step (hne : name ≠ []) (hslash : slash ∉ name) :
    splitPath (name ++ slash :: rest) = (name, some rest) := by
  induction name with
  | nil => exact absurd rfl hne
  | cons c name ih =>
      rw [List.mem_cons, not_or] at hslash
      cases name with
      | nil =>
          rw [List.singleton_append, splitPath, if_neg (Ne.symm hslash.1)]
          simp only [if_true]
      | cons d name =>
          have hd : d ≠ slash := fun h => hslash.2 (h ▸ List.mem_cons_self)
          rw [List.cons_append, List.cons_append, splitPath, if_neg (Ne.symm hslash.1)]
          simp only [if_neg hd]
          rw [← List.cons_append, ih (List.cons_ne_nil d name) hslash.2]

/-- Everything through the last slash is copied. -/
theorem copyThrough_spec {slashes : Nat} (hcount : path.count slash = slashes) :
    path = (copyThrough slashes path).1 ++ (copyThrough slashes path).2 ∧
      slash ∉ (copyThrough slashes path).2 ∧
      (0 < slashes → ∃ init, (copyThrough slashes path).1 = init ++ [slash]) := by
  induction path generalizing slashes with
  | nil =>
      rw [List.count_nil] at hcount
      subst hcount
      exact ⟨rfl, List.not_mem_nil, fun h => absurd h (Nat.lt_irrefl 0)⟩
  | cons c path ih =>
      cases slashes with
      | zero =>
          rw [List.count_eq_zero] at hcount
          exact ⟨rfl, hcount, fun h => absurd h (Nat.lt_irrefl 0)⟩
      | succ slashes =>
          by_cases hc : c = slash
          · rw [hc, List.count_cons_self, Nat.add_right_cancel_iff] at hcount
            obtain ⟨hpath, hnot, hinit⟩ := ih hcount
            rw [copyThrough, if_pos hc]
            refine ⟨congrArg (c :: ·) hpath, hnot, fun _ => ?_⟩
            cases slashes with
            | zero => exact ⟨[], by simp [copyThrough, hc]⟩
            | succ slashes =>
                obtain ⟨init, hinit⟩ := hinit (Nat.succ_pos _)
                exact ⟨c :: init, congrArg (c :: ·) hinit⟩
          · rw [List.count_cons_of_ne hc] at hcount
            obtain ⟨hpath, hnot, hinit⟩ := ih hcount
            rw [copyThrough, if_neg hc]
            obtain ⟨init, hinit⟩ := hinit (Nat.succ_pos _)
            exact ⟨congrArg (c :: ·) hpath, hnot, fun _ => ⟨c :: init, congrArg (c :: ·) hinit⟩⟩

/-- How a path is split: at the last slash, or at the two last ones. -/
theorem splitPath2parts_spec (hsplit : splitPath2parts path = some (parent, name)) :
    slash ∉ name ∧ (parent = [slash] ∧ path = slash :: name ∨
      path = parent ++ slash :: name ∧ parent.getLast? ≠ some slash ∨
      path = parent ++ slash :: slash :: name) := by
  unfold splitPath2parts at hsplit
  split at hsplit
  next hhead =>
    have hpos : 0 < path.count slash := List.count_pos_iff.mpr (List.mem_of_mem_head? hhead)
    obtain ⟨hpath, hnot, hinit⟩ := copyThrough_spec (Eq.refl (path.count slash))
    obtain ⟨init, hinit⟩ := hinit hpos
    rcases hcopied : copyThrough (path.count slash) path with ⟨copied, after⟩
    rw [hcopied] at hpath hnot hinit hsplit
    dsimp only at hpath hnot hinit hsplit
    rw [Option.some.injEq, Prod.mk.injEq] at hsplit
    obtain ⟨hparent, rfl⟩ := hsplit
    refine ⟨hnot, ?_⟩
    subst hinit
    split at hparent
    next hshort =>
      -- the path has a single slash, at its start
      have hnil : init = [] := by
        rw [List.length_append, List.length_singleton] at hshort
        exact List.eq_nil_of_length_eq_zero (by omega)
      subst hnil
      exact .inl ⟨hparent.symm, hpath⟩
    next =>
      rw [List.dropLast_concat, skipLastSlash] at hparent
      split at hparent
      next hlast =>
        obtain ⟨front, rfl⟩ := List.getLast?_eq_some_iff.mp hlast
        rw [List.dropLast_concat] at hparent
        subst hparent
        refine .inr (.inr ?_)
        rw [hpath]
        simp
      next hlast =>
        subst hparent
        refine .inr (.inl ⟨?_, hlast⟩)
        rw [hpath]
        simp
  next => cases hsplit

end Strings

variable {fs fs' fs'' : Server} {via : Nat → List Byte → Prop} {ino mid last : Nat}
  {name rest path parent : List Byte}

theorem Leads.ne_nil (hleads : Leads fs via ino path last) : path ≠ [] := by
  cases hleads with
  | skip => exact List.cons_ne_nil _ _
  | last _ hname => exact hname.nonempty
  | step => simp

theorem Leads.inUse (hleads : Leads fs via ino path last) : fs.InUse ino ∧ fs.InUse last := by
  induction hleads with
  | skip _ ih => exact ih
  | last huse _ _ _ _ hnext => exact ⟨huse, hnext⟩
  | step huse _ _ _ _ _ ih => exact ⟨huse, ih.2⟩

theorem Leads.append (hfirst : Leads fs via ino path mid) (hrest : Leads fs via mid rest last) :
    Leads fs via ino (path ++ slash :: rest) last := by
  induction hfirst with
  | skip _ ih => exact .skip (ih hrest)
  | last huse hname hslash hvia hfound _ => exact .step huse hname hslash hvia hfound hrest
  | step huse hname hslash hvia hfound _ ih =>
      rw [List.append_assoc, List.cons_append]
      exact .step huse hname hslash hvia hfound (ih hrest)

/-- `dir_is_exists` follows the path. -/
theorem Leads.walk (hleads : Leads fs via ino path last) (hmarked : fs.Marked) {fuel : Nat}
    (hfuel : path.length < fuel) : fs.walk fuel ino path = last := by
  induction hleads generalizing fuel with
  | skip hrest ih =>
      obtain ⟨fuel, rfl⟩ : ∃ n, fuel = n + 1 := ⟨fuel - 1, by omega⟩
      rw [List.length_cons, Nat.add_lt_add_iff_right] at hfuel
      rw [Server.walk, splitPath_slash]
      simpa using ih hfuel
  | @last ino next name huse hname hslash _ hfound hnext =>
      rw [Server.find] at hfound
      obtain ⟨fuel, rfl⟩ : ∃ n, fuel = n + 1 := ⟨fuel - 1, by omega⟩
      have hne : name ≠ [slash] := fun h => hslash (h ▸ List.mem_singleton_self _)
      have hfoundNe : next ≠ minusOne := (hmarked.owner_lt hnext.1).ne
      rw [Server.walk, splitPath_last hname.nonempty hslash]
      simp only [hfound, ne_eq, hne, not_false_eq_true, hfoundNe, and_false, if_false]
  | @step ino next last name rest huse hname hslash _ hfound hrest ih =>
      rw [Server.find] at hfound
      obtain ⟨fuel, rfl⟩ : ∃ n, fuel = n + 1 := ⟨fuel - 1, by omega⟩
      have hne : name ≠ [slash] := fun h => hslash (h ▸ List.mem_singleton_self _)
      have hfoundNe : next ≠ minusOne := (hmarked.owner_lt hrest.inUse.1.1).ne
      rw [Server.walk, splitPath_step hname.nonempty hslash]
      simp only [hfound, ne_eq, hne, not_false_eq_true, hfoundNe, and_false, if_false]
      apply ih
      simp only [List.length_append, List.length_cons] at hfuel
      omega

theorem Names.dirIsExists (hnames : Names fs path ino) (hmarked : fs.Marked) :
    fs.dirIsExists path = ino := by
  rcases hnames with ⟨rfl, rfl, -⟩ | ⟨rest, rfl, hleads⟩
  · exact hmarked.layout.root.symm
  · rw [Server.dirIsExists, if_neg (by simp), List.tail_cons, if_neg hleads.ne_nil]
    exact (Leads.skip hleads).walk hmarked (Nat.lt_succ_self _)

theorem Names.inUse (hnames : Names fs path ino) : fs.InUse ino := by
  rcases hnames with ⟨-, -, huse⟩ | ⟨rest, -, hleads⟩
  · exact huse
  · exact hleads.inUse.2

/-- A name in the directory that the parent leads to. -/
theorem Names.child (hparent : Names fs parent mid)
    (hsplit : splitPath2parts path = some (parent, name)) (hname : IsName name)
    (hfound : fs.find mid name = last) (huse : fs.InUse last) :
    Names fs path last := by
  obtain ⟨hslash, hshape⟩ := splitPath2parts_spec hsplit
  have hlast : Leads fs (fun _ _ => True) mid name last :=
    .last hparent.inUse hname hslash trivial hfound huse
  rcases hparent with ⟨rfl, rfl, -⟩ | ⟨front, rfl, hleads⟩
  · rcases hshape with ⟨-, rfl⟩ | ⟨-, hnot⟩ | rfl
    · exact .inr ⟨name, rfl, hlast⟩
    · exact absurd rfl hnot
    · exact .inr ⟨_, rfl, .skip (.skip hlast)⟩
  · rcases hshape with ⟨heq, -⟩ | ⟨rfl, -⟩ | rfl
    · rw [List.cons.injEq] at heq
      exact absurd heq.2 hleads.ne_nil
    · exact .inr ⟨_, rfl, hleads.append hlast⟩
    · exact .inr ⟨_, rfl, hleads.append (.skip hlast)⟩

/-- The inodes in use stay so, and what was found there is found as before. -/
structure Extends (fs fs' : Server) : Prop where
  sb : fs'.sb = fs.sb
  inUse : ∀ ino, fs.InUse ino → fs'.InUse ino
  lookup : ∀ ino name, fs.InUse ino → IsName name →
    fs.InUse (fs.find ino name) → fs'.find ino name = fs.find ino name

theorem Extends.refl (fs : Server) : Extends fs fs := ⟨rfl, fun _ => id, fun _ _ _ _ _ => rfl⟩

theorem Extends.trans (hfirst : Extends fs fs') (hsecond : Extends fs' fs'') : Extends fs fs'' where
  sb := hsecond.sb.trans hfirst.sb
  inUse ino huse := hsecond.inUse ino (hfirst.inUse ino huse)
  lookup ino name huse hname hfound := by
    have hsame := hfirst.lookup ino name huse hname hfound
    rw [hsecond.lookup ino name (hfirst.inUse ino huse) hname, hsame]
    rw [hsame]
    exact hfirst.inUse _ hfound

theorem Leads.extends (hleads : Leads fs via ino path last) (hextends : Extends fs fs') :
    Leads fs' via ino path last := by
  induction hleads with
  | skip _ ih => exact .skip ih
  | last huse hname hslash hvia hfound hnext =>
      refine .last (hextends.inUse _ huse) hname hslash hvia ?_ (hextends.inUse _ hnext)
      rw [← hfound] at hnext ⊢
      exact hextends.lookup _ _ huse hname hnext
  | step huse hname hslash hvia hfound hrest ih =>
      have hnext := hrest.inUse.1
      refine .step (hextends.inUse _ huse) hname hslash hvia ?_ ih
      rw [← hfound] at hnext ⊢
      exact hextends.lookup _ _ huse hname hnext

theorem Names.extends (hnames : Names fs path ino) (hextends : Extends fs fs') :
    Names fs' path ino := by
  rcases hnames with ⟨rfl, rfl, huse⟩ | ⟨rest, rfl, hleads⟩
  · exact .inl ⟨rfl, by rw [hextends.sb], hextends.inUse _ huse⟩
  · refine .inr ⟨rest, rfl, ?_⟩
    rw [hextends.sb]
    exact hleads.extends hextends

/-- A new inode has no name yet. -/
theorem Server.Created.extends (hcreated : Server.Created fs fs' ino) (hmarked : fs.Marked) :
    Extends fs fs' where
  sb := hcreated.sb
  inUse _ huse := hcreated.inUse_iff.mpr (.inl huse)
  lookup _ _ huse hname _ := (hcreated.spared hmarked huse).findDirEntry hname.length hname.nulFree

/-- A new name hides none of the old ones. -/
theorem Server.Updates.extends {entry : Entry} (hupdates : Server.Updates fs ino fs')
    (hinserted : Server.Inserted fs fs' ino entry) (hmarked : fs.Marked) : Extends fs fs' where
  sb := hupdates.works.sb
  inUse _ huse := hupdates.works.inUse_iff.mpr huse
  lookup other child huse hname hfound := by
    by_cases hother : other = ino
    · subst hother
      rw [Server.find] at hfound ⊢
      rw [hinserted.findDirEntry hname.length hname.nulFree]
      split
      next heq =>
        -- the name was not there before
        have hnone : dirSlots.findSome? (fs.lookupAt (fs.ino2inode other) child) = none := by
          rw [List.findSome?_eq_none_iff, heq]
          exact hinserted.1
        rw [Server.findDirEntry_eq _ _ hname.length hname.nulFree, hnone] at hfound
        exact absurd (hmarked.owner_lt hfound.1) (Nat.lt_irrefl _)
      next => rfl
    · exact (hupdates.works.spared huse hother).findDirEntry hname.length hname.nulFree

/-! ### Paths that lead nowhere -/

/-- A path that ends where its last name is not found. -/
inductive Misses (fs : Server) : Nat → List Byte → Prop
  | skip {ino : Nat} {rest : List Byte} : Misses fs ino rest → Misses fs ino (slash :: rest)
  | last {ino : Nat} {name : List Byte} :
      IsName name → slash ∉ name → fs.find ino name = minusOne → Misses fs ino name
  | step {ino next : Nat} {name rest : List Byte} :
      fs.InUse next → IsName name → slash ∉ name → fs.find ino name = next →
      Misses fs next rest → Misses fs ino (name ++ slash :: rest)

theorem Misses.ne_nil (hmisses : Misses fs ino path) : path ≠ [] := by
  cases hmisses with
  | skip => exact List.cons_ne_nil _ _
  | last hname => exact hname.nonempty
  | step => simp

theorem Misses.walk (hmisses : Misses fs ino path) (hmarked : fs.Marked) {fuel : Nat}
    (hfuel : path.length < fuel) : fs.walk fuel ino path = minusOne := by
  induction hmisses generalizing fuel with
  | skip hrest ih =>
      obtain ⟨fuel, rfl⟩ : ∃ n, fuel = n + 1 := ⟨fuel - 1, by omega⟩
      rw [List.length_cons, Nat.add_lt_add_iff_right] at hfuel
      rw [Server.walk, splitPath_slash]
      simpa using ih hfuel
  | @last ino name hname hslash hfound =>
      obtain ⟨fuel, rfl⟩ : ∃ n, fuel = n + 1 := ⟨fuel - 1, by omega⟩
      have hne : name ≠ [slash] := fun h => hslash (h ▸ List.mem_singleton_self _)
      rw [Server.find] at hfound
      rw [Server.walk, splitPath_last hname.nonempty hslash]
      simp only [hfound, ne_eq, hne, not_false_eq_true, and_self, if_true, if_false]
  | @step ino next name rest hnext hname hslash hfound hrest ih =>
      obtain ⟨fuel, rfl⟩ : ∃ n, fuel = n + 1 := ⟨fuel - 1, by omega⟩
      have hne : name ≠ [slash] := fun h => hslash (h ▸ List.mem_singleton_self _)
      have hfoundNe : next ≠ minusOne := (hmarked.owner_lt hnext.1).ne
      rw [Server.find] at hfound
      rw [Server.walk, splitPath_step hname.nonempty hslash]
      simp only [hfound, ne_eq, hne, not_false_eq_true, hfoundNe, and_false, if_false]
      apply ih
      simp only [List.length_append, List.length_cons] at hfuel
      omega

theorem Leads.misses (hleads : Leads fs via ino path mid) (hrest : Misses fs mid rest) :
    Misses fs ino (path ++ slash :: rest) := by
  induction hleads with
  | skip _ ih => exact .skip (ih hrest)
  | last _ hname hslash _ hfound hnext => exact .step hnext hname hslash hfound hrest
  | step _ hname hslash _ hfound hleads ih =>
      rw [List.append_assoc, List.cons_append]
      exact .step hleads.inUse.1 hname hslash hfound (ih hrest)

/-- A name that is not in its directory. -/
theorem NamesVia.missing (hparent : NamesVia fs via parent mid) (hmarked : fs.Marked)
    (hsplit : splitPath2parts path = some (parent, name)) (hname : IsName name)
    (hmissing : fs.find mid name = minusOne) : fs.dirIsExists path = minusOne := by
  obtain ⟨hslash, hshape⟩ := splitPath2parts_spec hsplit
  have hlast : Misses fs mid name := .last hname hslash hmissing
  have hpath : ∃ rest, path = slash :: rest ∧ Misses fs fs.sb.rootInodeNo rest := by
    rcases hparent with ⟨rfl, rfl, -⟩ | ⟨front, rfl, hleads⟩
    · rcases hshape with ⟨-, rfl⟩ | ⟨-, hnot⟩ | rfl
      · exact ⟨name, rfl, hlast⟩
      · exact absurd rfl hnot
      · exact ⟨_, rfl, .skip (.skip hlast)⟩
    · rcases hshape with ⟨heq, -⟩ | ⟨rfl, -⟩ | rfl
      · rw [List.cons.injEq] at heq
        exact absurd heq.2 hleads.ne_nil
      · exact ⟨_, rfl, hleads.misses hlast⟩
      · exact ⟨_, rfl, hleads.misses (.skip hlast)⟩
  obtain ⟨rest, rfl, hmisses⟩ := hpath
  rw [Server.dirIsExists, if_neg (by simp), List.tail_cons, if_neg hmisses.ne_nil]
  exact (Misses.skip hmisses).walk hmarked (Nat.lt_succ_self _)

/-! ### States in which the same paths lead to the same inodes -/

theorem Leads.mono {via' : Nat → List Byte → Prop} (hleads : Leads fs via ino path last)
    (hvia : ∀ dir name, via dir name → via' dir name) : Leads fs via' ino path last := by
  induction hleads with
  | skip _ ih => exact .skip ih
  | last huse hname hslash hmem hfound hnext =>
      exact .last huse hname hslash (hvia _ _ hmem) hfound hnext
  | step huse hname hslash hmem hfound _ ih =>
      exact .step huse hname hslash (hvia _ _ hmem) hfound ih

theorem NamesVia.names (hnames : NamesVia fs via path ino) : Names fs path ino := by
  rcases hnames with hroot | ⟨rest, hpath, hleads⟩
  · exact .inl hroot
  · exact .inr ⟨rest, hpath, hleads.mono fun _ _ _ => trivial⟩

/-- A path leads to the inode. -/
def Server.Named (fs : Server) (ino : Nat) : Prop := ∃ path, Names fs path ino

theorem Server.Named.inUse (hnamed : fs.Named ino) : fs.InUse ino := by
  obtain ⟨_, hnames⟩ := hnamed
  exact hnames.inUse

theorem Server.Named.next (hnamed : fs.Named ino) (hname : IsName name) (hslash : slash ∉ name)
    (huse : fs.InUse (fs.find ino name)) : fs.Named (fs.find ino name) := by
  have hlast : Leads fs (fun _ _ => True) ino name (fs.find ino name) :=
    .last hnamed.inUse hname hslash trivial rfl huse
  obtain ⟨_, ⟨-, rfl, -⟩ | ⟨rest, -, hleads⟩⟩ := hnamed
  · exact ⟨_, .inr ⟨name, rfl, hlast⟩⟩
  · exact ⟨_, .inr ⟨_, rfl, hleads.append hlast⟩⟩

/-- From the root such entries lead to such inodes only. -/
structure ClosedUnder (fs : Server) (via : Nat → List Byte → Prop) (kept : Nat → Prop) : Prop where
  root : kept fs.sb.rootInodeNo
  closed : ∀ dir name, kept dir → IsName name → slash ∉ name → via dir name →
    fs.InUse (fs.find dir name) → kept (fs.find dir name)

section Wiring

variable {kept : Nat → Prop}

theorem Leads.stays (hleads : Leads fs via ino path last) (hclosed : ClosedUnder fs via kept)
    (hkept : kept ino) : kept last := by
  induction hleads with
  | skip _ ih => exact ih hkept
  | last _ hname hslash hvia hfound hnext =>
      subst hfound
      exact hclosed.closed _ _ hkept hname hslash hvia hnext
  | step _ hname hslash hvia hfound hrest ih =>
      subst hfound
      exact ih (hclosed.closed _ _ hkept hname hslash hvia hrest.inUse.1)

theorem NamesVia.stays (hnames : NamesVia fs via path ino) (hclosed : ClosedUnder fs via kept) :
    kept ino := by
  rcases hnames with ⟨-, rfl, -⟩ | ⟨rest, -, hleads⟩
  · exact hclosed.root
  · exact hleads.stays hclosed hclosed.root

end Wiring

end Shmily.Fs
