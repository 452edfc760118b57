import Shmily.Terminal.Paths

/-! # The path that is made of an argument

The copying pass appends each component to the text that is there, and the text has a slash
at its end only if a slash of the old path stands there. So the path is the canonical one
if and only if its components start where components of the old path start, and none that
remains looks flagged.
-/

namespace Shmily.Terminal

open Foundation Lib
open Fs (slash joinPath joinPath_cons IsComponent)

/-- Where the components start, from a position on. -/
def startsFrom : Nat → List (List Byte) → List Nat
  | _, [] => []
  | pos, name :: rest => pos :: startsFrom (pos + 1 + name.length) rest

/-- Where the components of a path start, with their slashes. -/
def starts (names : List (List Byte)) : List Nat := startsFrom 0 names

/-- The text after some components were copied; `slashes` are the places of the slashes in
the array. -/
def copyNames (slashes : List Nat) : List Byte → List (List Byte) → List Byte
  | text, [] => text
  | text, name :: rest =>
      copyNames slashes (text ++ ((if text.length ∈ slashes then [slash] else []) ++ name)) rest

/-- What stands in the array behind the text. -/
def behind (slashes : List Nat) (pos cnt : Nat) : List Byte :=
  (List.range' pos cnt).map fun pos => if pos ∈ slashes then slash else 0

section

variable {name : List Byte} {names rest front : List (List Byte)} {pos cnt : Nat}
  {slashes : List Nat}

theorem length_cutPath (names : List (List Byte)) :
    (cutPath names).length = (joinPath names).length := by
  induction names with
  | nil => rfl
  | cons name names ih =>
      rw [cutPath_cons, joinPath_cons, List.length_cons, List.length_cons, List.length_append,
        List.length_append, ih]

theorem startsFrom_append (pos : Nat) (front rest : List (List Byte)) :
    startsFrom pos (front ++ rest) =
      startsFrom pos front ++ startsFrom (pos + (joinPath front).length) rest := by
  induction front generalizing pos with
  | nil => rfl
  | cons name front ih =>
      rw [List.cons_append, startsFrom, ih, startsFrom, joinPath_cons, List.length_cons,
        List.length_append, List.cons_append]
      congr 3
      omega

theorem startsFrom_bounds {start : Nat} (hmem : pos ∈ startsFrom start names) :
    start ≤ pos ∧ pos < start + (joinPath names).length := by
  induction names generalizing start with
  | nil => cases hmem
  | cons name names ih =>
      rw [joinPath_cons, List.length_cons, List.length_append]
      rcases List.mem_cons.mp hmem with rfl | hrest
      · omega
      · have hbounds := ih hrest
        omega

/-- No component starts right behind the start of another. -/
theorem succ_not_mem_startsFrom {start : Nat} (hnames : ∀ name ∈ names, name ≠ [])
    (hmem : pos ∈ startsFrom start names) : pos + 1 ∉ startsFrom start names := by
  induction names generalizing start with
  | nil => cases hmem
  | cons name names ih =>
      have hname := List.length_pos_of_ne_nil (hnames name List.mem_cons_self)
      rw [startsFrom, List.mem_cons, not_or]
      rcases List.mem_cons.mp hmem with rfl | hrest
      · refine ⟨by omega, fun hnext => ?_⟩
        have hbounds := startsFrom_bounds hnext
        omega
      · have hbounds := startsFrom_bounds hrest
        have hothers : ∀ other ∈ names, other ≠ [] := fun other hother =>
          hnames other (List.mem_cons_of_mem name hother)
        exact ⟨by omega, ih hothers hrest⟩

theorem length_cutPath_concat (front : List (List Byte)) (name : List Byte) :
    (cutPath (front ++ [name])).length = (cutPath front).length + 1 + name.length := by
  have hnil : (cutPath []).length = 0 := rfl
  rw [cutPath_append, cutPath_cons, List.length_append, List.length_cons, List.length_append, hnil]
  omega

theorem starts_concat (front : List (List Byte)) (name : List Byte) :
    starts (front ++ [name]) = starts front ++ [(cutPath front).length] := by
  rw [starts, startsFrom_append, ← starts, Nat.zero_add, length_cutPath]
  rfl

/-- What follows starts behind the end. -/
theorem mem_starts_append (hpos : pos < (cutPath front).length) :
    pos ∈ starts (front ++ rest) ↔ pos ∈ starts front := by
  rw [starts, startsFrom_append, ← starts, Nat.zero_add, ← length_cutPath, List.mem_append]
  refine ⟨fun hmem => hmem.resolve_right fun hlater => ?_, .inl⟩
  exact absurd (startsFrom_bounds hlater).1 (Nat.not_le.mpr hpos)

/-- Only the lengths of the components matter. -/
theorem startsFrom_congr {others : List (List Byte)} (start : Nat)
    (hlen : names.map List.length = others.map List.length) :
    startsFrom start names = startsFrom start others := by
  induction names generalizing start others with
  | nil =>
      cases others with
      | nil => rfl
      | cons other others => cases hlen
  | cons name names ih =>
      cases others with
      | nil => cases hlen
      | cons other others =>
          rw [List.map_cons, List.map_cons, List.cons.injEq] at hlen
          rw [startsFrom, startsFrom, hlen.1, ih _ hlen.2]

theorem behind_succ : behind slashes pos (cnt + 1) =
    (if pos ∈ slashes then slash else 0) :: behind slashes (pos + 1) cnt := by
  rw [behind, List.range'_succ, List.map_cons, behind]

theorem length_behind : (behind slashes pos cnt).length = cnt := by
  rw [behind, List.length_map, List.length_range']

theorem behind_add (more : Nat) : behind slashes pos (cnt + more) =
    behind slashes pos cnt ++ behind slashes (pos + cnt) more := by
  rw [behind, behind, behind, ← List.map_append, List.range'_append_1]

theorem behind_congr {others : List Nat}
    (hsame : ∀ p, pos ≤ p → p < pos + cnt → (p ∈ slashes ↔ p ∈ others)) :
    behind slashes pos cnt = behind others pos cnt := by
  refine List.map_congr_left fun p hp => ?_
  obtain ⟨hlow, hhigh⟩ := List.mem_range'_1.mp hp
  simp only [hsame p hlow hhigh]

/-- Another slash is put behind the text. -/
theorem putChar_behind (slashes : List Nat) (text : List Byte) {i : Nat} (hlow : text.length ≤ i)
    (hhigh : i < text.length + cnt) :
    putChar (text ++ behind slashes text.length cnt) i slash =
      some (text ++ behind (slashes ++ [i]) text.length cnt) := by
  obtain ⟨before, rfl⟩ := Nat.exists_eq_add_of_le hlow
  obtain ⟨after, rfl⟩ : ∃ after, cnt = before + (after + 1) := ⟨cnt - before - 1, by omega⟩
  have hother : ∀ {pos cnt}, (text.length + before < pos ∨ pos + cnt ≤ text.length + before) →
      behind (slashes ++ [text.length + before]) pos cnt = behind slashes pos cnt := by
    intro pos cnt hout
    refine behind_congr fun p hp hp' => ?_
    rw [List.mem_append, List.mem_singleton]
    exact ⟨fun hmem => hmem.resolve_right (by omega), .inl⟩
  have hput := putChar_append (text ++ behind slashes text.length before)
    (behind slashes (text.length + before + 1) after)
    (if text.length + before ∈ slashes then slash else 0) slash
  rw [List.length_append, length_behind, List.append_assoc, List.append_assoc] at hput
  rw [behind_add, behind_succ, hput, behind_add, behind_succ, hother (by omega), hother (by omega),
    if_pos (by simp)]

/-- The string in the array is the text, with a slash if one stands behind it. -/
theorem behind_string (slashes : List Nat) (cnt : Nat) (text : List Byte)
    (hsingle : text.length ∈ slashes → text.length + 1 ∉ slashes) (hroom : 2 ≤ cnt) :
    ∃ rest, text ++ behind slashes text.length cnt =
      text ++ ((if text.length ∈ slashes then [slash] else []) ++ 0 :: rest) := by
  obtain ⟨cnt, rfl⟩ := Nat.exists_eq_add_of_le' hroom
  rw [behind_succ]
  split
  next hmem =>
    rw [behind_succ, if_neg (hsingle hmem)]
    exact ⟨_, rfl⟩
  next => exact ⟨_, rfl⟩

theorem nulFree_slash {text : List Byte} (htext : 0 ∉ text) (p : Prop) [Decidable p] :
    0 ∉ text ++ if p then [slash] else [] := by
  refine List.not_mem_append htext ?_
  split
  next => decide
  next => exact List.not_mem_nil

theorem strcpy_behind (text : List Byte) (more : Nat) :
    strcpy (text ++ behind slashes text.length (name.length + more)) text.length name =
      some (text ++ name ++ behind slashes (text ++ name).length more) := by
  rw [behind_add, strcpy, memcpy_append _ _ _ length_behind, List.append_assoc, List.length_append]

/-- The slash that stands behind the text is taken to it. -/
theorem behind_slash (slashes : List Nat) (cnt : Nat) (text : List Byte) (hroom : 1 ≤ cnt) :
    ∃ more, text ++ behind slashes text.length cnt =
        (text ++ if text.length ∈ slashes then [slash] else []) ++
          behind slashes (text ++ if text.length ∈ slashes then [slash] else []).length more ∧
      cnt ≤ more + 1 ∧
      (text ++ if text.length ∈ slashes then [slash] else []).length + more = text.length + cnt := by
  split
  next hmem =>
    obtain ⟨cnt, rfl⟩ := Nat.exists_eq_add_of_le' hroom
    refine ⟨cnt, ?_, Nat.le_refl _, ?_⟩
    · rw [behind_succ, if_pos hmem, List.length_append, List.length_singleton, List.append_assoc]
      rfl
    · rw [List.length_append, List.length_singleton]
      omega
  next => exact ⟨cnt, by rw [List.append_nil], Nat.le_succ cnt, by rw [List.append_nil]⟩

/-- One component is copied behind the text, or left out. -/
theorem copyEntries_name {l : Nat} (fuel cnt : Nat) (pre post text : List Byte) (hne : name ≠ [])
    (hnul : 0 ∉ name) (htext : 0 ∉ text) (hl : pre.length < l) (hlen : text.length ≤ pre.length)
    (hroom : pre.length + 1 + name.length + 2 ≤ text.length + cnt)
    (hsingle : text.length ∈ slashes ++ [pre.length] → text.length + 1 ∉ slashes ++ [pre.length]) :
    ∃ text' more,
      copyEntries (pre ++ 0 :: (name ++ 0 :: post)) l (fuel + 1) pre.length
          (text ++ behind slashes text.length cnt) =
        copyEntries (pre ++ 0 :: (name ++ 0 :: post)) l fuel (pre.length + 1 + name.length)
          (text' ++ behind (slashes ++ [pre.length]) text'.length more) ∧
      text' = copyNames (slashes ++ [pre.length]) text
        ([name].filter fun name => name.head? ≠ some flag) ∧
      0 ∉ text' ∧ text'.length ≤ pre.length + 1 + name.length ∧
      text'.length + more = text.length + cnt := by
  have hput := putChar_behind slashes text hlen
    (show pre.length < text.length + cnt by omega)
  have hget : (pre ++ 0 :: (name ++ 0 :: post))[pre.length + 1]? = name.head? := by
    obtain ⟨char, chars, rfl⟩ := List.exists_cons_of_ne_nil hne
    simp
  have hentry : stringAt (pre ++ 0 :: (name ++ 0 :: post)) (pre.length + 1) = some name := by
    have hstring := stringAt_append (pre ++ [0]) post hnul
    rwa [List.append_assoc, List.length_append] at hstring
  obtain ⟨char, hchar⟩ : ∃ char, name.head? = some char := by
    obtain ⟨char, chars, rfl⟩ := List.exists_cons_of_ne_nil hne
    exact ⟨char, rfl⟩
  rw [copyEntries, if_pos hl, hput]
  simp only [Option.bind_eq_bind, Option.bind_some, hget, hchar, hentry]
  by_cases hflag : char = flag
  · -- the component is left out, and the text stays
    refine ⟨text, cnt, ?_, ?_, htext, by omega, rfl⟩
    · rw [if_neg (not_not.mpr hflag)]
    · rw [List.filter_cons_of_neg (by simp [hchar, hflag]), List.filter_nil, copyNames]
  · obtain ⟨rest, hstring⟩ := behind_string (slashes ++ [pre.length]) cnt text
      hsingle (by omega)
    obtain ⟨more, hslash, hmore, hlength⟩ :=
      behind_slash (slashes ++ [pre.length]) cnt text (by omega)
    generalize hend : (text ++ if text.length ∈ slashes ++ [pre.length] then [slash] else []) = done
      at hslash hlength
    have hdone : 0 ∉ done := hend ▸ nulFree_slash htext _
    have hbound : done.length ≤ text.length + 1 := by
      rw [← hend, List.length_append]
      split
      next => exact Nat.le_refl _
      next => exact Nat.le_succ _
    obtain ⟨more, rfl⟩ : ∃ left, more = name.length + left := ⟨more - name.length, by omega⟩
    have hstrlen : strlen (done ++ behind (slashes ++ [pre.length]) done.length (name.length + more)) =
        some done.length := by
      rw [← hslash, hstring, ← List.append_assoc, hend]
      exact strlen_append rest hdone
    refine ⟨done ++ name, more, ?_, ?_, List.not_mem_append hdone hnul, ?_, ?_⟩
    · rw [if_pos hflag, hslash, hstrlen, Option.bind_some, strcpy_behind, Option.bind_some]
    · rw [List.filter_cons_of_pos (by simp [hchar, hflag]), List.filter_nil, copyNames, copyNames,
        ← hend, List.append_assoc]
    · rw [List.length_append]
      omega
    · rw [List.length_append]
      omega

theorem copyNames_append (slashes : List Nat) (text : List Byte) (front rest : List (List Byte)) :
    copyNames slashes text (front ++ rest) =
      copyNames slashes (copyNames slashes text front) rest := by
  induction front generalizing text with
  | nil => rfl
  | cons name front ih => exact ih _

/-- For one component it only matters whether a slash stands behind the text. -/
theorem copyNames_filter_congr {others : List Nat} {text : List Byte} (keeps : List Byte → Bool)
    (name : List Byte) (hsame : text.length ∈ slashes ↔ text.length ∈ others) :
    copyNames slashes text ([name].filter keeps) = copyNames others text ([name].filter keeps) := by
  cases hkeeps : keeps name with
  | false =>
      rw [List.filter_cons_of_neg (by simp [hkeeps]), List.filter_nil, copyNames, copyNames]
  | true =>
      rw [List.filter_cons_of_pos hkeeps, List.filter_nil, copyNames, copyNames, copyNames,
        copyNames, if_congr hsame rfl rfl]

/-- The pass from the front copies the components that are not flagged. -/
theorem copyEntries_cutPath (front : List (List Byte)) {fuel : Nat} (cnt : Nat)
    (post text : List Byte)
    (hall : ∀ name ∈ front ++ names, name ≠ [] ∧ 0 ∉ name)
    (hshort : (cutPath (front ++ names)).length + 2 ≤ text.length + cnt)
    (hfuel : names.length < fuel) (hlen : text.length ≤ (cutPath front).length) (htext : 0 ∉ text) :
    ∃ text' more,
      copyEntries (cutPath (front ++ names) ++ 0 :: post) (cutPath (front ++ names)).length fuel
          (cutPath front).length (text ++ behind (starts front) text.length cnt) =
        some (text' ++ behind (starts (front ++ names)) text'.length more) ∧
      text' = copyNames (starts (front ++ names)) text
        (names.filter fun name => name.head? ≠ some flag) ∧
      0 ∉ text' ∧ text'.length ≤ (cutPath (front ++ names)).length ∧
      text'.length + more = text.length + cnt := by
  obtain ⟨fuel, rfl⟩ := Nat.exists_eq_add_of_le' (Nat.one_le_of_lt hfuel)
  induction names generalizing front text cnt fuel with
  | nil =>
      rw [List.append_nil, copyEntries, if_neg (Nat.lt_irrefl _)]
      exact ⟨text, cnt, rfl, rfl, htext, hlen, rfl⟩
  | cons name names ih =>
      obtain ⟨hne, hnul⟩ := hall name (by simp)
      have hwhole : front ++ name :: names = front ++ [name] ++ names := by simp
      obtain ⟨tail, htail⟩ := cutPath_head names post
      have hpath : cutPath (front ++ name :: names) ++ 0 :: post =
          cutPath front ++ 0 :: (name ++ 0 :: tail) := by
        rw [cutPath_append, cutPath_cons, List.append_assoc, List.cons_append, List.append_assoc,
          htail]
      have hsize : (cutPath (front ++ name :: names)).length =
          (cutPath front).length + 1 + name.length + (cutPath names).length := by
        rw [hwhole, cutPath_append, List.length_append, length_cutPath_concat]
      have hnext := length_cutPath_concat front name
      have hstarts := starts_concat front name
      have hsingle : text.length ∈ starts (front ++ [name]) →
          text.length + 1 ∉ starts (front ++ [name]) := by
        refine succ_not_mem_startsFrom fun other hother => (hall other ?_).1
        rw [hwhole]
        exact List.mem_append_left names hother
      rw [hstarts] at hsingle
      obtain ⟨text₁, cnt₁, hstep, htext₁, hnul₁, hlen₁, hcnt₁⟩ :=
        copyEntries_name fuel cnt (cutPath front) tail text hne hnul htext
          (show (cutPath front).length < (cutPath (front ++ name :: names)).length by omega) hlen
          (by omega) hsingle
      rw [List.length_cons] at hfuel
      obtain ⟨fuel, rfl⟩ := Nat.exists_eq_add_of_le' (show 1 ≤ fuel by omega)
      rw [hwhole] at hall hshort
      have hshort₁ : (cutPath (front ++ [name] ++ names)).length + 2 ≤ text₁.length + cnt₁ := by
        omega
      obtain ⟨text', more, hrest, htext', hnul', hlen', hmore⟩ :=
        ih (front ++ [name]) cnt₁ text₁ hall hshort₁ (hnext ▸ hlen₁) hnul₁ fuel (by omega)
      rw [← hwhole, hpath, hnext, hstarts] at hrest
      rw [← hwhole] at htext' hlen'
      refine ⟨text', more, ?_, ?_, hnul', hlen', by omega⟩
      · rw [hpath, hstep, hrest]
      · have hname := List.length_pos_of_ne_nil hne
        have hsame : text.length ∈ starts (front ++ [name]) ↔
            text.length ∈ starts (front ++ name :: names) := by
          rw [hwhole]
          exact (mem_starts_append (by omega)).symm
        rw [htext', htext₁, ← hstarts, copyNames_filter_congr _ name hsame, ← copyNames_append,
          ← List.filter_append, List.singleton_append]

theorem behind_nil (pos cnt : Nat) : behind [] pos cnt = List.replicate cnt 0 := by
  simp [behind, List.map_const']

theorem length_flagNames (names : List (List Byte)) :
    (flagNames names).map List.length = names.map List.length := by
  induction names with
  | nil => rfl
  | cons name names ih =>
      rw [flagNames, List.map_cons, List.map_cons, ih]
      congr 1
      split
      next => exact List.length_set
      next => rfl

theorem starts_flagNames (names : List (List Byte)) : starts (flagNames names) = starts names :=
  startsFrom_congr 0 (length_flagNames names)

theorem length_joinPath (names : List (List Byte)) :
    (joinPath names).length = (names.map List.length).sum + names.length := by
  induction names with
  | nil => rfl
  | cons name names ih =>
      rw [joinPath_cons, List.length_cons, List.length_append, ih, List.map_cons, List.sum_cons,
        List.length_cons]
      omega

theorem length_cutPath_flagNames (names : List (List Byte)) :
    (cutPath (flagNames names)).length = (joinPath names).length := by
  have hlength : (flagNames names).length = names.length := by
    rw [← List.length_map List.length, length_flagNames, List.length_map]
  rw [length_cutPath, length_joinPath, length_joinPath, length_flagNames, hlength]

theorem mem_flagNames (hnames : ∀ name ∈ names, IsComponent name) :
    ∀ name ∈ flagNames names, name ≠ [] ∧ 0 ∉ name := by
  induction names with
  | nil => exact fun _ hmem => absurd hmem List.not_mem_nil
  | cons first names ih =>
      have hfirst := hnames first List.mem_cons_self
      intro name hmem
      rw [flagNames] at hmem
      rcases List.mem_cons.mp hmem with rfl | hrest
      · split
        next =>
          refine ⟨by simpa using hfirst.nonempty, fun hzero => ?_⟩
          rcases List.mem_or_eq_of_mem_set hzero with hold | hflag
          · exact hfirst.nulFree hold
          · exact absurd hflag (by decide)
        next => exact ⟨hfirst.nonempty, hfirst.nulFree⟩
      · exact ih (fun other hother => hnames other (List.mem_cons_of_mem first hother)) name hrest

/-- The components that are copied. -/
def copied (names : List (List Byte)) : List (List Byte) :=
  (Cancellation.remaining isDotDot names).filter fun name => name.head? ≠ some flag

theorem filter_flagNames (hnames : ∀ name ∈ names, IsComponent name) :
    (flagNames names).filter (fun name => name.head? ≠ some flag) = copied names := by
  rw [copied]
  induction names with
  | nil => rfl
  | cons name names ih =>
      have hrest := ih fun other hother => hnames other (List.mem_cons_of_mem name hother)
      rw [flagNames, Cancellation.remaining]
      split
      next =>
        obtain ⟨char, chars, rfl⟩ :=
          List.exists_cons_of_ne_nil (hnames name List.mem_cons_self).nonempty
        rw [List.filter_cons_of_neg (by simp), hrest]
      next => rw [List.filter_cons, List.filter_cons, hrest]

theorem joinPath_nulFree (hnames : ∀ name ∈ names, IsComponent name) : 0 ∉ joinPath names := by
  intro hmem
  obtain ⟨name, hname, hzero⟩ := List.mem_flatMap.mp hmem
  rcases List.mem_cons.mp hzero with hslash | hchar
  · exact absurd hslash (by decide)
  · exact (hnames name hname).nulFree hchar

/-- The text that the copying pass leaves. -/
def copiedText (names : List (List Byte)) : List Byte :=
  copyNames (starts names) [] (copied names)

/-- The text, with a slash at its end if one stands there. -/
def finalText (names : List (List Byte)) : List Byte :=
  copiedText names ++ if (copiedText names).length ∈ starts names then [slash] else []

/-- The copying pass over a path whose components were flagged. -/
theorem copyEntries_flagNames (post : List Byte) (hnames : ∀ name ∈ names, IsComponent name)
    (hlt : (joinPath names).length < 64) :
    ∃ rest, copyEntries (cutPath (flagNames names) ++ 0 :: post) (joinPath names).length
        ((joinPath names).length + 1) 0 (List.replicate 128 0) = some (finalText names ++ 0 :: rest) ∧
      0 ∉ copiedText names ∧ (copiedText names).length ≤ (joinPath names).length := by
  have hcount : (flagNames names).length ≤ (joinPath names).length := by
    rw [← List.length_map List.length, length_flagNames, List.length_map, length_joinPath]
    exact Nat.le_add_left _ _
  have hshort : (cutPath ([] ++ flagNames names)).length + 2 ≤ ([] : List Byte).length + 128 := by
    rw [List.nil_append, length_cutPath_flagNames, List.length_nil]
    omega
  obtain ⟨text, more, hcopy, htext, hnul, hbound, hmore⟩ :=
    copyEntries_cutPath [] 128 post [] (mem_flagNames hnames) hshort (Nat.lt_succ_of_le hcount)
      (Nat.le_refl _) List.not_mem_nil
  rw [List.nil_append, length_cutPath_flagNames] at hbound
  rw [List.nil_append, length_cutPath_flagNames, starts_flagNames, List.nil_append] at hcopy
  rw [List.nil_append, starts_flagNames, filter_flagNames hnames, ← copiedText] at htext
  subst htext
  have hsingle : (copiedText names).length ∈ starts names →
      (copiedText names).length + 1 ∉ starts names :=
    succ_not_mem_startsFrom fun name hname => (hnames name hname).nonempty
  have hroom : 2 ≤ more := by
    rw [List.length_nil] at hmore
    omega
  obtain ⟨rest, hstring⟩ := behind_string (starts names) more (copiedText names) hsingle hroom
  have hzeros : behind (starts []) ([] : List Byte).length 128 = List.replicate 128 0 :=
    behind_nil 0 128
  rw [hstring, hzeros, ← List.append_assoc] at hcopy
  exact ⟨rest, hcopy, hnul, hbound⟩

/-- `path_double_dot` leaves the text of the copied components. -/
theorem pathDoubleDot_joinPath (hnames : ∀ name ∈ names, IsComponent name)
    (hlt : (joinPath names).length < 64) :
    0 ∉ copiedText names ∧ ∃ rest,
      pathDoubleDot (joinPath names ++ List.replicate (64 - (joinPath names).length) 0) =
        some (finalText names ++ 0 :: rest) := by
  obtain ⟨room, hroom⟩ : ∃ room, 64 - (joinPath names).length = room + 1 :=
    ⟨63 - (joinPath names).length, by omega⟩
  have hcut := cutSlashes_append [] (joinPath names) (0 :: List.replicate room 0)
  rw [map_joinPath fun name hname => (hnames name hname).slashFree] at hcut
  have hflagged := flagEntries_cutPath [] (List.replicate room 0) fun name hname =>
    ⟨(hnames name hname).nonempty, (hnames name hname).nulFree⟩
  rw [List.length_nil, Nat.zero_add, length_cutPath] at hflagged
  obtain ⟨rest, hcopy, hnul, hbound⟩ := copyEntries_flagNames (List.replicate room 0) hnames hlt
  have hfinalNul : 0 ∉ finalText names := nulFree_slash hnul _
  have hfinalLen : (finalText names).length ≤ (joinPath names).length := by
    rw [finalText, List.length_append]
    split
    next hmem =>
      have hbounds := startsFrom_bounds hmem
      rw [List.length_singleton]
      omega
    next => exact hbound
  -- the text goes to the start of the path, and a zero behind it
  have hlong : (finalText names).length <
      (cutPath (flagNames names) ++ 0 :: List.replicate room 0).length := by
    rw [List.length_append, length_cutPath_flagNames, List.length_cons]
    omega
  obtain ⟨post, hcopied⟩ := strcpy_terminated hlong
  refine ⟨hnul, post, ?_⟩
  simp only [List.nil_append, List.length_nil] at hcut hflagged
  rw [pathDoubleDot, hroom, List.replicate_succ, strlen_append _ (joinPath_nulFree hnames)]
  simp only [Option.bind_eq_bind, Option.bind_some, hcut, hflagged, flagEntries, hcopy,
    stringAt_zero rest hfinalNul]
  exact hcopied

/-! ### The end of the path -/

theorem skipSlashesFrom_text {text : List Byte} (tail : List Byte) (hne : text ≠ [])
    (hlast : text.getLast? ≠ some slash) :
    skipSlashesFrom (text.length - 1) (text ++ tail) = some (text ++ tail) := by
  obtain ⟨front, last, rfl⟩ : ∃ front last, text = front ++ [last] :=
    ⟨_, _, (List.dropLast_append_getLast hne).symm⟩
  have hchar : last ≠ slash := by simpa using hlast
  rw [List.length_append, List.length_singleton, Nat.add_sub_cancel]
  cases hfront : front.length with
  | zero => rfl
  | succ i =>
      have hget : (front ++ [last] ++ tail)[i + 1]? = some last := by
        rw [← hfront]
        simp
      rw [skipSlashesFrom, hget, Option.bind_eq_bind, Option.bind_some, if_neg hchar]

/-- A slash at the end goes, unless it is the whole path. -/
theorem skipLastSlash_final {text rest : List Byte} {slashes : List Nat} (hnul : 0 ∉ text)
    (hlast : text.getLast? ≠ some slash) (hroot : 0 ∈ slashes) :
    ∃ path, skipLastSlash
        (text ++ (if text.length ∈ slashes then [slash] else []) ++ 0 :: rest) = some path ∧
      stringAt path 0 = some (if text = [] then [slash] else text) := by
  by_cases hne : text = []
  · subst hne
    rw [List.length_nil, if_pos hroot, if_pos rfl]
    exact ⟨slash :: 0 :: rest, rfl, rfl⟩
  · rw [if_neg hne]
    split
    next =>
      have hput := putChar_append text (0 :: rest) slash 0
      have hget : (text ++ slash :: 0 :: rest)[text.length]? = some slash := by simp
      have hstrlen : strlen (text ++ [slash] ++ 0 :: rest) = some (text ++ [slash]).length :=
        strlen_append rest (List.not_mem_append hnul (by decide))
      refine ⟨text ++ 0 :: 0 :: rest, ?_, stringAt_zero (0 :: rest) hnul⟩
      rw [skipLastSlash, hstrlen, List.length_append, List.length_singleton, Option.bind_eq_bind,
        Option.bind_some, Nat.add_sub_cancel, List.append_assoc, List.singleton_append]
      obtain ⟨len, hlen⟩ := Nat.exists_eq_add_of_le' (List.length_pos_of_ne_nil hne)
      have hend := skipSlashesFrom_text (0 :: 0 :: rest) hne hlast
      rw [hlen] at hget hput hend ⊢
      rw [skipSlashesFrom, hget, Option.bind_eq_bind, Option.bind_some, if_pos rfl, hput,
        Option.bind_eq_bind, Option.bind_some]
      exact hend
    next =>
      rw [List.append_nil]
      refine ⟨text ++ 0 :: rest, ?_, stringAt_zero rest hnul⟩
      rw [skipLastSlash, strlen_append rest hnul]
      exact skipSlashesFrom_text (0 :: rest) hne hlast

/-- The text ends as its last component does. -/
theorem copyNames_getLast? (hnames : ∀ name ∈ names, name ≠ [] ∧ slash ∉ name) :
    (copyNames slashes [] names).getLast? ≠ some slash := by
  rcases List.eq_nil_or_concat names with rfl | ⟨front, name, rfl⟩
  · simp [copyNames]
  · obtain ⟨hne, hslash⟩ := hnames name (by simp)
    rw [List.concat_eq_append, copyNames_append, copyNames, copyNames, ← List.append_assoc,
      List.getLast?_append_of_ne_nil _ hne]
    exact fun hlast => hslash (List.mem_of_getLast? hlast)

/-- The components that are copied are components of the path. -/
theorem mem_copied (hmem : name ∈ copied names) :
    name ∈ Cancellation.remaining isDotDot names ∧ name.head? ≠ some flag := by
  simpa [copied] using hmem

theorem copied_subset (hmem : name ∈ copied names) : name ∈ names :=
  (Cancellation.remaining_sublist isDotDot names).subset (mem_copied hmem).1

/-- The path that `path_double_dot` and `skip_last_slash` make. -/
theorem doubleDot_string (hnames : ∀ name ∈ names, IsComponent name) (hne : names ≠ [])
    (hlt : (joinPath names).length < 64) :
    ∃ path, (pathDoubleDot (joinPath names ++
        List.replicate (64 - (joinPath names).length) 0)).bind skipLastSlash = some path ∧
      stringAt path 0 = some (if copiedText names = [] then [slash] else copiedText names) := by
  obtain ⟨hnul, rest, hdots⟩ := pathDoubleDot_joinPath hnames hlt
  have hlast : (copiedText names).getLast? ≠ some slash := copyNames_getLast? fun name hname =>
    ⟨(hnames name (copied_subset hname)).nonempty, (hnames name (copied_subset hname)).slashFree⟩
  have hroot : 0 ∈ starts names := by
    obtain ⟨first, others, rfl⟩ := List.exists_cons_of_ne_nil hne
    exact List.mem_cons_self
  rw [hdots, Option.bind_some]
  exact skipLastSlash_final hnul hlast hroot

/-! ### The text against the canonical path -/

theorem prefix_copyNames (slashes : List Nat) (text : List Byte) (names : List (List Byte)) :
    text <+: copyNames slashes text names := by
  induction names generalizing text with
  | nil => exact List.prefix_rfl
  | cons name names ih => exact (List.prefix_append text _).trans (ih _)

/-- The text is the path of the copied components if and only if a slash stands where each
of them starts. -/
theorem copyNames_eq_iff (slashes : List Nat) (text : List Byte)
    (hnames : ∀ name ∈ names, name ≠ [] ∧ slash ∉ name) :
    copyNames slashes text names = text ++ joinPath names ↔
      ∀ pos ∈ startsFrom text.length names, pos ∈ slashes := by
  induction names generalizing text with
  | nil => simp [copyNames, joinPath, startsFrom]
  | cons name names ih =>
      obtain ⟨hne, hslash⟩ := hnames name List.mem_cons_self
      have hrest := fun other hother => hnames other (List.mem_cons_of_mem name hother)
      rw [copyNames, startsFrom, List.forall_mem_cons]
      by_cases hmem : text.length ∈ slashes
      · have hlength : (text ++ ([slash] ++ name)).length = text.length + 1 + name.length := by
          simp only [List.length_append, List.length_singleton]
          omega
        rw [if_pos hmem, ← hlength, ← ih _ hrest, joinPath_cons, List.append_assoc,
          List.append_assoc, List.singleton_append]
        exact (and_iff_right hmem).symm
      · -- then the component stands where its slash belongs
        refine iff_of_false (fun heq => ?_) fun hall => hmem hall.1
        rw [if_neg hmem, List.nil_append] at heq
        obtain ⟨char, chars, rfl⟩ := List.exists_cons_of_ne_nil hne
        obtain ⟨rest, hprefix⟩ := prefix_copyNames slashes (text ++ char :: chars) names
        rw [← hprefix, List.append_assoc, List.append_cancel_left_eq, joinPath_cons,
          List.cons_append, List.cons.injEq] at heq
        exact hslash (heq.1 ▸ List.mem_cons_self)

theorem copyNames_ne_nil (slashes : List Nat) (text : List Byte) (hne : names ≠ [])
    (hnames : ∀ name ∈ names, name ≠ []) : copyNames slashes text names ≠ [] := by
  obtain ⟨first, others, rfl⟩ := List.exists_cons_of_ne_nil hne
  obtain ⟨rest, hprefix⟩ := prefix_copyNames slashes
    (text ++ ((if text.length ∈ slashes then [slash] else []) ++ first)) others
  rw [copyNames, ← hprefix, List.append_assoc, List.append_assoc]
  intro hempty
  obtain ⟨-, hempty⟩ := List.append_eq_nil_iff.mp hempty
  obtain ⟨-, hempty⟩ := List.append_eq_nil_iff.mp hempty
  exact hnames first List.mem_cons_self (List.append_eq_nil_iff.mp hempty).1

/-- Without its slashes the text is the copied components. -/
theorem filter_copyNames (text : List Byte) (hnames : ∀ name ∈ names, slash ∉ name) :
    (copyNames slashes text names).filter (· ≠ slash) =
      text.filter (· ≠ slash) ++ names.flatten := by
  induction names generalizing text with
  | nil => simp [copyNames]
  | cons name names ih =>
      have hname : name.filter (· ≠ slash) = name :=
        List.filter_eq_self.mpr fun char hchar =>
          decide_eq_true (ne_of_mem_of_not_mem hchar (hnames name List.mem_cons_self))
      have hslash : (if text.length ∈ slashes then [slash] else []).filter (· ≠ slash) = [] := by
        split
        next => rfl
        next => rfl
      rw [copyNames, ih _ fun other hother => hnames other (List.mem_cons_of_mem name hother),
        List.filter_append, List.filter_append, hslash, hname, List.nil_append, List.flatten_cons,
        List.append_assoc]

/-- So is the path of the components. -/
theorem filter_joinPath (hnames : ∀ name ∈ names, name ≠ [] ∧ slash ∉ name) :
    (joinPath names).filter (· ≠ slash) = names.flatten := by
  have htext : copyNames (starts names) [] names = [] ++ joinPath names :=
    (copyNames_eq_iff _ [] hnames).mpr fun _ hmem => hmem
  rw [← List.nil_append (joinPath names), ← htext,
    filter_copyNames [] fun name hname => (hnames name hname).2]
  rfl

theorem length_flatten_filter_le (keeps : List Byte → Bool) (names : List (List Byte)) :
    (names.filter keeps).flatten.length ≤ names.flatten.length := by
  induction names with
  | nil => exact Nat.le_refl _
  | cons name names ih =>
      rw [List.filter_cons, List.flatten_cons, List.length_append]
      split
      next =>
        rw [List.flatten_cons, List.length_append]
        exact Nat.add_le_add_left ih _
      next => exact ih.trans (Nat.le_add_left _ _)

/-- A component that is left out is missing in the text. -/
theorem eq_of_flatten_filter {keeps : List Byte → Bool} (hnames : ∀ name ∈ names, name ≠ [])
    (hflatten : (names.filter keeps).flatten.length = names.flatten.length) :
    ∀ name ∈ names, keeps name = true := by
  induction names with
  | nil => exact fun _ hmem => absurd hmem List.not_mem_nil
  | cons name names ih =>
      have hlength := List.length_pos_of_ne_nil (hnames name List.mem_cons_self)
      have hrest := length_flatten_filter_le keeps names
      rw [List.flatten_cons, List.length_append] at hflatten
      by_cases hkeeps : keeps name = true
      · rw [List.filter_cons_of_pos hkeeps, List.flatten_cons, List.length_append] at hflatten
        rw [List.forall_mem_cons]
        exact ⟨hkeeps, ih (fun other hother => hnames other (List.mem_cons_of_mem name hother))
          (by omega)⟩
      · rw [List.filter_cons_of_neg hkeeps] at hflatten
        omega

end

/-! ### The whole path -/

/-- The canonical path of components: `/`, or `/c1/.../cn`. -/
def canonicalPath (names : List (List Byte)) : List Byte :=
  if names = [] then [slash] else joinPath names

/-- The absolute path of an argument: the current directory for an empty one, and else its
own if it has a slash in front. -/
def absolutePath (curDir arg : List Byte) : List Byte :=
  if arg = [] then curDir
  else if arg.head? = some slash then arg
  else if curDir = [slash] then curDir ++ arg
  else curDir ++ slash :: arg

/-- `format_path` makes the canonical path of the components that are left when every `..`
has taken away the nearest one before it. -/
def FormatsPath (curDir arg : List Byte) (names : List (List Byte)) : Prop :=
  ∃ newPath, formatPath curDir arg (List.replicate 64 0) = some newPath ∧
    stringAt newPath 0 = some (canonicalPath (Cancellation.resolve isDotDot names))

section

variable {curDir arg : List Byte} {names : List (List Byte)}

/-- `path_relative2abs` into an array of zeros. -/
theorem pathRelative2abs_eq (hlen : (absolutePath curDir arg).length ≤ 64) :
    pathRelative2abs curDir arg (List.replicate 64 0) =
      some (absolutePath curDir arg ++
        List.replicate (64 - (absolutePath curDir arg).length) 0) := by
  unfold absolutePath at hlen ⊢
  unfold pathRelative2abs
  split
  next hempty =>
    rw [if_pos hempty] at hlen
    exact strcpy_replicate hlen
  next hempty =>
    rw [if_neg hempty] at hlen
    split
    next hhead =>
      rw [if_pos hhead] at hlen
      exact strcpy_replicate hlen
    next hhead =>
      rw [if_neg hhead] at hlen
      by_cases hroot : curDir = [slash]
      · rw [if_pos hroot, List.length_append] at hlen
        obtain ⟨room, hroom⟩ : ∃ room, 64 - curDir.length = arg.length + room :=
          Nat.exists_eq_add_of_le (by omega)
        have hcopied := memcpy_append curDir (List.replicate arg.length 0) (List.replicate room 0)
          (List.length_replicate (n := arg.length) (a := (0 : Byte)))
        rw [strcpy_replicate (by omega), hroom, List.replicate_add, Option.bind_eq_bind,
          Option.bind_some, if_pos (strcmp_iff.mpr hroot), if_pos hroot, strcpy, hcopied,
          List.length_append, List.append_assoc]
        congr 4
        omega
      · rw [if_neg hroot, List.length_append, List.length_cons] at hlen
        obtain ⟨room, hroom⟩ : ∃ room, 64 - curDir.length = arg.length + room + 1 :=
          ⟨64 - curDir.length - arg.length - 1, by omega⟩
        have hput := putChar_append curDir (List.replicate (arg.length + room) 0) 0 slash
        have hcopied := memcpy_append (curDir ++ [slash]) (List.replicate arg.length 0)
          (List.replicate room 0) (List.length_replicate (n := arg.length) (a := (0 : Byte)))
        rw [List.length_append, List.append_assoc, List.append_assoc] at hcopied
        rw [strcpy_replicate (by omega), hroom, List.replicate_succ, Option.bind_eq_bind,
          Option.bind_some, if_neg (mt strcmp_iff.mp hroot), if_neg hroot, hput,
          Option.bind_some, List.replicate_add, strcpy]
        refine hcopied.trans ?_
        have hleft : 64 - (curDir.length + (arg.length + 1)) = room := by omega
        rw [List.append_assoc, List.length_append, List.length_cons, hleft]
        rfl

theorem formatPath_string (hpath : absolutePath curDir arg = canonicalPath names)
    (hnames : ∀ name ∈ names, IsComponent name) (hlen : (canonicalPath names).length < 64) :
    ∃ newPath, formatPath curDir arg (List.replicate 64 0) = some newPath ∧
      stringAt newPath 0 = some (if copiedText names = [] then [slash] else copiedText names) := by
  have habs := pathRelative2abs_eq (hpath ▸ hlen.le)
  rw [hpath] at habs
  rw [formatPath, habs]
  by_cases hroot : names = []
  · subst hroot
    exact ⟨slash :: List.replicate 63 0, by decide, by decide⟩
  · rw [canonicalPath, if_neg hroot] at hlen ⊢
    exact doubleDot_string hnames hroot hlen

theorem filter_canonicalPath (hnames : ∀ name ∈ names, name ≠ [] ∧ slash ∉ name) :
    (canonicalPath names).filter (· ≠ slash) = names.flatten := by
  rw [canonicalPath]
  split
  next hnil =>
    rw [hnil]
    rfl
  next => exact filter_joinPath hnames

/-- The copied components make the canonical path of the remaining ones if and only if each
of these starts where a component starts, and none looks flagged. -/
theorem copiedText_eq_iff (hnames : ∀ name ∈ names, IsComponent name) :
    (if copiedText names = [] then [slash] else copiedText names) =
        canonicalPath (Cancellation.remaining isDotDot names) ↔
      (∀ pos ∈ starts (Cancellation.remaining isDotDot names), pos ∈ starts names) ∧
        ∀ name ∈ Cancellation.remaining isDotDot names, name.head? ≠ some flag := by
  have hremaining : ∀ name ∈ Cancellation.remaining isDotDot names, name ≠ [] ∧ slash ∉ name := by
    intro name hname
    have hcomponent := hnames name
      ((Cancellation.remaining_sublist isDotDot names).subset hname)
    exact ⟨hcomponent.nonempty, hcomponent.slashFree⟩
  have hall : (∀ name ∈ Cancellation.remaining isDotDot names, name.head? ≠ some flag) →
      copied names = Cancellation.remaining isDotDot names := fun hkept =>
    List.filter_eq_self.mpr fun name hname => decide_eq_true (hkept name hname)
  have hjoined := copyNames_eq_iff (starts names) [] hremaining
  rw [List.nil_append] at hjoined
  constructor
  · intro heq
    have hfiltered : (copiedText names).filter (· ≠ slash) = (copied names).flatten :=
      filter_copyNames [] fun name hname => (hremaining name (mem_copied hname).1).2
    -- both sides have the same characters besides their slashes
    have hflatten : (copied names).flatten = (Cancellation.remaining isDotDot names).flatten := by
      rw [← filter_canonicalPath hremaining, ← heq]
      split
      next hempty =>
        rw [← hfiltered, hempty]
        rfl
      next => exact hfiltered.symm
    have hkept : ∀ name ∈ Cancellation.remaining isDotDot names, name.head? ≠ some flag := by
      intro name hname
      have hkeeps := eq_of_flatten_filter (fun other hother => (hremaining other hother).1)
        (congrArg List.length hflatten) name hname
      exact of_decide_eq_true hkeeps
    refine ⟨?_, hkept⟩
    rw [copiedText, hall hkept, canonicalPath] at heq
    by_cases hnone : Cancellation.remaining isDotDot names = []
    · rw [hnone]
      exact fun _ hmem => absurd hmem List.not_mem_nil
    · rw [if_neg (copyNames_ne_nil _ _ hnone fun name hname => (hremaining name hname).1),
        if_neg hnone] at heq
      exact hjoined.mp heq
  · rintro ⟨hstarts, hkept⟩
    rw [copiedText, hall hkept, canonicalPath]
    by_cases hnone : Cancellation.remaining isDotDot names = []
    · rw [hnone]
      rfl
    · rw [if_neg (copyNames_ne_nil _ _ hnone fun name hname => (hremaining name hname).1),
        if_neg hnone]
      exact hjoined.mpr hstarts

/-- `format_path` makes the canonical path if and only if each component that is left starts,
in this path, where some component starts in the absolute path of the argument, and none of
them begins with the character that is the flag. -/
theorem formatsPath_iff (hpath : absolutePath curDir arg = canonicalPath names)
    (hnames : ∀ name ∈ names, IsComponent name) (hlen : (canonicalPath names).length < 64) :
    FormatsPath curDir arg names ↔
      (∀ pos ∈ starts (Cancellation.resolve isDotDot names), pos ∈ starts names) ∧
        ∀ name ∈ Cancellation.resolve isDotDot names, name.head? ≠ some flag := by
  obtain ⟨newPath, hformat, hstring⟩ := formatPath_string hpath hnames hlen
  rw [Cancellation.resolve_eq_remaining, ← copiedText_eq_iff hnames, FormatsPath,
    Cancellation.resolve_eq_remaining]
  constructor
  · rintro ⟨other, hother, hcanonical⟩
    rw [hformat, Option.some.injEq] at hother
    rw [← hother, hstring, Option.some.injEq] at hcanonical
    exact hcanonical
  · intro heq
    exact ⟨newPath, hformat, heq ▸ hstring⟩

/-- `"a/../b/c"` in the root. -/
def shortArg : List Byte := ['a', '/', '.', '.', '/', 'b', '/', 'c'].map ofChar

/-- `"a/../bb/c"`. -/
def longArg : List Byte := ['a', '/', '.', '.', '/', 'b', 'b', '/', 'c'].map ofChar

/-- The components `a`, `..`, `b` and `c`. -/
theorem formatsPath_short :
    FormatsPath (canonicalPath []) shortArg
      [[ofChar 'a'], dotDot, [ofChar 'b'], [ofChar 'c']] := by
  refine (formatsPath_iff (by decide) ?_ (by decide)).mpr (by decide)
  intro name hname
  simp only [List.mem_cons, List.not_mem_nil, or_false] at hname
  rcases hname with rfl | rfl | rfl | rfl <;> constructor <;> decide

/-- With a longer name the slash behind it is lost: the path is `/bbc`. -/
theorem longer_name_loses_slash :
    ¬ ∀ (dir names : List (List Byte)) (arg : List Byte), (∀ name ∈ dir, IsComponent name) →
      absolutePath (canonicalPath dir) arg = canonicalPath names →
      (∀ name ∈ names, IsComponent name ∧ name ≠ [Fs.dot]) → (canonicalPath names).length < 64 →
      FormatsPath (canonicalPath dir) arg names := by
  intro hall
  have hnames : ∀ name ∈ [[ofChar 'a'], dotDot, [ofChar 'b', ofChar 'b'], [ofChar 'c']],
      IsComponent name ∧ name ≠ [Fs.dot] := by
    intro name hname
    simp only [List.mem_cons, List.not_mem_nil, or_false] at hname
    rcases hname with rfl | rfl | rfl | rfl <;> refine ⟨?_, by decide⟩ <;> constructor <;> decide
  obtain ⟨newPath, hformat, hstring⟩ := hall [] _ longArg
    (fun _ hmem => absurd hmem List.not_mem_nil) (by decide) hnames (by decide)
  have hseen : (formatPath (canonicalPath []) longArg (List.replicate 64 0)).bind (stringAt · 0) =
      some (['/', 'b', 'b', 'c'].map ofChar) := by decide
  rw [hformat, Option.bind_some, hstring] at hseen
  exact absurd hseen (by decide)

end

end Shmily.Terminal
