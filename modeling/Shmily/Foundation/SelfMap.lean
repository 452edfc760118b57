import Mathlib.Logic.Function.Basic
import Mathlib.Tactic.Common

/-! # Page tables that are reached through themselves

A machine translates a page through two levels of tables, a directory and the tables
that it names. The last entry of the directory names the directory itself, so the
tables are seen as pages too, and the program changes them by stores to these pages. The
machine may remember any translation that was right at some time, and nothing tells it
to forget one. It still never misses a table, as long as directory entries that are
present are left alone.
-/

namespace Shmily.Foundation

/-- The words of all page frames. -/
abbrev Frames := Nat → Nat → Nat

/-- How a machine reads its tables: the frame that an entry names if it is present, the
number of entries of a table, and the frame of the directory. -/
structure PageFormat where
  decode : Nat → Option Nat
  width : Nat
  dir : Nat
  width_pos : 0 < width

namespace PageFormat

variable (fmt : PageFormat)

/-- What the tables say about a page. -/
def walk (frames : Frames) (page : Nat) : Option Nat :=
  (fmt.decode (frames fmt.dir (page / fmt.width))).bind fun table =>
    fmt.decode (frames table (page % fmt.width))

/-- The page at which a table is seen. -/
def window (i : Nat) : Nat := (fmt.width - 1) * fmt.width + i

/-- The last directory entry names the directory. -/
def SelfMapped (frames : Frames) : Prop :=
  fmt.decode (frames fmt.dir (fmt.width - 1)) = some fmt.dir

variable {fmt} {frames : Frames} {i : Nat}

theorem walk_window (hself : fmt.SelfMapped frames) (hi : i < fmt.width) :
    fmt.walk frames (fmt.window i) = fmt.decode (frames fmt.dir i) := by
  have hdiv : fmt.window i / fmt.width = fmt.width - 1 := by
    rw [window, Nat.mul_comm, Nat.mul_add_div fmt.width_pos, Nat.div_eq_of_lt hi, Nat.add_zero]
  have hmod : fmt.window i % fmt.width = i := by
    rw [window, Nat.mul_comm, Nat.mul_add_mod, Nat.mod_eq_of_lt hi]
  rw [walk, hdiv, hself, Option.bind_some, hmod]

end PageFormat

/-- The answers of a cache of translations, by the number of accesses so far and the page. -/
abbrev TranslationCache := Nat → Nat → Option Nat

/-- The frames, what they held before, and the number of accesses. -/
structure Mmu where
  frames : Frames
  earlier : List Frames
  accesses : Nat

namespace Mmu

/-- The frame that an access to a page goes to; the cache is used if its answer was right
at some time. -/
def frameOf (fmt : PageFormat) (cache : TranslationCache) (mmu : Mmu) (page : Nat) : Option Nat :=
  if cache mmu.accesses page ≠ none ∧
      cache mmu.accesses page ∈ mmu.earlier.map fun old => fmt.walk old page then
    cache mmu.accesses page
  else fmt.walk mmu.frames page

/-- Load a word; `none` is a page fault. -/
def load (fmt : PageFormat) (cache : TranslationCache) (mmu : Mmu) (page idx : Nat) :
    Option (Nat × Mmu) :=
  (mmu.frameOf fmt cache page).map fun frame =>
    (mmu.frames frame idx, { mmu with accesses := mmu.accesses + 1 })

/-- The frames after a store. -/
def write (mmu : Mmu) (frame idx value : Nat) : Mmu where
  frames := Function.update mmu.frames frame (Function.update (mmu.frames frame) idx value)
  earlier := mmu.frames :: mmu.earlier
  accesses := mmu.accesses + 1

/-- Store a word. -/
def store (fmt : PageFormat) (cache : TranslationCache) (mmu : Mmu) (page idx value : Nat) :
    Option Mmu :=
  (mmu.frameOf fmt cache page).map fun frame => mmu.write frame idx value

/-- Store zeros to the first words of a page. -/
def clear (fmt : PageFormat) (cache : TranslationCache) (page : Nat) : Nat → Mmu → Option Mmu
  | 0, mmu => some mmu
  | n + 1, mmu => (clear fmt cache page n mmu).bind fun mmu => mmu.store fmt cache page n 0

/-- The directory names itself, and names no table now that it has replaced. -/
structure Stable (fmt : PageFormat) (mmu : Mmu) : Prop where
  self : fmt.SelfMapped mmu.frames
  selfEarlier : ∀ old ∈ mmu.earlier, fmt.SelfMapped old
  kept : ∀ old ∈ mmu.earlier, ∀ i < fmt.width,
    fmt.decode (old fmt.dir i) = none ∨
      fmt.decode (old fmt.dir i) = fmt.decode (mmu.frames fmt.dir i)

/-- No translation that was right at some time is wrong now. -/
def Fresh (fmt : PageFormat) (mmu : Mmu) : Prop :=
  ∀ old ∈ mmu.earlier, ∀ page,
    fmt.walk old page = none ∨ fmt.walk old page = fmt.walk mmu.frames page

variable {fmt : PageFormat} {cache : TranslationCache} {mmu : Mmu} {i idx value frame page : Nat}

/-- The directory at the start. -/
theorem stable_start {frames : Frames} (hself : fmt.SelfMapped frames) :
    Stable fmt ⟨frames, [], 0⟩ :=
  ⟨hself, fun _ hmem => absurd hmem List.not_mem_nil, fun _ hmem => absurd hmem List.not_mem_nil⟩

namespace Fresh

/-- Whatever the cache remembers, a page that is mapped is seen in its frame. -/
theorem frameOf_eq (hfresh : mmu.Fresh fmt) (hwalk : fmt.walk mmu.frames page = some frame) :
    mmu.frameOf fmt cache page = some frame := by
  rw [frameOf]
  split
  next hcached =>
    obtain ⟨hsome, hmem⟩ := hcached
    obtain ⟨old, hold, hanswer⟩ := List.mem_map.mp hmem
    rw [← hanswer] at hsome ⊢
    rw [(hfresh old hold page).resolve_left hsome, hwalk]
  next => exact hwalk

/-- A store to an entry that was absent. -/
theorem write (hfresh : mmu.Fresh fmt) (habsent : fmt.decode (mmu.frames frame idx) = none) :
    (mmu.write frame idx value).Fresh fmt := by
  have hentry : ∀ {other otherIdx named}, fmt.decode (mmu.frames other otherIdx) = some named →
      (mmu.write frame idx value).frames other otherIdx = mmu.frames other otherIdx := by
    intro other otherIdx named hsome
    rw [Mmu.write]
    dsimp only
    by_cases hframe : other = frame
    · subst hframe
      have hidx : otherIdx ≠ idx := by
        rintro rfl
        rw [habsent] at hsome
        cases hsome
      rw [Function.update_self, Function.update_of_ne hidx]
    · rw [Function.update_of_ne hframe]
  have hwalk : ∀ page named, fmt.walk mmu.frames page = some named →
      fmt.walk (mmu.write frame idx value).frames page = some named := by
    intro page named hpage
    obtain ⟨table, htable, hnamed⟩ := Option.bind_eq_some_iff.mp hpage
    rw [PageFormat.walk, hentry htable, htable, Option.bind_some, hentry hnamed, hnamed]
  have hsame : ∀ old : Frames, (∀ page, fmt.walk old page = none ∨
      fmt.walk old page = fmt.walk mmu.frames page) → ∀ page, fmt.walk old page = none ∨
      fmt.walk old page = fmt.walk (mmu.write frame idx value).frames page := by
    intro old hold page
    cases hpage : fmt.walk old page with
    | none => exact .inl rfl
    | some named =>
        have hnow := (hold page).resolve_left (hpage ▸ Option.some_ne_none named)
        exact .inr (hwalk page named (hnow.symm.trans hpage)).symm
  intro old hmem
  rcases List.mem_cons.mp hmem with rfl | hearlier
  · exact hsame _ fun _ => .inr rfl
  · exact hsame old (hfresh old hearlier)

end Fresh

namespace Stable

/-- Whatever the cache remembers, a table is seen through its window. -/
theorem frameOf_window (hstable : mmu.Stable fmt) (hi : i < fmt.width) :
    mmu.frameOf fmt cache (fmt.window i) = fmt.decode (mmu.frames fmt.dir i) := by
  rw [frameOf]
  split
  next hcached =>
    obtain ⟨hsome, hmem⟩ := hcached
    obtain ⟨old, hold, hanswer⟩ := List.mem_map.mp hmem
    rw [PageFormat.walk_window (hstable.selfEarlier old hold) hi] at hanswer
    rw [← hanswer] at hsome ⊢
    exact (hstable.kept old hold i hi).resolve_left hsome
  next => exact PageFormat.walk_window hstable.self hi

theorem load_window (hstable : mmu.Stable fmt) (hi : i < fmt.width) :
    mmu.load fmt cache (fmt.window i) idx = (fmt.decode (mmu.frames fmt.dir i)).map fun table =>
      (mmu.frames table idx, { mmu with accesses := mmu.accesses + 1 }) := by
  rw [load, hstable.frameOf_window hi]

theorem store_window (hstable : mmu.Stable fmt) (hi : i < fmt.width) :
    mmu.store fmt cache (fmt.window i) idx value =
      (fmt.decode (mmu.frames fmt.dir i)).map fun table => mmu.write table idx value := by
  rw [store, hstable.frameOf_window hi]

theorem access (hstable : mmu.Stable fmt) :
    Stable fmt { mmu with accesses := mmu.accesses + 1 } :=
  ⟨hstable.self, hstable.selfEarlier, hstable.kept⟩

/-- A store that leaves the directory entries that are present alone. -/
theorem write (hstable : mmu.Stable fmt)
    (hplace : frame = fmt.dir → fmt.decode (mmu.frames fmt.dir idx) = none) :
    (mmu.write frame idx value).Stable fmt := by
  have hentry : ∀ i, fmt.decode (mmu.frames fmt.dir i) = none ∨
      (mmu.write frame idx value).frames fmt.dir i = mmu.frames fmt.dir i := by
    intro i
    by_cases hat : frame = fmt.dir ∧ i = idx
    · exact .inl (hat.2 ▸ hplace hat.1)
    · refine .inr ?_
      rw [Mmu.write]
      dsimp only
      by_cases hframe : frame = fmt.dir
      · rw [hframe, Function.update_self, Function.update_of_ne fun hidx => hat ⟨hframe, hidx⟩]
      · rw [Function.update_of_ne (Ne.symm hframe)]
  refine ⟨?_, fun old hmem => ?_, fun old hmem i hi => ?_⟩
  · rcases hentry (fmt.width - 1) with hnone | hsame
    · exact absurd (hnone.symm.trans hstable.self) (Option.some_ne_none _).symm
    · exact (congrArg fmt.decode hsame).trans hstable.self
  · rcases List.mem_cons.mp hmem with rfl | hearlier
    · exact hstable.self
    · exact hstable.selfEarlier old hearlier
  · rcases List.mem_cons.mp hmem with rfl | hearlier
    · exact (hentry i).imp_right fun hsame => (congrArg fmt.decode hsame).symm
    · rcases hstable.kept old hearlier i hi with hnone | hold
      · exact .inl hnone
      · rcases hentry i with hnone | hsame
        · exact .inl (hold.trans hnone)
        · exact .inr (hold.trans (congrArg fmt.decode hsame).symm)

/-- The first words of a table are cleared through its window. -/
theorem clear_window (hstable : mmu.Stable fmt) (cache : TranslationCache) (hi : i < fmt.width)
    {table : Nat} (htable : fmt.decode (mmu.frames fmt.dir i) = some table) (hne : table ≠ fmt.dir)
    (n : Nat) :
    ∃ next, mmu.clear fmt cache (fmt.window i) n = some next ∧ next.Stable fmt ∧
      (next.frames = Function.update mmu.frames table
        fun idx => if idx < n then 0 else mmu.frames table idx) ∧
      ((∀ idx < n, fmt.decode (mmu.frames table idx) = none) → mmu.Fresh fmt → next.Fresh fmt) := by
  induction n with
  | zero => exact ⟨mmu, rfl, hstable, by simp, fun _ => id⟩
  | succ n ih =>
      obtain ⟨next, hnext, hstable', hframes, hfresh⟩ := ih
      have hdir : next.frames fmt.dir = mmu.frames fmt.dir := by
        rw [hframes, Function.update_of_ne hne.symm]
      refine ⟨next.write table n 0, ?_, hstable'.write fun hat => absurd hat hne, ?_, ?_⟩
      · rw [clear, hnext, Option.bind_some, hstable'.store_window hi, hdir, htable, Option.map_some]
      · rw [Mmu.write]
        dsimp only
        rw [hframes, Function.update_idem, Function.update_self]
        congr 1
        funext idx
        by_cases hidx : idx = n
        · rw [hidx, Function.update_self, if_pos (Nat.lt_succ_self n)]
        · rw [Function.update_of_ne hidx]
          exact if_congr (by omega) rfl rfl
      · intro habsent hmmu
        refine (hfresh (fun idx hidx => habsent idx (Nat.lt_succ_of_lt hidx)) hmmu).write ?_
        rw [hframes, Function.update_self, if_neg (Nat.lt_irrefl n)]
        exact habsent n (Nat.lt_succ_self n)

end Stable

end Mmu

end Shmily.Foundation
