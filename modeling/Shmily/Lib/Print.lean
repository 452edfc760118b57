import Shmily.Foundation.ByteArea
import Shmily.Foundation.Run

/-! # The text screen

Video memory holds 25 rows of 80 cells, a character and an attribute each, and the
cursor is a register of the display controller. `putchar` computes in 16 bits and goes
through a segment of 32 KiB; a store behind it is a protection fault. What has been
printed is compared with a page of unbounded length, of which the screen shows the
last rows.
-/

namespace Shmily.Lib

open Foundation

/-- Video memory from its start on, and the cursor. -/
structure Screen where
  video : ByteArea
  cursor : BitVec 16

/-- The last offset in the segment of the video descriptor. -/
def videoLimit : Nat := 0x7fff

namespace Screen

/-- A store through the video segment; `none` is a protection fault. -/
def store (screen : Screen) (offset : BitVec 16) (byte : BitVec 8) : Option Screen :=
  if offset.toNat ≤ videoLimit then
    some { screen with video := Function.update screen.video offset.toNat byte }
  else none

/-- The two stores of a cell, and the position that they leave in the register. -/
def storeCell (screen : Screen) (bx : BitVec 16) (ch : BitVec 8) :
    Option (Screen × BitVec 16) := do
  let bx := bx <<< 1
  let screen ← screen.store bx ch
  let bx := bx + 1
  let screen ← screen.store bx 0x07
  some (screen, bx >>> 1)

/-- The loops that store blanks. -/
def storeBlanks : Nat → Nat → ByteArea → ByteArea
  | 0, _, video => video
  | count + 1, offset, video => storeBlanks count (offset + 2) (video.putLE 2 offset 0x0720)

/-- `roll_screen`. The bytes are copied to lower addresses, in ascending order. -/
def rollScreen (screen : Screen) : Screen where
  video := storeBlanks 80 3840 (screen.video.copyIn 0 screen.video 160 (960 * 4))
  cursor := 1920

/-- `cr` and `lf` of `putchar`. -/
def lineFeed (screen : Screen) (bx : BitVec 16) : Screen :=
  let bx := bx - bx % 80 + 80
  if bx.slt 2000 then { screen with cursor := bx } else screen.rollScreen

def putchar (screen : Screen) (ch : BitVec 8) : Option Screen :=
  let bx := screen.cursor
  if ch = 0xd ∨ ch = 0xa then some (screen.lineFeed bx)
  else if ch = 0x8 then do
    let (screen, bx) ← screen.storeCell (bx - 1) 0x20
    some { screen with cursor := bx }
  else do
    let (screen, bx) ← screen.storeCell bx ch
    let bx := bx + 1
    if bx.slt 2000 then some { screen with cursor := bx } else some (screen.lineFeed bx)

/-- `putstring`; a zero byte ends the string. -/
def putstring (screen : Screen) : List (BitVec 8) → Option Screen
  | [] => some screen
  | ch :: rest => if ch = 0 then some screen else (screen.putchar ch).bind (putstring · rest)

/-- `set_cursor`. -/
def setCursor (screen : Screen) (pos : BitVec 32) : Screen :=
  { screen with cursor := pos.setWidth 16 }

/-- `cls`; the cursor stays. -/
def cls (screen : Screen) : Screen :=
  { screen with video := storeBlanks (80 * 25) 0 screen.video }

end Screen

/-- A page of rows of 80 characters, as long as it has to be. -/
structure Page where
  cell : Nat → BitVec 8
  /-- Where the next character goes. -/
  pos : Nat
  /-- The first row that is still on the screen. -/
  top : Nat

namespace Page

/-- An empty page. -/
def blank : Page := ⟨fun _ => 0x20, 0, 0⟩

/-- The row of the cursor comes into view. -/
def follow (page : Page) : Page :=
  { page with top := max page.top (page.pos / 80 - 24) }

/-- There is no character to take back before the first one on the screen. -/
def putchar (page : Page) (ch : BitVec 8) : Option Page :=
  if ch = 0xd ∨ ch = 0xa then some { page with pos := (page.pos / 80 + 1) * 80 }.follow
  else if ch = 0x8 then
    if page.pos = 80 * page.top then none
    else some { page with cell := Function.update page.cell (page.pos - 1) 0x20,
                          pos := page.pos - 1 }
  else some { page with cell := Function.update page.cell page.pos ch, pos := page.pos + 1 }.follow

def putstring (page : Page) : List (BitVec 8) → Option Page
  | [] => some page
  | ch :: rest => if ch = 0 then some page else (page.putchar ch).bind (putstring · rest)

/-- The position is counted from the first row on the screen. -/
def setCursor (page : Page) (pos : BitVec 32) : Page :=
  { page with pos := 80 * page.top + pos.toNat }

/-- What is on the screen is wiped. -/
def cls (page : Page) : Page :=
  { page with cell := fun k => if 80 * page.top ≤ k ∧ k < 80 * page.top + 2000 then 0x20
                               else page.cell k }

end Page

/-- Video memory holds the 25 rows of a page from `top` on; behind them the page is blank. -/
structure Displays (video : ByteArea) (cell : Nat → BitVec 8) (top : Nat) : Prop where
  cells : ∀ k < 2000, video (2 * k) = cell (80 * top + k) ∧ video (2 * k + 1) = 0x07
  rest : ∀ k, 2000 ≤ k → cell (80 * top + k) = 0x20

/-- The screen shows the last rows of the page, with the cursor where the page goes on. -/
structure Shows (screen : Screen) (page : Page) : Prop
    extends Displays screen.video page.cell page.top where
  cursor : page.pos = 80 * page.top + screen.cursor.toNat
  inside : screen.cursor.toNat < 2000

variable {screen : Screen} {page : Page}

namespace Screen

/-! ## Stores -/

theorem slt_iff {bx : BitVec 16} (hbx : bx.toNat < 2 ^ 15) :
    bx.slt 2000 = true ↔ bx.toNat < 2000 := by
  rw [BitVec.slt_iff_toInt_lt, BitVec.toInt_eq_toNat_of_lt (by omega)]
  have hlimit : (2000 : BitVec 16).toInt = 2000 := rfl
  omega

/-- A cell of the screen lies in the segment. -/
theorem storeCell_eq (screen : Screen) {bx : BitVec 16} (hbx : bx.toNat < 2000) (ch : BitVec 8) :
    screen.storeCell bx ch = some ({ screen with
      video := Function.update (Function.update screen.video (2 * bx.toNat) ch)
        (2 * bx.toNat + 1) 0x07 }, bx) := by
  have hlow : (bx <<< 1).toNat = 2 * bx.toNat := by
    rw [BitVec.toNat_shiftLeft, Nat.shiftLeft_eq]
    omega
  have hhigh : (bx <<< 1 + 1).toNat = 2 * bx.toNat + 1 := by
    have hone : (1 : BitVec 16).toNat = 1 := rfl
    rw [BitVec.toNat_add, hlow, hone]
    exact Nat.mod_eq_of_lt (by omega)
  have hback : (bx <<< 1 + 1) >>> 1 = bx := by
    apply BitVec.eq_of_toNat_eq
    rw [BitVec.toNat_ushiftRight, hhigh, Nat.shiftRight_eq_div_pow]
    omega
  have hstore : ∀ (screen : Screen) (offset : BitVec 16) (byte : BitVec 8), offset.toNat < 4000 →
      screen.store offset byte =
        some { screen with video := Function.update screen.video offset.toNat byte } :=
    fun screen offset byte hlt => if_pos (Nat.le_of_lt (hlt.trans (by decide)))
  rw [storeCell]
  dsimp only
  rw [hstore _ _ _ (by omega), Option.bind_eq_bind, Option.bind_some, hstore _ _ _ (by omega),
    Option.bind_some, hlow, hhigh, hback]

/-- The cell before the first one is not in the segment. -/
theorem storeCell_neg_one (screen : Screen) (ch : BitVec 8) :
    screen.storeCell (0 - 1) ch = none := by
  have hstore : screen.store ((0 - 1 : BitVec 16) <<< 1) ch = none := if_neg (by decide)
  rw [storeCell]
  dsimp only
  rw [hstore]
  rfl

theorem storeBlanks_at (count offset : Nat) (video : ByteArea) (k : Nat) :
    storeBlanks count offset video k =
      if offset ≤ k ∧ k < offset + 2 * count then
        if (k - offset) % 2 = 0 then 0x20 else 0x07
      else video k := by
  induction count generalizing offset video with
  | zero => rw [storeBlanks, if_neg (by omega)]
  | succ count ih =>
      rw [storeBlanks, ih]
      by_cases hfirst : offset ≤ k ∧ k < offset + 2
      · have hword : video.putLE 2 offset 0x0720 k = BitVec.ofNat 8 (0x0720 / 256 ^ (k - offset)) :=
          if_pos hfirst
        have hin : offset ≤ k ∧ k < offset + 2 * (count + 1) := by omega
        rw [if_neg (by omega), if_pos hin, hword]
        rcases (show k = offset ∨ k = offset + 1 by omega) with rfl | rfl
        · rw [Nat.sub_self]
          rfl
        · rw [Nat.add_sub_cancel_left]
          rfl
      · by_cases hin : offset + 2 ≤ k ∧ k < offset + 2 + 2 * count
        · have hparity : (k - (offset + 2)) % 2 = (k - offset) % 2 := by omega
          have hwhole : offset ≤ k ∧ k < offset + 2 * (count + 1) := by omega
          rw [if_pos hin, if_pos hwhole, hparity]
        · rw [if_neg hin, if_neg (by omega), ByteArea.putLE_of_not hfirst]

/-- The rows move up by one, and the last one is blank. -/
theorem rollScreen_cell (screen : Screen) {k : Nat} (hk : k < 2000) :
    screen.rollScreen.video (2 * k) =
        (if k < 1920 then screen.video (2 * (80 + k)) else 0x20) ∧
      screen.rollScreen.video (2 * k + 1) =
        if k < 1920 then screen.video (2 * (80 + k) + 1) else 0x07 := by
  unfold rollScreen
  dsimp only
  rw [storeBlanks_at, storeBlanks_at]
  by_cases hlast : k < 1920
  · have hchar : ¬ (3840 ≤ 2 * k ∧ 2 * k < 3840 + 2 * 80) := by omega
    have hattr : ¬ (3840 ≤ 2 * k + 1 ∧ 2 * k + 1 < 3840 + 2 * 80) := by omega
    rw [if_neg hchar, if_neg hattr, if_pos hlast, if_pos hlast,
      ByteArea.copyIn_at (Nat.zero_le _) (by omega), ByteArea.copyIn_at (Nat.zero_le _) (by omega)]
    exact ⟨congrArg screen.video (by omega), congrArg screen.video (by omega)⟩
  · have hchar : 3840 ≤ 2 * k ∧ 2 * k < 3840 + 2 * 80 := by omega
    have hattr : 3840 ≤ 2 * k + 1 ∧ 2 * k + 1 < 3840 + 2 * 80 := by omega
    rw [if_pos hchar, if_pos hattr, if_neg hlast, if_neg hlast, if_pos (by omega),
      if_neg (by omega)]
    exact ⟨rfl, rfl⟩

end Screen

namespace Displays

variable {video : ByteArea} {cell : Nat → BitVec 8} {top : Nat}

theorem update (hdisplays : Displays video cell top) {pos : Nat} (hpos : pos < 2000)
    (ch : BitVec 8) :
    Displays (Function.update (Function.update video (2 * pos) ch) (2 * pos + 1) 0x07)
      (Function.update cell (80 * top + pos) ch) top := by
  refine ⟨fun k hk => ?_, fun k hk => ?_⟩
  · rcases eq_or_ne k pos with rfl | hne
    · rw [Function.update_self, Function.update_self, Function.update_of_ne (by omega),
        Function.update_self]
      exact ⟨rfl, rfl⟩
    · rw [Function.update_of_ne (by omega), Function.update_of_ne (by omega),
        Function.update_of_ne (by omega), Function.update_of_ne (by omega),
        Function.update_of_ne (by omega)]
      exact hdisplays.cells k hk
  · rw [Function.update_of_ne (by omega)]
    exact hdisplays.rest k hk

/-- The page goes on behind the last row of the screen. -/
theorem roll {screen : Screen} (hdisplays : Displays screen.video cell top) :
    Displays screen.rollScreen.video cell (top + 1) := by
  have hpos : ∀ k, 80 * (top + 1) + k = 80 * top + (80 + k) := fun k => by omega
  refine ⟨fun k hk => ?_, fun k hk => ?_⟩
  · obtain ⟨hchar, hattr⟩ := screen.rollScreen_cell hk
    rw [hchar, hattr, hpos]
    split
    next hlt => exact hdisplays.cells (80 + k) (by omega)
    next hge => exact ⟨(hdisplays.rest (80 + k) (by omega)).symm, rfl⟩
  · rw [hpos]
    exact hdisplays.rest (80 + k) (by omega)

end Displays

/-- A position is shown where the row of the cursor comes into view. -/
theorem shows_follow (screen : Screen) {cell : Nat → BitVec 8}
    (hdisplays : Displays screen.video cell page.top) (hinside : screen.cursor.toNat < 2000) :
    Shows screen
      ({ page with cell := cell, pos := 80 * page.top + screen.cursor.toNat }).follow := by
  have htop : max page.top ((80 * page.top + screen.cursor.toNat) / 80 - 24) = page.top := by
    omega
  unfold Page.follow
  dsimp only
  rw [htop]
  exact ⟨hdisplays, rfl, hinside⟩

/-- The row behind the last one comes into view. -/
theorem shows_roll {cell : Nat → BitVec 8} (hdisplays : Displays screen.video cell page.top) :
    Shows screen.rollScreen
      ({ page with cell := cell, pos := 80 * page.top + 2000 }).follow := by
  have htop : max page.top ((80 * page.top + 2000) / 80 - 24) = page.top + 1 := by omega
  unfold Page.follow
  dsimp only
  rw [htop]
  refine ⟨hdisplays.roll, ?_, (by decide : (1920 : BitVec 16).toNat < 2000)⟩
  change 80 * page.top + 2000 = 80 * (page.top + 1) + 1920
  omega

/-- The next row starts eighty cells behind the start of this one. -/
theorem Screen.toNat_nextRow {bx : BitVec 16} (hbx : bx.toNat ≤ 2000) :
    (bx - bx % 80 + 80).toNat = (bx.toNat / 80 + 1) * 80 := by
  have hmod : (bx % 80).toNat = bx.toNat % 80 := BitVec.toNat_umod
  have hle : bx % 80 ≤ bx := by
    rw [BitVec.le_def, hmod]
    exact Nat.mod_le _ _
  rw [BitVec.toNat_add, BitVec.toNat_sub_of_le hle, hmod]
  change (bx.toNat - bx.toNat % 80 + 80) % 2 ^ 16 = _
  omega

/-- `lf`, from a position on the screen. -/
theorem shows_lineFeed {cell : Nat → BitVec 8}
    (hdisplays : Displays screen.video cell page.top) {bx : BitVec 16} (hbx : bx.toNat < 2000) :
    Shows (screen.lineFeed bx)
      ({ page with cell := cell, pos := 80 * page.top + (bx.toNat / 80 + 1) * 80 }).follow := by
  have hnext := Screen.toNat_nextRow (Nat.le_of_lt hbx)
  unfold Screen.lineFeed
  dsimp only
  split
  next hslt =>
    rw [Screen.slt_iff (by omega)] at hslt
    rw [← hnext]
    exact shows_follow { screen with cursor := bx - bx % 80 + 80 } hdisplays hslt
  next hslt =>
    rw [Screen.slt_iff (by omega)] at hslt
    have hrow : (bx.toNat / 80 + 1) * 80 = 2000 := by omega
    rw [hrow]
    exact shows_roll hdisplays

/-- The position just behind the screen is at the start of a row, and goes to the next. -/
theorem lineFeed_end (screen : Screen) : screen.lineFeed 2000 = screen.rollScreen := by
  unfold Screen.lineFeed
  exact if_neg (by decide)

/-- A character is shown, or both the stores and the page refuse it. -/
theorem Shows.putchar (hshows : Shows screen page) (ch : BitVec 8) :
    Option.Rel Shows (screen.putchar ch) (page.putchar ch) := by
  have hinside := hshows.inside
  have hcursor := hshows.cursor
  unfold Screen.putchar Page.putchar
  dsimp only
  split
  next hline =>
    have hpos : (page.pos / 80 + 1) * 80 =
        80 * page.top + (screen.cursor.toNat / 80 + 1) * 80 := by omega
    rw [hpos]
    exact .some (shows_lineFeed hshows.toDisplays hinside)
  next hline =>
    split
    next hback =>
      by_cases hfirst : page.pos = 80 * page.top
      · have hzero : screen.cursor = 0 := BitVec.eq_of_toNat_eq (by
          rw [hfirst] at hcursor
          exact (Nat.left_eq_add.mp hcursor))
        rw [if_pos hfirst, hzero, Screen.storeCell_neg_one]
        exact .none
      · have hbefore : (screen.cursor - 1).toNat = screen.cursor.toNat - 1 := by
          have hone : (1 : BitVec 16) ≤ screen.cursor := by
            rw [BitVec.le_def]
            change 1 ≤ screen.cursor.toNat
            omega
          rw [BitVec.toNat_sub_of_le hone]
          rfl
        have hpos : page.pos - 1 = 80 * page.top + (screen.cursor.toNat - 1) := by omega
        rw [if_neg hfirst, Screen.storeCell_eq screen (by omega), hbefore, hpos]
        refine .some ⟨hshows.toDisplays.update (by omega) 0x20, ?_, ?_⟩
        · change _ = 80 * page.top + (screen.cursor - 1).toNat
          rw [hbefore]
        · change (screen.cursor - 1).toNat < 2000
          omega
    next hback =>
      have hdisplays := hshows.toDisplays.update hinside ch
      have hnext : (screen.cursor + 1).toNat = screen.cursor.toNat + 1 := by
        have hone : (1 : BitVec 16).toNat = 1 := rfl
        rw [BitVec.toNat_add, hone]
        exact Nat.mod_eq_of_lt (by omega)
      rw [Screen.storeCell_eq screen hinside, Option.bind_eq_bind, Option.bind_some, hcursor]
      dsimp only
      split
      next hslt =>
        rw [Screen.slt_iff (by omega)] at hslt
        rw [Nat.add_assoc, ← hnext]
        exact .some (shows_follow ⟨_, screen.cursor + 1⟩ hdisplays hslt)
      next hslt =>
        -- the last cell of the screen is filled
        rw [Screen.slt_iff (by omega)] at hslt
        have hend : screen.cursor + 1 = 2000 := BitVec.eq_of_toNat_eq (by
          change _ = 2000
          omega)
        have hpos : 80 * page.top + screen.cursor.toNat + 1 = 80 * page.top + 2000 := by omega
        rw [hend, lineFeed_end, hpos]
        exact .some (shows_roll hdisplays)

theorem Shows.putstring (hshows : Shows screen page) (str : List (BitVec 8)) :
    Option.Rel Shows (screen.putstring str) (page.putstring str) := by
  induction str generalizing screen page with
  | nil => exact .some hshows
  | cons ch rest ih =>
      unfold Screen.putstring Page.putstring
      split
      · exact .some hshows
      · have hfirst := hshows.putchar ch
        generalize screen.putchar ch = next at hfirst ⊢
        generalize page.putchar ch = nextPage at hfirst ⊢
        cases hfirst with
        | none => exact .none
        | some hnext => exact ih hnext

/-- What programs do with the screen. -/
inductive ScreenOp
  | putchar (ch : BitVec 8)
  | putstring (str : List (BitVec 8))
  | setCursor (pos : BitVec 32)
  | cls

def Screen.step (screen : Screen) : ScreenOp → Option Screen
  | .putchar ch => screen.putchar ch
  | .putstring str => screen.putstring str
  | .setCursor pos => some (screen.setCursor pos)
  | .cls => some screen.cls

def Page.step (page : Page) : ScreenOp → Option Page
  | .putchar ch => page.putchar ch
  | .putstring str => page.putstring str
  | .setCursor pos => some (page.setCursor pos)
  | .cls => some page.cls

/-- The cursor is set to a cell of the screen. -/
def ScreenOp.OnScreen : ScreenOp → Prop
  | .setCursor pos => pos.toNat < 2000
  | .putchar _ | .putstring _ | .cls => True

/-- The blank screen, with the cursor where it was. -/
theorem Shows.cls (hshows : Shows screen page) : Shows screen.cls page.cls := by
  unfold Screen.cls Page.cls
  refine ⟨⟨fun k hk => ?_, fun k hk => ?_⟩, hshows.cursor, hshows.inside⟩
  · have hin : 80 * page.top ≤ 80 * page.top + k ∧ 80 * page.top + k < 80 * page.top + 2000 := by
      omega
    dsimp only
    rw [Screen.storeBlanks_at, Screen.storeBlanks_at, if_pos (by omega), if_pos (by omega),
      if_pos hin, if_pos (by omega), if_neg (by omega)]
    exact ⟨rfl, rfl⟩
  · have hout : ¬ (80 * page.top ≤ 80 * page.top + k ∧
        80 * page.top + k < 80 * page.top + 2000) := by omega
    dsimp only
    rw [if_neg hout]
    exact hshows.rest k hk

theorem Shows.step (hshows : Shows screen page) {op : ScreenOp} (hop : op.OnScreen) :
    Option.Rel Shows (screen.step op) (page.step op) := by
  cases op with
  | putchar ch => exact hshows.putchar ch
  | putstring str => exact hshows.putstring str
  | setCursor pos =>
      have hpos : (pos.setWidth 16).toNat = pos.toNat := by
        rw [BitVec.toNat_setWidth]
        exact Nat.mod_eq_of_lt (hop.trans (by decide))
      refine .some ⟨hshows.toDisplays, ?_, ?_⟩
      · change _ = 80 * page.top + (pos.setWidth 16).toNat
        rw [hpos]
        rfl
      · exact hpos.trans_lt hop
  | cls => exact .some hshows.cls

/-- After the screen was cleared it always shows the last rows of what a page without end
would hold, whatever is printed; and a store leaves the video segment just when a character
before the first one on the screen is taken back. -/
theorem screen_shows_page (screen : Screen) (ops : List ScreenOp)
    (hops : ∀ op ∈ ops, op.OnScreen) :
    Option.Rel Shows (ops.foldlM Screen.step (screen.setCursor 0).cls)
      (ops.foldlM Page.step Page.blank) := by
  have hcleared : Shows (screen.setCursor 0).cls Page.blank := by
    unfold Screen.cls
    refine ⟨⟨fun k hk => ?_, fun _ _ => rfl⟩, rfl, (by decide : (0 : BitVec 16).toNat < 2000)⟩
    dsimp only
    rw [Screen.storeBlanks_at, Screen.storeBlanks_at, if_pos (by omega), if_pos (by omega),
      if_pos (by omega), if_neg (by omega)]
    exact ⟨rfl, rfl⟩
  exact rel_foldlM hcleared fun op hop _ _ hshows => hshows.step (hops op hop)

/-- Two lines, and their last character taken back. -/
def twoLines : List ScreenOp := [.setCursor 80, .putstring [0x61, 0xa, 0x62], .putchar 0x8]

/-- The two lines are shown. -/
theorem screen_shows_page_two :
    ∃ screen page, twoLines.foldlM Screen.step (Screen.setCursor ⟨.zeros, 0⟩ 0).cls = some screen ∧
      twoLines.foldlM Page.step Page.blank = some page ∧ Shows screen page := by
  have hshows := screen_shows_page ⟨.zeros, 0⟩ twoLines (by
    intro op hop
    simp only [twoLines, List.mem_cons, List.not_mem_nil, or_false] at hop
    rcases hop with rfl | rfl | rfl
    · exact (by decide : (80 : BitVec 32).toNat < 2000)
    · trivial
    · trivial)
  have hends : (twoLines.foldlM Page.step Page.blank).isSome = true := by decide +kernel
  obtain ⟨page, hpage⟩ := Option.isSome_iff_exists.mp hends
  rw [hpage] at hshows
  cases hscreen : twoLines.foldlM Screen.step (Screen.setCursor ⟨.zeros, 0⟩ 0).cls with
  | none =>
      rw [hscreen] at hshows
      cases hshows
  | some screen =>
      rw [hscreen] at hshows
      cases hshows with
      | some hshown => exact ⟨screen, page, rfl, hpage, hshown⟩

end Shmily.Lib
