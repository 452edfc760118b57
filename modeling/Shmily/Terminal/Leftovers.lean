import Shmily.Terminal.Session

/-! # What a command leaves for the next one

Between two commands `reset_terminal` empties the line and clears nine bytes of `argv`,
which are the first two pointers and a byte of the third. The other pointers stay where
earlier commands, or the memory of the object before its construction, have left them.
-/

namespace Shmily

open Foundation Lib

namespace Terminal

/-- The line that was typed. -/
def text (ter : Terminal) : List Byte := (List.range ter.lineIdx.toNat).map ter.line

/-- The words of a line, with one more for a space at its end. -/
def wordCount (text : List Byte) : Nat :=
  (fields space text).length + if text.getLast? = some space then 1 else 0

/-- What a pointer of `argv` stands for: nothing, or a string. -/
def Argument (ter : Terminal) (j : Nat) : Option (List Byte) → Prop
  | none => ter.argv j = 0
  | some str => ter.argv j ≠ 0 ∧ ter.Denotes (ter.argv j) str

/-- `handle_input` works with the same arguments. -/
def SameArguments (ter₁ ter₂ : Terminal) : Prop :=
  ∃ done₁ accesses₁ done₂ accesses₂, ter₁.formatInput = some (done₁, accesses₁) ∧
    ter₂.formatInput = some (done₂, accesses₂) ∧
    ∀ j < 9, ∃ argument, done₁.Argument j argument ∧ done₂.Argument j argument

/-- There is room for the key, and a line that is entered has at most so many words, or as
many as `argv` has pointers. The keyboard sends no zeros. -/
structure Meets (words : Nat) (ses : Session) (key : Key) : Prop where
  room : HasRoom ses key
  notZero : key.ch ≠ 0
  fewWords : ses.mode = .shell → key.ch = carriageReturn →
    wordCount ses.ter.text ≤ max 2 words ∨ 9 ≤ words

/-- A typed line, with no pointer set behind the first so many words. -/
structure Clean (words this : Nat) (ses : Session) : Prop where
  this : ses.ter.this = this
  holds : ∃ text, 0 ∉ text ∧ ses.ter.Holds text
  argc : ses.ter.argc = 0
  null : ∀ j < 9, j < 2 ∨ max 2 words ≤ j → ses.ter.argv j = 0
  idx : ∀ log, ses.mode = .login log → log.idx.toNat ≤ 32

variable {ter after : Terminal} {text : List Byte} {ses next : Session} {key : Key} 
  {i j words this : Nat}

theorem length_places (text : List Byte) : (places text).length = wordCount text := by
  rw [places, List.length_append, Fields.length_starts, wordCount]
  split <;> rfl

/-! ### Strings -/

theorem Denotes.length_le {pointer : Nat} {str other : List Byte} (hstr : ter.Denotes pointer str)
    (hother : ter.Denotes pointer other) : other.length ≤ str.length := by
  refine Nat.le_of_not_lt fun hlonger => hother.nulFree ?_
  have hchar := hother.chars str.length hlonger
  rw [hstr.terminated] at hchar
  exact List.mem_of_getElem? hchar

theorem Denotes.unique {pointer : Nat} {str other : List Byte} (hstr : ter.Denotes pointer str)
    (hother : ter.Denotes pointer other) : str = other := by
  have hlen : str.length = other.length :=
    Nat.le_antisymm (hother.length_le hstr) (hstr.length_le hother)
  refine List.ext_getElem? fun k => ?_
  rcases Nat.lt_or_ge k str.length with hlt | hge
  · rw [hstr.chars k hlt, hother.chars k (hlen ▸ hlt)]
  · rw [List.getElem?_eq_none hge, List.getElem?_eq_none (hlen ▸ hge)]

/-- A pointer stands for one thing. -/
theorem Argument.unique {argument other : Option (List Byte)} (hfirst : ter.Argument j argument)
    (hsecond : ter.Argument j other) : argument = other := by
  cases argument with
  | none =>
      cases other with
      | none => rfl
      | some str => exact absurd hfirst hsecond.1
  | some str =>
      cases other with
      | none => exact absurd hsecond hfirst.1
      | some str' => rw [hfirst.2.unique hsecond.2]

/-! ### The typed line -/

theorem Holds.text_eq (hholds : ter.Holds text) : ter.text = text := by
  refine List.ext_getElem? fun i => ?_
  rw [Terminal.text, List.getElem?_map, hholds.lineIdx]
  rcases Nat.lt_or_ge i text.length with hlt | hge
  · rw [List.getElem?_range hlt, Option.map_some, hholds.chars i (hlt.trans hholds.length),
      List.getD_eq_getElem _ _ hlt, List.getElem?_eq_getElem hlt]
  · rw [List.getElem?_eq_none (by rwa [List.length_range]), List.getElem?_eq_none hge]
    rfl

theorem Holds.of_keeps (hholds : ter.Holds text) (hkeeps : ter.KeepsInput after) :
    after.Holds text where
  length := hholds.length
  chars i hi := by rw [hkeeps.line hi, hholds.chars i hi]
  lineIdx := by rw [hkeeps.lineIdx, hholds.lineIdx]

theorem Holds.of_reset (hkeeps : ter.resetTerminal.KeepsInput after) : after.Holds [] where
  length := Nat.zero_lt_succ _
  chars i hi := by
    rw [hkeeps.line hi, resetTerminal_line hi]
    rfl
  lineIdx := by
    rw [hkeeps.lineIdx, resetTerminal_lineIdx]
    rfl

theorem Holds.typeChar (hholds : ter.Holds text) (ch : Byte) (hroom : ter.lineIdx.toNat < 127) :
    (ter.typeChar ch).Holds (text ++ [ch]) where
  length := by
    rw [List.length_append, ← hholds.lineIdx, List.length_singleton]
    omega
  chars i hi := by
    rw [typeChar_line ch hi, hholds.lineIdx]
    split
    next hlast =>
      rw [hlast, List.getD_append_right _ _ _ _ (Nat.le_refl _), Nat.sub_self]
      rfl
    next hne =>
      rw [hholds.chars i hi]
      rcases Nat.lt_or_ge i text.length with hlt | hge
      · rw [List.getD_append _ _ _ _ hlt]
      · rw [List.getD_eq_default _ _ hge, List.getD_eq_default]
        rw [List.length_append, List.length_singleton]
        omega
  lineIdx := by
    rw [ter.typeChar_lineIdx ch (by omega), hholds.lineIdx, List.length_append,
      List.length_singleton]

theorem Holds.eraseChar (hholds : ter.Holds text) (hsome : ter.lineIdx ≠ 0) :
    ter.eraseChar.Holds text.dropLast where
  length := by
    rw [List.length_dropLast]
    exact Nat.lt_of_le_of_lt (Nat.sub_le _ _) hholds.length
  chars i hi := by
    have hpos : text.length ≠ 0 := by
      rw [← hholds.lineIdx]
      exact fun hzero => hsome (BitVec.eq_of_toNat_eq hzero)
    rw [eraseChar_line hi, toNat_pred hsome, hholds.lineIdx]
    rcases Nat.lt_or_ge i (text.length - 1) with hlt | hge
    · rw [if_neg (Nat.ne_of_lt hlt), hholds.chars i hi, List.getD_eq_getElem _ _ (by omega),
        List.getD_eq_getElem _ _ (by rwa [List.length_dropLast]), List.getElem_dropLast]
    · rw [List.getD_eq_default text.dropLast _ (by rwa [List.length_dropLast])]
      split
      next => rfl
      next hne => rw [hholds.chars i hi, List.getD_eq_default _ _ (by omega)]
  lineIdx := by
    have hlen := hholds.length
    rw [eraseChar_lineIdx hsome (by rw [hholds.lineIdx]; omega), hholds.lineIdx,
      List.length_dropLast]

/-! ### The pointers -/

theorem typeChar_mem (ch : Byte) (hroom : ter.lineIdx.toNat < 128) {addr : Nat}
    (haddr : ter.this + 293 ≤ addr) : (ter.typeChar ch).mem addr = ter.mem addr := by
  have hline : addr ≠ (ter.setLineIdx (ter.lineIdx + 1)).lineAddr ter.lineIdx.toNat := by
    simp only [lineAddr, setLineIdx_this]
    omega
  exact (store_mem_of_ne hline).trans (store_mem_of_ne (by omega))

theorem eraseChar_mem (hroom : (ter.lineIdx - 1).toNat < 128) {addr : Nat}
    (haddr : ter.this + 293 ≤ addr) : ter.eraseChar.mem addr = ter.mem addr := by
  have hline : addr ≠ (ter.setLineIdx (ter.lineIdx - 1)).lineAddr (ter.lineIdx - 1).toNat := by
    simp only [lineAddr, setLineIdx_this]
    omega
  exact (store_mem_of_ne hline).trans (store_mem_of_ne (by omega))

theorem resetTerminal_argc : ter.resetTerminal.argc = 0 := setArgc_argc 0

theorem argv_eq_zero_iff : ter.argv j = 0 ↔ ∀ k < 4, ter.mem (ter.argvAddr j + k) = 0 :=
  ByteArea.getLE_eq_zero_iff

/-- The first two pointers are cleared. -/
theorem resetTerminal_argv_first (hj : j < 2) : ter.resetTerminal.argv j = 0 := by
  rw [argv_eq_zero_iff]
  intro k hk
  rw [resetTerminal_mem, if_pos]
  simp only [argvAddr, resetTerminal_this]
  omega

theorem resetTerminal_argv_null (hnull : ter.argv j = 0) : ter.resetTerminal.argv j = 0 := by
  rw [argv_eq_zero_iff] at hnull ⊢
  intro k hk
  rw [resetTerminal_mem]
  split
  next => rfl
  next => exact hnull k hk

/-- Pointers behind the words are left alone. -/
theorem formatInput_argv_kept {done : Terminal} {accesses : List LineAccess}
    (hholds : ter.Holds text) (hnul : 0 ∉ text) (hargc : ter.argc = 0)
    (hformat : ter.formatInput = some (done, accesses)) (hcount : wordCount text ≤ j) (hj : j < 9) :
    done.argv j = ter.argv j := by
  have hlen := hholds.length
  obtain ⟨accesses', hresult, -, -⟩ := formatInput_eq hholds hnul
  rw [hformat, Option.some.injEq, Prod.mk.injEq] at hresult
  obtain ⟨rfl, -⟩ := hresult
  rw [← length_places] at hcount
  have hnone : (ter.cutRange 0 text.length).argc = 0 := (cutRange_argc hlen).trans hargc
  obtain ⟨hargv, -⟩ := foldl_pushArg_first (fun mark hmark => lt_of_mem_places hlen hmark)
    (Nat.le_of_lt (hcount.trans_lt hj)) hnone
  rw [setArgc_argv _ hj, hargv j hj, List.getElem?_eq_none hcount]
  exact cutRange_argv hlen j

/-! ### The histories -/

theorem Clean.of_keeps (hclean : Clean words this ses) (hkeeps : ses.ter.KeepsInput next.ter)
    (hidx : ∀ log, next.mode = .login log → log.idx.toNat ≤ 32) : Clean words this next where
  this := hkeeps.this.trans hclean.this
  holds := by
    obtain ⟨text, hnul, hholds⟩ := hclean.holds
    exact ⟨text, hnul, hholds.of_keeps hkeeps⟩
  argc := hkeeps.argc.trans hclean.argc
  null j hj hfar := (hkeeps.argv hj).trans (hclean.null j hj hfar)
  idx := hidx

/-- The terminal is reset, and had no pointer set there. -/
theorem Clean.of_reset (hkeeps : ter.resetTerminal.KeepsInput next.ter) (hthis : ter.this = this)
    (hnull : ∀ j < 9, max 2 words ≤ j → ter.argv j = 0)
    (hidx : ∀ log, next.mode = .login log → log.idx.toNat ≤ 32) : Clean words this next where
  this := hkeeps.this.trans hthis
  holds := ⟨[], List.not_mem_nil, .of_reset hkeeps⟩
  argc := hkeeps.argc.trans resetTerminal_argc
  null j hj hfar := by
    rw [hkeeps.argv hj]
    rcases hfar with hfirst | hfar
    · exact resetTerminal_argv_first hfirst
    · exact resetTerminal_argv_null (hnull j hj hfar)
  idx := hidx

/-- The line is changed, and what lies behind it is left alone. -/
theorem Clean.of_line (hclean : Clean words this ses)
    (hholds : ∃ text, 0 ∉ text ∧ next.ter.Holds text)
    (hthis : next.ter.this = ses.ter.this)
    (hmem : ∀ addr, ses.ter.this + 293 ≤ addr → next.ter.mem addr = ses.ter.mem addr)
    (hmode : next.mode = .shell) : Clean words this next where
  this := hthis.trans hclean.this
  holds := hholds
  argc := by
    rw [Terminal.argc, hthis, hmem _ (by omega)]
    exact hclean.argc
  null j hj hfar := by
    rw [Terminal.argv, argvAddr, hthis,
      ByteArea.getLE_congr fun k _ => hmem (ses.ter.this + 300 + 4 * j + k) (by omega)]
    exact hclean.null j hj hfar
  idx log hlogin := by
    rw [hmode] at hlogin
    cases hlogin

/-- A key that meets the conditions sets no pointer behind the first so many words. -/
theorem Clean.afterKey (hclean : Clean words this ses) (hmeets : Meets words ses key)
    (hstep : step ses key = some next) : Clean words this next := by
  obtain ⟨ter, mode, writes⟩ := ses
  cases mode with
  | login log =>
      have hkept := loginKey_kept (hclean.idx log rfl) hmeets.room hstep
      exact hclean.of_keeps hkept.keeps hkept.idx
  | shell =>
      obtain ⟨text, hnul, hholds⟩ := hclean.holds
      change ter.Holds text at hholds
      have hlen := hholds.length
      have hlineIdx := hholds.lineIdx
      have hcases : ter.LineStep key next := runKey_cases hstep
      cases hcases with
      | nothing hback hempty hter hmode hwrites =>
          have hsame : ter.KeepsInput next.ter := by rw [hter]; exact .refl ter
          refine hclean.of_keeps hsame fun log hlog => ?_
          rw [hmode] at hlog
          cases hlog
      | erased hback hsome hter hmode hwrites =>
          have hpred := toNat_pred hsome
          refine hclean.of_line ⟨text.dropLast, fun hzero => ?_, ?_⟩ (by rw [hter]; rfl)
            (fun addr haddr => ?_) hmode
          · exact hnul (List.mem_of_mem_dropLast hzero)
          · rw [hter]
            exact hholds.eraseChar hsome
          · rw [hter]
            exact eraseChar_mem (by omega) haddr
      | typed hback hchar hter hmode hwrites =>
          have hroom : ter.lineIdx.toNat < 127 := hmeets.room hback hchar
          refine hclean.of_line ⟨text ++ [key.ch], fun hzero => ?_, ?_⟩ (by rw [hter]; rfl)
            (fun addr haddr => ?_) hmode
          · rcases List.mem_append.mp hzero with hzero | hzero
            · exact hnul hzero
            · exact hmeets.notZero (List.mem_singleton.mp hzero).symm
          · rw [hter]
            exact hholds.typeChar key.ch hroom
          · rw [hter]
            exact typeChar_mem key.ch (by omega) haddr
      | entered done left accesses others hreturn hformat hleft hter hmode hwrites hothers =>
          have hend : ter.line text.length = 0 := by
            rw [hholds.chars _ hlen, List.getD_eq_default _ _ (Nat.le_refl _)]
          have hthis := (formatInput_writes hformat hend).1
          refine .of_reset hter ((hleft.this.trans hthis).trans hclean.this)
            (fun j hj hfar => ?_) hmode
          rcases hmeets.fewWords rfl hreturn with hfew | hmany
          · change wordCount ter.text ≤ _ at hfew
            rw [hholds.text_eq] at hfew
            have hkept := formatInput_argv_kept hholds hnul hclean.argc hformat
              (hfew.trans hfar) hj
            rw [hleft.argv hj, hkept]
            exact hclean.null j hj (.inr hfar)
          · omega

theorem boot_clean (others : ByteArea) (hnull : ∀ j < 9, max 2 words ≤ j → ter.argv j = 0) :
    Clean words ter.this (ter.boot others) := by
  have hkeeps : ter.KeepsInput
      (((ter.setUid (-1)).memset ((ter.setUid (-1)).usernameAddr 0) 32).leave others) :=
    ((KeepsInput.setUid _).trans (.memset (usernameAddr_le _))).trans (.leave others)
  refine .of_reset .beginLogin hkeeps.this (fun j hj hfar => ?_)
    fun _ hmode => beginLogin_idx _ hmode
  exact (hkeeps.argv hj).trans (hnull j hj hfar)

/-! ### Two terminals side by side -/

theorem pushArg_argc_eq : (ter.pushArg i).argc =
    if ter.argvAddr ter.argc.toNat ≤ ter.this + 336 ∧
        ter.this + 336 < ter.argvAddr ter.argc.toNat + 4 then
      BitVec.ofNat 8 (ter.lineAddr i / 256 ^ (ter.this + 336 - ter.argvAddr ter.argc.toNat))
    else ter.argc + 1 := by
  have hcounted : (ter.setArgc (ter.argc + 1)).mem (ter.this + 336) = ter.argc + 1 :=
    setArgc_argc _
  rw [← hcounted]
  rfl

/-- The pointers are the same, and each is null or points to one of the marks. -/
structure Agree (marks : List Nat) (ter₁ ter₂ : Terminal) : Prop where
  this : ter₂.this = ter₁.this
  argc : ter₂.argc = ter₁.argc
  argv : ∀ j < 9, ter₂.argv j = ter₁.argv j
  known : ∀ j < 9, ter₁.argv j = 0 ∨ ∃ mark ∈ marks, ter₁.argv j = ter₁.lineAddr mark

variable {ter₁ ter₂ : Terminal} {marks : List Nat} {ses₁ ses₂ : Session}

/-- Whether there is a pointer left for the mark or not. -/
theorem Agree.pushArg (hagree : Agree marks ter₁ ter₂) {mark : Nat} (hmark : mark ∈ marks)
    (hlt : mark < 176) : Agree marks (ter₁.pushArg mark) (ter₂.pushArg mark) where
  this := hagree.this
  argc := by
    have hslot : ter₂.argvAddr ter₂.argc.toNat = ter₁.argvAddr ter₁.argc.toNat := by
      rw [argvAddr, argvAddr, hagree.this, hagree.argc]
    have hpointer : ter₂.lineAddr mark = ter₁.lineAddr mark := by
      rw [lineAddr, lineAddr, hagree.this]
    rw [pushArg_argc_eq, pushArg_argc_eq, hslot, hpointer, hagree.this, hagree.argc]
  argv j hj := by
    rw [pushArg_argv hlt hj, pushArg_argv hlt hj, hagree.argc, hagree.argv j hj, lineAddr,
      lineAddr, hagree.this]
  known j hj := by
    rw [pushArg_argv hlt hj]
    split
    next => exact .inr ⟨mark, hmark, rfl⟩
    next => exact hagree.known j hj

theorem Agree.foldl (hmarks : ∀ mark ∈ marks, mark < 176) (rest : List Nat)
    (hrest : ∀ mark ∈ rest, mark ∈ marks) (hagree : Agree marks ter₁ ter₂) :
    Agree marks (rest.foldl Terminal.pushArg ter₁) (rest.foldl Terminal.pushArg ter₂) := by
  induction rest generalizing ter₁ ter₂ with
  | nil => exact hagree
  | cons mark rest ih =>
      have hmark := hrest mark List.mem_cons_self
      exact ih (fun other hother => hrest other (List.mem_cons_of_mem _ hother))
        (hagree.pushArg hmark (hmarks mark hmark))

/-- The first marks overwrite what differs: behind them there is nothing. -/
theorem agree_foldl (hmarks : ∀ mark ∈ marks, mark < 176) (hthis : ter₂.this = ter₁.this)
    (hargc₁ : ter₁.argc = 0) (hargc₂ : ter₂.argc = 0)
    (hnull₁ : ∀ j < 9, marks.length ≤ j → ter₁.argv j = 0)
    (hnull₂ : ∀ j < 9, marks.length ≤ j → ter₂.argv j = 0) :
    Agree marks (marks.foldl pushArg ter₁) (marks.foldl pushArg ter₂) := by
  have htaken : ∀ mark ∈ marks.take 9, mark < 176 := fun mark hmark =>
    hmarks mark (List.mem_of_mem_take hmark)
  have hroom : (marks.take 9).length ≤ 9 := List.length_take_le 9 marks
  have hvalue : ∀ {ter : Terminal}, (∀ j < 9, marks.length ≤ j → ter.argv j = 0) → ∀ j < 9,
      ((marks.take 9)[j]?.map ter.lineAddr).getD (ter.argv j) =
        (marks[j]?.map ter.lineAddr).getD 0 := by
    intro ter hnull j hj
    rw [List.getElem?_take_of_lt hj]
    cases hmark : marks[j]? with
    | none => exact hnull j hj (List.getElem?_eq_none_iff.mp hmark)
    | some mark => rfl
  obtain ⟨hargv₁, hcount₁⟩ := foldl_pushArg_first htaken hroom hargc₁
  obtain ⟨hargv₂, hcount₂⟩ := foldl_pushArg_first htaken hroom hargc₂
  have hsame : ter₂.lineAddr = ter₁.lineAddr := by
    funext i
    rw [lineAddr, lineAddr, hthis]
  have hthis₁ := (foldl_pushArg_mem (marks.take 9) ter₁).1
  have hthis₂ := (foldl_pushArg_mem (marks.take 9) ter₂).1
  have hbegin : Agree marks ((marks.take 9).foldl pushArg ter₁)
      ((marks.take 9).foldl pushArg ter₂) := by
    refine ⟨by rw [hthis₁, hthis₂, hthis], BitVec.eq_of_toNat_eq (hcount₂.trans hcount₁.symm),
      fun j hj => ?_, fun j hj => ?_⟩
    · rw [hargv₁ j hj, hargv₂ j hj, hvalue hnull₁ j hj, hvalue hnull₂ j hj, hsame]
    · rw [hargv₁ j hj, hvalue hnull₁ j hj]
      cases hmark : marks[j]? with
      | none => exact .inl rfl
      | some mark =>
          refine .inr ⟨mark, List.mem_of_getElem? hmark, ?_⟩
          rw [lineAddr, hthis₁]
          rfl
  have hlater := hbegin.foldl hmarks (marks.drop 9) fun mark hmark => List.mem_of_mem_drop hmark
  rwa [← List.foldl_append, ← List.foldl_append, List.take_append_drop] at hlater

/-- A pointer into the line is not null. -/
theorem Argument.of_denotes {done : Terminal} {mark : Nat} {str : List Byte}
    (hargv : done.argv j = ter.lineAddr mark) (hdenotes : done.Denotes (ter.lineAddr mark) str) :
    done.Argument j (some str) := by
  refine ⟨?_, by rwa [hargv]⟩
  rw [hargv, lineAddr]
  omega

/-- The pointers of both terminals stand for the same strings. -/
theorem sameArguments_of_null (hthis : ter₂.this = ter₁.this) (hholds₁ : ter₁.Holds text)
    (hholds₂ : ter₂.Holds text) (hnul : 0 ∉ text) (hlast : text.getLast? ≠ some space)
    (hargc₁ : ter₁.argc = 0) (hargc₂ : ter₂.argc = 0)
    (hnull₁ : ∀ j < 9, wordCount text ≤ j → ter₁.argv j = 0)
    (hnull₂ : ∀ j < 9, wordCount text ≤ j → ter₂.argv j = 0) : SameArguments ter₁ ter₂ := by
  have hlen := hholds₁.length
  obtain ⟨accesses₁, hformat₁, -, -⟩ := formatInput_eq hholds₁ hnul
  obtain ⟨accesses₂, hformat₂, -, -⟩ := formatInput_eq hholds₂ hnul
  have hinLine : ∀ mark ∈ places text, mark < text.length := by
    intro mark hmark
    rw [places_eq_starts hlast] at hmark
    have hbounds := (Fields.mem_starts hmark).2
    rwa [Nat.zero_add] at hbounds
  rw [← length_places] at hnull₁ hnull₂
  have hagree : Agree (places text) ((places text).foldl pushArg (ter₁.cutRange 0 text.length))
      ((places text).foldl pushArg (ter₂.cutRange 0 text.length)) :=
    agree_foldl (fun mark hmark => lt_of_mem_places hlen hmark) hthis
      ((cutRange_argc hlen).trans hargc₁) ((cutRange_argc hlen).trans hargc₂)
      (fun j hj hfar => (cutRange_argv hlen j).trans (hnull₁ j hj hfar))
      (fun j hj hfar => (cutRange_argv hlen j).trans (hnull₂ j hj hfar))
  have hthis₁ := (foldl_pushArg_mem (places text) (ter₁.cutRange 0 text.length)).1
  refine ⟨_, _, _, _, hformat₁, hformat₂, fun j hj => ?_⟩
  rcases hagree.known j hj with hzero | ⟨mark, hmark, hpointer⟩
  · refine ⟨none, ?_, ?_⟩
    · exact (setArgc_argv _ hj).trans hzero
    · exact (setArgc_argv _ hj).trans ((hagree.argv j hj).trans hzero)
  · have hin := hinLine mark hmark
    have hpointer₁ : ((places text).foldl pushArg (ter₁.cutRange 0 text.length)).argv j =
        ter₁.lineAddr mark := by
      rw [hpointer, lineAddr, lineAddr, hthis₁]
      rfl
    have hpointer₂ : ((places text).foldl pushArg (ter₂.cutRange 0 text.length)).argv j =
        ter₂.lineAddr mark := by
      rw [hagree.argv j hj, hpointer₁, lineAddr, lineAddr, hthis]
    refine ⟨some (Fields.piece space text mark), ?_, ?_⟩
    · exact .of_denotes ((setArgc_argv _ hj).trans hpointer₁)
        (hholds₁.denotes_pushed hnul hin _ _)
    · exact .of_denotes ((setArgc_argv _ hj).trans hpointer₂)
        (hholds₂.denotes_pushed hnul hin _ _)

/-- After histories in which no line had more words than the further one, or than two,
the further line is handled with the same arguments. -/
theorem sameArguments_of_meets (hthis : ter₂.this = ter₁.this) (others₁ others₂ : ByteArea)
    {keys₁ keys₂ : List Key}
    (hnull₁ : ∀ j < 9, max 2 (fields space text).length ≤ j → ter₁.argv j = 0)
    (hnull₂ : ∀ j < 9, max 2 (fields space text).length ≤ j → ter₂.argv j = 0)
    (hrun₁ : Run step (Meets (fields space text).length) (ter₁.boot others₁) keys₁ ses₁)
    (hrun₂ : Run step (Meets (fields space text).length) (ter₂.boot others₂) keys₂ ses₂)
    (htext₁ : ses₁.ter.text = text) (htext₂ : ses₂.ter.text = text)
    (hlast : text.getLast? ≠ some space) : SameArguments ses₁.ter ses₂.ter := by
  have hclean₁ := hrun₁.invariant (Clean _ ter₁.this) (boot_clean others₁ hnull₁)
    fun _ _ _ hclean hmeets hstep => hclean.afterKey hmeets hstep
  have hclean₂ := hrun₂.invariant (Clean _ ter₂.this) (boot_clean others₂ hnull₂)
    fun _ _ _ hclean hmeets hstep => hclean.afterKey hmeets hstep
  obtain ⟨text₁, hnul, hholds₁⟩ := hclean₁.holds
  obtain ⟨text₂, -, hholds₂⟩ := hclean₂.holds
  obtain rfl := hholds₁.text_eq.symm.trans htext₁
  obtain rfl := hholds₂.text_eq.symm.trans htext₂
  have hcount : wordCount text₂ = (fields space text₂).length := by
    rw [wordCount, if_neg hlast, Nat.add_zero]
  have hfar : ∀ {j}, wordCount text₂ ≤ j → j < 2 ∨ max 2 (fields space text₂).length ≤ j := by
    intro j hj
    omega
  exact sameArguments_of_null (hclean₂.this.trans (hthis.trans hclean₁.this.symm)) hholds₁ hholds₂
    hnul hlast hclean₁.argc hclean₂.argc (fun j hj hle => hclean₁.null j hj (hfar hle))
    fun j hj hle => hclean₂.null j hj (hfar hle)

instance (ses : Session) (key : Key) : Decidable (HasRoom ses key) :=
  match ses with
  | ⟨_, .login log, _⟩ => inferInstanceAs (Decidable
      (key.ch ≠ backspace → key.ch ≠ carriageReturn → log.idx.toNat < 32))
  | ⟨ter, .shell, _⟩ => inferInstanceAs (Decidable
      (key.ch ≠ backspace → key.ch ≠ carriageReturn → ter.lineIdx.toNat < 127))

/-- The session waits at the prompt of the shell. -/
def Session.atShell (ses : Session) : Bool :=
  match ses.mode with
  | .login _ => false
  | .shell => true

theorem atShell_iff : ses.atShell = true ↔ ses.mode = .shell := by
  rw [Session.atShell]
  cases ses.mode with
  | login log => exact iff_of_false nofun nofun
  | shell => exact iff_of_true rfl rfl

instance (words : Nat) (ses : Session) (key : Key) : Decidable (Meets words ses key) :=
  decidable_of_iff (HasRoom ses key ∧ key.ch ≠ 0 ∧
      (ses.atShell = true → key.ch = carriageReturn →
        wordCount ses.ter.text ≤ max 2 words ∨ 9 ≤ words))
    ⟨fun h => ⟨h.1, h.2.1, fun hmode => h.2.2 (atShell_iff.mpr hmode)⟩,
      fun h => ⟨h.room, h.notZero, fun hmode => h.fewWords (atShell_iff.mp hmode)⟩⟩

/-- The keys that get from the prompt for the user to the one of the shell. -/
def loginKeys : List Key := List.replicate 2 ⟨carriageReturn, 0, .zeros⟩

/-- The keys of a command. -/
def command (text : List Char) : List Key := text.map charKey ++ [⟨carriageReturn, 0, .zeros⟩]

/-- `"id"` as the first command, and after `"id"`. -/
theorem sameArguments_id :
    ∃ ses₁ ses₂, Run step (Meets 1) ((typed []).boot .zeros)
        (loginKeys ++ ['i', 'd'].map charKey) ses₁ ∧
      Run step (Meets 1) ((typed []).boot .zeros)
        (loginKeys ++ command ['i', 'd'] ++ ['i', 'd'].map charKey) ses₂ ∧
      SameArguments ses₁.ter ses₂.ter := by
  have hruns : (exec step (Meets 1) ((typed []).boot .zeros)
        (loginKeys ++ ['i', 'd'].map charKey)).map (fun ses => ses.ter.text) =
          some (['i', 'd'].map ofChar) ∧
      (exec step (Meets 1) ((typed []).boot .zeros)
        (loginKeys ++ command ['i', 'd'] ++ ['i', 'd'].map charKey)).map (fun ses => ses.ter.text) =
          some (['i', 'd'].map ofChar) := by
    decide +kernel
  obtain ⟨ses₁, hexec₁, htext₁⟩ := Option.map_eq_some_iff.mp hruns.1
  obtain ⟨ses₂, hexec₂, htext₂⟩ := Option.map_eq_some_iff.mp hruns.2
  have hrun₁ := Run.of_exec _ _ _ _ hexec₁
  have hrun₂ := Run.of_exec _ _ _ _ hexec₂
  have hnull : ∀ j < 9, max 2 (fields space (['i', 'd'].map ofChar)).length ≤ j →
      (typed []).argv j = 0 := by
    decide
  exact ⟨ses₁, ses₂, hrun₁, hrun₂, sameArguments_of_meets rfl .zeros .zeros hnull hnull hrun₁ hrun₂
    htext₁ htext₂ (by decide)⟩

/-- `"id"` as the first command, and after `"a b c"`. -/
theorem third_word_stays :
    ¬ ∀ (ter : Terminal) (others₁ others₂ : ByteArea) (keys₁ keys₂ : List Key)
        (ses₁ ses₂ : Session), Run step (fun _ _ => True) (ter.boot others₁) keys₁ ses₁ →
      Run step (fun _ _ => True) (ter.boot others₂) keys₂ ses₂ → ses₁.mode = .shell →
      ses₂.mode = .shell → ses₁.ter.text = ses₂.ter.text → ses₁.ter.text ≠ [] →
      ses₁.ter.text.head? ≠ some space → ses₁.ter.text.getLast? ≠ some space →
      SameArguments ses₁.ter ses₂.ter := by
  intro hall
  let observe (ses : Session) : Bool × List Byte × Option Nat :=
    (ses.atShell, ses.ter.text, ses.ter.formatInput.map fun result => result.1.argv 2)
  have hruns : (exec step (fun _ _ => True) ((typed []).boot .zeros)
        (loginKeys ++ ['i', 'd'].map charKey)).map observe =
          some (true, ['i', 'd'].map ofChar, some 0) ∧
      (exec step (fun _ _ => True) ((typed []).boot .zeros)
        (loginKeys ++ command ['a', ' ', 'b', ' ', 'c'] ++ ['i', 'd'].map charKey)).map observe =
          some (true, ['i', 'd'].map ofChar, some 0x1000) := by
    decide +kernel
  obtain ⟨ses₁, hexec₁, hses₁⟩ := Option.map_eq_some_iff.mp hruns.1
  obtain ⟨ses₂, hexec₂, hses₂⟩ := Option.map_eq_some_iff.mp hruns.2
  obtain ⟨hmode₁, htext₁, hargv₁⟩ := by simpa only [observe, Prod.mk.injEq] using hses₁
  obtain ⟨hmode₂, htext₂, hargv₂⟩ := by simpa only [observe, Prod.mk.injEq] using hses₂
  obtain ⟨done₁, _, done₂, _, hformat₁, hformat₂, hsame⟩ := hall _ _ _ _ _ _ _
    (Run.of_exec _ _ _ _ hexec₁) (Run.of_exec _ _ _ _ hexec₂) (atShell_iff.mp hmode₁)
    (atShell_iff.mp hmode₂) (htext₁.trans htext₂.symm) (by rw [htext₁]; decide)
    (by rw [htext₁]; decide) (by rw [htext₁]; decide)
  rw [hformat₁, Option.map_some, Option.some.injEq] at hargv₁
  rw [hformat₂, Option.map_some, Option.some.injEq] at hargv₂
  obtain ⟨argument, hfirst, hsecond⟩ := hsame 2 (by decide)
  cases argument with
  | none =>
      rw [Argument, hargv₂] at hsecond
      exact absurd hsecond (by decide)
  | some str => exact hfirst.1 hargv₁

end Terminal

end Shmily
