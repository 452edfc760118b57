import Mathlib.Data.List.Infix
import Shmily.Lib.Bitmap
import Shmily.Lib.RingBuffer

/-! # The keyboard

The keyboard sends a make code when a key goes down and a break code when it goes up. Some codes
have a prefix byte, which the handler keeps until the next interrupt. The two shift keys share
one flag, and so do the two control keys and the two alt keys.
-/

namespace Shmily.Dr

open Lib

def shiftLMake : BitVec 16 := 0x2a
def shiftRMake : BitVec 16 := 0x36
def altLMake : BitVec 16 := 0x38
def altRMake : BitVec 16 := 0xe038
def ctrlLMake : BitVec 16 := 0x1d
def ctrlRMake : BitVec 16 := 0xe01d
def capsLockMake : BitVec 16 := 0x3a

/-- `keymap`: the characters of a key without and with shift. -/
def keymap : List (UInt8 × UInt8) :=
  [('\x00', '\x00'), ('\x1b', '\x1b'), ('1', '!'), ('2', '@'), ('3', '#'), ('4', '$'), ('5', '%'),
    ('6', '^'), ('7', '&'), ('8', '*'), ('9', '('), ('0', ')'), ('-', '_'), ('=', '+'),
    ('\x08', '\x08'), ('\t', '\t'), ('q', 'Q'), ('w', 'W'), ('e', 'E'), ('r', 'R'), ('t', 'T'),
    ('y', 'Y'), ('u', 'U'), ('i', 'I'), ('o', 'O'), ('p', 'P'), ('[', '\x7b'), (']', '\x7d'),
    ('\r', '\r'), ('\x00', '\x00'), ('a', 'A'), ('s', 'S'), ('d', 'D'), ('f', 'F'), ('g', 'G'),
    ('h', 'H'), ('j', 'J'), ('k', 'K'), ('l', 'L'), (';', ':'), ('\x27', '\x22'), ('\x60', '~'),
    ('\x00', '\x00'), ('\x5c', '|'), ('z', 'Z'), ('x', 'X'), ('c', 'C'), ('v', 'V'), ('b', 'B'),
    ('n', 'N'), ('m', 'M'), (',', '<'), ('.', '>'), ('/', '?'), ('\x00', '\x00'), ('*', '*'),
    ('\x00', '\x00'), (' ', ' '), ('\x00', '\x00')].map fun chars =>
      (UInt8.ofNat chars.1.toNat, UInt8.ofNat chars.2.toNat)

/-- The variables of the keyboard driver, and how often `unknown key.` was put on the screen. -/
structure Keyboard where
  ctrlStatus : Bool
  shiftStatus : Bool
  altStatus : Bool
  capsLockStatus : Bool
  extScancode : Bool
  keyboardBuf : RingBuffer
  unknownKeys : Nat

namespace Keyboard

/-- `init_keyboard`. -/
def initKeyboard : Keyboard where
  ctrlStatus := false
  shiftStatus := false
  altStatus := false
  capsLockStatus := false
  extScancode := false
  keyboardBuf := .initRingbuffer
  unknownKeys := 0

/-- The keys on which caps lock has no effect. -/
def noCapsLock (scancode : BitVec 16) : Bool :=
  scancode < 0x0e || [0x29, 0x1a, 0x1b, 0x2b, 0x27, 0x28, 0x33, 0x34, 0x35].contains scancode

/-- The variable `shift` of the handler. -/
def shift (kb : Keyboard) (scancode : BitVec 16) : Bool :=
  if noCapsLock scancode then kb.shiftStatus
  else if kb.shiftStatus && kb.capsLockStatus then false
  else kb.shiftStatus || kb.capsLockStatus

/-- The character of a key. -/
def curChar (kb : Keyboard) (scancode : BitVec 16) : UInt8 :=
  let chars := keymap.getD (scancode &&& 0x00ff).toNat (0, 0)
  if kb.shift scancode then chars.2 else chars.1

/-- A key goes up. -/
def handleBreak (kb : Keyboard) (makeCode : BitVec 16) : Keyboard :=
  if makeCode = ctrlLMake ∨ makeCode = ctrlRMake then { kb with ctrlStatus := false }
  else if makeCode = altLMake ∨ makeCode = altRMake then { kb with altStatus := false }
  else if makeCode = shiftLMake ∨ makeCode = shiftRMake then { kb with shiftStatus := false }
  else kb

/-- A key goes down. -/
def handleMake (kb : Keyboard) (scancode : BitVec 16) : Keyboard :=
  let char := kb.curChar scancode
  let scancode := scancode &&& 0x00ff
  if char ≠ 0 then { kb with keyboardBuf := kb.keyboardBuf.put char }
  else if scancode = ctrlRMake ∨ scancode = ctrlLMake then { kb with ctrlStatus := true }
  else if scancode = shiftRMake ∨ scancode = shiftLMake then { kb with shiftStatus := true }
  else if scancode = altRMake ∨ scancode = altLMake then { kb with altStatus := true }
  else if scancode = capsLockMake then { kb with capsLockStatus := !kb.capsLockStatus }
  else kb

/-- The scan codes that the handler looks up. -/
def Known (scancode : BitVec 16) : Prop :=
  0x00 < scancode ∧ scancode < 0x3b ∨ scancode = altRMake ∨ scancode = ctrlRMake

instance (scancode : BitVec 16) : Decidable (Known scancode) := inferInstanceAs (Decidable (_ ∨ _))

/-- The handler once the scan code is complete. -/
def handleScancode (kb : Keyboard) (scancode : BitVec 16) : Keyboard :=
  if scancode &&& 0x0080 ≠ 0 then kb.handleBreak (scancode &&& 0xff7f)
  else if Known scancode then kb.handleMake scancode
  else { kb with unknownKeys := kb.unknownKeys + 1 }

/-- `keyboard_handler`, given the byte from the port. -/
def keyboardHandler (kb : Keyboard) (byte : Byte) : Keyboard :=
  let scancode := byte.setWidth 16
  if 0xe0 = scancode then { kb with extScancode := true }
  else if kb.extScancode then
    { kb with extScancode := false }.handleScancode (scancode ||| 0xe000)
  else kb.handleScancode scancode

end Keyboard

/-! ## Keys -/

/-- Two keys that share a flag. -/
inductive Pair
  | shift
  | ctrl
  | alt
  deriving DecidableEq

/-- A code that is sent for a key; `ext` stands for the prefix byte. -/
structure Code where
  ext : Bool
  code : Byte
  deriving DecidableEq

namespace Code

def scancode (code : Code) : BitVec 16 :=
  if code.ext then code.code.setWidth 16 ||| 0xe000 else code.code.setWidth 16

def bytes (code : Code) (byte : Byte) : List Byte :=
  if code.ext then [0xe0, byte] else [byte]

end Code

namespace Pair

/-- The code of the left or the right key. -/
def code : Pair → Bool → Code
  | .shift, false => ⟨false, 0x2a⟩
  | .shift, true => ⟨false, 0x36⟩
  | .ctrl, false => ⟨false, 0x1d⟩
  | .ctrl, true => ⟨true, 0x1d⟩
  | .alt, false => ⟨false, 0x38⟩
  | .alt, true => ⟨true, 0x38⟩

end Pair

/-- Any other key with a code of its own. Neither of its codes is the prefix byte. -/
structure OrdinaryKey where
  code : Code
  isMake : code.code &&& 0x80 = 0
  noPrefix : code.code ≠ 0x60
  ordinary : ∀ pair right, code ≠ Pair.code pair right
  deriving DecidableEq

inductive Key
  | modifier (pair : Pair) (right : Bool)
  | ordinary (key : OrdinaryKey)
  deriving DecidableEq

def Key.code : Key → Code
  | .modifier pair right => pair.code right
  | .ordinary key => key.code

inductive KeyEvent
  | press (key : Key)
  | release (key : Key)

def KeyEvent.key : KeyEvent → Key
  | .press key => key
  | .release key => key

/-- The make code or the break code. -/
def KeyEvent.bytes : KeyEvent → List Byte
  | .press key => key.code.bytes key.code.code
  | .release key => key.code.bytes (key.code.code ||| 0x80)

/-- The keys that are down after an event. -/
def holdStep (held : Key → Bool) : KeyEvent → Key → Bool
  | .press key => Function.update held key true
  | .release key => Function.update held key false

/-- The keys that are down. -/
def held (events : List KeyEvent) : Key → Bool := events.foldl holdStep fun _ => false

namespace Keyboard

/-- The flag of two keys. -/
def status (kb : Keyboard) : Pair → Bool
  | .shift => kb.shiftStatus
  | .ctrl => kb.ctrlStatus
  | .alt => kb.altStatus

/-- The handler is called for every byte. -/
def handleBytes (kb : Keyboard) (bytes : List Byte) : Keyboard := bytes.foldl keyboardHandler kb

/-- The keyboard driver after some keys went down and up. -/
def after (events : List KeyEvent) : Keyboard :=
  initKeyboard.handleBytes (events.flatMap KeyEvent.bytes)

end Keyboard

/-- The flag of a pair tells whether one of its keys is down. -/
def PairTracks (events : List KeyEvent) (pair : Pair) : Prop :=
  (Keyboard.after events).status pair = true ↔ ∃ right, held events (.modifier pair right) = true

/-- Every flag tells whether one of its keys is down. -/
def Tracks (events : List KeyEvent) : Prop := ∀ pair, PairTracks events pair

/-- When nothing happened to the keys of a pair since one of them went up, the other one was up. -/
def LastReleaseApart (events : List KeyEvent) (pair : Pair) : Prop :=
  ∀ front right back, events = front ++ .release (.modifier pair right) :: back →
    (∀ event ∈ back, ∀ right, event.key ≠ .modifier pair right) →
      held front (.modifier pair !right) = false

/-- A key of a pair goes up only while the other one is up. -/
def ReleasesApart (events : List KeyEvent) : Prop :=
  ∀ front pair right, front ++ [.release (.modifier pair right)] <+: events →
    held front (.modifier pair !right) = false

namespace Keyboard

variable {kb : Keyboard} {pair : Pair} {right : Bool}

/-! ## One event -/

def setStatus (kb : Keyboard) : Pair → Bool → Keyboard
  | .shift, val => { kb with shiftStatus := val }
  | .ctrl, val => { kb with ctrlStatus := val }
  | .alt, val => { kb with altStatus := val }

theorem status_setStatus (kb : Keyboard) (pair : Pair) (val : Bool) :
    (kb.setStatus pair val).status = Function.update kb.status pair val := by
  funext other
  cases pair <;> cases other <;> rfl

theorem extScancode_setStatus (kb : Keyboard) (pair : Pair) (val : Bool) :
    (kb.setStatus pair val).extScancode = kb.extScancode := by
  cases pair <;> rfl

theorem handleBreak_modifier (kb : Keyboard) (pair : Pair) (right : Bool) :
    kb.handleBreak (pair.code right).scancode = kb.setStatus pair false := by
  cases pair <;> cases right <;> rfl

theorem curChar_modifier (kb : Keyboard) (pair : Pair) (right : Bool) :
    kb.curChar (pair.code right).scancode = 0 := by
  have hchars : keymap.getD ((pair.code right).scancode &&& 0x00ff).toNat (0, 0) = (0, 0) := by
    cases pair <;> cases right <;> decide
  rw [curChar, hchars]
  exact ite_self 0

theorem handleMake_modifier (kb : Keyboard) (pair : Pair) (right : Bool) :
    kb.handleMake (pair.code right).scancode = kb.setStatus pair true := by
  have hchar : ¬ kb.curChar (pair.code right).scancode ≠ 0 :=
    not_not.mpr (kb.curChar_modifier pair right)
  unfold handleMake
  dsimp only
  rw [if_neg hchar]
  cases pair <;> cases right <;> rfl

/-- The scan code of the code of a key that goes down is complete. -/
theorem and_break_eq_zero (ext : Bool) {code : Byte} (hcode : code &&& 0x80 = 0) :
    Code.scancode ⟨ext, code⟩ &&& 0x0080 = 0 := by
  revert ext code
  decide

/-- The break code differs from the make code in one bit. -/
theorem and_break_ne_zero (ext : Bool) {code : Byte} (hcode : code &&& 0x80 = 0) :
    Code.scancode ⟨ext, code ||| 0x80⟩ &&& 0x0080 ≠ 0 ∧
      Code.scancode ⟨ext, code ||| 0x80⟩ &&& 0xff7f = Code.scancode ⟨ext, code⟩ := by
  revert ext code
  decide

/-- The prefix byte and the byte behind it make one scan code. -/
theorem handleBytes_code (hext : kb.extScancode = false) (ext : Bool) {byte : Byte}
    (hbyte : byte ≠ 0xe0) :
    kb.handleBytes (Code.bytes ⟨ext, byte⟩ byte) = kb.handleScancode (Code.scancode ⟨ext, byte⟩) := by
  have hback : (byte.setWidth 16).setWidth 8 = byte := by
    rw [BitVec.setWidth_setWidth_of_le byte (by decide), BitVec.setWidth_eq]
  have hne : (0xe0 : BitVec 16) ≠ byte.setWidth 16 := by
    intro heq
    rw [← heq] at hback
    exact hbyte hback.symm
  have hsame : { kb with extScancode := false } = kb := by rw [← hext]
  cases ext with
  | false =>
      have hplain : ¬ kb.extScancode = true := by rw [hext]; exact Bool.false_ne_true
      change kb.keyboardHandler byte = _
      rw [keyboardHandler, if_neg hne, if_neg hplain]
      rfl
  | true =>
      have hnoPre : kb.keyboardHandler 0xe0 = { kb with extScancode := true } := rfl
      change (kb.keyboardHandler 0xe0).keyboardHandler byte = _
      rw [hnoPre, keyboardHandler, if_neg hne, if_pos rfl]
      exact congrArg (handleScancode · _) hsame

/-- What a key that goes down does. -/
theorem handleBytes_press (hext : kb.extScancode = false) (key : Key)
    (hkey : key.code.code &&& 0x80 = 0) :
    kb.handleBytes (KeyEvent.press key).bytes =
      if Known key.code.scancode then kb.handleMake key.code.scancode
      else { kb with unknownKeys := kb.unknownKeys + 1 } := by
  have hbyte : key.code.code ≠ 0xe0 := by
    intro heq
    rw [heq] at hkey
    exact absurd hkey (by decide)
  refine (handleBytes_code hext key.code.ext hbyte).trans ?_
  rw [handleScancode, if_neg (not_not.mpr (and_break_eq_zero key.code.ext hkey))]

theorem handleBytes_release (hext : kb.extScancode = false) (key : Key)
    (hkey : key.code.code &&& 0x80 = 0) (hnoPre : key.code.code ≠ 0x60) :
    kb.handleBytes (KeyEvent.release key).bytes = kb.handleBreak key.code.scancode := by
  have hbyte : key.code.code ||| 0x80 ≠ 0xe0 := by
    revert hkey hnoPre
    generalize key.code.code = code
    revert code
    decide
  obtain ⟨hbreak, hmake⟩ := and_break_ne_zero key.code.ext hkey
  refine (handleBytes_code hext key.code.ext hbyte).trans ?_
  rw [handleScancode, if_pos hbreak, hmake]

/-! ### Ordinary keys -/

/-- The scan code tells the code. -/
theorem code_of_scancode : ∀ ext byte,
    Code.mk ((Code.scancode ⟨ext, byte⟩).getLsbD 15) ((Code.scancode ⟨ext, byte⟩).setWidth 8) =
      ⟨ext, byte⟩ := by
  decide

theorem scancode_injective : Function.Injective Code.scancode := by
  intro code other heq
  have hleft : Code.mk _ _ = code := code_of_scancode code.ext code.code
  have hright : Code.mk _ _ = other := code_of_scancode other.ext other.code
  rw [← hleft, ← hright]
  exact congrArg (fun scancode => Code.mk (scancode.getLsbD 15) (scancode.setWidth 8)) heq

theorem handleBreak_ordinary (kb : Keyboard) (key : OrdinaryKey) :
    kb.handleBreak key.code.scancode = kb := by
  have hne (pair : Pair) (right : Bool) : key.code.scancode ≠ (pair.code right).scancode :=
    scancode_injective.ne (key.ordinary pair right)
  have hctrl : ¬ (key.code.scancode = ctrlLMake ∨ key.code.scancode = ctrlRMake) :=
    not_or.mpr ⟨hne .ctrl false, hne .ctrl true⟩
  have halt : ¬ (key.code.scancode = altLMake ∨ key.code.scancode = altRMake) :=
    not_or.mpr ⟨hne .alt false, hne .alt true⟩
  have hshift : ¬ (key.code.scancode = shiftLMake ∨ key.code.scancode = shiftRMake) :=
    not_or.mpr ⟨hne .shift false, hne .shift true⟩
  rw [handleBreak, if_neg hctrl, if_neg halt, if_neg hshift]

/-- Where the keymap has a zero behind its first entry. -/
theorem mem_of_keymap_eq_zero : ∀ ext byte, Known (Code.scancode ⟨ext, byte⟩) →
    ((keymap.getD (Code.scancode ⟨ext, byte⟩ &&& 0x00ff).toNat (0, 0)).1 = 0 ∨
      (keymap.getD (Code.scancode ⟨ext, byte⟩ &&& 0x00ff).toNat (0, 0)).2 = 0) →
    Code.mk ext byte = ⟨false, 0x3a⟩ ∨
      ∃ right, Code.mk ext byte ∈ [Pair.shift.code right, Pair.ctrl.code right,
        Pair.alt.code right] := by
  decide

/-- Of the keys that are looked up, only modifiers and caps lock have no character. -/
theorem capsLock_of_curChar {key : OrdinaryKey} (hknown : Known key.code.scancode)
    (hchar : kb.curChar key.code.scancode = 0) : key.code = ⟨false, 0x3a⟩ := by
  have hzero : (keymap.getD (key.code.scancode &&& 0x00ff).toNat (0, 0)).1 = 0 ∨
      (keymap.getD (key.code.scancode &&& 0x00ff).toNat (0, 0)).2 = 0 := by
    unfold curChar at hchar
    dsimp only at hchar
    split at hchar
    next => exact .inr hchar
    next => exact .inl hchar
  refine (mem_of_keymap_eq_zero _ _ hknown hzero).resolve_right ?_
  intro ⟨right, hmem⟩
  simp only [List.mem_cons, List.not_mem_nil, or_false] at hmem
  obtain heq | heq | heq := hmem
  · exact key.ordinary .shift right heq
  · exact key.ordinary .ctrl right heq
  · exact key.ordinary .alt right heq

theorem handleMake_ordinary {key : OrdinaryKey} (hknown : Known key.code.scancode) :
    (kb.handleMake key.code.scancode).status = kb.status ∧
      (kb.handleMake key.code.scancode).extScancode = kb.extScancode := by
  by_cases hchar : kb.curChar key.code.scancode ≠ 0
  · rw [handleMake, if_pos hchar]
    exact ⟨rfl, rfl⟩
  · have hcaps := capsLock_of_curChar hknown (not_not.mp hchar)
    rw [handleMake, if_neg hchar, hcaps]
    exact ⟨rfl, rfl⟩

/-! ## Any number of events -/

theorem code_modifier (pair : Pair) (right : Bool) :
    (pair.code right).code &&& 0x80 = 0 ∧ (pair.code right).code ≠ 0x60 ∧
      Known (pair.code right).scancode := by
  cases pair <;> cases right <;> decide

/-- What an event does to the flags. -/
def statusStep (status : Pair → Bool) : KeyEvent → Pair → Bool
  | .press (.modifier pair _) => Function.update status pair true
  | .release (.modifier pair _) => Function.update status pair false
  | .press (.ordinary _) => status
  | .release (.ordinary _) => status

theorem handleBytes_event (hext : kb.extScancode = false) (event : KeyEvent) :
    (kb.handleBytes event.bytes).status = statusStep kb.status event ∧
      (kb.handleBytes event.bytes).extScancode = false := by
  cases event with
  | press key =>
      cases key with
      | modifier pair right =>
          obtain ⟨hmake, -, hknown⟩ := code_modifier pair right
          rw [handleBytes_press hext (.modifier pair right) hmake]
          rw [if_pos (show Known (Key.modifier pair right).code.scancode from hknown)]
          change (kb.handleMake (pair.code right).scancode).status = _ ∧
            (kb.handleMake (pair.code right).scancode).extScancode = false
          rw [handleMake_modifier]
          exact ⟨status_setStatus kb pair true, (extScancode_setStatus kb pair true).trans hext⟩
      | ordinary key =>
          rw [handleBytes_press hext (.ordinary key) key.isMake]
          split
          next hknown =>
            obtain ⟨hstatus, hsame⟩ := @handleMake_ordinary kb key hknown
            exact ⟨hstatus, hsame.trans hext⟩
          next => exact ⟨rfl, hext⟩
  | release key =>
      cases key with
      | modifier pair right =>
          obtain ⟨hmake, hnoPre, -⟩ := code_modifier pair right
          rw [handleBytes_release hext (.modifier pair right) hmake hnoPre]
          change (kb.handleBreak (pair.code right).scancode).status = _ ∧
            (kb.handleBreak (pair.code right).scancode).extScancode = false
          rw [handleBreak_modifier]
          exact ⟨status_setStatus kb pair false, (extScancode_setStatus kb pair false).trans hext⟩
      | ordinary key =>
          rw [handleBytes_release hext (.ordinary key) key.isMake key.noPrefix]
          change (kb.handleBreak key.code.scancode).status = _ ∧
            (kb.handleBreak key.code.scancode).extScancode = false
          rw [handleBreak_ordinary]
          exact ⟨rfl, hext⟩

theorem after_concat (events : List KeyEvent) (event : KeyEvent) :
    after (events ++ [event]) = (after events).handleBytes event.bytes := by
  unfold after handleBytes
  rw [List.flatMap_append, List.foldl_append, List.flatMap_singleton]

/-- Between two events no prefix byte is left over. -/
theorem extScancode_after (events : List KeyEvent) : (after events).extScancode = false := by
  induction events using List.reverseRecOn with
  | nil => rfl
  | append_singleton events event ih =>
      rw [after_concat]
      exact (handleBytes_event ih event).2

theorem status_after_concat (events : List KeyEvent) (event : KeyEvent) :
    (after (events ++ [event])).status = statusStep (after events).status event := by
  rw [after_concat]
  exact (handleBytes_event (extScancode_after events) event).1

end Keyboard

variable {events : List KeyEvent} {event : KeyEvent} {pair : Pair} {right : Bool}

theorem held_concat (events : List KeyEvent) (event : KeyEvent) :
    held (events ++ [event]) = holdStep (held events) event :=
  List.foldl_concat ..

/-- An event of some other key leaves the keys of a pair as they are. -/
theorem held_concat_of_ne (hkey : ∀ right, event.key ≠ .modifier pair right) :
    held (events ++ [event]) (.modifier pair right) = held events (.modifier pair right) := by
  rw [held_concat]
  cases event with
  | press key => exact Function.update_of_ne (hkey right).symm _ _
  | release key => exact Function.update_of_ne (hkey right).symm _ _

theorem statusStep_of_ne (status : Pair → Bool) (hkey : ∀ right, event.key ≠ .modifier pair right) :
    Keyboard.statusStep status event pair = status pair := by
  cases event with
  | press key =>
      cases key with
      | modifier other right =>
          have hne : pair ≠ other := fun heq => hkey right (heq ▸ rfl)
          exact Function.update_of_ne hne _ _
      | ordinary key => rfl
  | release key =>
      cases key with
      | modifier other right =>
          have hne : pair ≠ other := fun heq => hkey right (heq ▸ rfl)
          exact Function.update_of_ne hne _ _
      | ordinary key => rfl

/-- Where the last event of a sequence can be: it is the release, or it comes behind it. -/
theorem concat_eq_append_cons {front back : List KeyEvent} {release : KeyEvent}
    (heq : events ++ [event] = front ++ release :: back) :
    (event = release ∧ events = front ∧ back = []) ∨
      ∃ init, back = init ++ [event] ∧ events = front ++ release :: init := by
  cases back using List.reverseRecOn with
  | nil =>
      obtain ⟨hfront, hlast⟩ := List.append_inj' heq rfl
      exact .inl ⟨List.head_eq_of_cons_eq hlast, hfront, rfl⟩
  | append_singleton init last =>
      have hassoc : events ++ [event] = (front ++ release :: init) ++ [last] := by
        rw [heq, List.append_assoc, List.cons_append]
      obtain ⟨hfront, hlast⟩ := List.append_inj' hassoc rfl
      exact .inr ⟨init, by rw [List.head_eq_of_cons_eq hlast], hfront⟩

theorem lastReleaseApart_nil (pair : Pair) : LastReleaseApart [] pair := by
  intro front right back heq
  exact absurd heq.symm (List.append_ne_nil_of_right_ne_nil front (List.cons_ne_nil _ _))

theorem lastReleaseApart_concat_of_ne (hkey : ∀ right, event.key ≠ .modifier pair right) :
    LastReleaseApart (events ++ [event]) pair ↔ LastReleaseApart events pair := by
  constructor
  · intro hlast front right back heq hback
    refine hlast front right (back ++ [event]) (by rw [heq, List.append_assoc, List.cons_append]) ?_
    intro other hmem
    obtain hmem | hmem := List.mem_append.mp hmem
    · exact hback other hmem
    · exact List.mem_singleton.mp hmem ▸ hkey
  · intro hlast front right back heq hback
    obtain ⟨hevent, -, -⟩ | ⟨init, hinit, hevents⟩ := concat_eq_append_cons heq
    · exact absurd (congrArg KeyEvent.key hevent) (hkey right)
    · refine hlast front right init hevents fun other hmem => hback other ?_
      exact hinit ▸ List.mem_append_left [event] hmem

/-- The last event of a pair is the only one that counts. -/
theorem lastReleaseApart_concat (hkey : event.key = .modifier pair right) :
    LastReleaseApart (events ++ [event]) pair ↔
      (event = .release (.modifier pair right) → held events (.modifier pair !right) = false) := by
  constructor
  · intro hlast hevent
    exact hlast events right [] (by rw [hevent]) fun other hmem => absurd hmem List.not_mem_nil
  · intro hheld front side back heq hback
    obtain ⟨hevent, hevents, -⟩ | ⟨init, hinit, -⟩ := concat_eq_append_cons heq
    · have hside : side = right := by
        rw [hevent] at hkey
        exact (Key.modifier.inj hkey).2
      subst hside
      exact hevents ▸ hheld hevent
    · exact absurd hkey (hback event (hinit ▸ List.mem_append_right init (List.mem_singleton_self _))
        right)

/-- When one key of a pair goes up, only the other one can be down. -/
theorem holds_release (held : Key → Bool) (pair : Pair) (right : Bool) :
    (∃ side, holdStep held (.release (.modifier pair right)) (.modifier pair side) = true) ↔
      held (.modifier pair !right) = true := by
  have hself : holdStep held (.release (.modifier pair right)) (.modifier pair right) = false := by
    exact Function.update_self _ _ _
  have hother : holdStep held (.release (.modifier pair right)) (.modifier pair !right) =
      held (.modifier pair !right) := by
    refine Function.update_of_ne ?_ _ _
    intro heq
    exact Bool.not_ne_self right (Key.modifier.inj heq).2
  constructor
  · rintro ⟨side, hside⟩
    obtain rfl | hne := eq_or_ne side right
    · exact absurd (hself.symm.trans hside) Bool.false_ne_true
    · rw [← hother, ← Bool.eq_not_of_ne hne]
      exact hside
  · intro hheld
    exact ⟨!right, hother.trans hheld⟩

/-- The flag of a pair depends on the last event of the pair. -/
theorem pairTracks_iff (events : List KeyEvent) (pair : Pair) :
    PairTracks events pair ↔ LastReleaseApart events pair := by
  induction events using List.reverseRecOn with
  | nil =>
      refine iff_of_true ?_ (lastReleaseApart_nil pair)
      refine iff_of_false ?_ ?_
      · cases pair <;> exact Bool.false_ne_true
      · rintro ⟨right, hheld⟩
        exact Bool.false_ne_true hheld
  | append_singleton events event ih =>
      -- an event of another key changes neither side; one of the pair decides both
      by_cases hkey : ∀ right, event.key ≠ .modifier pair right
      · rw [lastReleaseApart_concat_of_ne hkey, ← ih, PairTracks, PairTracks,
          Keyboard.status_after_concat, statusStep_of_ne _ hkey]
        simp only [held_concat_of_ne hkey]
      · push Not at hkey
        obtain ⟨right, hkey⟩ := hkey
        rw [lastReleaseApart_concat hkey, PairTracks, Keyboard.status_after_concat, held_concat]
        cases event with
        | press key =>
            obtain rfl : key = .modifier pair right := hkey
            refine iff_of_true (iff_of_true ?_ ⟨right, ?_⟩) nofun
            · exact Function.update_self pair _ _
            · exact Function.update_self (Key.modifier pair right) _ _
        | release key =>
            obtain rfl : key = .modifier pair right := hkey
            have hstatus : Keyboard.statusStep (Keyboard.after events).status
                (.release (.modifier pair right)) pair = false := by
              exact Function.update_self pair _ _
            rw [hstatus, holds_release]
            simp only [Bool.false_eq_true, false_iff, Bool.not_eq_true, true_imp_iff]

/-- The flags are right all the time as long as the two keys of a pair are not down when one of
them goes up. -/
theorem tracks_of_releasesApart (happart : ReleasesApart events) {front : List KeyEvent}
    (hfront : front <+: events) : Tracks front := by
  intro pair
  refine (pairTracks_iff front pair).mpr fun init right back heq _ => happart init pair right ?_
  refine List.IsPrefix.trans ⟨back, ?_⟩ hfront
  rw [heq, List.append_assoc, List.singleton_append]

/-- The flags are right after a sequence of events if and only if the last event of each pair was
not a release of one key while the other one was down. -/
theorem tracks_iff (events : List KeyEvent) :
    Tracks events ↔ ∀ pair, LastReleaseApart events pair :=
  forall_congr' (pairTracks_iff events)

/-- Both shift keys go down and the right one goes up. -/
theorem not_tracks_shift :
    ¬ Tracks [.press (.modifier .shift false), .press (.modifier .shift true),
      .release (.modifier .shift true)] := by
  intro htracks
  have hstatus := (htracks .shift).mpr ⟨false, rfl⟩
  exact Bool.false_ne_true hstatus

end Shmily.Dr
