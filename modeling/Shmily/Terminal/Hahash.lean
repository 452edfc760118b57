import Shmily.Lib.Strings

/-! # The hash of passwords

`hahash` fills 32 characters from the password, mixes them and maps each to a letter or
digit; the last one becomes the terminating zero.
-/

namespace Shmily.Terminal

open Lib

namespace Hash

def maxLength : Nat := 32

def hashTable : List Byte :=
  ['1', '2', '3', '4', '5', '6', '7', '8', '9', '0',
    'a', 'b', 'c', 'd', 'e', 'f', 'g', 'h', 'i', 'j', 'k',
    'l', 'm', 'n', 'o', 'p', 'q', 'r', 's', 't', 'u', 'v',
    'w', 'x', 'y', 'z', 'A', 'B', 'C', 'D', 'E', 'F', 'G',
    'H', 'I', 'J', 'K', 'L', 'M', 'N', 'O', 'P', 'Q', 'R',
    'S', 'T', 'U', 'V', 'W', 'X', 'Y', 'Z'].map ofChar

def hashTableLen : Nat := 62

/-- `result[i] % hash_table_len`: the character is signed and converted to unsigned. -/
def tableIndex (char : Byte) : Nat := (char.signExtend 32).toNat % hashTableLen

/-- The first loop, which fills so many characters from `i` on. -/
def stretch : Nat → Nat → Nat → List Byte → Option (List Byte)
  | 0, _, _, result => some result
  | cnt + 1, i, start, result => do
      let before ← if i = 0 then none else result[i - 1]?
      let char ← result[start]?
      let result ← putChar result i (before ^^^ char)
      stretch cnt (i + 1) (start + 1) result

/-- The second loop, for so many characters from `i` on. -/
def mix : Nat → Nat → List Byte → Option (List Byte)
  | 0, _, result => some result
  | cnt + 1, i, result => do
      let char ← result[i]?
      let other ← result[maxLength - 1 - i]?
      let letter ← hashTable[tableIndex (char ^^^ other)]?
      let result ← putChar result i letter
      mix cnt (i + 1) result

end Hash

open Hash

/-- `hahash`. -/
def hahash (text result : List Byte) : Option (List Byte) :=
  if text.length > maxLength then do
    -- a longer text is only cut off
    let result ← memcpy result 0 text (maxLength - 1)
    putChar result (maxLength - 1) 0
  else do
    let result ← strcpy result 0 text
    let result ← stretch (maxLength - text.length) text.length 0 result
    let result ← mix maxLength 0 result
    putChar result (maxLength - 1) 0

/-- What the callers get: the array is filled with zeros before. -/
def passwordHash (password : List Byte) : Option (List Byte) :=
  (hahash password (List.replicate 32 0)).bind fun pwdResult => stringAt pwdResult 0

/-- The password has 1 to 32 characters. -/
structure IsPassword (password : List Byte) : Prop where
  string : 0 ∉ password
  nonempty : password ≠ []
  short : password.length ≤ 32

namespace Hash

variable {result : List Byte}

theorem putChar_of_lt {pos : Nat} (char : Byte) (hpos : pos < result.length) :
    putChar result pos char = some (result.set pos char) := if_pos hpos

theorem stretch_spec (cnt : Nat) {i start : Nat} (hpos : 0 < i) (hstart : start < i)
    (hlen : i + cnt = result.length) :
    ∃ filled, stretch cnt i start result = some filled ∧ filled.length = result.length := by
  induction cnt generalizing i start result with
  | zero => exact ⟨result, rfl, rfl⟩
  | succ cnt ih =>
      have hbefore : result[i - 1]? = some result[i - 1] := List.getElem?_eq_getElem (by omega)
      have hchar : result[start]? = some result[start] := List.getElem?_eq_getElem (by omega)
      have hset : i + 1 + cnt = (result.set i (result[i - 1] ^^^ result[start])).length := by
        rw [List.length_set]
        omega
      obtain ⟨filled, hfilled, hsame⟩ := ih (Nat.succ_pos i) (Nat.succ_lt_succ hstart) hset
      refine ⟨filled, ?_, hsame.trans List.length_set⟩
      simp only [stretch, if_neg (Nat.ne_of_gt hpos), hbefore, hchar, Option.bind_eq_bind,
        Option.bind_some, putChar_of_lt _ (show i < result.length by omega)]
      exact hfilled

theorem tableIndex_lt (char : Byte) : tableIndex char < hashTable.length :=
  Nat.mod_lt _ (by decide)

/-- Every character before `i` is from the table. -/
theorem mix_spec (cnt : Nat) {i : Nat} (hlen : result.length = maxLength)
    (hcnt : i + cnt = maxLength)
    (htable : ∀ j < i, ∀ char, result[j]? = some char → char ∈ hashTable) :
    ∃ mixed, mix cnt i result = some mixed ∧ mixed.length = maxLength ∧
      ∀ char ∈ mixed, char ∈ hashTable := by
  induction cnt generalizing i result with
  | zero =>
      refine ⟨result, rfl, hlen, fun char hmem => ?_⟩
      obtain ⟨j, hj, rfl⟩ := List.mem_iff_getElem.mp hmem
      exact htable j (by omega) _ (List.getElem?_eq_getElem hj)
  | succ cnt ih =>
      have hi : i < result.length := by omega
      have hother : maxLength - 1 - i < result.length := by omega
      -- `other` may have been mapped before, which does not matter for the table
      set letter := hashTable.get
        ⟨tableIndex (result[i] ^^^ result[maxLength - 1 - i]), tableIndex_lt _⟩
      have hmix : mix (cnt + 1) i result = mix cnt (i + 1) (result.set i letter) := by
        simp only [mix, List.getElem?_eq_getElem hi, List.getElem?_eq_getElem hother,
          List.getElem?_eq_getElem (tableIndex_lt _), Option.bind_eq_bind, Option.bind_some,
          putChar_of_lt _ hi]
        rfl
      rw [hmix]
      refine ih (by rwa [List.length_set]) (by omega) fun j hj char hchar => ?_
      rw [List.getElem?_set] at hchar
      split at hchar
      next =>
        rw [Option.some.injEq] at hchar
        exact hchar ▸ List.getElem_mem _
      next hne => exact htable j (by omega) char hchar

end Hash

theorem not_mem_hash {char : Byte} {hash : List Byte} (hchar : char ∉ hashTable)
    (hhash : ∀ letter ∈ hash, letter ∈ hashTable) : char ∉ hash :=
  fun hmem => hchar (hhash char hmem)

/-- `hahash` leaves 31 letters and digits and a zero. -/
theorem hahash_spec {password : List Byte} (hpassword : IsPassword password) :
    ∃ hash, hahash password (List.replicate 32 0) = some (hash ++ [0]) ∧ hash.length = 31 ∧
      ∀ char ∈ hash, char ∈ hashTable := by
  have hpos : 0 < password.length := List.length_pos_of_ne_nil hpassword.nonempty
  have hshort : password.length ≤ maxLength := hpassword.short
  have hfilled :
      (password ++ List.replicate (32 - password.length) (0 : Byte)).length = maxLength := by
    rw [List.length_append, List.length_replicate]
    exact Nat.add_sub_cancel' hshort
  obtain ⟨stretched, hstretch, hlen⟩ := stretch_spec (maxLength - password.length) hpos hpos
    ((Nat.add_sub_cancel' hshort).trans hfilled.symm)
  obtain ⟨mixed, hmix, hmixed, htable⟩ := mix_spec maxLength (hlen.trans hfilled) (Nat.zero_add _)
    fun j hj => absurd hj (Nat.not_lt_zero j)
  obtain ⟨last, hlast⟩ : ∃ last, mixed = mixed.take 31 ++ [last] := by
    have hlong : 31 < mixed.length := Nat.lt_of_lt_of_eq (by decide) hmixed.symm
    refine ⟨mixed[31], ?_⟩
    rw [List.take_append_getElem]
    exact (List.take_of_length_le (Nat.le_of_eq hmixed)).symm
  have htake : (mixed.take 31).length = 31 := by
    rw [List.length_take, hmixed]
    rfl
  have hterminated : putChar mixed (maxLength - 1) 0 = some (mixed.take 31 ++ [0]) := by
    have hput := putChar_append (mixed.take 31) [] last 0
    rwa [← hlast, htake] at hput
  refine ⟨mixed.take 31, ?_, htake, fun char hmem => htable char (List.mem_of_mem_take hmem)⟩
  simp only [hahash, if_neg (Nat.not_lt.mpr hshort), strcpy_replicate hpassword.short,
    Option.bind_eq_bind, Option.bind_some, hstretch, hmix, hterminated]

/-- The hash of a password has 31 letters and digits. -/
theorem passwordHash_spec {password : List Byte} (hpassword : IsPassword password) :
    ∃ hash, passwordHash password = some hash ∧ hash.length = 31 ∧
      ∀ char ∈ hash, char ∈ hashTable := by
  obtain ⟨hash, hresult, hlen, htable⟩ := hahash_spec hpassword
  refine ⟨hash, ?_, hlen, htable⟩
  rw [passwordHash, hresult, Option.bind_some]
  exact stringAt_zero [] (not_mem_hash (by decide) htable)

/-! ## Long passwords -/

/-- What the callers rely on: the array holds 31 characters from the table, so no colon and no
newline, and they are not the start of a password that is too long. -/
def Hashes (text : List Byte) : Prop :=
  ∃ hash, hahash text (List.replicate 32 0) = some (hash ++ [0]) ∧ hash.length = 31 ∧
    (∀ char ∈ hash, char ∈ hashTable) ∧ ofChar ':' ∉ hash ∧ ofChar '\n' ∉ hash ∧
    (maxLength < text.length → ¬ hash <+: text)

/-- A password that is too long is only cut off. -/
theorem hahash_long {text : List Byte} (hlong : maxLength < text.length) :
    hahash text (List.replicate 32 0) = some (text.take 31 ++ [0]) := by
  have htake : (text.take 31).length = 31 := by
    rw [List.length_take]
    exact Nat.min_eq_left (Nat.le_of_lt (Nat.lt_trans (by decide) hlong))
  have hcopy : memcpy (List.replicate 32 0) 0 text 31 = some (text.take 31 ++ 0 :: []) := by
    have hbounds : 0 + 31 ≤ (List.replicate 32 (0 : Byte)).length ∧ 31 ≤ text.length :=
      ⟨by decide, Nat.le_of_lt (Nat.lt_trans (by decide) hlong)⟩
    rw [memcpy, if_pos hbounds]
    rfl
  have hput := putChar_append (text.take 31) [] 0 0
  rw [htake] at hput
  rw [hahash, if_pos hlong]
  exact (congrArg (Option.bind · (putChar · 31 0)) hcopy).trans hput

theorem not_hashes_long {text : List Byte} (hlong : maxLength < text.length) : ¬ Hashes text := by
  rintro ⟨hash, hresult, -, -, -, -, hclear⟩
  rw [hahash_long hlong, Option.some.injEq] at hresult
  have hsame := List.append_cancel_right hresult
  exact hclear hlong (hsame ▸ List.take_prefix 31 text)

/-- Just the passwords of at most 32 characters are hashed. -/
theorem hashes_iff {text : List Byte} (hstring : 0 ∉ text) (hne : text ≠ []) :
    Hashes text ↔ text.length ≤ 32 := by
  constructor
  · intro hhashes
    by_contra hlong
    exact not_hashes_long (Nat.lt_of_not_le hlong) hhashes
  · intro hshort
    obtain ⟨hash, hresult, hlen, htable⟩ := hahash_spec ⟨hstring, hne, hshort⟩
    exact ⟨hash, hresult, hlen, htable, not_mem_hash (by decide) htable,
      not_mem_hash (by decide) htable, fun hlong => absurd hlong (Nat.not_lt.mpr hshort)⟩

theorem hashes_short : Hashes [ofChar 'r', ofChar 'o', ofChar 'o', ofChar 't'] :=
  (hashes_iff (by decide) (by decide)).mpr (by decide)

/-- Of a password of 33 characters the first 31 are stored. -/
theorem not_hashes_replicate :
    0 ∉ List.replicate 33 (ofChar 'a') ∧ List.replicate 33 (ofChar 'a') ≠ [] ∧
      hahash (List.replicate 33 (ofChar 'a')) (List.replicate 32 0) =
        some (List.replicate 31 (ofChar 'a') ++ [0]) ∧
      ¬ Hashes (List.replicate 33 (ofChar 'a')) :=
  ⟨by decide, by decide, hahash_long (by decide), not_hashes_long (by decide)⟩

end Shmily.Terminal
