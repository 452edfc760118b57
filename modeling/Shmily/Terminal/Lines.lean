import Shmily.Terminal.User

/-! # The lines of the account file

What `create_user_account` writes, and what each of the loops that cut a line in place
finds in it.
-/

namespace Shmily.Terminal

open Foundation Lib

/-- What a line can hold between its colons. -/
structure IsField (field : List Byte) : Prop where
  noColon : colon ∉ field
  noNewline : newline ∉ field
  noZero : 0 ∉ field

theorem IsField.cons {char : Byte} {field : List Byte} (hfield : IsField (char :: field)) :
    char ≠ colon ∧ char ≠ 0 ∧ IsField field where
  left heq := hfield.noColon (heq ▸ List.mem_cons_self)
  right := ⟨fun heq => hfield.noZero (heq ▸ List.mem_cons_self),
    fun hmem => hfield.noColon (List.mem_cons_of_mem _ hmem),
    fun hmem => hfield.noNewline (List.mem_cons_of_mem _ hmem),
    fun hmem => hfield.noZero (List.mem_cons_of_mem _ hmem)⟩

theorem not_mem_snoc {pre : List Byte} {byte char : Byte} (hpre : byte ∉ pre) (hne : byte ≠ char) :
    byte ∉ pre ++ [char] :=
  List.not_mem_append hpre (mt List.mem_singleton.mp hne)

structure Account where
  name : List Byte
  uid : BitVec 32
  hash : List Byte

namespace Account

/-- The line without its newline. -/
def body (account : Account) : List Byte :=
  printInt account.uid ++ colon :: (account.name ++ colon :: account.hash)

def line (account : Account) : List Byte := account.body ++ [newline]

/-- The account has a line that fits the arrays of its readers. -/
structure Storable (account : Account) : Prop where
  uid : account.uid.toNat < 2 ^ 31
  name : IsField account.name
  hash : IsField account.hash
  short : account.line.length < 64

end Account

theorem isField_printInt {uid : BitVec 32} (huid : uid.toNat < 2 ^ 31) : IsField (printInt uid) where
  noColon hmem := (isDigit_printInt huid _ hmem).ne (by decide) rfl
  noNewline hmem := (isDigit_printInt huid _ hmem).ne (by decide) rfl
  noZero hmem := (isDigit_printInt huid _ hmem).ne (by decide) rfl

/-- A loop that goes on at every character but a colon passes over a field. `clean` is what
it needs of the characters before. -/
theorem skip_field {Result : Type} (loop : Nat → Nat → List Byte → Result)
    (clean : List Byte → Prop) (post : List Byte)
    (hclean : ∀ pre char, clean pre → char ≠ 0 → clean (pre ++ [char]))
    (hpass : ∀ cnt pre char rest, clean pre → char ≠ colon → char ≠ 0 →
      loop (cnt + 1) pre.length (pre ++ char :: (rest ++ post)) =
        loop cnt (pre.length + 1) (pre ++ char :: (rest ++ post)))
    (cnt : Nat) (pre : List Byte) {field : List Byte} (hpre : clean pre) (hfield : IsField field) :
    loop (cnt + field.length) pre.length (pre ++ (field ++ post)) =
      loop cnt (pre ++ field).length (pre ++ field ++ post) := by
  induction field generalizing pre with
  | nil => rw [List.append_nil, List.nil_append, List.length_nil, Nat.add_zero]
  | cons char field ih =>
      obtain ⟨hcolon, hzero, hrest⟩ := hfield.cons
      have hnext := ih (pre ++ [char]) (hclean pre char hpre hzero) hrest
      rw [List.append_assoc pre [char], List.length_append, List.append_assoc pre [char]] at hnext
      rw [List.length_cons, ← Nat.add_assoc, List.cons_append,
        hpass _ pre char field hpre hcolon hzero]
      exact hnext

/-! ## `user_is_exists` and `delete_user_account` -/

section

variable {name tail rest post : List Byte} {char : Byte} {fuel cnt colonCnt : Nat}
  {realUname : Option Nat}

theorem splitName_succ (pre post : List Byte) (hpre : 0 ∉ pre) (hchar : char ≠ 0)
    (hpost : 0 ∈ post) :
    splitName (fuel + 1) pre.length (pre ++ char :: post) realUname colonCnt =
      if char = colon ∧ colonCnt = 0 then
        splitName fuel (pre.length + 1) (pre ++ char :: post) (some (pre.length + 1)) (colonCnt + 1)
      else if char = colon ∧ colonCnt = 1 then
        splitName fuel (pre.length + 1) (pre ++ 0 :: post) realUname colonCnt
      else splitName fuel (pre.length + 1) (pre ++ char :: post) realUname colonCnt := by
  obtain ⟨len, hlen, hlt⟩ := strlen_lt hpre hchar hpost
  have hget : (pre ++ char :: post)[pre.length]? = some char := by simp
  rw [splitName, hlen]
  simp only [Option.bind_eq_bind, Option.bind_some, if_pos hlt, hget, putChar_append]

theorem splitName_skip (fuel : Nat) (realUname : Option Nat) (colonCnt : Nat) (pre : List Byte)
    {field : List Byte} (hpre : 0 ∉ pre) (hfield : IsField field) (hpost : 0 ∈ post) :
    splitName (fuel + field.length) pre.length (pre ++ (field ++ post)) realUname colonCnt =
      splitName fuel (pre ++ field).length (pre ++ field ++ post) realUname colonCnt := by
  refine skip_field (fun fuel i buf => splitName fuel i buf realUname colonCnt) (0 ∉ ·) post
    (fun pre char hpre hzero => not_mem_snoc hpre hzero.symm)
    (fun fuel pre char rest hpre hcolon hzero => ?_) fuel pre hpre hfield
  rw [splitName_succ pre _ hpre hzero (List.mem_append_right rest hpost),
    if_neg (fun hchar => hcolon hchar.1), if_neg (fun hchar => hcolon hchar.1)]

/-- The name stands between the first two colons, and the string is cut at the second. -/
theorem splitName_line {digits : List Byte} (post : List Byte) (fuel : Nat) (realUname : Option Nat)
    (hdigits : IsField digits) (hname : IsField name) (hpost : 0 ∈ post) :
    splitName (fuel + 2 + name.length + 1 + digits.length) 0
        (digits ++ colon :: (name ++ colon :: post)) realUname 0 =
      some (digits ++ colon :: (name ++ 0 :: post), some (digits.length + 1)) := by
  have hpost' : 0 ∈ colon :: post := List.mem_cons_of_mem _ hpost
  have hrest : 0 ∈ name ++ colon :: post := List.mem_append_right _ hpost'
  have hfront : 0 ∉ digits ++ [colon] := not_mem_snoc hdigits.noZero (by decide)
  have hcut : 0 ∉ digits ++ [colon] ++ name := List.not_mem_append hfront hname.noZero
  let realUname' := some (digits.length + 1)
  calc splitName (fuel + 2 + name.length + 1 + digits.length) 0
        (digits ++ colon :: (name ++ colon :: post)) realUname 0
      = splitName (fuel + 2 + name.length + 1) digits.length
          (digits ++ colon :: (name ++ colon :: post)) realUname 0 :=
        splitName_skip _ _ _ [] List.not_mem_nil hdigits (List.mem_cons_of_mem colon hrest)
    _ = splitName (fuel + 2 + name.length) (digits ++ [colon]).length
          (digits ++ [colon] ++ (name ++ colon :: post)) realUname' 1 := by
        rw [splitName_succ digits _ hdigits.noZero (by decide) hrest, if_pos ⟨rfl, rfl⟩,
          List.length_append, List.append_assoc]
        rfl
    _ = splitName (fuel + 2) (digits ++ [colon] ++ name).length
          (digits ++ [colon] ++ name ++ colon :: post) realUname' 1 :=
        splitName_skip _ _ _ (digits ++ [colon]) hfront hname hpost'
    _ = splitName (fuel + 1) ((digits ++ [colon] ++ name).length + 1)
          (digits ++ [colon] ++ name ++ 0 :: post) realUname' 1 := by
        rw [splitName_succ (digits ++ [colon] ++ name) post hcut (by decide) hpost,
          if_neg (by decide), if_pos ⟨rfl, rfl⟩]
    _ = some (digits ++ [colon] ++ name ++ 0 :: post, realUname') := by
        -- The zero has just been stored, so that this is the end.
        rw [splitName, strlen_append post hcut]
        exact if_neg (Nat.not_lt.mpr (Nat.le_succ _))
    _ = some (digits ++ colon :: (name ++ 0 :: post), realUname') := by
        rw [List.append_assoc, List.append_assoc]
        rfl

/-! ## `username2uid` -/

theorem splitUid_succ (cnt : Nat) (realUname : Option Nat) (colonCnt : Nat) (pre post : List Byte) :
    splitUid (cnt + 1) pre.length (pre ++ char :: post) realUname colonCnt =
      if char = colon ∧ colonCnt = 0 then
        splitUid cnt (pre.length + 1) (pre ++ 0 :: post) (some (pre.length + 1)) (colonCnt + 1)
      else if char = colon ∧ colonCnt = 1 then some (pre ++ 0 :: post, realUname)
      else splitUid cnt (pre.length + 1) (pre ++ char :: post) realUname colonCnt := by
  have hget : (pre ++ char :: post)[pre.length]? = some char := by simp
  rw [splitUid]
  simp only [Option.bind_eq_bind, hget, Option.bind_some, putChar_append]

theorem splitUid_skip (cnt : Nat) (realUname : Option Nat) (colonCnt : Nat) (pre post : List Byte)
    {field : List Byte} (hfield : IsField field) :
    splitUid (cnt + field.length) pre.length (pre ++ (field ++ post)) realUname colonCnt =
      splitUid cnt (pre ++ field).length (pre ++ field ++ post) realUname colonCnt := by
  refine skip_field (fun cnt i buf => splitUid cnt i buf realUname colonCnt) (fun _ => True)
    post (fun _ _ _ _ => trivial) (fun cnt pre char rest _ hcolon _ => ?_) cnt pre trivial hfield
  rw [splitUid_succ, if_neg (fun hchar => hcolon hchar.1), if_neg (fun hchar => hcolon hchar.1)]

/-- Both colons are replaced, and the loop ends at the second. -/
theorem splitUid_line {digits : List Byte} (post : List Byte) (cnt : Nat) (realUname : Option Nat)
    (hdigits : IsField digits) (hname : IsField name) :
    splitUid (cnt + 1 + name.length + 1 + digits.length) 0
        (digits ++ colon :: (name ++ colon :: post)) realUname 0 =
      some (digits ++ 0 :: (name ++ 0 :: post), some (digits.length + 1)) := by
  let realUname' := some (digits.length + 1)
  calc splitUid (cnt + 1 + name.length + 1 + digits.length) 0
        (digits ++ colon :: (name ++ colon :: post)) realUname 0
      = splitUid (cnt + 1 + name.length + 1) digits.length
          (digits ++ colon :: (name ++ colon :: post)) realUname 0 :=
        splitUid_skip _ _ _ [] _ hdigits
    _ = splitUid (cnt + 1 + name.length) (digits ++ [0]).length
          (digits ++ [0] ++ (name ++ colon :: post)) realUname' 1 := by
        rw [splitUid_succ, if_pos ⟨rfl, rfl⟩, List.length_append, List.append_assoc]
        rfl
    _ = splitUid (cnt + 1) (digits ++ [0] ++ name).length
          (digits ++ [0] ++ name ++ colon :: post) realUname' 1 :=
        splitUid_skip _ _ _ (digits ++ [0]) _ hname
    _ = some (digits ++ [0] ++ name ++ 0 :: post, realUname') := by
        rw [splitUid_succ, if_neg (by decide), if_pos ⟨rfl, rfl⟩]
    _ = some (digits ++ 0 :: (name ++ 0 :: post), realUname') := by
        rw [List.append_assoc, List.append_assoc]
        rfl

/-! ## `user_check` -/

theorem splitFields_succ (cnt : Nat) (realUname realPwd : Option Nat) (colonCnt : Nat)
    (pre post : List Byte) :
    splitFields (cnt + 1) pre.length (pre ++ char :: post) realUname realPwd colonCnt =
      if char = colon ∧ colonCnt = 0 then
        splitFields cnt (pre.length + 1) (pre ++ 0 :: post) (some (pre.length + 1)) realPwd
          (colonCnt + 1)
      else if char = colon ∧ colonCnt = 1 then
        splitFields cnt (pre.length + 1) (pre ++ 0 :: post) realUname (some (pre.length + 1)) colonCnt
      else splitFields cnt (pre.length + 1) (pre ++ char :: post) realUname realPwd colonCnt := by
  have hget : (pre ++ char :: post)[pre.length]? = some char := by simp
  rw [splitFields]
  simp only [Option.bind_eq_bind, hget, Option.bind_some, putChar_append]

theorem splitFields_skip (cnt : Nat) (realUname realPwd : Option Nat) (colonCnt : Nat)
    (pre post : List Byte) {field : List Byte} (hfield : IsField field) :
    splitFields (cnt + field.length) pre.length (pre ++ (field ++ post)) realUname realPwd colonCnt =
      splitFields cnt (pre ++ field).length (pre ++ field ++ post) realUname realPwd colonCnt := by
  refine skip_field (fun cnt i buf => splitFields cnt i buf realUname realPwd colonCnt)
    (fun _ => True) post (fun _ _ _ _ => trivial) (fun cnt pre char rest _ hcolon _ => ?_) cnt pre
    trivial hfield
  rw [splitFields_succ, if_neg (fun hchar => hcolon hchar.1), if_neg (fun hchar => hcolon hchar.1)]

/-- Both colons are replaced, and the hash stands behind the second. -/
theorem splitFields_line {digits : List Byte} (post : List Byte) (realUname realPwd : Option Nat)
    (hdigits : IsField digits) (hname : IsField name) (htail : IsField tail) :
    splitFields (tail.length + 1 + name.length + 1 + digits.length) 0
        (digits ++ colon :: (name ++ colon :: (tail ++ post))) realUname realPwd 0 =
      some (digits ++ 0 :: (name ++ 0 :: (tail ++ post)), some (digits.length + 1),
        some ((digits ++ 0 :: name).length + 1)) := by
  let realUname' := some (digits.length + 1)
  let realPwd' := some ((digits ++ [0] ++ name).length + 1)
  have hcut : (digits ++ [0] ++ name ++ [0]).length = (digits ++ [0] ++ name).length + 1 :=
    List.length_append
  calc splitFields (tail.length + 1 + name.length + 1 + digits.length) 0
        (digits ++ colon :: (name ++ colon :: (tail ++ post))) realUname realPwd 0
      = splitFields (tail.length + 1 + name.length + 1) digits.length
          (digits ++ colon :: (name ++ colon :: (tail ++ post))) realUname realPwd 0 :=
        splitFields_skip _ _ _ _ [] _ hdigits
    _ = splitFields (tail.length + 1 + name.length) (digits ++ [0]).length
          (digits ++ [0] ++ (name ++ colon :: (tail ++ post))) realUname' realPwd 1 := by
        rw [splitFields_succ, if_pos ⟨rfl, rfl⟩, List.length_append, List.append_assoc]
        rfl
    _ = splitFields (tail.length + 1) (digits ++ [0] ++ name).length
          (digits ++ [0] ++ name ++ colon :: (tail ++ post)) realUname' realPwd 1 :=
        splitFields_skip _ _ _ _ (digits ++ [0]) _ hname
    _ = splitFields tail.length (digits ++ [0] ++ name ++ [0]).length
          (digits ++ [0] ++ name ++ [0] ++ (tail ++ post)) realUname' realPwd' 1 := by
        rw [splitFields_succ, if_neg (by decide), if_pos ⟨rfl, rfl⟩,
          List.append_assoc (digits ++ [0] ++ name) [0], hcut]
        rfl
    _ = some (digits ++ [0] ++ name ++ [0] ++ tail ++ post, realUname', realPwd') := by
        have hskip := splitFields_skip 0 realUname' realPwd' 1 (digits ++ [0] ++ name ++ [0]) post
          htail
        rw [Nat.zero_add] at hskip
        exact hskip
    _ = some (digits ++ 0 :: (name ++ 0 :: (tail ++ post)), realUname',
          some ((digits ++ 0 :: name).length + 1)) := by
        simp [realPwd']

end

/-! ## Accounts -/

namespace Account

variable {account : Account}

theorem body_noZero (hstorable : account.Storable) : 0 ∉ account.body :=
  List.not_mem_append (isField_printInt hstorable.uid).noZero
    (List.not_mem_cons_of_ne_of_not_mem (by decide) (List.not_mem_append hstorable.name.noZero
      (List.not_mem_cons_of_ne_of_not_mem (by decide) hstorable.hash.noZero)))

theorem body_noNewline (hstorable : account.Storable) : newline ∉ account.body :=
  List.not_mem_append (isField_printInt hstorable.uid).noNewline
    (List.not_mem_cons_of_ne_of_not_mem (by decide) (List.not_mem_append hstorable.name.noNewline
      (List.not_mem_cons_of_ne_of_not_mem (by decide) hstorable.hash.noNewline)))

theorem length_body (account : Account) : account.body.length =
    account.hash.length + 1 + account.name.length + 1 + (printInt account.uid).length := by
  rw [body, List.length_append, List.length_cons, List.length_append, List.length_cons]
  omega

theorem length_line (account : Account) : account.line.length = account.body.length + 1 := by
  rw [line, List.length_append, List.length_singleton]

/-- What `sprintf` prints for an account. -/
theorem vsprintf_line (account : Account) :
    vsprintf lineFormat [.int account.uid, .string account.name, .string account.hash] =
      some account.line := by
  have hprinted :
      vsprintf lineFormat [.int account.uid, .string account.name, .string account.hash] =
        some (printInt account.uid ++
          colon :: (account.name ++ colon :: (account.hash ++ [newline]))) := rfl
  rw [hprinted, line, body, List.append_assoc, List.cons_append, List.append_assoc, List.cons_append]

theorem line_noZero (hstorable : account.Storable) : 0 ∉ account.line :=
  not_mem_snoc (body_noZero hstorable) (by decide)

/-- A line that is copied to an empty array is the string there. -/
theorem strcpy_line (hstorable : account.Storable) :
    (strcpy (List.replicate 128 0) 0 account.line).bind (stringAt · 0) = some account.line := by
  have hshort := hstorable.short
  obtain ⟨room, hroom⟩ := Nat.exists_eq_add_of_le' (show 1 ≤ 128 - account.line.length by omega)
  rw [strcpy_replicate (by omega), Option.bind_some, hroom, List.replicate_succ]
  exact stringAt_zero _ (line_noZero hstorable)

/-- The line that `create_user_account` writes. -/
theorem sprintf_line (hstorable : account.Storable) :
    (sprintf (List.replicate 128 0) lineFormat
      [.int account.uid, .string account.name, .string account.hash]).bind (stringAt · 0) =
        some account.line := by
  rw [sprintf, vsprintf_line, Option.bind_some]
  exact strcpy_line hstorable

/-- A field stands behind its separator. -/
theorem pointed_field (front rest : List Byte) (separator : Byte) {field : List Byte}
    (hfield : IsField field) :
    pointed (front ++ separator :: (field ++ 0 :: rest)) (some (front.length + 1)) = some field := by
  have hstring := stringAt_append (front ++ [separator]) rest hfield.noZero
  rwa [List.append_assoc, List.length_append] at hstring

/-- `user_is_exists` and `delete_user_account` find the name. -/
theorem splitName_finds (hstorable : account.Storable) (rest : List Byte) (realUname : Option Nat)
    {fuel : Nat} (hfuel : account.body.length + 1 ≤ fuel) :
    ∃ buf pointer, splitName fuel 0 (account.body ++ newline :: 0 :: rest) realUname 0 =
      some (buf, pointer) ∧ pointed buf pointer = some account.name := by
  have hdigits := isField_printInt hstorable.uid
  have hlength := length_body account
  obtain ⟨extra, hextra⟩ := Nat.exists_eq_add_of_le'
    (show 2 + account.name.length + 1 + (printInt account.uid).length ≤ fuel by omega)
  have hzero : 0 ∈ account.hash ++ newline :: 0 :: rest := by simp
  have hsplit := splitName_line (account.hash ++ newline :: 0 :: rest) extra realUname hdigits
    hstorable.name hzero
  refine ⟨_, _, ?_, pointed_field (printInt account.uid) (account.hash ++ newline :: 0 :: rest) colon
    hstorable.name⟩
  rw [hextra, ← Nat.add_assoc, ← Nat.add_assoc, ← Nat.add_assoc, body, List.append_assoc,
    List.cons_append, List.append_assoc, List.cons_append]
  exact hsplit

theorem chop_body (hstorable : account.Storable) (rest : List Byte) :
    chop (account.body ++ newline :: 0 :: rest) = some (account.body ++ 0 :: 0 :: rest) := by
  have hlen : strlen (account.body ++ newline :: 0 :: rest) = some (account.body.length + 1) := by
    rw [← length_line, ← strlen_append rest (line_noZero hstorable), line, List.append_assoc]
    rfl
  rw [chop, hlen]
  exact putChar_append account.body (0 :: rest) newline 0

/-- `username2uid` finds the uid and the name. -/
theorem splitUid_finds (hstorable : account.Storable) (rest : List Byte) (realUname : Option Nat) :
    ∃ buf pointer, splitUid account.body.length 0 (account.body ++ 0 :: rest) realUname 0 =
      some (buf, pointer) ∧ stringAt buf 0 = some (printInt account.uid) ∧
      pointed buf pointer = some account.name := by
  have hdigits := isField_printInt hstorable.uid
  have hsplit := splitUid_line (account.hash ++ 0 :: rest) account.hash.length realUname hdigits
    hstorable.name
  refine ⟨printInt account.uid ++ 0 :: (account.name ++ 0 :: (account.hash ++ 0 :: rest)), _, ?_,
    stringAt_zero _ hdigits.noZero, pointed_field (printInt account.uid) _ 0 hstorable.name⟩
  rw [length_body, body, List.append_assoc, List.cons_append, List.append_assoc, List.cons_append]
  exact hsplit

/-- `user_check` finds the uid, the name and the hash. -/
theorem splitFields_finds (hstorable : account.Storable) (rest : List Byte)
    (realUname realPwd : Option Nat) :
    ∃ buf pointer pwdPointer, splitFields account.body.length 0 (account.body ++ 0 :: rest) realUname
      realPwd 0 = some (buf, pointer, pwdPointer) ∧ stringAt buf 0 = some (printInt account.uid) ∧
      pointed buf pointer = some account.name ∧ pointed buf pwdPointer = some account.hash := by
  have hdigits := isField_printInt hstorable.uid
  have hsplit := splitFields_line (0 :: rest) realUname realPwd hdigits hstorable.name hstorable.hash
  have hhash := pointed_field (printInt account.uid ++ 0 :: account.name) rest 0 hstorable.hash
  rw [List.append_assoc, List.cons_append] at hhash
  refine ⟨printInt account.uid ++ 0 :: (account.name ++ 0 :: (account.hash ++ 0 :: rest)), _, _, ?_,
    stringAt_zero _ hdigits.noZero, pointed_field (printInt account.uid) _ 0 hstorable.name, hhash⟩
  rw [length_body, body, List.append_assoc, List.cons_append, List.append_assoc, List.cons_append]
  exact hsplit

end Account

end Shmily.Terminal
