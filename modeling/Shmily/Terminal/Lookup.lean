import Shmily.Terminal.Lines

/-! # The loops over the account file

The file holds one line for each account. Every function that reads it goes through the
lines in order, and each loop is a search in the list of the accounts.
-/

namespace Shmily.Terminal

open Foundation Lib

/-- The bytes of the file. -/
def lines (accounts : List Account) : List Byte := accounts.flatMap Account.line

variable {store : FileStore String} {fd : OpenFile String} {account : Account}
  {accounts : List Account} {username : List Byte}

theorem not_isEof (hunread : store.unread fd = lines (account :: accounts)) :
    store.isEof fd = false := by
  rw [Bool.eq_false_iff, ne_eq, FileStore.isEof_iff, hunread, lines, List.flatMap_cons]
  exact List.append_ne_nil_of_left_ne_nil
    (List.append_ne_nil_of_right_ne_nil account.body (List.cons_ne_nil newline [])) _

/-- The next line is read, and the lines behind it are left. -/
theorem readline_account {size : Nat} (hstorable : account.Storable)
    (hunread : store.unread fd = lines (account :: accounts)) (hsize : 64 ≤ size) :
    ∃ after rest, readline store fd (List.replicate size 0) =
        some (after, account.body ++ newline :: 0 :: rest) ∧
      after.path = fd.path ∧ store.unread after = lines accounts := by
  have hshort := hstorable.short
  rw [Account.length_line] at hshort
  have hline : store.unread fd = account.body ++ newline :: lines accounts := by
    rw [hunread, lines, List.flatMap_cons, Account.line, List.append_assoc]
    rfl
  -- room for the newline and the zero
  have hroom : account.body.length + 2 ≤ (List.replicate size (0 : Byte)).length := by
    rw [List.length_replicate]
    omega
  obtain ⟨after, hafter, hpath, hrest⟩ :=
    readline_line hline (Account.body_noNewline hstorable) hroom
  exact ⟨after, _, hafter, hpath, hrest⟩

/-- A loop that reads a line and ends there if its account is the one searched for is a
search in the list of the accounts. What it keeps besides does not matter. -/
theorem search_lines {Kept Result : Type} (loop : Nat → OpenFile String → Kept → Option Result)
    {found : Account → Bool} {result : Account → Result} {missing : Result}
    (hend : ∀ fuel fd kept, store.unread fd = [] → loop (fuel + 1) fd kept = some missing)
    (hline : ∀ fuel fd kept account accounts, account.Storable →
      store.unread fd = lines (account :: accounts) →
        ∃ after kept', store.unread after = lines accounts ∧
          loop (fuel + 1) fd kept =
            if found account then some (result account) else loop fuel after kept')
    {fuel : Nat} (kept : Kept) (hstorable : ∀ account ∈ accounts, account.Storable)
    (hunread : store.unread fd = lines accounts) (hfuel : accounts.length < fuel) :
    loop fuel fd kept = some (((accounts.find? found).map result).getD missing) := by
  obtain ⟨fuel, rfl⟩ := Nat.exists_eq_succ_of_ne_zero (Nat.ne_of_gt (Nat.zero_lt_of_lt hfuel))
  -- each turn reads one account, whatever the pointers are left at
  induction accounts generalizing fd fuel kept with
  | nil => exact hend fuel fd kept hunread
  | cons account accounts ih =>
      obtain ⟨haccount, haccounts⟩ := List.forall_mem_cons.mp hstorable
      obtain ⟨after, kept', hrest, hstep⟩ := hline fuel fd kept account accounts haccount hunread
      rw [hstep]
      by_cases hfound : found account
      · rw [if_pos hfound, List.find?_cons_of_pos hfound]
        rfl
      · obtain ⟨fuel, rfl⟩ := Nat.exists_eq_succ_of_ne_zero
          (Nat.ne_of_gt (Nat.zero_lt_of_lt (Nat.lt_of_succ_lt_succ hfuel)))
        rw [if_neg hfound, List.find?_cons_of_neg hfound]
        exact ih kept' haccounts hrest fuel (Nat.lt_of_succ_lt_succ hfuel)

/-! ## The readers -/

def named (username : List Byte) (account : Account) : Bool := username = account.name

theorem strcmp_name (username : List Byte) (account : Account) :
    strcmp username account.name = named username account := by
  rw [Bool.eq_iff_iff, strcmp_iff, named, decide_eq_true_iff]

theorem name_strcmp (username : List Byte) (account : Account) :
    strcmp account.name username = named username account := by
  rw [Bool.eq_iff_iff, strcmp_iff, named, decide_eq_true_iff, eq_comm]

/-- One line of `user_is_exists`. -/
theorem userIsExistsFrom_succ (username : List Byte) (fuel : Nat) (fd : OpenFile String)
    (realUname : Option Nat) (account : Account) (accounts : List Account)
    (hstorable : account.Storable) (hunread : store.unread fd = lines (account :: accounts)) :
    ∃ after pointer, store.unread after = lines accounts ∧
      userIsExistsFrom store username (fuel + 1) fd realUname =
        if named username account then some true
        else userIsExistsFrom store username fuel after pointer := by
  obtain ⟨after, rest, hread, -, hrest⟩ := readline_account hstorable hunread
    (show 64 ≤ 128 by decide)
  have hlong : account.body.length + 1 ≤ (account.body ++ newline :: 0 :: rest).length + 1 := by
    rw [List.length_append]
    omega
  obtain ⟨buf, pointer, hsplit, hname⟩ := Account.splitName_finds hstorable rest realUname hlong
  refine ⟨after, pointer, hrest, ?_⟩
  rw [userIsExistsFrom, not_isEof hunread]
  simp only [Bool.false_eq_true, if_false, Option.bind_eq_bind, hread, Option.bind_some, hsplit,
    hname, name_strcmp]

/-- One line of `username2uid`. -/
theorem username2uidFrom_succ (username : List Byte) (fuel : Nat) (fd : OpenFile String)
    (realUname : Option Nat) (account : Account) (accounts : List Account)
    (hstorable : account.Storable) (hunread : store.unread fd = lines (account :: accounts)) :
    ∃ after pointer, store.unread after = lines accounts ∧
      username2uidFrom store username (fuel + 1) fd realUname =
        if named username account then some account.uid
        else username2uidFrom store username fuel after pointer := by
  obtain ⟨after, rest, hread, -, hrest⟩ := readline_account hstorable hunread (Nat.le_refl 64)
  obtain ⟨buf, pointer, hsplit, hdigits, hname⟩ :=
    Account.splitUid_finds hstorable (0 :: rest) realUname
  have hlen := strlen_append (0 :: rest) (Account.body_noZero hstorable)
  refine ⟨after, pointer, hrest, ?_⟩
  rw [username2uidFrom, not_isEof hunread]
  simp only [Bool.false_eq_true, if_false, Option.bind_eq_bind, hread, Option.bind_some,
    Account.chop_body hstorable, hlen, hsplit, hdigits, hname, strcmp_name,
    string2int_printInt hstorable.uid]

/-- One line of `user_check`. -/
theorem userCheckFrom_succ (username pwdResult : List Byte) (fuel : Nat) (fd : OpenFile String)
    (pointers : Option Nat × Option Nat) (account : Account) (accounts : List Account)
    (hstorable : account.Storable) (hunread : store.unread fd = lines (account :: accounts)) :
    ∃ after, ∃ pointers' : Option Nat × Option Nat, store.unread after = lines accounts ∧
      userCheckFrom store username pwdResult (fuel + 1) fd pointers.1 pointers.2 =
        if named username account && strcmp pwdResult account.hash then some account.uid
        else userCheckFrom store username pwdResult fuel after pointers'.1 pointers'.2 := by
  obtain ⟨after, rest, hread, -, hrest⟩ := readline_account hstorable hunread (Nat.le_refl 64)
  obtain ⟨buf, pointer, pwdPointer, hsplit, hdigits, hname, hpwd⟩ :=
    Account.splitFields_finds hstorable (0 :: rest) pointers.1 pointers.2
  have hlen := strlen_append (0 :: rest) (Account.body_noZero hstorable)
  refine ⟨after, (pointer, pwdPointer), hrest, ?_⟩
  rw [userCheckFrom, not_isEof hunread]
  simp only [Bool.false_eq_true, if_false, Option.bind_eq_bind, hread, Option.bind_some,
    Account.chop_body hstorable, hlen, hsplit, hdigits, hname, hpwd, strcmp_name,
    string2int_printInt hstorable.uid, Bool.and_eq_true]
  cases named username account <;> simp

section

variable {fuel : Nat}

theorem userIsExistsFrom_lines (realUname : Option Nat)
    (hstorable : ∀ account ∈ accounts, account.Storable)
    (hunread : store.unread fd = lines accounts) (hfuel : accounts.length < fuel) :
    userIsExistsFrom store username fuel fd realUname =
      some (((accounts.find? (named username)).map fun _ => true).getD false) :=
  search_lines (userIsExistsFrom store username)
    (fun _ _ _ hend => if_pos (FileStore.isEof_iff.mpr hend)) (userIsExistsFrom_succ username)
    realUname hstorable hunread hfuel

theorem username2uidFrom_lines (realUname : Option Nat)
    (hstorable : ∀ account ∈ accounts, account.Storable)
    (hunread : store.unread fd = lines accounts) (hfuel : accounts.length < fuel) :
    username2uidFrom store username fuel fd realUname =
      some (((accounts.find? (named username)).map Account.uid).getD (-1)) :=
  search_lines (username2uidFrom store username)
    (fun _ _ _ hend => if_pos (FileStore.isEof_iff.mpr hend)) (username2uidFrom_succ username)
    realUname hstorable hunread hfuel

theorem userCheckFrom_lines {pwdResult : List Byte} (realUname realPwd : Option Nat)
    (hstorable : ∀ account ∈ accounts, account.Storable)
    (hunread : store.unread fd = lines accounts) (hfuel : accounts.length < fuel) :
    userCheckFrom store username pwdResult fuel fd realUname realPwd =
      some (((accounts.find? fun account =>
        named username account && strcmp pwdResult account.hash).map Account.uid).getD (-1)) :=
  search_lines (fun fuel fd kept => userCheckFrom store username pwdResult fuel fd kept.1 kept.2)
    (fun _ _ _ hend => if_pos (FileStore.isEof_iff.mpr hend))
    (userCheckFrom_succ username pwdResult) (realUname, realPwd) hstorable hunread hfuel

end

/-! ## Copying the other lines -/

/-- One line of `delete_user_account`. -/
theorem copyOthers_succ (username : List Byte) (fuel : Nat) (fd target : OpenFile String)
    (realUname : Option Nat) (account : Account) (accounts : List Account)
    (hstorable : account.Storable) (hunread : store.unread fd = lines (account :: accounts)) :
    ∃ after pointer, after.path = fd.path ∧ store.unread after = lines accounts ∧
      copyOthers username (fuel + 1) store fd target realUname =
        if named username account then copyOthers username fuel store after target pointer
        else copyOthers username fuel (store.append target account.line) after target pointer := by
  obtain ⟨after, rest, hread, hpath, hrest⟩ := readline_account hstorable hunread
    (show 64 ≤ 128 by decide)
  have hlong : account.body.length + 1 ≤ (account.body ++ newline :: 0 :: rest).length + 1 := by
    rw [List.length_append]
    omega
  obtain ⟨buf, pointer, hsplit, hname⟩ := Account.splitName_finds hstorable rest realUname hlong
  have hbuf : account.body ++ newline :: 0 :: rest = account.line ++ 0 :: rest := by
    rw [Account.line, List.append_assoc]
    rfl
  -- the copy was made before the line was cut
  obtain ⟨bufWillWrite, hcopy, hwrite⟩ := Option.bind_eq_some_iff.mp (Account.strcpy_line hstorable)
  rw [hbuf] at hread hsplit
  refine ⟨after, pointer, hpath, hrest, ?_⟩
  rw [copyOthers, not_isEof hunread]
  simp only [Bool.false_eq_true, if_false, Option.bind_eq_bind, hread, Option.bind_some,
    strlen_append rest (Account.line_noZero hstorable), memcpy_prefix, hcopy, hsplit, hname,
    strcmp_name, hwrite]

/-- The lines of the other accounts are written behind what the file holds. -/
theorem copyOthers_lines {fuel : Nat} {written : List Byte} (username : List Byte)
    (target : OpenFile String) (realUname : Option Nat)
    (hstorable : ∀ account ∈ accounts, account.Storable) (hpath : fd.path ≠ target.path)
    (hunread : store.unread fd = lines accounts)
    (hwritten : store.files target.path = some written) (hfuel : accounts.length < fuel) :
    ∃ after, copyOthers username fuel store fd target realUname = some after ∧
      after.files target.path =
        some (written ++ lines (accounts.filter fun account => !named username account)) ∧
      ∀ path ≠ target.path, after.files path = store.files path := by
  obtain ⟨fuel, rfl⟩ := Nat.exists_eq_succ_of_ne_zero (Nat.ne_of_gt (Nat.zero_lt_of_lt hfuel))
  induction accounts generalizing store fd fuel realUname written with
  | nil =>
      refine ⟨store, if_pos (FileStore.isEof_iff.mpr hunread), ?_, fun _ _ => rfl⟩
      rw [hwritten]
      exact congrArg some (List.append_nil written).symm
  | cons account accounts ih =>
      obtain ⟨haccount, haccounts⟩ := List.forall_mem_cons.mp hstorable
      obtain ⟨next, pointer, hnext, hrest, hstep⟩ :=
        copyOthers_succ username fuel fd target realUname account accounts haccount hunread
      obtain ⟨fuel, rfl⟩ := Nat.exists_eq_succ_of_ne_zero
        (Nat.ne_of_gt (Nat.zero_lt_of_lt (Nat.lt_of_succ_lt_succ hfuel)))
      have hfuel' := Nat.lt_of_succ_lt_succ hfuel
      have hpath' : next.path ≠ target.path := hnext ▸ hpath
      rw [hstep]
      by_cases hname : named username account
      · rw [if_pos hname, List.filter_cons_of_neg (by simp [hname])]
        exact ih pointer haccounts hpath' hrest hwritten fuel hfuel'
      · have happended : (store.append target account.line).files target.path =
            some (written ++ account.line) := by
          simp [FileStore.append, FileStore.content, hwritten]
        obtain ⟨after, hafter, hfile, hothers⟩ := ih pointer haccounts hpath'
          ((FileStore.unread_append hpath').trans hrest) happended fuel hfuel'
        refine ⟨after, ?_, ?_, fun path hne =>
          (hothers path hne).trans (Function.update_of_ne hne _ _)⟩
        · rw [if_neg hname]
          exact hafter
        · rw [hfile, List.filter_cons_of_pos (by simp [hname]), List.append_assoc]
          rfl

end Shmily.Terminal
