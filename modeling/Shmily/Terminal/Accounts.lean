import Shmily.Foundation.Run
import Shmily.Terminal.Lookup

/-! # The accounts are a finite map

The account file stands for a map from names to uids and hashes. Creating and deleting
accounts changes the map, and the functions that read the file look names up in it.
-/

namespace Shmily.Terminal

open Foundation Lib

/-- A finite map, in the order in which the accounts were added. -/
structure Accounts where
  list : List Account
  nodup : (list.map Account.name).Nodup

namespace Accounts

def empty : Accounts where
  list := []
  nodup := List.nodup_nil

def find? (accounts : Accounts) (username : List Byte) : Option Account :=
  accounts.list.find? (named username)

variable {accounts : Accounts} {account : Account} {username : List Byte}

theorem name_ne_of_find? (hfind : accounts.find? username = none) :
    ∀ account ∈ accounts.list, account.name ≠ username := fun account hmem hname =>
  List.find?_eq_none.mp hfind account hmem (decide_eq_true hname.symm)

/-- A new account comes last. -/
def add (accounts : Accounts) (account : Account) (hnew : accounts.find? account.name = none) :
    Accounts where
  list := accounts.list ++ [account]
  nodup := by
    rw [List.map_append, List.map_singleton, ← List.concat_eq_append, List.nodup_concat]
    refine ⟨fun hmem => ?_, accounts.nodup⟩
    obtain ⟨other, hother, hname⟩ := List.mem_map.mp hmem
    exact name_ne_of_find? hnew other hother hname

/-- The order of the other accounts is kept. -/
def delete (accounts : Accounts) (username : List Byte) : Accounts where
  list := accounts.list.filter fun account => !named username account
  nodup := accounts.nodup.sublist (List.filter_sublist.map Account.name)

theorem delete_of_find? (hfind : accounts.find? username = none) :
    (accounts.delete username).list = accounts.list :=
  List.filter_eq_self.mpr fun account hmem => by
    simpa [named] using (name_ne_of_find? hfind account hmem).symm

/-- Names are distinct, so that a search for the name and more ends at the same account. -/
theorem find?_and (accounts : Accounts) (username : List Byte) (holds : Account → Bool) :
    (accounts.list.find? fun account => named username account && holds account) =
      (accounts.find? username).filter holds := by
  obtain ⟨list, hnodup⟩ := accounts
  rw [find?]
  induction list with
  | nil => rfl
  | cons account list ih =>
      rw [List.map_cons, List.nodup_cons] at hnodup
      by_cases hname : named username account
      -- no other account has the name
      · have hothers : list.find? (fun account => named username account && holds account) = none :=
          List.find?_eq_none.mpr fun other hmem hother => hnodup.1 (List.mem_map.mpr ⟨other, hmem,
            (of_decide_eq_true (Bool.and_eq_true_iff.mp hother).1).symm.trans
              (of_decide_eq_true hname)⟩)
        rw [List.find?_cons_of_pos hname, Option.filter_some]
        by_cases hholds : holds account
        · rw [List.find?_cons_of_pos (by simp [hname, hholds]), if_pos hholds]
        · rw [List.find?_cons_of_neg (by simp [hholds]), if_neg hholds, hothers]
      · rw [List.find?_cons_of_neg (by simp [hname]), List.find?_cons_of_neg hname]
        exact ih hnodup.2

end Accounts

/-- The accounts, and the uid that was given last. -/
structure Registry where
  accounts : Accounts
  uid : BitVec 32

/-- What a caller of the account functions asks for. -/
inductive Change
  | create (username password : List Byte)
  | delete (username : List Byte)

namespace Registry

/-- The account of `root` takes no uid. -/
def nextUid (uid : BitVec 32) (username : List Byte) : BitVec 32 :=
  if username = root then 0 else uid + 1

def change (registry : Registry) : Change → Registry
  | .create username password =>
      if hnew : registry.accounts.find? username = none then
        { accounts := registry.accounts.add
            { name := username, uid := nextUid registry.uid username,
              hash := (passwordHash password).getD [] } hnew
          uid := if username = root then registry.uid else registry.uid + 1 }
      else registry
  | .delete username =>
      if username = root then registry
      else { registry with accounts := registry.accounts.delete username }

end Registry

/-- The file and the counter stand for the registry. -/
structure Represents (acc : Accounting) (registry : Registry) : Prop where
  file : acc.store.files passwd = some (lines registry.accounts.list)
  /-- Nothing is left of an earlier copy. -/
  noCopy : acc.store.content passwdNew = []
  uid : acc.uid = registry.uid
  storable : ∀ account ∈ registry.accounts.list, account.Storable

theorem lines_append (accounts : List Account) (account : Account) :
    lines (accounts ++ [account]) = lines accounts ++ account.line := by
  rw [lines, List.flatMap_append, List.flatMap_singleton]
  rfl

theorem length_le_lines (accounts : List Account) : accounts.length ≤ (lines accounts).length := by
  induction accounts with
  | nil => exact Nat.le_refl 0
  | cons account accounts ih =>
      have hline := Account.length_line account
      rw [lines, List.flatMap_cons, List.length_append, List.length_cons]
      rw [lines] at ih
      omega

namespace Represents

variable {acc : Accounting} {registry : Registry} {username : List Byte}

theorem openFile (hrep : Represents acc registry) :
    acc.store.openFile passwd = some ⟨passwd, 0⟩ ∧
      acc.store.unread ⟨passwd, 0⟩ = lines registry.accounts.list :=
  FileStore.openFile_unread hrep.file

theorem fuel (hrep : Represents acc registry) :
    registry.accounts.list.length < (acc.store.unread ⟨passwd, 0⟩).length + 1 := by
  rw [hrep.openFile.2]
  exact Nat.lt_succ_of_le (length_le_lines _)

theorem userIsExists (hrep : Represents acc registry) (username : List Byte) :
    userIsExists acc.store username = some (registry.accounts.find? username).isSome := by
  obtain ⟨hopen, hunread⟩ := hrep.openFile
  rw [Terminal.userIsExists, hopen, Option.bind_eq_bind, Option.bind_some,
    userIsExistsFrom_lines none hrep.storable hunread hrep.fuel, ← Accounts.find?]
  cases registry.accounts.find? username <;> rfl

theorem username2uid (hrep : Represents acc registry) (username : List Byte) :
    username2uid acc.store username =
      some (((registry.accounts.find? username).map Account.uid).getD (-1)) := by
  obtain ⟨hopen, hunread⟩ := hrep.openFile
  rw [Terminal.username2uid, hopen, Option.bind_eq_bind, Option.bind_some,
    username2uidFrom_lines none hrep.storable hunread hrep.fuel]
  rfl

theorem userCheck (hrep : Represents acc registry) (username : List Byte)
    {password hash : List Byte} (hhash : passwordHash password = some hash) :
    userCheck acc.store username password =
      some ((((registry.accounts.find? username).filter fun account => account.hash = hash).map
        Account.uid).getD (-1)) := by
  obtain ⟨hopen, hunread⟩ := hrep.openFile
  have hcmp : strcmp hash = fun other => decide (other = hash) := by
    funext other
    rw [Bool.eq_iff_iff, strcmp_iff, decide_eq_true_iff, eq_comm]
  rw [Terminal.userCheck, hopen, hhash]
  simp only [Option.bind_eq_bind, Option.bind_some]
  rw [userCheckFrom_lines none none hrep.storable hunread hrep.fuel, Accounts.find?_and, hcmp]

/-- Adding a name that exists changes nothing. -/
theorem createUserAccount_again (hrep : Represents acc registry) (password : List Byte)
    (hfind : (registry.accounts.find? username).isSome) :
    createUserAccount acc username password = some (-1, acc) := by
  rw [createUserAccount, hrep.userIsExists, hfind]
  rfl

end Represents

/-- `allocate_uid`, which is not called for `root`. -/
def Accounting.nextUid (acc : Accounting) (username : List Byte) : BitVec 32 :=
  Registry.nextUid acc.uid username

/-- The name and the password can be stored in a line that every reader has room for, and the
uid is not negative. -/
structure Creatable (acc : Accounting) (username password : List Byte) : Prop where
  name : IsField username
  isPassword : IsPassword password
  uid : (acc.nextUid username).toNat < 2 ^ 31
  short : ∀ hash, passwordHash password = some hash →
    (Account.line ⟨username, acc.nextUid username, hash⟩).length < 64

namespace Creatable

variable {acc : Accounting} {registry : Registry} {username password : List Byte}

/-- A name of fewer than 20 characters leaves room for any uid. -/
theorem of_length (hname : IsField username) (hpassword : IsPassword password)
    (huid : (acc.nextUid username).toNat < 2 ^ 31) (hlength : username.length < 20) :
    Creatable acc username password := by
  refine ⟨hname, hpassword, huid, fun hash hhash => ?_⟩
  obtain ⟨hash', hhash', hlen, -⟩ := passwordHash_spec hpassword
  obtain rfl : hash' = hash := Option.some.inj (hhash'.symm.trans hhash)
  have hdigits := length_printInt_le huid
  rw [Account.length_line, Account.length_body]
  dsimp only
  omega

theorem storable (hcreate : Creatable acc username password) :
    ∃ hash, passwordHash password = some hash ∧
      Account.Storable ⟨username, acc.nextUid username, hash⟩ := by
  obtain ⟨hash, hhash, -, htable⟩ := passwordHash_spec hcreate.isPassword
  have hfield : IsField hash :=
    ⟨not_mem_hash (by decide) htable, not_mem_hash (by decide) htable,
      not_mem_hash (by decide) htable⟩
  exact ⟨hash, hhash, hcreate.uid, hcreate.name, hfield, hcreate.short hash hhash⟩

/-- A new account becomes the last line, and only its file changes. -/
theorem createUserAccount_new (hcreate : Creatable acc username password)
    (hrep : Represents acc registry) (hnew : registry.accounts.find? username = none) :
    ∃ hash, passwordHash password = some hash ∧
      Account.Storable ⟨username, acc.nextUid username, hash⟩ ∧
      createUserAccount acc username password = some (acc.nextUid username,
        { store := ⟨Function.update acc.store.files passwd (some (lines registry.accounts.list ++
            Account.line ⟨username, acc.nextUid username, hash⟩))⟩
          uid := if username = root then acc.uid else acc.uid + 1 }) := by
  obtain ⟨hash, hhash, hstorable⟩ := hcreate.storable
  refine ⟨hash, hhash, hstorable, ?_⟩
  obtain ⟨buf, hbuf, hline⟩ := Option.bind_eq_some_iff.mp (Account.sprintf_line hstorable)
  have hfile : acc.store.files (OpenFile.mk passwd 0).path = some (lines registry.accounts.list) :=
    hrep.file
  -- the uid is allocated before the line is printed
  have huid : (if strcmp root username then (0, acc.uid) else (acc.uid + 1, acc.uid + 1)) =
      (acc.nextUid username, if username = root then acc.uid else acc.uid + 1) := by
    simp only [strcmp_iff, Accounting.nextUid, Registry.nextUid, eq_comm (a := root)]
    split <;> rfl
  rw [createUserAccount, hrep.userIsExists, hnew]
  simp only [Option.bind_eq_bind, Option.bind_some, Option.isSome_none, Bool.false_eq_true, if_false,
    huid, hhash, hrep.openFile.1, hbuf, hline, FileStore.append_of_files hfile]

/-- The new account is added to the map. -/
theorem represents (hcreate : Creatable acc username password) (hrep : Represents acc registry) :
    ∃ uid after, createUserAccount acc username password = some (uid, after) ∧
      Represents after (registry.change (.create username password)) := by
  have hne : passwdNew ≠ passwd := by decide
  by_cases hnew : registry.accounts.find? username = none
  · obtain ⟨hash, hhash, hstorable, hcreated⟩ := hcreate.createUserAccount_new hrep hnew
    rw [Registry.change, dif_pos hnew, hhash, ← hrep.uid]
    refine ⟨_, _, hcreated, ?_, (FileStore.content_update_of_ne hne _).trans hrep.noCopy, rfl, ?_⟩
    · rw [Accounts.add, lines_append]
      exact Function.update_self passwd _ acc.store.files
    · exact List.forall_mem_append.mpr ⟨hrep.storable, List.forall_mem_singleton.mpr hstorable⟩
  · have hfind := Option.isSome_iff_ne_none.mpr hnew
    rw [Registry.change, dif_neg hnew]
    exact ⟨_, _, hrep.createUserAccount_again password hfind, hrep⟩

end Creatable

namespace Represents

variable {acc : Accounting} {registry : Registry} {username : List Byte}

/-- The copy without the line takes the place of the file. -/
theorem deleteUserAccount_found (hrep : Represents acc registry) (hroot : username ≠ root)
    (hfind : (registry.accounts.find? username).isSome) :
    deleteUserAccount acc username =
      some { acc with store := ⟨Function.update (Function.update acc.store.files passwdNew none)
        passwd (some (lines (registry.accounts.delete username).list))⟩ } := by
  have hne : passwd ≠ passwdNew := by decide
  have hsrc : (acc.store.create passwdNew).files passwd = some (lines registry.accounts.list) :=
    (FileStore.files_create_of_ne hne).trans hrep.file
  have hdst : (acc.store.create passwdNew).files passwdNew = some [] :=
    FileStore.files_create_self.trans (congrArg some hrep.noCopy)
  obtain ⟨hopenSrc, hunread⟩ := FileStore.openFile_unread hsrc
  obtain ⟨hopenDst, -⟩ := FileStore.openFile_unread hdst
  have hfuel : registry.accounts.list.length <
      ((acc.store.create passwdNew).unread ⟨passwd, 0⟩).length + 1 := by
    rw [hunread]
    exact Nat.lt_succ_of_le (length_le_lines _)
  obtain ⟨copied, hcopied, hfile, hothers⟩ := copyOthers_lines username ⟨passwdNew, 0⟩ none
    hrep.storable hne hunread hdst hfuel
  -- apart from the copy nothing was written
  have hcopiedFiles : Function.update copied.files passwdNew none =
      Function.update acc.store.files passwdNew none := by
    funext path
    by_cases hpath : path = passwdNew
    · simp [hpath]
    · simp [hpath, hothers path hpath, FileStore.files_create_of_ne hpath]
  rw [deleteUserAccount, if_neg (mt strcmp_iff.mp hroot), hrep.userIsExists, hfind]
  simp only [Option.bind_eq_bind, Option.bind_some, if_true, hopenSrc, hopenDst, hcopied,
    FileStore.rename_remove hne.symm, hcopiedFiles, hfile]
  rfl

/-- The account is taken out of the map. -/
theorem delete (hrep : Represents acc registry) (username : List Byte) :
    ∃ after, deleteUserAccount acc username = some after ∧
      Represents after (registry.change (.delete username)) := by
  by_cases hroot : username = root
  · rw [Registry.change, if_pos hroot]
    exact ⟨acc, if_pos (strcmp_iff.mpr hroot), hrep⟩
  rw [Registry.change, if_neg hroot]
  by_cases hfind : (registry.accounts.find? username).isSome
  · refine ⟨_, hrep.deleteUserAccount_found hroot hfind, ?_, ?_, hrep.uid,
      fun account hmem => hrep.storable account (List.mem_filter.mp hmem).1⟩
    · exact Function.update_self passwd _ (Function.update acc.store.files passwdNew none)
    · have hne : passwdNew ≠ passwd := by decide
      simp [FileStore.content, hne]
  · have hnone := Option.not_isSome_iff_eq_none.mp hfind
    have hsame := Accounts.delete_of_find? hnone
    have hkept : deleteUserAccount acc username = some acc := by
      rw [deleteUserAccount, if_neg (mt strcmp_iff.mp hroot), hrep.userIsExists, hnone]
      rfl
    refine ⟨acc, hkept, ?_, hrep.noCopy, hrep.uid, ?_⟩
    · exact hrep.file.trans (congrArg (some ∘ lines) hsame.symm)
    · rw [hsame]
      exact hrep.storable

end Represents

/-! ## Runs -/

namespace Accounting

/-- What a caller asks for is done; what `create_user_account` returns is not needed here. -/
def perform (acc : Accounting) : Change → Option Accounting
  | .create username password => (createUserAccount acc username password).map Prod.snd
  | .delete username => deleteUserAccount acc username

def Admits (acc : Accounting) : Change → Prop
  | .create username password => Creatable acc username password
  | .delete _ => True

/-- The readers answer from the map, and the writers change it. -/
structure Serves (acc : Accounting) (accounts : Accounts) : Prop where
  isExists : ∀ username, userIsExists acc.store username = some (accounts.find? username).isSome
  uid : ∀ username, username2uid acc.store username =
    some (((accounts.find? username).map Account.uid).getD (-1))
  check : ∀ username password, IsPassword password → ∃ hash, passwordHash password = some hash ∧
    userCheck acc.store username password = some ((((accounts.find? username).filter fun account =>
      account.hash = hash).map Account.uid).getD (-1))
  again : ∀ username password, (accounts.find? username).isSome →
    createUserAccount acc username password = some (-1, acc)
  added : ∀ username password, Creatable acc username password → accounts.find? username = none →
    ∃ hash after, passwordHash password = some hash ∧
      createUserAccount acc username password = some (acc.nextUid username, after) ∧
      after.store.files passwd =
        some (lines (accounts.list ++ [⟨username, acc.nextUid username, hash⟩]))
  deleted : ∀ username, username ≠ root → ∃ after, deleteUserAccount acc username = some after ∧
    after.store.files passwd =
      some (lines (accounts.list.filter fun account => account.name ≠ username))

variable {acc after : Accounting} {registry : Registry} {changes : List Change} {change : Change}

theorem represents_of_admits (hrep : Represents acc registry) (hadmits : acc.Admits change) :
    ∃ next, acc.perform change = some next ∧ Represents next (registry.change change) := by
  cases change with
  | create username password =>
      obtain ⟨uid, next, hnext, hrep'⟩ := Creatable.represents hadmits hrep
      exact ⟨next, by rw [perform, hnext]; rfl, hrep'⟩
  | delete username => exact hrep.delete username

/-- The file follows the registry through a run. -/
theorem represents_foldl (hrep : Represents acc registry)
    (hrun : Run perform Admits acc changes after) :
    Represents after (changes.foldl Registry.change registry) := by
  induction hrun with
  | nil => exact hrep
  | snoc _ hadmits hnext ih =>
      obtain ⟨next, hperform, hrep'⟩ := represents_of_admits ih hadmits
      rw [List.foldl_append]
      exact Option.some.inj (hperform.symm.trans hnext) ▸ hrep'

theorem serves (hrep : Represents acc registry) : acc.Serves registry.accounts where
  isExists := hrep.userIsExists
  uid := hrep.username2uid
  check username password hpassword := by
    obtain ⟨hash, hhash, -⟩ := passwordHash_spec hpassword
    exact ⟨hash, hhash, hrep.userCheck username hhash⟩
  again username password hfind := hrep.createUserAccount_again password hfind
  added username password hcreate hnew := by
    obtain ⟨hash, hhash, -, hcreated⟩ := hcreate.createUserAccount_new hrep hnew
    refine ⟨hash, _, hhash, hcreated, ?_⟩
    rw [lines_append]
    exact Function.update_self passwd _ acc.store.files
  deleted username hroot := by
    obtain ⟨next, hnext, hrep'⟩ := hrep.delete username
    have hfile := hrep'.file
    rw [Registry.change, if_neg hroot] at hfile
    have hothers : (fun account => !named username account) =
        fun account : Account => decide (account.name ≠ username) := by
      funext account
      simp [named, eq_comm]
    exact ⟨next, hnext, hothers ▸ hfile⟩

theorem represents_empty (hempty : acc.store.files passwd = some [])
    (hcopy : acc.store.content passwdNew = []) : Represents acc ⟨Accounts.empty, acc.uid⟩ :=
  ⟨hempty, hcopy, rfl, fun _ hmem => absurd hmem List.not_mem_nil⟩

/-- From an empty file on, the file stands for the map that the requests build, every
function works on this map, and no request fails. -/
theorem accounts_of_run (hempty : acc.store.files passwd = some [])
    (hcopy : acc.store.content passwdNew = []) (hrun : Run perform Admits acc changes after) :
    Represents after (changes.foldl Registry.change ⟨Accounts.empty, acc.uid⟩) ∧
      after.Serves (changes.foldl Registry.change ⟨Accounts.empty, acc.uid⟩).accounts ∧
      ∀ change, after.Admits change → ∃ next, after.perform change = some next := by
  have hrep := represents_foldl (represents_empty hempty hcopy) hrun
  refine ⟨hrep, serves hrep, fun change hadmits => ?_⟩
  obtain ⟨next, hnext, -⟩ := represents_of_admits hrep hadmits
  exact ⟨next, hnext⟩

/-- An empty file. -/
def emptyFile : FileStore String := ⟨Function.update (fun _ => none) passwd (some [])⟩

def guest : List Byte := ['g', 'u', 'e', 's', 't'].map ofChar

theorem creatable_guest {store : FileStore String} {uid : BitVec 32}
    (huid : (uid + 1).toNat < 2 ^ 31) : Creatable ⟨store, uid⟩ guest guest :=
  .of_length ⟨by decide, by decide, by decide⟩ ⟨by decide, by decide, by decide⟩ huid (by decide)

theorem accounts_of_run_guest : ∃ after,
    Run perform Admits ⟨emptyFile, 99⟩ [.create guest guest, .delete guest] after ∧
      Represents after ([.create guest guest, .delete guest].foldl Registry.change
        ⟨Accounts.empty, 99⟩) := by
  have hempty : Represents ⟨emptyFile, 99⟩ ⟨Accounts.empty, 99⟩ := represents_empty rfl rfl
  have hadmits : Admits ⟨emptyFile, 99⟩ (.create guest guest) := creatable_guest (by decide)
  obtain ⟨created, hcreated, hrep⟩ := represents_of_admits hempty hadmits
  have hdelete : created.Admits (.delete guest) := trivial
  obtain ⟨after, hafter, -⟩ := represents_of_admits hrep hdelete
  have hrun := Run.snoc (Run.snoc Run.nil hadmits hcreated) hdelete hafter
  exact ⟨after, hrun, (accounts_of_run rfl rfl hrun).1⟩

/-! ### What the file cannot stand for -/

theorem emptyFile_update (file : Option (List Byte)) :
    FileStore.mk (Function.update (Function.update (Function.update emptyFile.files passwd file)
      passwdNew none) passwd (some [])) = emptyFile := by
  refine congrArg FileStore.mk (funext fun path => ?_)
  by_cases hpasswd : path = passwd
  · simp [hpasswd]
  · by_cases hcopy : path = passwdNew
    · have hne : passwdNew ≠ passwd := by decide
      simp [hcopy, hne]
    · simp [emptyFile, hpasswd, hcopy]

/-- Creating the only account and deleting it uses up a uid. -/
theorem create_delete {uid : BitVec 32} (huid : (uid + 1).toNat < 2 ^ 31) :
    ∃ created, perform ⟨emptyFile, uid⟩ (.create guest guest) = some created ∧
      perform created (.delete guest) = some ⟨emptyFile, uid + 1⟩ := by
  have hempty : Represents ⟨emptyFile, uid⟩ ⟨Accounts.empty, uid⟩ := represents_empty rfl rfl
  have hroot : guest ≠ root := by decide
  have hnext : nextUid ⟨emptyFile, uid⟩ guest = uid + 1 := by
    rw [nextUid, Registry.nextUid, if_neg hroot]
  obtain ⟨hash, -, hstorable, hcreated⟩ := (creatable_guest huid).createUserAccount_new hempty rfl
  rw [hnext, if_neg hroot] at hcreated
  rw [hnext] at hstorable
  have hrep : Represents
      ⟨⟨Function.update emptyFile.files passwd (some (Account.line ⟨guest, uid + 1, hash⟩))⟩, uid + 1⟩
      ⟨⟨[⟨guest, uid + 1, hash⟩], List.nodup_singleton _⟩, uid + 1⟩ := by
    refine ⟨?_, rfl, rfl, List.forall_mem_singleton.mpr hstorable⟩
    rw [lines, List.flatMap_singleton]
    exact Function.update_self passwd _ emptyFile.files
  refine ⟨_, by rw [perform, hcreated]; rfl, ?_⟩
  refine (hrep.deleteUserAccount_found hroot ?_).trans ?_
  · simp [Accounts.find?, named]
  · have hnone :
        (Accounts.delete ⟨[⟨guest, uid + 1, hash⟩], List.nodup_singleton _⟩ guest).list = [] := by
      simp [Accounts.delete, named]
    rw [hnone]
    exact congrArg (fun store => some (Accounting.mk store (uid + 1))) (emptyFile_update _)

theorem run_cycles (cnt : Nat) (hcnt : 99 + cnt < 2 ^ 31) :
    Run perform Admits ⟨emptyFile, 99⟩
      (List.replicate cnt [.create guest guest, .delete guest]).flatten
      ⟨emptyFile, BitVec.ofNat 32 (99 + cnt)⟩ := by
  induction cnt with
  | zero => exact .nil
  | succ cnt ih =>
      -- a deleted account does not give its uid back
      have hsucc : BitVec.ofNat 32 (99 + cnt) + 1 = BitVec.ofNat 32 (99 + (cnt + 1)) := by
        rw [← Nat.add_assoc, BitVec.ofNat_add (99 + cnt)]
        rfl
      have huid : (BitVec.ofNat 32 (99 + cnt) + 1).toNat < 2 ^ 31 := by
        rw [hsucc, BitVec.toNat_ofNat]
        exact Nat.lt_of_le_of_lt (Nat.mod_le _ _) hcnt
      obtain ⟨created, hcreate, hdelete⟩ := create_delete huid
      have hadmits : Admits ⟨emptyFile, BitVec.ofNat 32 (99 + cnt)⟩ (.create guest guest) :=
        creatable_guest huid
      have hdeletes : created.Admits (.delete guest) := trivial
      have hrun := ((ih (by omega)).snoc hadmits hcreate).snoc hdeletes hdelete
      rw [hsucc, List.append_assoc] at hrun
      rwa [List.replicate_succ', List.flatten_append, List.flatten_singleton]

/-- A name with a newline in it. -/
def splitGuest : List Byte := ['g', 'u', '\n', 's', 't'].map ofChar

/-- `"7:root:1\n"`, left over in `/etc/passwd_`. -/
def leftover : List Byte := ['7', ':', 'r', 'o', 'o', 't', ':', '1', '\n'].map ofChar

/-- An account whose name has a newline is lost, the uid of an account is lost from the
negative ones on, and the lines of an earlier copy come back. -/
theorem not_represents :
    (splitGuest ≠ [] ∧ colon ∉ splitGuest ∧ ∃ after,
      createUserAccount ⟨emptyFile, 99⟩ splitGuest guest = some (100, after) ∧
        (after.store.content passwd).length < 64 ∧
        userIsExists after.store splitGuest = some false) ∧
    (∃ changes before after, Run perform Admits ⟨emptyFile, 99⟩ changes before ∧
      createUserAccount before guest guest = some (0x80000000, after) ∧
        (after.store.content passwd).length < 64 ∧
        username2uid after.store guest ≠ some 0x80000000) ∧
    ∃ created after,
      perform ⟨⟨Function.update emptyFile.files passwdNew (some leftover)⟩, 99⟩
        (.create guest guest) = some created ∧
      perform created (.delete guest) = some after ∧ userIsExists after.store root = some true := by
  refine ⟨⟨by decide, by decide, ?_⟩, ?_, ?_⟩
  · have hcreated : ((createUserAccount ⟨emptyFile, 99⟩ splitGuest guest).map fun created =>
        (created.1, decide ((created.2.store.content passwd).length < 64),
          userIsExists created.2.store splitGuest)) = some (100, true, some false) := by
      decide
    obtain ⟨⟨uid, after⟩, hafter, hseen⟩ := Option.map_eq_some_iff.mp hcreated
    simp only [Prod.mk.injEq, decide_eq_true_eq] at hseen
    exact ⟨after, hseen.1 ▸ hafter, hseen.2⟩
  · have hcreated : ((createUserAccount ⟨emptyFile, 0x7fffffff⟩ guest guest).map fun created =>
        (created.1, decide ((created.2.store.content passwd).length < 64),
          decide (username2uid created.2.store guest = some 0x80000000))) =
            some (0x80000000, true, false) := by
      decide +kernel
    obtain ⟨⟨uid, after⟩, hafter, hseen⟩ := Option.map_eq_some_iff.mp hcreated
    simp only [Prod.mk.injEq, decide_eq_true_eq, decide_eq_false_iff_not] at hseen
    -- the next uid is printed with a sign
    exact ⟨_, _, after, run_cycles 2147483548 (by decide), hseen.1 ▸ hafter, hseen.2⟩
  · have hdeleted : ((perform ⟨⟨Function.update emptyFile.files passwdNew (some leftover)⟩, 99⟩
        (.create guest guest)).bind fun created => (perform created (.delete guest)).map fun after =>
          userIsExists after.store root) = some (some true) := by
      decide +kernel
    obtain ⟨created, hcreated, hafter⟩ := Option.bind_eq_some_iff.mp hdeleted
    obtain ⟨after, hafter, hseen⟩ := Option.map_eq_some_iff.mp hafter
    exact ⟨created, after, hcreated, hafter, hseen⟩

end Accounting

end Shmily.Terminal
