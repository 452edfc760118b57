import Shmily.Lib.Readline
import Shmily.Terminal.Hahash

/-! # User accounts

The accounts are lines of `/etc/passwd`: the uid in decimal, the name and the hash of the
password, with colons between them. A line that is searched for is cut at its colons in
place. What is printed on the console is left out.
-/

namespace Shmily.Terminal

open Foundation Lib

def passwd : String := "/etc/passwd"
def passwdNew : String := "/etc/passwd_"

def colon : Byte := ofChar ':'

/-- `"root"`. -/
def root : List Byte := ['r', 'o', 'o', 't'].map ofChar

/-- The files, and the variable of `allocate_uid`. -/
structure Accounting where
  store : FileStore String
  uid : BitVec 32

/-- The loop of `user_is_exists` and `delete_user_account` over a line. The colon before
the name stays, and the string ends at the second colon. -/
def splitName : Nat → Nat → List Byte → Option Nat → Nat → Option (List Byte × Option Nat)
  | 0, _, _, _, _ => none
  | fuel + 1, i, buf, realUname, colonCnt => do
      let len ← strlen buf
      if i < len then do
        let char ← buf[i]?
        if char = colon ∧ colonCnt = 0 then
          splitName fuel (i + 1) buf (some (i + 1)) (colonCnt + 1)
        else if char = colon ∧ colonCnt = 1 then do
          let buf ← putChar buf i 0
          splitName fuel (i + 1) buf realUname colonCnt
        else splitName fuel (i + 1) buf realUname colonCnt
      else some (buf, realUname)

/-- The loop of `user_check` over so many characters of a line. -/
def splitFields : Nat → Nat → List Byte → Option Nat → Option Nat → Nat →
    Option (List Byte × Option Nat × Option Nat)
  | 0, _, buf, realUname, realPwd, _ => some (buf, realUname, realPwd)
  | cnt + 1, i, buf, realUname, realPwd, colonCnt => do
      let char ← buf[i]?
      if char = colon ∧ colonCnt = 0 then do
        let buf ← putChar buf i 0
        splitFields cnt (i + 1) buf (some (i + 1)) realPwd (colonCnt + 1)
      else if char = colon ∧ colonCnt = 1 then do
        let buf ← putChar buf i 0
        splitFields cnt (i + 1) buf realUname (some (i + 1)) colonCnt
      else splitFields cnt (i + 1) buf realUname realPwd colonCnt

/-- The loop of `username2uid`, which ends at the second colon. -/
def splitUid : Nat → Nat → List Byte → Option Nat → Nat → Option (List Byte × Option Nat)
  | 0, _, buf, realUname, _ => some (buf, realUname)
  | cnt + 1, i, buf, realUname, colonCnt => do
      let char ← buf[i]?
      if char = colon ∧ colonCnt = 0 then do
        let buf ← putChar buf i 0
        splitUid cnt (i + 1) buf (some (i + 1)) (colonCnt + 1)
      else if char = colon ∧ colonCnt = 1 then do
        let buf ← putChar buf i 0
        some (buf, realUname)
      else splitUid cnt (i + 1) buf realUname colonCnt

/-- `buf[strlen(buf)-1] = 0`. -/
def chop (buf : List Byte) : Option (List Byte) := do
  let len ← strlen buf
  if len = 0 then none else putChar buf (len - 1) 0

/-- The string that a pointer points to; `none` for the null pointer. -/
def pointed (buf : List Byte) (pointer : Option Nat) : Option (List Byte) :=
  pointer.bind (stringAt buf)

/-- The loop of `user_is_exists` over at most so many lines. `buf` is cleared for each. -/
def userIsExistsFrom (store : FileStore String) (username : List Byte) :
    Nat → OpenFile String → Option Nat → Option Bool
  | 0, _, _ => none
  | fuel + 1, fd, realUname =>
      if store.isEof fd then some false
      else do
        let (fd, buf) ← readline store fd (List.replicate 128 0)
        let (buf, realUname) ← splitName (buf.length + 1) 0 buf realUname 0
        let name ← pointed buf realUname
        if strcmp name username then some true
        else userIsExistsFrom store username fuel fd realUname

/-- `user_is_exists`. Every line has at least one byte. -/
def userIsExists (store : FileStore String) (username : List Byte) : Option Bool := do
  let fd ← store.openFile passwd
  userIsExistsFrom store username ((store.unread fd).length + 1) fd none

/-- The loop of `username2uid`. -/
def username2uidFrom (store : FileStore String) (username : List Byte) :
    Nat → OpenFile String → Option Nat → Option (BitVec 32)
  | 0, _, _ => none
  | fuel + 1, fd, realUname =>
      if store.isEof fd then some (-1)
      else do
        let (fd, buf) ← readline store fd (List.replicate 64 0)
        let buf ← chop buf
        let l ← strlen buf
        let (buf, realUname) ← splitUid l 0 buf realUname 0
        let digits ← stringAt buf 0
        let name ← pointed buf realUname
        if strcmp username name then some (string2int digits)
        else username2uidFrom store username fuel fd realUname

/-- `username2uid`. -/
def username2uid (store : FileStore String) (username : List Byte) : Option (BitVec 32) := do
  let fd ← store.openFile passwd
  username2uidFrom store username ((store.unread fd).length + 1) fd none

/-- The loop of `user_check`. -/
def userCheckFrom (store : FileStore String) (username pwdResult : List Byte) :
    Nat → OpenFile String → Option Nat → Option Nat → Option (BitVec 32)
  | 0, _, _, _ => none
  | fuel + 1, fd, realUname, realPwd =>
      if store.isEof fd then some (-1)
      else do
        let (fd, buf) ← readline store fd (List.replicate 64 0)
        let buf ← chop buf
        let l ← strlen buf
        let (buf, realUname, realPwd) ← splitFields l 0 buf realUname realPwd 0
        let digits ← stringAt buf 0
        let name ← pointed buf realUname
        if strcmp username name then do
          let pwd ← pointed buf realPwd
          if strcmp pwdResult pwd then some (string2int digits)
          else userCheckFrom store username pwdResult fuel fd realUname realPwd
        else userCheckFrom store username pwdResult fuel fd realUname realPwd

/-- `user_check`. -/
def userCheck (store : FileStore String) (username password : List Byte) : Option (BitVec 32) := do
  let fd ← store.openFile passwd
  let pwdResult ← passwordHash password
  userCheckFrom store username pwdResult ((store.unread fd).length + 1) fd none none

/-- `"%d:%s:%s\n"`. -/
def lineFormat : List Byte := ['%', 'd', ':', '%', 's', ':', '%', 's', '\n'].map ofChar

/-- `create_user_account`: the uid that it returns, and what it leaves. -/
def createUserAccount (acc : Accounting) (username password : List Byte) :
    Option (BitVec 32 × Accounting) := do
  let isExists ← userIsExists acc.store username
  if isExists then some (-1, acc)
  else do
    -- `strcmp` is true for equal strings, so that only `root` gets 0
    let (uid, counter) := if strcmp root username then (0, acc.uid) else (acc.uid + 1, acc.uid + 1)
    let pwdResult ← passwordHash password
    let fd ← acc.store.openFile passwd
    let buf ← sprintf (List.replicate 128 0) lineFormat
      [.int uid, .string username, .string pwdResult]
    let line ← stringAt buf 0
    some (uid, { store := acc.store.append fd line, uid := counter })

/-- The loop of `delete_user_account`, which copies the other lines. -/
def copyOthers (username : List Byte) : Nat → FileStore String → OpenFile String → OpenFile String →
    Option Nat → Option (FileStore String)
  | 0, _, _, _, _ => none
  | fuel + 1, store, fdSrc, fdDst, realUname =>
      if store.isEof fdSrc then some store
      else do
        let (fdSrc, buf) ← readline store fdSrc (List.replicate 128 0)
        let len ← strlen buf
        -- the line is kept before it is cut
        let bufWillWrite ← memcpy (List.replicate 128 0) 0 buf len
        let (buf, realUname) ← splitName (buf.length + 1) 0 buf realUname 0
        let name ← pointed buf realUname
        if strcmp username name then copyOthers username fuel store fdSrc fdDst realUname
        else do
          let line ← stringAt bufWillWrite 0
          copyOthers username fuel (store.append fdDst line) fdSrc fdDst realUname

/-- `delete_user_account`. -/
def deleteUserAccount (acc : Accounting) (username : List Byte) : Option Accounting := do
  if strcmp username root then some acc
  else do
    let isExists ← userIsExists acc.store username
    if isExists then do
      let store := acc.store.create passwdNew
      let fdSrc ← store.openFile passwd
      let fdDst ← store.openFile passwdNew
      let store ← copyOthers username ((store.unread fdSrc).length + 1) store fdSrc fdDst none
      let store := store.remove passwd
      some { acc with store := store.rename passwdNew passwd }
    else some acc

end Shmily.Terminal
