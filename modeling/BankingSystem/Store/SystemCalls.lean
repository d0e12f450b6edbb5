import BankingSystem.Foundation.Posix
import BankingSystem.Store.Commands

/-!
# The persistence helpers, one system call at a time

The functions of `utils.c` and the read loops of the modules as programs over
the system calls that they make.  `Sys.helper` replaces each command of `Db` by
its function, so a request becomes a program of system calls.  A `while` loop
takes `fuel` and stalls when it is spent; what is proved of all `fuel` is proved
of the loop.
-/

namespace BankingSystem

open Foundation Posix

inductive DbFile where
  | users
  | accounts
  | transactions
  | loans
  | feedback
  deriving DecidableEq

variable (M : Type)

abbrev DbFile.Rec : DbFile → Type
  | .users => UserRec
  | .accounts => AccountRec M
  | .transactions => TxnRec M
  | .loans => LoanRec M
  | .feedback => FeedbackRec

abbrev Sys : Signature := Posix.calls DbFile (DbFile.Rec M)

variable {M}

namespace Sys

/-! ## System calls -/

def call (c : Call DbFile (DbFile.Rec M)) : Prog (Sys M) (Result (DbFile.Rec M) c) :=
  Prog.perform (S := Sys M) c

section Calls

variable {f : DbFile}

def openFile (f : DbFile) (access : Access) (append create : Bool) :
    Prog (Sys M) (Option (Fd f)) :=
  call (.openFile f ⟨access, append, create⟩)

def read (fd : Fd f) : Prog (Sys M) (Option (f.Rec M)) := call (.read f fd)

def write (fd : Fd f) (r : f.Rec M) : Prog (Sys M) Bool := call (.write f fd r)

def seekEnd (fd : Fd f) : Prog (Sys M) Nat := call (.seekEnd f fd)

def close (fd : Fd f) : Prog (Sys M) Unit := call (.close f fd)

def lockFile (fd : Fd f) : Prog (Sys M) Bool :=
  call (.setLockWait f fd .writeLock .all)

def unlockFile (fd : Fd f) : Prog (Sys M) Bool :=
  call (.setLockWait f fd .unlock .all)

def lockRecord (fd : Fd f) (offset : Nat) : Prog (Sys M) Bool :=
  call (.setLockWait f fd .writeLock (.record offset))

def unlockRecord (fd : Fd f) (offset : Nat) : Prog (Sys M) Bool :=
  call (.setLockWait f fd .unlock (.record offset))

def stall {α : Type} : Prog (Sys M) α := Prog.call (S := Sys M) .stall nofun

/-! ## Loops -/

def readUntil (found : f.Rec M → Bool) : Nat → Fd f →
    Prog (Sys M) (Option (Nat × f.Rec M))
  | 0, _ => stall
  | fuel + 1, fd => do
      match ← read fd with
      | none => return none
      | some tmp =>
          if found tmp then return some (fd.pos, tmp)
          else readUntil found fuel (fd.seek (fd.pos + 1))

def readAll : Nat → Fd f → Prog (Sys M) (List (f.Rec M))
  | 0, _ => stall
  | fuel + 1, fd => do
      match ← read fd with
      | none => return []
      | some tmp =>
          let rest ← readAll fuel (fd.seek (fd.pos + 1))
          return tmp :: rest

def readBackward (fd : Fd f) : Nat → Prog (Sys M) (List (f.Rec M))
  | 0 => return []
  | n + 1 => do
      match ← read (fd.seek n) with
      | none => return []
      | some tmp =>
          let before ← readBackward fd n
          return before ++ [tmp]

/-- The loop of `review_feedbacks`: the records as they were read. -/
def reviewAll : Nat → Fd DbFile.feedback → Prog (Sys M) (List FeedbackRec)
  | 0, _ => stall
  | fuel + 1, fd => do
      match ← read fd with
      | none => return []
      | some fb =>
          if fb.reviewed = 0 then
            let _ ← write fd { fb with reviewed := 1 }
          let rest ← reviewAll fuel (fd.seek (fd.pos + 1))
          return fb :: rest

end Calls

/-! ## Finding a record -/

section Find

variable (fuel : Nat) {f : DbFile}

def search (f : DbFile) (found : f.Rec M → Bool) :
    Prog (Sys M) (Option (Nat × f.Rec M)) := do
  match ← openFile f .readOnly false false with
  | none => return none
  | some fd =>
      -- the descriptor is read-only, so the lock is refused; the result is ignored
      let _ ← lockFile fd
      let result ← readUntil found fuel fd
      let _ ← unlockFile fd
      close fd
      return result

def findOffset (f : DbFile) (found : f.Rec M → Bool) : Prog (Sys M) (Option Nat) := do
  let result ← search fuel f found
  return result.map Prod.fst

def readRecord (f : DbFile) (found : f.Rec M → Bool) :
    Prog (Sys M) (Option (f.Rec M)) := do
  let result ← search fuel f found
  return result.map Prod.snd

def findUserOffset (userId : Nat) : Prog (Sys M) (Option Nat) :=
  findOffset fuel .users fun tmp => tmp.userId = userId

def findAccountOffset (userId : Nat) : Prog (Sys M) (Option Nat) :=
  findOffset fuel .accounts fun tmp => tmp.userId = userId

def findLoanOffset (loanId : Nat) : Prog (Sys M) (Option Nat) :=
  findOffset fuel .loans fun tmp => tmp.loanId = loanId

def readAccount (userId : Nat) : Prog (Sys M) (Option (AccountRec M)) :=
  readRecord fuel .accounts fun tmp => tmp.userId = userId

def readUser (userId : Nat) : Prog (Sys M) (Option UserRec) :=
  readRecord fuel .users fun tmp => tmp.userId = userId

def readLoan (loanId : Nat) : Prog (Sys M) (Option (LoanRec M)) :=
  readRecord fuel .loans fun tmp => tmp.loanId = loanId

def readFeedback (fbId : Nat) : Prog (Sys M) (Option FeedbackRec) :=
  readRecord fuel .feedback fun tmp => tmp.fbId = fbId

/-- The position of the clash does not matter to the callers. -/
def checkUniqueness (username email phone : Bytes) (currentUserId : Nat) :
    Prog (Sys M) (Option UniqueField) := do
  let result ← search fuel .users fun user =>
    (user.clash username email phone currentUserId).isSome
  return result.bind fun found => found.2.clash username email phone currentUserId

end Find

/-! ## Updating a record in place -/

/-- Open for an update, lock the record and read it. -/
def beginUpdate (f : DbFile) (offset : Nat) : Prog (Sys M) (Option (f.Rec M)) := do
  match ← openFile f .readWrite false false with
  | none => return none
  | some fd =>
      if ← lockRecord fd offset then
        match ← read (fd.seek offset) with
        | some tmp => return some tmp
        | none =>
            let _ ← unlockRecord fd offset
            close fd
            return none
      else
        close fd
        return none

/-- Write what the modifier has made of the record, if it has, unlock and close. -/
def endUpdate (f : DbFile) (offset : Nat) (updated : Option (f.Rec M)) :
    Prog (Sys M) Bool := do
  -- the descriptor that `beginUpdate` opened
  let fd : Fd f := ⟨.readWrite, false, offset⟩
  let success ← match updated with
    | some tmp => write fd tmp
    | none => pure false
  let _ ← unlockRecord fd offset
  close fd
  return success

def atomicUpdateAccount (fuel userId : Nat)
    (modifier : AccountRec M → Option (AccountRec M)) : Prog (Sys M) Bool := do
  match ← findAccountOffset fuel userId with
  | none => return false
  | some offset =>
      match ← beginUpdate .accounts offset with
      | none => return false
      | some tmp => endUpdate .accounts offset (modifier tmp)

/-! ## Writing and appending -/

/-- Update the first record that passes the test, or append. -/
def writeRecord (fuel : Nat) (f : DbFile) (same : f.Rec M → Bool) (r : f.Rec M) :
    Prog (Sys M) Bool := do
  match ← openFile f .readWrite false true with
  | none => return false
  | some fd =>
      let _ ← lockFile fd
      match ← readUntil same fuel fd with
      | some (pos, _) =>
          let _ ← write (fd.seek pos) r
      | none =>
          let pos ← seekEnd fd
          let _ ← write (fd.seek pos) r
      let _ ← unlockFile fd
      close fd
      return true

def writeAccount (fuel : Nat) (acc : AccountRec M) : Prog (Sys M) Bool :=
  writeRecord fuel .accounts (fun tmp => tmp.userId = acc.userId) acc

def writeUser (fuel : Nat) (user : UserRec) : Prog (Sys M) Bool :=
  writeRecord fuel .users (fun tmp => tmp.userId = user.userId) user

def appendRecord (f : DbFile) (numbered : Nat → f.Rec M) : Prog (Sys M) (Option Nat) := do
  match ← openFile f .writeOnly true true with
  | none => return none
  | some fd =>
      let _ ← lockFile fd
      let count ← seekEnd fd
      let _ ← write fd (numbered (count + 1))
      let _ ← unlockFile fd
      close fd
      return some (count + 1)

def appendTransaction (tx : TxnRec M) : Prog (Sys M) Bool := do
  let txnId ← appendRecord .transactions fun txnId => { tx with txnId }
  return txnId.isSome

def appendLoan (loan : LoanRec M) : Prog (Sys M) (Option Nat) :=
  appendRecord .loans fun loanId => { loan with loanId }

def appendFeedback (fb : FeedbackRec) : Prog (Sys M) (Option Nat) :=
  appendRecord .feedback fun fbId => { fb with fbId }

def generateNewUserId : Prog (Sys M) Nat := do
  match ← openFile .users .readOnly false true with
  | none => return 1001
  | some fd =>
      let _ ← lockFile fd
      let count ← seekEnd fd
      let _ ← unlockFile fd
      close fd
      return 1001 + count

/-! ## The lists of the modules -/

def scan (fuel : Nat) (f : DbFile) : Prog (Sys M) (Option (List (f.Rec M))) := do
  match ← openFile f .readOnly false false with
  | none => return none
  | some fd =>
      let _ ← lockFile fd
      let records ← readAll fuel fd
      let _ ← unlockFile fd
      close fd
      return some records

/-- The loop of both histories, which starts from the end of the file. -/
def scanTransactions : Prog (Sys M) (Option (List (TxnRec M))) := do
  match ← openFile .transactions .readOnly false false with
  | none => return none
  | some fd =>
      let _ ← lockFile fd
      let count ← seekEnd fd
      let txns ← readBackward fd count
      let _ ← unlockFile fd
      close fd
      return some txns

def markReviewed (fuel : Nat) : Prog (Sys M) (Option (List FeedbackRec)) := do
  match ← openFile .feedback .readWrite false false with
  | none => return none
  | some fd =>
      let _ ← lockFile fd
      let records ← reviewAll fuel fd
      let _ ← unlockFile fd
      close fd
      return some records

/-! ## Requests as programs of system calls -/

def helper [Amount M] (fuel : Nat) : (cmd : Db.Cmd M) → Prog (Sys M) (Db.Ans M cmd)
  | .readAccount userId => readAccount fuel userId
  | .updateAccount userId modifier => atomicUpdateAccount fuel userId modifier.apply
  | .writeAccount acc => writeAccount fuel acc
  | .readUser userId => readUser fuel userId
  | .writeUser user => writeUser fuel user
  | .generateNewUserId => generateNewUserId
  | .checkUniqueness username email phone currentUserId =>
      checkUniqueness fuel username email phone currentUserId
  | .findUserOffset userId => findUserOffset fuel userId
  | .lockUser offset => beginUpdate .users offset
  | .commitUser offset user => endUpdate .users offset user
  | .findLoanOffset loanId => findLoanOffset fuel loanId
  | .lockLoan offset => beginUpdate .loans offset
  | .commitLoan offset loan => endUpdate .loans offset loan
  | .appendTransaction tx => appendTransaction tx
  | .appendLoan loan => appendLoan loan
  | .appendFeedback fb => appendFeedback fb
  | .scanUsers => scan fuel .users
  | .scanTransactions => scanTransactions
  | .scanLoans => scan fuel .loans
  | .scanFeedback => scan fuel .feedback
  | .markReviewed => markReviewed fuel
  | .time => call .time

def expand [Amount M] (fuel : Nat) {α : Type} (program : Prog (Db M) α) : Prog (Sys M) α :=
  program.expand (helper fuel)

end Sys

end BankingSystem
