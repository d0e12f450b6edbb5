import BankingSystem.Foundation.Prog
import BankingSystem.Foundation.Table
import BankingSystem.Store.Modifiers

/-!
# The five databases and the calls on them

`Db` is the signature of the persistence helpers of `utils.c`.  Each helper is
one command; the two updates whose modifiers call the database again are split
where the modifier runs, into finding the record, locking and reading it, and
writing it back and unlocking.  `Db.exec` is what a helper does when it runs
alone and no system call fails.
-/

namespace BankingSystem

open Foundation

/-- The column of `check_uniqueness` that another user already holds. -/
inductive UniqueField where
  | username
  | email
  | phone
  deriving DecidableEq, Repr

variable (M : Type)

/-- The contents of the five files, `none` while a file is missing, and `time`. -/
structure Database where
  users : Option (List UserRec)
  accounts : Option (List (AccountRec M))
  transactions : Option (List (TxnRec M))
  loans : Option (List (LoanRec M))
  feedback : Option (List FeedbackRec)
  /-- The values that successive calls of `time(NULL)` return. -/
  clock : Nat → Time

namespace Db

inductive Cmd where
  | readAccount (userId : Nat)
  | updateAccount (userId : Nat) (modifier : AccountModifier M)
  | writeAccount (acc : AccountRec M)
  | readUser (userId : Nat)
  | writeUser (user : UserRec)
  | generateNewUserId
  | checkUniqueness (username email phone : Bytes) (currentUserId : Nat)
  | findUserOffset (userId : Nat)
  | lockUser (offset : Nat)
  | commitUser (offset : Nat) (user : Option UserRec)
  | findLoanOffset (loanId : Nat)
  | lockLoan (offset : Nat)
  | commitLoan (offset : Nat) (loan : Option (LoanRec M))
  | appendTransaction (tx : TxnRec M)
  | appendLoan (loan : LoanRec M)
  | appendFeedback (fb : FeedbackRec)
  | scanUsers
  | scanTransactions
  | scanLoans
  | scanFeedback
  | markReviewed
  | time

abbrev Ans : Cmd M → Type
  | .readAccount _ => Option (AccountRec M)
  | .updateAccount _ _ => Bool
  | .writeAccount _ => Bool
  | .readUser _ => Option UserRec
  | .writeUser _ => Bool
  | .generateNewUserId => Nat
  | .checkUniqueness _ _ _ _ => Option UniqueField
  | .findUserOffset _ => Option Nat
  | .lockUser _ => Option UserRec
  | .commitUser _ _ => Bool
  | .findLoanOffset _ => Option Nat
  | .lockLoan _ => Option (LoanRec M)
  | .commitLoan _ _ => Bool
  | .appendTransaction _ => Bool
  | .appendLoan _ => Option Nat
  | .appendFeedback _ => Option Nat
  | .scanUsers => Option (List UserRec)
  | .scanTransactions => Option (List (TxnRec M))
  | .scanLoans => Option (List (LoanRec M))
  | .scanFeedback => Option (List FeedbackRec)
  | .markReviewed => Option (List FeedbackRec)
  | .time => Time

end Db

/-- The persistence helpers as a signature of commands. -/
abbrev Db : Signature := ⟨Db.Cmd M, Db.Ans M⟩

variable {M}

/-! ## Contents, a missing file counting as empty -/

namespace Database

def empty (clock : Nat → Time) : Database M :=
  ⟨none, none, none, none, none, clock⟩

def ofAccounts (accounts : List (AccountRec M)) (clock : Nat → Time) : Database M :=
  ⟨none, some accounts, none, none, none, clock⟩

def userTable (db : Database M) : List UserRec := db.users.getD []
def accountTable (db : Database M) : List (AccountRec M) := db.accounts.getD []
def txnTable (db : Database M) : List (TxnRec M) := db.transactions.getD []
def loanTable (db : Database M) : List (LoanRec M) := db.loans.getD []
def feedbackTable (db : Database M) : List FeedbackRec := db.feedback.getD []

end Database

/-! ## The records that a helper makes -/

def UserRec.clash (username email phone : Bytes) (currentUserId : Nat)
    (user : UserRec) : Option UniqueField :=
  if user.userId = currentUserId then none
  else if user.username.text = cstr username then some .username
  else if user.email.text = cstr email then some .email
  else if user.phone.text = cstr phone then some .phone
  else none

def firstClash (username email phone : Bytes) (currentUserId : Nat)
    (users : List UserRec) : Option UniqueField :=
  users.findSome? (UserRec.clash username email phone currentUserId)

/-- `review_feedbacks` sets the flag of every record that has none. -/
def FeedbackRec.markReviewed (fb : FeedbackRec) : FeedbackRec :=
  if fb.reviewed = 0 then { fb with reviewed := 1 } else fb

namespace Db

/-! ## What a helper does when it runs alone -/

def commitAt {ρ : Type} (file : Option (List ρ)) (offset : Nat) :
    Option ρ → Option (List ρ)
  | some r => some (Table.put (file.getD []) offset r)
  | none => file

def exec [Amount M] : (cmd : Cmd M) → Database M → Ans M cmd × Database M
  | .readAccount userId, db =>
      (Table.lookup AccountRec.userId userId db.accountTable, db)
  | .updateAccount userId modifier, db =>
      match Table.modify AccountRec.userId userId modifier.apply db.accountTable with
      | some accounts => (true, { db with accounts := some accounts })
      | none => (false, db)
  | .writeAccount acc, db =>
      (true, { db with
        accounts := some (Table.upsert AccountRec.userId acc db.accountTable) })
  | .readUser userId, db => (Table.lookup UserRec.userId userId db.userTable, db)
  | .writeUser user, db =>
      (true, { db with users := some (Table.upsert UserRec.userId user db.userTable) })
  | .generateNewUserId, db =>
      (1001 + db.userTable.length, { db with users := some db.userTable })
  | .checkUniqueness username email phone currentUserId, db =>
      (firstClash username email phone currentUserId db.userTable, db)
  | .findUserOffset userId, db => (Table.locate UserRec.userId userId db.userTable, db)
  | .lockUser offset, db => (db.userTable[offset]?, db)
  | .commitUser offset user, db =>
      (user.isSome, { db with users := commitAt db.users offset user })
  | .findLoanOffset loanId, db => (Table.locate LoanRec.loanId loanId db.loanTable, db)
  | .lockLoan offset, db => (db.loanTable[offset]?, db)
  | .commitLoan offset loan, db =>
      (loan.isSome, { db with loans := commitAt db.loans offset loan })
  | .appendTransaction tx, db =>
      (true, { db with
        transactions :=
          some (db.txnTable ++ [{ tx with txnId := db.txnTable.length + 1 }]) })
  | .appendLoan loan, db =>
      (some (db.loanTable.length + 1), { db with
        loans :=
          some (db.loanTable ++ [{ loan with loanId := db.loanTable.length + 1 }]) })
  | .appendFeedback fb, db =>
      (some (db.feedbackTable.length + 1), { db with
        feedback :=
          some (db.feedbackTable ++ [{ fb with fbId := db.feedbackTable.length + 1 }]) })
  | .scanUsers, db => (db.users, db)
  | .scanTransactions, db => (db.transactions, db)
  | .scanLoans, db => (db.loans, db)
  | .scanFeedback, db => (db.feedback, db)
  | .markReviewed, db =>
      (db.feedback, { db with
        feedback := db.feedback.map (List.map FeedbackRec.markReviewed) })
  | .time, db => (db.clock 0, { db with clock := fun n => db.clock (n + 1) })

/-! ## Which file a helper leaves alone -/

section Frame

variable [Amount M] {cmd : Cmd M} (db : Database M)

theorem exec_accountTable (hupdate : ∀ userId modifier, cmd ≠ .updateAccount userId modifier)
    (hwrite : ∀ acc, cmd ≠ .writeAccount acc) :
    (exec cmd db).2.accountTable = db.accountTable := by
  cases cmd with
  | updateAccount userId modifier => exact absurd rfl (hupdate userId modifier)
  | writeAccount acc => exact absurd rfl (hwrite acc)
  | _ => rfl

theorem exec_loanTable (happend : ∀ loan, cmd ≠ .appendLoan loan)
    (hcommit : ∀ offset loan, cmd ≠ .commitLoan offset (some loan)) :
    (exec cmd db).2.loanTable = db.loanTable := by
  cases cmd with
  | appendLoan loan => exact absurd rfl (happend loan)
  | commitLoan offset loan =>
      cases loan with
      | some loan => exact absurd rfl (hcommit offset loan)
      | none => rfl
  | updateAccount userId modifier =>
      simp only [exec]
      split <;> rfl
  | _ => rfl

theorem exec_userTable (hwrite : ∀ user, cmd ≠ .writeUser user)
    (hcommit : ∀ offset user, cmd ≠ .commitUser offset (some user)) :
    (exec cmd db).2.userTable = db.userTable := by
  cases cmd with
  | writeUser user => exact absurd rfl (hwrite user)
  | commitUser offset user =>
      cases user with
      | some user => exact absurd rfl (hcommit offset user)
      | none => rfl
  | updateAccount userId modifier =>
      simp only [exec]
      split <;> rfl
  | _ => rfl

/-- No helper makes a file shorter, so a record that was found keeps its place. -/
theorem length_userTable_le : db.userTable.length ≤ (exec cmd db).2.userTable.length := by
  cases cmd with
  | writeUser user => exact Table.length_le_upsert
  | commitUser offset user =>
      cases user with
      | some user => exact Table.length_le_put
      | none => exact Nat.le_refl _
  | updateAccount userId modifier =>
      simp only [exec]
      split <;> exact Nat.le_refl _
  | _ => exact Nat.le_refl _

theorem length_loanTable_le : db.loanTable.length ≤ (exec cmd db).2.loanTable.length := by
  cases cmd with
  | appendLoan loan => simp [exec, Database.loanTable]
  | commitLoan offset loan =>
      cases loan with
      | some loan => exact Table.length_le_put
      | none => exact Nat.le_refl _
  | updateAccount userId modifier =>
      simp only [exec]
      split <;> exact Nat.le_refl _
  | _ => exact Nat.le_refl _

end Frame

/-! ## The helpers as programs -/

def issue (cmd : Cmd M) : Prog (Db M) (Ans M cmd) := Prog.perform (S := Db M) cmd

def readAccount (userId : Nat) : Prog (Db M) (Option (AccountRec M)) :=
  issue (.readAccount userId)

def atomicUpdateAccount (userId : Nat) (modifier : AccountModifier M) :
    Prog (Db M) Bool :=
  issue (.updateAccount userId modifier)

def writeAccount (acc : AccountRec M) : Prog (Db M) Bool := issue (.writeAccount acc)

def readUser (userId : Nat) : Prog (Db M) (Option UserRec) := issue (.readUser userId)

def writeUser (user : UserRec) : Prog (Db M) Bool := issue (.writeUser user)

def generateNewUserId : Prog (Db M) Nat := issue .generateNewUserId

def findUserOffset (userId : Nat) : Prog (Db M) (Option Nat) :=
  issue (.findUserOffset userId)

def lockUser (offset : Nat) : Prog (Db M) (Option UserRec) := issue (.lockUser offset)

def commitUser (offset : Nat) (user : Option UserRec) : Prog (Db M) Bool :=
  issue (.commitUser offset user)

def findLoanOffset (loanId : Nat) : Prog (Db M) (Option Nat) :=
  issue (.findLoanOffset loanId)

def lockLoan (offset : Nat) : Prog (Db M) (Option (LoanRec M)) :=
  issue (.lockLoan offset)

def commitLoan (offset : Nat) (loan : Option (LoanRec M)) : Prog (Db M) Bool :=
  issue (.commitLoan offset loan)

def appendTransaction (tx : TxnRec M) : Prog (Db M) Bool :=
  issue (.appendTransaction tx)

def appendLoan (loan : LoanRec M) : Prog (Db M) (Option Nat) := issue (.appendLoan loan)

def appendFeedback (fb : FeedbackRec) : Prog (Db M) (Option Nat) :=
  issue (.appendFeedback fb)

def scanUsers : Prog (Db M) (Option (List UserRec)) := issue .scanUsers

def scanTransactions : Prog (Db M) (Option (List (TxnRec M))) := issue .scanTransactions

def scanLoans : Prog (Db M) (Option (List (LoanRec M))) := issue .scanLoans

def scanFeedback : Prog (Db M) (Option (List FeedbackRec)) := issue .scanFeedback

def markReviewed : Prog (Db M) (Option (List FeedbackRec)) := issue .markReviewed

def time : Prog (Db M) Time := issue .time

section Bind

variable {α : Type}

/-! Each helper issues its command and continues with the answer. -/

@[simp] theorem readAccount_bind (userId : Nat)
    (f : Option (AccountRec M) → Prog (Db M) α) :
    readAccount userId >>= f = .call (.readAccount userId) f := rfl

@[simp] theorem atomicUpdateAccount_bind (userId : Nat) (modifier : AccountModifier M)
    (f : Bool → Prog (Db M) α) :
    atomicUpdateAccount userId modifier >>= f = .call (.updateAccount userId modifier) f := rfl

@[simp] theorem writeAccount_bind (acc : AccountRec M) (f : Bool → Prog (Db M) α) :
    writeAccount acc >>= f = .call (.writeAccount acc) f := rfl

@[simp] theorem readUser_bind (userId : Nat) (f : Option UserRec → Prog (Db M) α) :
    readUser userId >>= f = .call (.readUser userId) f := rfl

@[simp] theorem writeUser_bind (user : UserRec) (f : Bool → Prog (Db M) α) :
    writeUser user >>= f = .call (.writeUser user) f := rfl

@[simp] theorem generateNewUserId_bind (f : Nat → Prog (Db M) α) :
    generateNewUserId >>= f = .call .generateNewUserId f := rfl

@[simp] theorem findUserOffset_bind (userId : Nat) (f : Option Nat → Prog (Db M) α) :
    findUserOffset userId >>= f = .call (.findUserOffset userId) f := rfl

@[simp] theorem lockUser_bind (offset : Nat) (f : Option UserRec → Prog (Db M) α) :
    lockUser offset >>= f = .call (.lockUser offset) f := rfl

@[simp] theorem commitUser_bind (offset : Nat) (user : Option UserRec)
    (f : Bool → Prog (Db M) α) :
    commitUser offset user >>= f = .call (.commitUser offset user) f := rfl

@[simp] theorem findLoanOffset_bind (loanId : Nat) (f : Option Nat → Prog (Db M) α) :
    findLoanOffset loanId >>= f = .call (.findLoanOffset loanId) f := rfl

@[simp] theorem lockLoan_bind (offset : Nat) (f : Option (LoanRec M) → Prog (Db M) α) :
    lockLoan offset >>= f = .call (.lockLoan offset) f := rfl

@[simp] theorem commitLoan_bind (offset : Nat) (loan : Option (LoanRec M))
    (f : Bool → Prog (Db M) α) :
    commitLoan offset loan >>= f = .call (.commitLoan offset loan) f := rfl

@[simp] theorem appendTransaction_bind (tx : TxnRec M) (f : Bool → Prog (Db M) α) :
    appendTransaction tx >>= f = .call (.appendTransaction tx) f := rfl

@[simp] theorem appendLoan_bind (loan : LoanRec M) (f : Option Nat → Prog (Db M) α) :
    appendLoan loan >>= f = .call (.appendLoan loan) f := rfl

@[simp] theorem appendFeedback_bind (fb : FeedbackRec)
    (f : Option Nat → Prog (Db M) α) :
    appendFeedback fb >>= f = .call (.appendFeedback fb) f := rfl

@[simp] theorem scanUsers_bind (f : Option (List UserRec) → Prog (Db M) α) :
    scanUsers >>= f = .call .scanUsers f := rfl

@[simp] theorem scanTransactions_bind (f : Option (List (TxnRec M)) → Prog (Db M) α) :
    scanTransactions >>= f = .call .scanTransactions f := rfl

@[simp] theorem scanLoans_bind (f : Option (List (LoanRec M)) → Prog (Db M) α) :
    scanLoans >>= f = .call .scanLoans f := rfl

@[simp] theorem scanFeedback_bind (f : Option (List FeedbackRec) → Prog (Db M) α) :
    scanFeedback >>= f = .call .scanFeedback f := rfl

@[simp] theorem markReviewed_bind (f : Option (List FeedbackRec) → Prog (Db M) α) :
    markReviewed >>= f = .call .markReviewed f := rfl

@[simp] theorem time_bind (f : Time → Prog (Db M) α) :
    time >>= f = .call .time f := rfl

end Bind

def clashMessage (username email phone : Bytes) : UniqueField → Bytes
  | .username => str "Error: Username '" ++ username ++ str "' already exists."
  | .email => str "Error: Email '" ++ email ++ str "' already exists."
  | .phone => str "Error: Phone '" ++ phone ++ str "' already exists."

def firstUniquenessClash (username email phone : Bytes) (currentUserId : Nat) :
    Prog (Db M) (Option UniqueField) :=
  issue (.checkUniqueness username email phone currentUserId)

/-- Returns the response text of the clash, or `none` when all three are unique. -/
def checkUniqueness (username email phone : Bytes) (currentUserId : Nat) :
    Prog (Db M) (Option Bytes) := do
  let clash ← firstUniquenessClash username email phone currentUserId
  return clash.map fun field => respond (clashMessage username email phone field)

@[simp] theorem checkUniqueness_bind {α : Type} (username email phone : Bytes)
    (currentUserId : Nat) (f : Option Bytes → Prog (Db M) α) :
    checkUniqueness username email phone currentUserId >>= f =
      .call (.checkUniqueness username email phone currentUserId) fun clash =>
        f (clash.map fun field => respond (clashMessage username email phone field)) :=
  rfl

/--
`atomic_update_user` and `atomic_update_loan`.  The modifier receives the record
read under the lock and returns the record to write, or `none` where the source
returns 0, with the response text it leaves.
-/
def atomicUpdate {ρ : Type} (find : Prog (Db M) (Option Nat))
    (lock : Nat → Prog (Db M) (Option ρ))
    (commit : Nat → Option ρ → Prog (Db M) Bool)
    (modifier : ρ → Prog (Db M) (Option ρ × Bytes)) (respMsg : Bytes) :
    Prog (Db M) Reply := do
  match ← find with
  | none => return ⟨false, respMsg⟩
  | some offset =>
      match ← lock offset with
      | none => return ⟨false, respMsg⟩
      | some tmp =>
          let (updated, respMsg) ← modifier tmp
          let success ← commit offset updated
          return ⟨success, respMsg⟩

def atomicUpdateUser (userId : Nat)
    (modifier : UserRec → Prog (Db M) (Option UserRec × Bytes)) (respMsg : Bytes) :
    Prog (Db M) Reply :=
  atomicUpdate (findUserOffset userId) lockUser commitUser modifier respMsg

def atomicUpdateLoan (loanId : Nat)
    (modifier : LoanRec M → Prog (Db M) (Option (LoanRec M) × Bytes))
    (respMsg : Bytes) : Prog (Db M) Reply :=
  atomicUpdate (findLoanOffset loanId) lockLoan commitLoan modifier respMsg

theorem atomicUpdateUser_eq (userId : Nat)
    (modifier : UserRec → Prog (Db M) (Option UserRec × Bytes)) (respMsg : Bytes) :
    atomicUpdateUser userId modifier respMsg =
      .call (.findUserOffset userId) fun
        | none => .ret ⟨false, respMsg⟩
        | some offset => .call (.lockUser offset) fun
            | none => .ret ⟨false, respMsg⟩
            | some tmp => modifier tmp >>= fun out =>
                .call (.commitUser offset out.1) fun success =>
                  .ret ⟨success, out.2⟩ := by
  refine congrArg (Prog.call (S := Db M) _) (funext fun offset => ?_)
  cases offset with
  | none => rfl
  | some offset =>
      refine congrArg (Prog.call (S := Db M) _) (funext fun user => ?_)
      cases user <;> rfl

theorem atomicUpdateLoan_eq (loanId : Nat)
    (modifier : LoanRec M → Prog (Db M) (Option (LoanRec M) × Bytes))
    (respMsg : Bytes) :
    atomicUpdateLoan loanId modifier respMsg =
      .call (.findLoanOffset loanId) fun
        | none => .ret ⟨false, respMsg⟩
        | some offset => .call (.lockLoan offset) fun
            | none => .ret ⟨false, respMsg⟩
            | some tmp => modifier tmp >>= fun out =>
                .call (.commitLoan offset out.1) fun success =>
                  .ret ⟨success, out.2⟩ := by
  refine congrArg (Prog.call (S := Db M) _) (funext fun offset => ?_)
  cases offset with
  | none => rfl
  | some offset =>
      refine congrArg (Prog.call (S := Db M) _) (funext fun loan => ?_)
      cases loan <;> rfl

end Db

end BankingSystem
