import BankingSystem.Store.Auth

/-!
# Customer module

The operations of `customer_module.c` as programs over the persistence helpers.
Each returns the source's 0 or 1 and the text left in `resp_msg`, a buffer of
`MAX_MSG_LEN` bytes that is empty on entry.
-/

namespace BankingSystem

open Foundation Db

variable {M : Type} [Amount M]

/-! ## Password and read-only details -/

def changePassModifier (env : Env) (newpass : Bytes) (user : UserRec) :
    Prog (Db M) (Option UserRec × Bytes) :=
  return (some { user with
    passwordHash := generatePasswordHash env newpass user.passwordHash },
    respond (str "Password changed successfully"))

def changePassword (env : Env) (userId : Nat) (newpass : Bytes) :
    Prog (Db M) Reply := do
  let reply ← atomicUpdateUser userId (changePassModifier env newpass) []
  if reply.result then return reply
  else
    return .say false
      (str "Password change failed (User not found or concurrency error)")

def viewPersonalDetails (userId : Nat) : Prog (Db M) Reply := do
  match ← readUser userId with
  | none => return .say false (str "Could not find user details.")
  | some user =>
      return .say true
        (str "--- Personal Details for " ++ user.firstName.text ++ str " ---\n" ++
          str "Account ID: AC" ++ dec user.userId ++ str "\n" ++
          str "Name:       " ++ user.firstName.text ++ str " " ++
            user.lastName.text ++ str "\n" ++
          str "Age:        " ++ dec user.age.toNat ++ str "\n" ++
          str "Address:    " ++ user.address.text ++ str "\n" ++
          str "Email:      " ++ user.email.text ++ str "\n" ++
          str "Phone:      " ++ user.phone.text ++ str "\n")

def viewBalance (userId : Nat) : Prog (Db M) Reply := do
  match ← readAccount userId with
  | none => return .say false (str "Account not found")
  | some acc =>
      return .say true
        (str "Balance: " ++ Amount.fixed2 acc.balance ++ str " (Status: " ++
          (if acc.active = .active then str "Active" else str "Inactive") ++ str ")")

/-! ## Money -/

def depositMoney (userId : Nat) (amount : M) : Prog (Db M) Reply := do
  if amount ≤ 0 then return .say false (str "Deposit amount must be positive.")
  else
    if ← atomicUpdateAccount userId (.deposit amount) then
      let now ← time
      let _ ← appendTransaction ⟨0, 0, userId, amount, now, str "deposit"⟩
      return .say true (str "Deposit Successful: " ++ Amount.fixed2 amount)
    else
      match ← readAccount userId with
      | some acc =>
          if acc.active = .inactive then
            return .say false (str "Deposit Failed: Account is inactive")
          else return .say false (str "Deposit Failed: Account not found")
      | none => return .say false (str "Deposit Failed: Account not found")

/-- Why a withdrawal was refused, as the source works it out afterwards. -/
def withdrawRefusal (amount : M) (notFound inactive insufficient other : Bytes) :
    Option (AccountRec M) → Bytes
  | none => notFound
  | some acc =>
      if acc.active = .inactive then inactive
      else if acc.balance < amount then
        insufficient ++ Amount.fixed2 acc.balance ++ str ")"
      else other

def withdrawMoney (userId : Nat) (amount : M) : Prog (Db M) Reply := do
  if amount ≤ 0 then return .say false (str "Withdrawal amount must be positive.")
  else
    if ← atomicUpdateAccount userId (.withdraw amount) then
      let now ← time
      let _ ← appendTransaction ⟨0, userId, 0, amount, now, str "withdraw"⟩
      return .say true (str "Withdrawal Successful: " ++ Amount.fixed2 amount)
    else
      let acc ← readAccount userId
      return .say false (withdrawRefusal amount
        (str "Withdrawal Failed: Account not found")
        (str "Withdrawal Failed: Account is inactive")
        (str "Withdrawal Failed: Insufficient Balance (Current: ")
        (str "Withdrawal Failed: Unexpected error") acc)

def transferFunds (fromId toId : Nat) (amount : M) : Prog (Db M) Reply := do
  if fromId = toId then return .say false (str "Cannot transfer to the same account.")
  else if amount ≤ 0 then return .say false (str "Transfer amount must be positive.")
  else
    -- 1. Check receiver account exists and is active first
    let toAcc ← readAccount toId
    if toAcc.all (fun acc => acc.active = .inactive) then
      return .say false
        (str "Transfer Failed: Recipient account not found or is inactive")
    -- 2. Attempt to withdraw from sender
    else if ← atomicUpdateAccount fromId (.withdraw amount) then
      -- 3. Attempt to deposit to receiver
      if ← atomicUpdateAccount toId (.deposit amount) then
        -- 4. Log transactions
        let now ← time
        let _ ← appendTransaction ⟨0, fromId, toId, amount, now, str "transfer_out"⟩
        let _ ← appendTransaction ⟨0, fromId, toId, amount, now, str "transfer_in"⟩
        return .say true (str "Transfer Successful: " ++ Amount.fixed2 amount ++
          str " from " ++ dec fromId ++ str " to " ++ dec toId)
      else
        -- Rollback: deposit the money back to the sender, result ignored
        let _ ← atomicUpdateAccount fromId (.deposit amount)
        return .say false
          (str "CRITICAL ERROR: Transfer failed after withdrawal. Contact support.")
    else
      let fromAcc ← readAccount fromId
      return .say false (withdrawRefusal amount
        (str "Transfer Failed: Sender account not found")
        (str "Transfer Failed: Sender account is inactive")
        (str "Transfer Failed: Insufficient Balance (Current: ")
        (str "Transfer Failed: Sender account error") fromAcc)

/-! ## Loans and feedback -/

def applyLoan (userId : Nat) (amount : M) : Prog (Db M) Reply := do
  if amount ≤ 0 then return .say false (str "Loan amount must be positive.")
  else
    let now ← time
    match ← appendLoan ⟨0, userId, amount, .pending, 0, now, 0⟩ with
    | some loanId =>
        return .say true
          (str "Loan Application Submitted (ID: " ++ dec loanId ++ str ")")
    | none => return .say false (str "Loan Apply Failed (Server Error)")

def statusMap : LoanStatus → Bytes
  | .pending => str "PENDING"
  | .assigned => str "ASSIGNED"
  | .approved => str "APPROVED"
  | .rejected => str "REJECTED"

/-- Append each line, cut by `snprintf` to its buffer, with `strncat` to the response. -/
def listing (tmpSize : Nat) (header : Bytes) (lines : List Bytes) : Bytes :=
  lines.foldl (fun respMsg line =>
    strncat respMsg (snprintf tmpSize line) (maxMsgLen - respMsg.length - 1)) header

def listingOr (tmpSize : Nat) (header : Bytes) (lines : List Bytes) (notice : Bytes) :
    Reply :=
  if lines.isEmpty then .say true notice else ⟨true, listing tmpSize header lines⟩

def viewLoanStatus (userId : Nat) : Prog (Db M) Reply := do
  match ← scanLoans with
  | none => return .say false (str "No loan records found")
  | some loans =>
      let lines := (loans.filter fun loan => loan.userId = userId).map fun loan =>
        str "ID: " ++ dec loan.loanId ++ str ", Amount: " ++
          Amount.fixed2 loan.amount ++ str ", Status: " ++ statusMap loan.status ++
          str "\n"
      return listingOr 512 [] lines (str "No loan applications found for your ID.")

def addFeedback (userId : Nat) (msg : Bytes) : Prog (Db M) Reply := do
  let now ← time
  match ← appendFeedback ⟨0, userId, .ofText msg, 0, .zero _, now⟩ with
  | some fbId =>
      return .say true
        (str "Feedback Submitted (ID: " ++ dec fbId ++ str "). Thank you!")
  | none => return .say false (str "Feedback submission failed.")

def viewFeedbackStatus (userId : Nat) : Prog (Db M) Reply := do
  match ← scanFeedback with
  | none => return .say false (str "No feedback records found")
  | some feedback =>
      let lines := (feedback.filter fun fb => fb.userId = userId).map fun fb =>
        str "ID: " ++ dec fb.fbId ++ str ", Status: " ++
          (if fb.reviewed = 0 then str "PENDING" else str "REVIEWED") ++
          str ", Msg: \"" ++ fb.message.text ++ str "\"\n"
      return listingOr 512 [] lines (str "No feedback submitted by your ID.")

/-! ## Transaction history -/

/-- The branches of the two transaction views, in source order. -/
inductive TxnKind where
  | deposit
  | withdraw
  | transferOut
  | transferIn
  | loanDeposit
  deriving DecidableEq, Repr

/-- The test that decides whether a record is shown to a user, and as what. -/
def TxnRec.relevance (userId : Nat) (tx : TxnRec M) : Option TxnKind :=
  if tx.narration = str "deposit" ∧ tx.toAccount = userId then some .deposit
  else if tx.narration = str "withdraw" ∧ tx.fromAccount = userId then some .withdraw
  else if tx.narration = str "transfer_out" ∧ tx.fromAccount = userId then
    some .transferOut
  else if tx.narration = str "transfer_in" ∧ tx.toAccount = userId then
    some .transferIn
  else if tx.narration = str "loan_deposit" ∧ tx.toAccount = userId then
    some .loanDeposit
  else none

def TxnKind.typeStr : TxnKind → Bytes
  | .deposit => str "DEPOSIT"
  | .withdraw => str "WITHDRAW"
  | .transferOut => str "TRANSFER_OUT"
  | .transferIn => str "TRANSFER_IN"
  | .loanDeposit => str "LOAN_DEPOSIT"

def txnLine (env : Env) (tx : TxnRec M) (kind : TxnKind) (otherId : Nat) : Bytes :=
  padRight 11 kind.typeStr ++ str " | " ++ padRight 8 (Amount.fixed2 tx.amount) ++
    str " | " ++ padRight 10 (dec otherId) ++ str " | " ++
    env.timeString tx.timestamp ++ str "\n"

def txnHeader : Bytes :=
  str "Type        | Amount   | Other Acct | Timestamp\n" ++
    str "------------|----------|------------|-------------------\n"

def historyOtherId (tx : TxnRec M) : TxnKind → Nat
  | .deposit => 0
  | .withdraw => 0
  | .transferOut => tx.toAccount
  | .transferIn => tx.fromAccount
  | .loanDeposit => 0

def viewTransactionHistory (env : Env) (userId : Nat) : Prog (Db M) Reply := do
  match ← scanTransactions with
  | none => return .say false (str "No transaction history found")
  | some txns =>
      let lines := txns.reverse.filterMap fun tx =>
        (tx.relevance userId).map fun kind =>
          txnLine env tx kind (historyOtherId tx kind)
      return listingOr 256 txnHeader lines
        (str "No transaction history found for your ID.")

end BankingSystem
