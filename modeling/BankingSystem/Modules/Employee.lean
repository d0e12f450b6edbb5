import BankingSystem.Modules.Customer

/-!
# Employee module

The operations of `employee_module.c`: loan decisions, customer records and the
read-only lists.
-/

namespace BankingSystem

open Foundation Db

variable {M : Type} [Amount M]

/-! ## Loan decisions -/

/-- The response kept when no modifier has written one: `resp_msg[0] == '\0'`. -/
def respondIfEmpty (respMsg text : Bytes) : Bytes :=
  if respMsg = [] then respond text else respMsg

/--
Runs under the loan record lock.  On `approve` the deposit and its log record
are made from inside the modifier, before the loan record is written.
-/
def approveRejectLoanModifier (action : Bytes) (empId : Nat) (loan : LoanRec M) :
    Prog (Db M) (Option (LoanRec M) × Bytes) := do
  if loan.status ≠ .assigned then
    return (none,
      respond (str "Loan not assigned to an employee or already processed."))
  else if loan.assignedTo ≠ empId then
    return (none, respond (str "Loan not assigned to you."))
  else if action = str "approve" then
    -- 1. Check account status before trying to deposit
    let custAcc ← readAccount loan.userId
    if custAcc.all (fun acc => acc.active = .inactive) then
      return (none, respond
        (str "Loan Approval Failed: Customer account is inactive or not found."))
    -- 3. Perform the atomic deposit
    else if ← atomicUpdateAccount loan.userId (.deposit loan.amount) then
      -- 4. Log the transaction
      let logged ← time
      let _ ← appendTransaction
        ⟨0, 0, loan.userId, loan.amount, logged, str "loan_deposit"⟩
      let now ← time
      return (some { loan with status := .approved, processedAt := now },
        respond (str "Loan ID " ++ dec loan.loanId ++
          str " Decision Recorded: " ++ action))
    else
      return (none, respond
        (str "Loan Decision Failed: Approved, but failed to deposit funds."))
  else if action = str "reject" then
    let now ← time
    return (some { loan with status := .rejected, processedAt := now },
      respond (str "Loan ID " ++ dec loan.loanId ++
        str " Decision Recorded: " ++ action))
  else return (none, respond (str "Invalid action. Use 'approve' or 'reject'."))

def approveRejectLoan (loanId : Nat) (action : Bytes) (empId : Nat) (respMsg : Bytes) :
    Prog (Db M) Reply := do
  let reply ← atomicUpdateLoan loanId (approveRejectLoanModifier action empId) respMsg
  if reply.result then return reply
  else
    return ⟨false, respondIfEmpty reply.message
      (str "Loan Decision Failed (Loan not found or concurrency error)")⟩

/-! ## Customer records -/

/-- The fields that `modify_customer` and `modify_user` overwrite. -/
structure Details where
  firstName : Bytes
  lastName : Bytes
  age : Int
  address : Bytes
  email : Bytes
  phone : Bytes
  deriving DecidableEq

def UserRec.setDetails (user : UserRec) (d : Details) : UserRec :=
  { user with
    firstName := user.firstName.strncpy d.firstName
    lastName := user.lastName.strncpy d.lastName
    age := ageOfInt d.age
    address := user.address.strncpy d.address
    email := user.email.strncpy d.email
    phone := user.phone.strncpy d.phone }

def modifiedMessage (what : Bytes) (user : UserRec) : Bytes :=
  respond (what ++ str " Modified (ID: " ++ dec user.userId ++
    str ").\nNew Details:\nName: " ++ user.firstName.text ++ str " " ++
    user.lastName.text ++ str "\nAge: " ++ dec user.age.toNat ++
    str "\nAddress: " ++ user.address.text ++ str "\nEmail: " ++
    user.email.text ++ str "\nPhone: " ++ user.phone.text)

def modifyCustomerModifier (d : Details) (user : UserRec) :
    Prog (Db M) (Option UserRec × Bytes) := do
  if user.role ≠ .customer then
    return (none, respond (str "Cannot modify non-customer user."))
  else
    match ← checkUniqueness user.username.text d.email d.phone user.userId with
    | some clash => return (none, clash)
    | none =>
        return (some (user.setDetails d),
          modifiedMessage (str "Customer") (user.setDetails d))

def modifyCustomer (userId : Nat) (d : Details) (respMsg : Bytes) :
    Prog (Db M) Reply := do
  let reply ← atomicUpdateUser userId (modifyCustomerModifier d) respMsg
  if reply.result then return reply
  else
    return ⟨false, respondIfEmpty reply.message
      (str "Customer Modification Failed (User not found or concurrency error)")⟩

/-- The assignments that `add_new_customer` makes to the caller's user record. -/
def newCustomer (env : Env) (user : UserRec) (userId : Nat) (now : Time)
    (username password : Bytes) : UserRec :=
  { user with
    userId
    role := .customer
    active := .active
    createdAt := now
    username := user.username.strncpy username
    passwordHash := generatePasswordHash env password user.passwordHash }

def customerAdded (user : UserRec) : Reply :=
  .say true (str "Customer Added (ID: " ++ dec user.userId ++ str ", Username: " ++
    user.username.text ++ str ")")

/-- `user` is the caller's record; all fields of the account are assigned. -/
def addNewCustomer (env : Env) (user : UserRec) (username password : Bytes) :
    Prog (Db M) Reply := do
  match ← checkUniqueness username user.email.text user.phone.text 0 with
  | some clash => return ⟨false, clash⟩
  | none =>
      let userId ← generateNewUserId
      let now ← time
      let user := newCustomer env user userId now username password
      if ← writeUser user then
        if ← writeAccount ⟨userId, userId, 0, .active⟩ then
          return customerAdded user
        else return .say false (str "Customer Add Failed (Persistence Error)")
      else return .say false (str "Customer Add Failed (Persistence Error)")

/-! ## Read-only lists -/

def loanRow (loan : LoanRec M) : Bytes :=
  padRight 4 (dec loan.loanId) ++ str " | " ++ padRight 7 (dec loan.userId) ++
    str " | "

def viewAssignedLoans (empId : Nat) : Prog (Db M) Reply := do
  match ← scanLoans with
  | none => return .say false (str "No loans file found")
  | some loans =>
      let lines := (loans.filter fun loan =>
          loan.assignedTo = empId ∧ loan.status = .assigned).map fun loan =>
        loanRow loan ++ padRight 8 (Amount.fixed2 loan.amount) ++ str " | " ++
          statusMap loan.status ++ str "\n"
      return listingOr 256
        (str "ID   | User ID | Amount   | Status\n" ++
          str "---- | ------- | -------- | --------\n")
        lines (str "No loan applications currently assigned to you.")

def pendingRows (loans : List (LoanRec M)) : List Bytes :=
  (loans.filter fun loan => loan.status = .pending).map fun loan =>
    loanRow loan ++ Amount.fixed2 loan.amount ++ str "\n"

def pendingColumns : Bytes :=
  str "ID   | User ID | Amount\n" ++ str "---- | ------- | --------\n"

def processLoans : Prog (Db M) Reply := do
  match ← scanLoans with
  | none => return .say false (str "No loans file found")
  | some loans =>
      return listingOr 256
        (str "--- Pending Loan Applications (Unassigned) ---\n" ++ pendingColumns)
        (pendingRows loans)
        (str "No pending loan applications available to process.")

def auditOtherId (tx : TxnRec M) : TxnKind → Nat
  | .deposit => tx.fromAccount
  | .withdraw => tx.toAccount
  | .transferOut => tx.toAccount
  | .transferIn => tx.fromAccount
  | .loanDeposit => 0

def viewCustomerTransactions (env : Env) (custId : Nat) : Prog (Db M) Reply := do
  let user ← readUser custId
  if user.all (fun user => user.role ≠ .customer) then
    return .say false (str "Customer ID " ++ dec custId ++ str " not found.")
  else
    match ← scanTransactions with
    | none =>
        return .say false
          (str "No transaction history found for customer " ++ dec custId)
    | some txns =>
        let lines := txns.reverse.filterMap fun tx =>
          (tx.relevance custId).map fun kind =>
            txnLine env tx kind (auditOtherId tx kind)
        return listingOr 256
          (str "--- Transaction History for Customer " ++ dec custId ++
            str " ---\n" ++ txnHeader)
          lines
          (str "No transaction history found for customer " ++ dec custId ++ str ".")

end BankingSystem
