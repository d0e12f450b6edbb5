import BankingSystem.Modules.Employee

/-!
# Manager module

The operations of `manager_module.c`: account status, loan assignment and the
review of feedback.
-/

namespace BankingSystem

open Foundation Db

variable {M : Type} [Amount M]

def setAccountStatus (custId : Nat) (status : Int) : Prog (Db M) Reply := do
  if ← atomicUpdateAccount custId (.setStatus status) then
    return .say true (str "Account " ++ dec custId ++ str " Status Updated to: " ++
      (if status = 1 then str "ACTIVE" else str "INACTIVE"))
  else return .say false (str "Account Status Update Failed (Account not found)")

def assignLoanModifier (empId : Nat) (loan : LoanRec M) :
    Prog (Db M) (Option (LoanRec M) × Bytes) := do
  if loan.status ≠ .pending then
    return (none, respond (str "Loan is not pending, cannot assign."))
  else
    -- Consistency check: validate employee role and existence
    let emp ← readUser empId
    if emp.all (fun emp => emp.role ≠ .employee) then
      return (none, respond (str "Employee ID " ++ dec empId ++
        str " not found or is not an employee."))
    else
      return (some { loan with assignedTo := empId, status := .assigned },
        respond (str "Loan " ++ dec loan.loanId ++ str " Assigned to Employee " ++
          dec empId))

def assignLoanToEmployee (loanId empId : Nat) (respMsg : Bytes) :
    Prog (Db M) Reply := do
  let reply ← atomicUpdateLoan loanId (assignLoanModifier empId) respMsg
  if reply.result then return reply
  else
    return ⟨false, respondIfEmpty reply.message
      (str "Loan Assignment Failed (Loan not found or concurrency error)")⟩

def viewNonAssignedLoans : Prog (Db M) Reply := do
  match ← scanLoans with
  | none => return .say false (str "No loans file found")
  | some loans =>
      return listingOr 256
        (str "--- Non-Assigned (Pending) Loans ---\n" ++ pendingColumns)
        (pendingRows loans) (str "No non-assigned loans found.")

def reviewLine (fb : FeedbackRec) : Bytes :=
  str "ID: " ++ dec fb.fbId ++ str ", User: " ++ dec fb.userId ++ str ", Msg: \"" ++
    fb.message.text.take 100 ++ str "\"\n"

def reviewFeedbacks : Prog (Db M) Reply := do
  match ← markReviewed with
  | none => return .say false (str "No feedback file found")
  | some feedback =>
      let unreviewed := feedback.filter fun fb => fb.reviewed = 0
      if unreviewed.isEmpty then
        return .say true (str "No new feedback found to review.")
      else
        let respMsg := listing 600 (str "--- Unreviewed Feedback ---\n")
          (unreviewed.map reviewLine)
        let tmp := snprintf 100 (str "\n" ++ dec unreviewed.length ++
          str " feedback(s) marked as reviewed.")
        return ⟨true, strncat respMsg tmp (maxMsgLen - respMsg.length - 1)⟩

end BankingSystem
