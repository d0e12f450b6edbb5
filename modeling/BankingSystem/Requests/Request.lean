import BankingSystem.Modules.Admin

/-!
# Requests executed one at a time

A request is a call of a module function with its arguments, as the dispatcher
makes it once the payload is scanned.  `handle` runs one request alone; `serve`
runs a sequence of them from any state.
-/

namespace BankingSystem

open Foundation

inductive Request (M : Type) where
  | login (username password : Bytes)
  | changePassword (userId : Nat) (newpass : Bytes)
  | viewBalance (userId : Nat)
  | deposit (userId : Nat) (amount : M)
  | withdraw (userId : Nat) (amount : M)
  | transfer (fromId toId : Nat) (amount : M)
  | applyLoan (userId : Nat) (amount : M)
  | viewLoan (userId : Nat)
  | addFeedback (userId : Nat) (msg : Bytes)
  | viewFeedback (userId : Nat)
  | viewTransactions (userId : Nat)
  | viewDetails (userId : Nat)
  | addCustomer (user : UserRec) (username password : Bytes)
  | modifyCustomer (userId : Nat) (details : Details)
  | processLoans
  | approveRejectLoan (loanId : Nat) (action : Bytes) (empId : Nat)
  | viewAssignedLoans (empId : Nat)
  | viewCustTransactions (custId : Nat)
  | setAccountStatus (custId : Nat) (status : Int)
  | viewNonAssignedLoans
  | assignLoan (loanId empId : Nat)
  | reviewFeedback
  | addEmployee (details : Details) (roleStr username password : Bytes)
  | modifyUser (userId : Nat) (details : Details)
  | listUsers
  | changeRole (userId : Nat) (roleStr : Bytes)
  deriving DecidableEq

namespace Request

variable {M : Type} [Amount M]

/-- The call that serves a request.  The response of a login is the session layer's. -/
def program (env : Env) : Request M → Prog (Db M) Reply
  | login username password => do
      let result ← loginUser env username password
      return ⟨result ≠ .failed ∧ result ≠ .deactivated, []⟩
  | changePassword userId newpass => BankingSystem.changePassword env userId newpass
  | viewBalance userId => BankingSystem.viewBalance userId
  | deposit userId amount => depositMoney userId amount
  | withdraw userId amount => withdrawMoney userId amount
  | transfer fromId toId amount => transferFunds fromId toId amount
  | applyLoan userId amount => BankingSystem.applyLoan userId amount
  | viewLoan userId => viewLoanStatus userId
  | addFeedback userId msg => BankingSystem.addFeedback userId msg
  | viewFeedback userId => viewFeedbackStatus userId
  | viewTransactions userId => viewTransactionHistory env userId
  | viewDetails userId => viewPersonalDetails userId
  | addCustomer user username password => addNewCustomer env user username password
  | modifyCustomer userId details => BankingSystem.modifyCustomer userId details []
  | processLoans => BankingSystem.processLoans
  | approveRejectLoan loanId action empId =>
      BankingSystem.approveRejectLoan loanId action empId []
  | viewAssignedLoans empId => BankingSystem.viewAssignedLoans empId
  | viewCustTransactions custId => viewCustomerTransactions env custId
  | setAccountStatus custId status => BankingSystem.setAccountStatus custId status
  | viewNonAssignedLoans => BankingSystem.viewNonAssignedLoans
  | assignLoan loanId empId => assignLoanToEmployee loanId empId []
  | reviewFeedback => reviewFeedbacks
  | addEmployee details roleStr username password =>
      BankingSystem.addEmployee env details roleStr username password
  | modifyUser userId details => BankingSystem.modifyUser userId details
  | listUsers => listAllUsers
  | changeRole userId roleStr => changeUserRole userId roleStr []

/-- Serve one request with no other in progress and no failing system call. -/
def handle (env : Env) (request : Request M) (db : Database M) : Reply × Database M :=
  (request.program env).run Db.exec db

def serve (env : Env) : List (Request M) → Database M → Database M
  | [], db => db
  | request :: requests, db => serve env requests (request.handle env db).2

@[simp] theorem serve_nil (env : Env) (db : Database M) : serve env [] db = db := rfl

@[simp] theorem serve_cons (env : Env) (request : Request M)
    (requests : List (Request M)) (db : Database M) :
    serve env (request :: requests) db =
      serve env requests (request.handle env db).2 := rfl

theorem serve_append (env : Env) (first second : List (Request M)) (db : Database M) :
    serve env (first ++ second) db = serve env second (serve env first db) := by
  induction first generalizing db with
  | nil => rfl
  | cons request first ih => exact ih _

def session (env : Env) : List (Request M) → Prog (Db M) (List Reply)
  | [] => .ret []
  | request :: requests => do
      let reply ← request.program env
      let replies ← session env requests
      return reply :: replies

theorem session_run (env : Env) (requests : List (Request M)) (db : Database M) :
    ((session env requests).run Db.exec db).2 = serve env requests db := by
  induction requests generalizing db with
  | nil => rfl
  | cons request requests ih =>
      rw [session, Prog.run_bind, Prog.run_bind]
      exact ih _

theorem serve_invariant {env : Env} {I : Database M → Prop}
    (hstep : ∀ request db, I db → I (Request.handle env request db).2)
    (requests : List (Request M)) {db : Database M} (hdb : I db) :
    I (serve env requests db) := by
  induction requests generalizing db with
  | nil => exact hdb
  | cons request requests ih => exact ih (hstep request db hdb)

end Request

end BankingSystem
