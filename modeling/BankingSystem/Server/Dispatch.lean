import BankingSystem.Requests.Request
import BankingSystem.Server.Scanf

/-!
# The request router

`client_thread_main` compares the operation and scans the payload; the result is
the call that it makes.  The variables that a branch declares without an initial
value are a parameter, since a payload that does not convert leaves them alone.
-/

namespace BankingSystem

open Foundation

variable {M : Type}

/-- `request_t` as it is received. -/
structure RawRequest where
  op : CharArray 64
  payload : CharArray maxMsgLen
  deriving DecidableEq

def RawRequest.ofText (op payload : Bytes) : RawRequest := ⟨.ofText op, .ofText payload⟩

/-- What the uninitialised variables of the handler hold. -/
structure Locals (M : Type) where
  username : Bytes
  password : Bytes
  newpass : Bytes
  action : Bytes
  role : Bytes
  phone : Bytes
  name : CharArray maxFnameLen
  userId : Nat
  loanId : Nat
  empId : Nat
  custId : Nat
  status : Nat
  age : Int
  amount : M
  user : UserRec

def Locals.zero [Zero M] : Locals M where
  username := []
  password := []
  newpass := []
  action := []
  role := []
  phone := []
  name := .zero _
  userId := 0
  loanId := 0
  empId := 0
  custId := 0
  status := 0
  age := 0
  amount := 0
  user := .zero

inductive Command (M : Type) where
  | login (username password : Bytes)
  | logout
  | call (request : Request M)
  | invalidPayload (op : Bytes)
  | unknown
  deriving DecidableEq

/-- The operations that only touch the session of their connection. -/
def Command.IsSession : Command M → Prop
  | .login _ _ | .logout => True
  | _ => False

instance : DecidablePred (Command.IsSession (M := M))
  | .login _ _ | .logout => .isTrue trivial
  | .call _ | .invalidPayload _ | .unknown => .isFalse id

open Scanned in
/-- A branch that scans one id and ignores the result of `sscanf`. -/
def callWithId [Strtod M] (payload : Bytes) (before : Nat) (request : Nat → Request M) :
    Command M :=
  .call (request (unsignedAt (sscanf (M := M) [.u] payload) 0 before))

open Scanned in
/-- A branch that scans an id and an amount and ignores the result of `sscanf`. -/
def callWithAmount [Strtod M] (payload : Bytes) (locals : Locals M)
    (request : Nat → M → Request M) : Command M :=
  let values := sscanf [.u, .lf] payload
  .call (request (unsignedAt values 0 locals.userId) (doubleAt values 1 locals.amount))

open Scanned in
def detailsAt [Strtod M] (values : List (Scanned M)) (locals : Locals M) : Details where
  age := signedAt values 1 locals.age
  firstName := textAt values 2 []
  lastName := textAt values 3 []
  address := textAt values 4 []
  email := textAt values 5 []
  phone := textAt values 6 []

open Scanned in
/-- What the `ADD_CUSTOMER` branch copies into its user record. -/
def addedDetails [Strtod M] (values : List (Scanned M)) (locals : Locals M) : Details where
  firstName := textAt values 0 []
  lastName := textAt values 1 []
  age := signedAt values 2 locals.age
  address := textAt values 3 []
  email := textAt values 4 []
  phone := textAt values 5 []

open Scanned in
def newUser [Strtod M] (values : List (Scanned M)) (locals : Locals M) : UserRec :=
  { locals.user with
    firstName := locals.user.firstName.strncpy (textAt values 0 [])
    lastName := locals.user.lastName.strncpy (textAt values 1 [])
    age := ageOfInt (signedAt values 2 locals.age)
    address := locals.user.address.strncpy (textAt values 3 [])
    email := locals.user.email.strncpy (textAt values 4 [])
    phone := locals.user.phone.strncpy (textAt values 5 []) }

/-- `strchr(payload, ' ') + 1`, or the empty string. -/
def afterBlank (payload : Bytes) : Bytes := (payload.dropWhile (· ≠ 32)).drop 1

open Scanned in
def dispatch [Strtod M] (locals : Locals M) (op payload : Bytes) : Command M :=
  if op = str "LOGIN" then
    let values := sscanf (M := M) [.s, .s] payload
    .login (textAt values 0 locals.username) (textAt values 1 locals.password)
  else if op = str "LOGOUT" then .logout
  else if op = str "CHANGE_PASSWORD" then
    let values := sscanf (M := M) [.u, .s] payload
    .call (.changePassword (unsignedAt values 0 locals.userId)
      (textAt values 1 locals.newpass))
  -- Customer module routes
  else if op = str "VIEW_BALANCE" then callWithId payload locals.userId .viewBalance
  else if op = str "DEPOSIT" then callWithAmount payload locals .deposit
  else if op = str "WITHDRAW" then callWithAmount payload locals .withdraw
  else if op = str "TRANSFER" then
    let values := sscanf [.u, .u, .lf] payload
    if values.length = 3 then
      .call (.transfer (unsignedAt values 0 0) (unsignedAt values 1 0)
        (doubleAt values 2 locals.amount))
    else .invalidPayload op
  else if op = str "APPLY_LOAN" then callWithAmount payload locals .applyLoan
  else if op = str "VIEW_LOAN" then callWithId payload locals.userId .viewLoan
  else if op = str "ADD_FEEDBACK" then
    let values := sscanf (M := M) [.u] payload
    if values.length = 1 then
      .call (.addFeedback (unsignedAt values 0 0) (afterBlank payload))
    else .invalidPayload op
  else if op = str "VIEW_FEEDBACK" then callWithId payload locals.userId .viewFeedback
  else if op = str "VIEW_TRANSACTIONS" then
    callWithId payload locals.userId .viewTransactions
  else if op = str "VIEW_DETAILS" then callWithId payload locals.userId .viewDetails
  -- Employee module routes
  else if op = str "ADD_CUSTOMER" then
    let values := sscanf (M := M) [.s, .s, .d, .s, .s, .s, .s, .s] payload
    if values.length = 8 then
      .call (.addCustomer (newUser values locals) (textAt values 6 []) (textAt values 7 []))
    else .invalidPayload op
  else if op = str "MODIFY_CUSTOMER" then
    let values := sscanf (M := M) [.u, .d, .s, .s, .s, .s, .s] payload
    if values.length = 7 then
      .call (.modifyCustomer (unsignedAt values 0 0) (detailsAt values locals))
    else .invalidPayload op
  else if op = str "PROCESS_LOANS" then .call .processLoans
  else if op = str "APPROVE_REJECT_LOAN" then
    let values := sscanf (M := M) [.llu, .s, .u] payload
    .call (.approveRejectLoan (unsignedAt values 0 locals.loanId)
      (textAt values 1 locals.action) (unsignedAt values 2 locals.empId))
  else if op = str "VIEW_ASSIGNED_LOANS" then
    callWithId payload locals.empId .viewAssignedLoans
  else if op = str "VIEW_CUST_TRANSACTIONS" then
    callWithId payload locals.custId .viewCustTransactions
  -- Manager module routes
  else if op = str "SET_ACCOUNT_STATUS" then
    let values := sscanf (M := M) [.u, .u] payload
    .call (.setAccountStatus (unsignedAt values 0 locals.custId)
      ((unsignedAt values 1 locals.status : Int).bmod (2 ^ 32)))
  else if op = str "VIEW_NON_ASSIGNED_LOANS" then .call .viewNonAssignedLoans
  else if op = str "ASSIGN_LOAN" then
    let values := sscanf (M := M) [.u, .u] payload
    .call (.assignLoan (unsignedAt values 0 locals.loanId)
      (unsignedAt values 1 locals.empId))
  else if op = str "REVIEW_FEEDBACK" then .call .reviewFeedback
  -- Admin module routes
  else if op = str "ADD_EMPLOYEE" then
    let values := sscanf (M := M) [.s, .s, .d, .s, .s, .s, .s, .s, .s] payload
    if values.length = 9 then
      .call (.addEmployee
        { firstName := textAt values 0 []
          lastName := textAt values 1 []
          age := signedAt values 2 locals.age
          address := textAt values 3 []
          email := textAt values 5 []
          phone := textAt values 6 [] }
        (textAt values 4 []) (textAt values 7 []) (textAt values 8 []))
    else .invalidPayload op
  else if op = str "MODIFY_USER" then
    -- seven conversions, compared with 6
    let values := sscanf (M := M) [.u, .d, .s, .s, .s, .s, .s] payload
    if values.length = 6 then
      .call (.modifyUser (unsignedAt values 0 0)
        { detailsAt values locals with phone := textAt values 6 locals.phone })
    else .invalidPayload op
  else if op = str "LIST_USERS" then .call .listUsers
  else if op = str "CHANGE_ROLE" then
    let values := sscanf (M := M) [.u, .s] payload
    .call (.changeRole (unsignedAt values 0 locals.userId) (textAt values 1 locals.role))
  else .unknown

end BankingSystem
