import BankingSystem.Frontend.Agreement
import BankingSystem.Frontend.Prompts

/-!
# The client at its terminal

`main` and the four role menus with their loops, reading from an input that ends.  The
menus are programs over the ways in which the client reads and over the exchange with the
server, whose replies are given.
-/

namespace BankingSystem

open Foundation

/-- `response_t` after `send_request_and_get_response`, which sets -1 without connection. -/
structure ServerReply where
  statusCode : Int
  message : Bytes

structure Console where
  stdin : Bytes
  /-- What the arrays that are declared without a value hold, in turn. -/
  arrays : Nat → Bytes
  /-- The same for the integers. -/
  ints : Nat → Int
  replies : Nat → ServerReply
  sent : List RawRequest

namespace Terminal

inductive Cmd where
  | readString (size : Nat) (validator : Validator)
  | readDouble
  | scanInt
  | scanUnsigned
  | clearStdin
  | uninitialised
  | exchange (op payload : Bytes)

/-- A scan that fails answers `none`. -/
abbrev Ans (M : Type) : Cmd → Type
  | .readString _ _ => Bytes
  | .readDouble => M
  | .scanInt => Option Int
  | .scanUnsigned => Option Nat
  | .clearStdin => Unit
  | .uninitialised => Int
  | .exchange _ _ => ServerReply

end Terminal

abbrev Terminal (M : Type) : Signature := ⟨Terminal.Cmd, Terminal.Ans M⟩

variable {M : Type}

namespace Terminal

def issue (cmd : Cmd) : Prog (Terminal M) (Ans M cmd) := Prog.perform (S := Terminal M) cmd

def readString (size : Nat) (validator : Validator) : Prog (Terminal M) Bytes :=
  issue (.readString size validator)

def readDouble : Prog (Terminal M) M := issue .readDouble

def clearStdin : Prog (Terminal M) Unit := issue .clearStdin

def exchange (op payload : Bytes) : Prog (Terminal M) ServerReply :=
  issue (.exchange op payload)

/-- `scanf("%d", &x)` on a variable without a value. -/
def scanInt : Prog (Terminal M) Int := do
  let before ← issue .uninitialised
  return (← issue .scanInt).getD before

def scanUnsigned : Prog (Terminal M) Nat := do
  let before ← issue .uninitialised
  return (← issue .scanUnsigned).getD (before % 2 ^ 64).toNat

def readAccount : Prog (Terminal M) Int := do
  return accountNumber (← readString 32 .notEmpty)

/-- The choice at a menu; the line is cleared in either case. -/
def readChoice : Prog (Terminal M) (Option Int) := do
  let choice ← issue .scanInt
  clearStdin
  return choice

end Terminal

/-! ## The menus -/

section Menus

open Terminal

variable [Printf M]

/-- What a choice asks for, and the operation and payload it sends; `none` is `continue`. -/
def customerRequest (userId : Int) : Int → Prog (Terminal M) (Option (Bytes × Bytes))
  | 1 => return some (str "VIEW_BALANCE", decInt userId)
  | 2 => do
      let amount ← readDouble
      return some (str "DEPOSIT", spaced [decUnsigned userId, Printf.lf amount])
  | 3 => do
      let amount ← readDouble
      return some (str "WITHDRAW", spaced [decUnsigned userId, Printf.lf amount])
  | 4 => do
      let toId ← readAccount
      let amount ← readDouble
      return some (str "TRANSFER",
        spaced [decUnsigned userId, decUnsigned toId, Printf.lf amount])
  | 5 => do
      let loanAmount ← readDouble
      return some (str "APPLY_LOAN", spaced [decUnsigned userId, Printf.lf loanAmount])
  | 6 => return some (str "VIEW_LOAN", decUnsigned userId)
  | 7 => do
      let feedback ← readString 512 .notEmpty
      return some (str "ADD_FEEDBACK", spaced [decUnsigned userId, feedback])
  | 8 => return some (str "VIEW_FEEDBACK", decUnsigned userId)
  | 9 => return some (str "VIEW_TRANSACTIONS", decUnsigned userId)
  | 10 => return some (str "VIEW_DETAILS", decUnsigned userId)
  | 11 => do
      let newpass ← readString maxPasswordLen .credential
      return some (str "CHANGE_PASSWORD", spaced [decUnsigned userId, newpass])
  | 12 => return some (str "LOGOUT", [])
  | _ => return none

omit [Printf M] in
def employeeRequest (userId : Int) : Int → Prog (Terminal M) (Option (Bytes × Bytes))
  | 1 => do
      let fname ← readString maxFnameLen .namePart
      let lname ← readString maxLnameLen .namePart
      let age ← scanInt
      clearStdin
      let address ← readString maxAddrLen .address
      let email ← readString maxEmailLen .email
      let phone ← readString maxPhoneLen .phone
      let username ← readString maxUsernameLen .credential
      let password ← readString maxPasswordLen .credential
      return some (str "ADD_CUSTOMER",
        spaced [fname, lname, decInt age, address, email, phone, username, password])
  | 2 => do
      let custId ← readAccount
      let fname ← readString maxFnameLen .namePart
      let lname ← readString maxLnameLen .namePart
      let age ← scanInt
      clearStdin
      let address ← readString maxAddrLen .address
      let email ← readString maxEmailLen .email
      let phone ← readString maxPhoneLen .phone
      return some (str "MODIFY_CUSTOMER",
        spaced [decUnsigned custId, decInt age, fname, lname, address, email, phone])
  | 3 => return some (str "PROCESS_LOANS", [])
  | 4 => do
      let loanId ← scanUnsigned
      let actionCode ← scanInt
      clearStdin
      if actionCode = 1 then
        return some (str "APPROVE_REJECT_LOAN",
          spaced [dec loanId, str "approve", decUnsigned userId])
      else if actionCode = 0 then
        return some (str "APPROVE_REJECT_LOAN",
          spaced [dec loanId, str "reject", decUnsigned userId])
      else return none
  | 5 => return some (str "VIEW_ASSIGNED_LOANS", decUnsigned userId)
  | 6 => do
      let custId ← readAccount
      return some (str "VIEW_CUST_TRANSACTIONS", decUnsigned custId)
  | 7 => do
      let newpass ← readString maxPasswordLen .credential
      return some (str "CHANGE_PASSWORD", spaced [decUnsigned userId, newpass])
  | 8 => return some (str "LOGOUT", [])
  | _ => return none

omit [Printf M] in
def managerRequest (userId : Int) : Int → Prog (Terminal M) (Option (Bytes × Bytes))
  | 1 => do
      let custId ← readAccount
      let status ← scanInt
      clearStdin
      return some (str "SET_ACCOUNT_STATUS", spaced [decUnsigned custId, decUnsigned status])
  | 2 => return some (str "VIEW_NON_ASSIGNED_LOANS", [])
  | 3 => do
      let loanId ← scanInt
      let empId ← scanInt
      clearStdin
      return some (str "ASSIGN_LOAN", spaced [decUnsigned loanId, decUnsigned empId])
  | 4 => return some (str "REVIEW_FEEDBACK", [])
  | 5 => do
      let newpass ← readString maxPasswordLen .credential
      return some (str "CHANGE_PASSWORD", spaced [decUnsigned userId, newpass])
  | 6 => return some (str "LOGOUT", [])
  | _ => return none

omit [Printf M] in
def adminRequest (userId : Int) : Int → Prog (Terminal M) (Option (Bytes × Bytes))
  | 1 => do
      let fname ← readString maxFnameLen .namePart
      let lname ← readString maxLnameLen .namePart
      let age ← scanInt
      clearStdin
      let address ← readString maxAddrLen .address
      let role ← readString maxRoleStr .credential
      -- `strcmp` is nonzero for every role but this one
      if role ≠ str "customer" then return none
      else
        let email ← readString maxEmailLen .email
        let phone ← readString maxPhoneLen .phone
        let username ← readString maxUsernameLen .credential
        let password ← readString maxPasswordLen .credential
        return some (str "ADD_EMPLOYEE",
          spaced [fname, lname, decInt age, address, role, email, phone, username, password])
  | 2 => do
      let targetId ← scanInt
      clearStdin
      let fname ← readString maxFnameLen .namePart
      let lname ← readString maxLnameLen .namePart
      let age ← scanInt
      clearStdin
      let address ← readString maxAddrLen .address
      let email ← readString maxEmailLen .email
      let phone ← readString maxPhoneLen .phone
      return some (str "MODIFY_USER",
        spaced [decUnsigned targetId, decInt age, fname, lname, address, email, phone])
  | 3 => do
      let resp ← exchange (str "LIST_USERS") []
      if resp.statusCode ≠ 0 then return none
      else
        let targetId ← scanInt
        clearStdin
        let role ← readString maxRoleStr .credential
        return some (str "CHANGE_ROLE", spaced [decUnsigned targetId, role])
  | 4 => do
      let newpass ← readString maxPasswordLen .credential
      return some (str "CHANGE_PASSWORD", spaced [decUnsigned userId, newpass])
  | 5 => return some (str "LOGOUT", [])
  | _ => return none

def roleRequest : Role → Int → Int → Prog (Terminal M) (Option (Bytes × Bytes))
  | .customer => customerRequest
  | .employee => employeeRequest
  | .manager => managerRequest
  | .admin => adminRequest

def logoutChoice : Role → Int
  | .customer => 12
  | .employee => 8
  | .manager => 6
  | .admin => 5

/-- One iteration of the loop of a role menu. -/
def menuTurn (role : Role) (userId : Int) : Prog (Terminal M) (Unit ⊕ Unit) := do
  match ← readChoice with
  | none => return .inl ()
  | some choice =>
      match ← roleRequest role userId choice with
      | none => return .inl ()
      | some (op, payload) =>
          let resp ← exchange op payload
          if resp.statusCode = -1 then return .inr ()
          else if choice = logoutChoice role then return .inr ()
          else return .inl ()

end Menus

/-- One iteration of `while (userId == 0)`; it is left with `return 0` or with `break`. -/
def loginTurn : Prog (Terminal M) (Unit ⊕ Option (Int × Bytes)) := do
  match ← Terminal.readChoice with
  | none => return .inl ()
  | some choice =>
      if choice = 5 then return .inr none
      else
        let username ← Terminal.readString maxUsernameLen .credential
        let password ← Terminal.readString maxPasswordLen .credential
        let resp ← Terminal.exchange (str "LOGIN") (spaced [username, password])
        match parseReply resp.message with
        | none => return .inl ()
        | some (userId, role, _) =>
            if validRole choice role then return .inr (some (userId, role))
            else return .inl ()

/-! ## What the commands do -/

/-- The conversion of `scanf`; a sign without digits is gone. -/
def scanfInteger (stdin : Bytes) : Option (Bool × Nat) × Bytes :=
  match scanInteger stdin with
  | some (negative, n, rest) => (some (negative, n), rest)
  | none => (none, (scanSign (skipSpace stdin)).2)

variable [Amount M] [Strtod M]

/-- The amount that `read_valid_double` accepts. -/
def validAmount (text : Bytes) : Option M :=
  if text = [] then none
  else
    match Strtod.strtod (M := M) (skipSpace text) with
    | some (value, []) => if value ≤ 0 then none else some value
    | _ => none

def readValidDouble (buffer : Bytes) : Run Bytes M := promptLoop 128 validAmount buffer

namespace Console

def setStdin (stdin : Bytes) (s : Console) : Console := { s with stdin }

def nextArray (s : Console) : Console := { s with arrays := fun n => s.arrays (n + 1) }

def exec : (cmd : Terminal.Cmd) → Console → Option (Terminal.Ans M cmd × Console)
  | .readString size validator, s =>
      (promptAnswer size validator.accept (s.arrays 0) s.stdin).map fun answer =>
        (answer.1, s.nextArray.setStdin answer.2)
  | .readDouble, s =>
      (promptAnswer 128 validAmount (s.arrays 0) s.stdin).map fun answer =>
        (answer.1, s.nextArray.setStdin answer.2)
  | .scanInt, s =>
      some ((scanfInteger s.stdin).1.map fun (negative, n) => (signedLong negative n).bmod (2 ^ 32),
        s.setStdin (scanfInteger s.stdin).2)
  | .scanUnsigned, s =>
      some ((scanfInteger s.stdin).1.map fun (negative, n) => unsignedLong negative n,
        s.setStdin (scanfInteger s.stdin).2)
  | .clearStdin, s => some ((), s.setStdin (skipLine s.stdin))
  | .uninitialised, s => some (s.ints 0, { s with ints := fun n => s.ints (n + 1) })
  | .exchange op payload, s =>
      some (s.replies 0, { s with
        replies := fun n => s.replies (n + 1)
        sent := s.sent ++ [.ofText op payload] })

def interp : (cmd : Terminal.Cmd) → Run Console (Terminal.Ans M cmd)
  | .readString size validator => do
      let buffer ← .ofOption fun s => some (s.arrays 0, s.nextArray)
      (readValidatedString size validator buffer).onPart stdin setStdin
  | .readDouble => do
      let buffer ← .ofOption fun s => some (s.arrays 0, s.nextArray)
      (readValidDouble buffer).onPart stdin setStdin
  | cmd => .ofOption (exec cmd)

end Console

/-! ## The loops -/

variable [Printf M]

/-- `customer_menu`, `employee_menu`, `manager_menu` and `admin_menu`. -/
def roleMenu (M : Type) [Amount M] [Strtod M] [Printf M] (role : Role) (userId : Int) :
    Run Console Unit :=
  Run.loop (fun _ => (menuTurn (M := M) role userId).toRun Console.interp) ()

/-- `while (userId == 0)`. -/
def loginLoop (M : Type) [Amount M] [Strtod M] : Run Console (Option (Int × Bytes)) :=
  Run.loop (fun _ => (loginTurn (M := M)).toRun Console.interp) ()

def afterLogin (M : Type) [Amount M] [Strtod M] [Printf M] :
    Option (Int × Bytes) → Run Console (Unit ⊕ Unit)
  | none => return .inr ()
  | some (userId, role) =>
      if userId = 0 then return .inl ()
      else
        match menuFor role with
        | some found => do
            roleMenu M found userId
            return .inl ()
        | none => return .inl ()

/-- The loops of `main`: it returns when the client is left with choice 5. -/
def clientMain (M : Type) [Amount M] [Strtod M] [Printf M] : Run Console Unit :=
  Run.loop (fun _ => loginLoop M >>= afterLogin M) ()

end BankingSystem
