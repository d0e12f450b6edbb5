import BankingSystem.Records
import BankingSystem.Foundation.Amount
import BankingSystem.Server.Scanf

/-!
# The menus of the client

What the client asks for and sends.  The answers to its prompts carry the proof that
the validator of the prompt accepted them.
-/

namespace BankingSystem

open Foundation

/-! ## Validators -/

def validateNotEmpty (input : Bytes) : Except Bytes Unit :=
  if input = [] then .error (str "Input cannot be empty") else .ok ()

def validateWord (limit : Nat) (tooLong noSpaces input : Bytes) : Except Bytes Unit := do
  validateNotEmpty input
  if limit ≤ input.length then .error tooLong
  else if 32 ∈ input then .error noSpaces
  else .ok ()

def validateNamePart : Bytes → Except Bytes Unit :=
  validateWord maxFnameLen (str "Input too long (max " ++ dec (maxFnameLen - 1) ++ str ")")
    (str "Input cannot contain spaces")

def validateAddress : Bytes → Except Bytes Unit :=
  validateWord maxAddrLen (str "Input too long (max " ++ dec (maxAddrLen - 1) ++ str ")")
    (str "Input cannot contain spaces (use '_' if needed)")

def validateCredential : Bytes → Except Bytes Unit :=
  validateWord maxUsernameLen (str "Input too long") (str "Input cannot contain spaces")

def validateEmail (input : Bytes) : Except Bytes Unit := do
  validateNotEmpty input
  if maxEmailLen ≤ input.length then
    .error (str "Email too long (max " ++ dec (maxEmailLen - 1) ++ str ")")
  else if 64 ∉ input ∨ 46 ∉ input then
    .error (str "Invalid email format (must contain '@' and '.')")
  else .ok ()

def validatePhone (input : Bytes) : Except Bytes Unit := do
  validateNotEmpty input
  if input.length ≠ 10 then .error (str "Phone must be exactly 10 digits")
  else if ¬ input.all isDigit then .error (str "Phone must contain only digits")
  else .ok ()

structure Answer (size : Nat) (validator : Bytes → Except Bytes Unit) where
  text : Bytes
  isLine : ∀ b ∈ text, b ≠ 0 ∧ b ≠ 10
  isShort : text.length < size
  accepted : validator text = .ok ()

/-! ## Requests -/

/-- `%lf`. -/
class Printf (M : Type) where
  lf : M → Bytes

/-- Six digits after the point, ties to even. -/
def fixed6Rat (q : ℚ) : Bytes :=
  let n := hundredths (q.num.natAbs * 10 ^ 4) q.den
  (if q < 0 then str "-" else []) ++ dec (n / 10 ^ 6) ++ str "." ++
    (List.range 6).flatMap fun i => dec (n / 10 ^ (5 - i) % 10)

instance : Printf ℚ := ⟨fixed6Rat⟩

def decUnsigned (n : Int) : Bytes := dec (n % 2 ^ 32).toNat

def spaced (parts : List Bytes) : Bytes := (str " ").intercalate parts

def atoi (text : Bytes) : Int :=
  match scanInteger text with
  | some (negative, n, _) => (signedLong negative n).bmod (2 ^ 32)
  | none => 0

/-- The number of an account that may be typed with its prefix `AC`. -/
def accountNumber (acctStr : Bytes) : Int :=
  if acctStr.head? = some 65 ∨ acctStr.head? = some 97 then atoi (acctStr.drop 2)
  else atoi acctStr

structure Form (M : Type) [Amount M] where
  firstName : Answer maxFnameLen validateNamePart
  lastName : Answer maxLnameLen validateNamePart
  age : Int
  address : Answer maxAddrLen validateAddress
  email : Answer maxEmailLen validateEmail
  phone : Answer maxPhoneLen validatePhone
  username : Answer maxUsernameLen validateCredential
  password : Answer maxPasswordLen validateCredential
  role : Answer maxRoleStr validateCredential
  acctStr : Answer 32 validateNotEmpty
  feedback : Answer 512 validateNotEmpty
  amount : {amount : M // ¬ amount ≤ 0}
  /-- `unsigned long long` for the employee. -/
  loanId : Nat
  /-- `int` for the manager. -/
  loanNumber : Int
  empId : Int
  targetId : Int
  actionCode : Int
  status : Int

/-- What a menu does with a choice. -/
inductive Turn where
  | again
  | send (op payload : Bytes)
  /-- The list of users first, then the request. -/
  | listAndSend (op payload : Bytes)
  | logout

variable {M : Type} [Amount M] [Printf M]

def customerMenu (userId : Int) (form : Form M) : Int → Turn
  | 1 => .send (str "VIEW_BALANCE") (decInt userId)
  | 2 => .send (str "DEPOSIT") (spaced [decUnsigned userId, Printf.lf form.amount.val])
  | 3 => .send (str "WITHDRAW") (spaced [decUnsigned userId, Printf.lf form.amount.val])
  | 4 => .send (str "TRANSFER") (spaced [decUnsigned userId,
      decUnsigned (accountNumber form.acctStr.text), Printf.lf form.amount.val])
  | 5 => .send (str "APPLY_LOAN") (spaced [decUnsigned userId, Printf.lf form.amount.val])
  | 6 => .send (str "VIEW_LOAN") (decUnsigned userId)
  | 7 => .send (str "ADD_FEEDBACK") (spaced [decUnsigned userId, form.feedback.text])
  | 8 => .send (str "VIEW_FEEDBACK") (decUnsigned userId)
  | 9 => .send (str "VIEW_TRANSACTIONS") (decUnsigned userId)
  | 10 => .send (str "VIEW_DETAILS") (decUnsigned userId)
  | 11 => .send (str "CHANGE_PASSWORD") (spaced [decUnsigned userId, form.password.text])
  | 12 => .logout
  | _ => .again

def employeeMenu (userId : Int) (form : Form M) : Int → Turn
  | 1 => .send (str "ADD_CUSTOMER") (spaced [form.firstName.text, form.lastName.text,
      decInt form.age, form.address.text, form.email.text, form.phone.text,
      form.username.text, form.password.text])
  | 2 => .send (str "MODIFY_CUSTOMER") (spaced [decUnsigned (accountNumber form.acctStr.text),
      decInt form.age, form.firstName.text, form.lastName.text, form.address.text,
      form.email.text, form.phone.text])
  | 3 => .send (str "PROCESS_LOANS") []
  | 4 =>
      if form.actionCode = 1 then
        .send (str "APPROVE_REJECT_LOAN")
          (spaced [dec form.loanId, str "approve", decUnsigned userId])
      else if form.actionCode = 0 then
        .send (str "APPROVE_REJECT_LOAN")
          (spaced [dec form.loanId, str "reject", decUnsigned userId])
      else .again
  | 5 => .send (str "VIEW_ASSIGNED_LOANS") (decUnsigned userId)
  | 6 => .send (str "VIEW_CUST_TRANSACTIONS") (decUnsigned (accountNumber form.acctStr.text))
  | 7 => .send (str "CHANGE_PASSWORD") (spaced [decUnsigned userId, form.password.text])
  | 8 => .logout
  | _ => .again

def managerMenu (userId : Int) (form : Form M) : Int → Turn
  | 1 => .send (str "SET_ACCOUNT_STATUS")
      (spaced [decUnsigned (accountNumber form.acctStr.text), decUnsigned form.status])
  | 2 => .send (str "VIEW_NON_ASSIGNED_LOANS") []
  | 3 => .send (str "ASSIGN_LOAN")
      (spaced [decUnsigned form.loanNumber, decUnsigned form.empId])
  | 4 => .send (str "REVIEW_FEEDBACK") []
  | 5 => .send (str "CHANGE_PASSWORD") (spaced [decUnsigned userId, form.password.text])
  | 6 => .logout
  | _ => .again

def adminMenu (userId : Int) (form : Form M) : Int → Turn
  | 1 =>
      -- `strcmp` is nonzero for every role but this one
      if form.role.text ≠ str "customer" then .again
      else .send (str "ADD_EMPLOYEE") (spaced [form.firstName.text, form.lastName.text,
        decInt form.age, form.address.text, form.role.text, form.email.text, form.phone.text,
        form.username.text, form.password.text])
  | 2 => .send (str "MODIFY_USER") (spaced [decUnsigned form.targetId, decInt form.age,
      form.firstName.text, form.lastName.text, form.address.text, form.email.text,
      form.phone.text])
  | 3 => .listAndSend (str "CHANGE_ROLE") (spaced [decUnsigned form.targetId, form.role.text])
  | 4 => .send (str "CHANGE_PASSWORD") (spaced [decUnsigned userId, form.password.text])
  | 5 => .logout
  | _ => .again

def menu : Role → Int → Form M → Int → Turn
  | .customer => customerMenu
  | .employee => employeeMenu
  | .manager => managerMenu
  | .admin => adminMenu

end BankingSystem
