import BankingSystem.Foundation.CString

/-!
# Records and constants of the persistence layer

The structures of `server.h`.  A record keeps the fields that some function
reads: padding and the never-read `remarks` of a loan are left out.  Identifiers
are natural numbers; they stand for the source's 32- and 64-bit ones as long as
1001 plus the number of users fits an `int`.  Character arrays that the program
fills from its arguments are kept byte for byte, the narration of a transaction
is only ever initialised from a literal and is kept as that string.
-/

namespace BankingSystem

open Foundation

/-! ## Constants -/

def maxClients : Nat := 100
def maxMsgLen : Nat := 1024
def maxUsernameLen : Nat := 64
def maxPasswordLen : Nat := 128
def maxAddrLen : Nat := 256
def maxRoleStr : Nat := 32
def maxFnameLen : Nat := 64
def maxLnameLen : Nat := 64
def maxEmailLen : Nat := 64
def maxPhoneLen : Nat := 16

abbrev Time := Int

/-! ## Enumerations -/

inductive Role where
  | customer
  | employee
  | manager
  | admin
  deriving DecidableEq, Repr

inductive Status where
  | inactive
  | active
  deriving DecidableEq, Repr

theorem Status.ne_inactive_iff {status : Status} :
    status ≠ .inactive ↔ status = .active := by
  cases status <;> simp

inductive LoanStatus where
  | pending
  | assigned
  | approved
  | rejected
  deriving DecidableEq, Repr

/-! ## Records -/

structure UserRec where
  userId : Nat
  username : CharArray maxUsernameLen
  passwordHash : CharArray maxPasswordLen
  role : Role
  firstName : CharArray maxFnameLen
  lastName : CharArray maxLnameLen
  age : UInt8
  address : CharArray maxAddrLen
  email : CharArray maxEmailLen
  phone : CharArray maxPhoneLen
  active : Status
  createdAt : Time
  deriving DecidableEq

/-- A record cleared by `memset(&user, 0, sizeof(user_rec_t))`. -/
def UserRec.zero : UserRec where
  userId := 0
  username := .zero _
  passwordHash := .zero _
  role := .customer
  firstName := .zero _
  lastName := .zero _
  age := 0
  address := .zero _
  email := .zero _
  phone := .zero _
  active := .inactive
  createdAt := 0

structure AccountRec (M : Type) where
  accountId : Nat
  userId : Nat
  balance : M
  active : Status
  deriving DecidableEq

structure TxnRec (M : Type) where
  txnId : Nat
  fromAccount : Nat
  toAccount : Nat
  amount : M
  timestamp : Time
  narration : Bytes
  deriving DecidableEq

structure LoanRec (M : Type) where
  loanId : Nat
  userId : Nat
  amount : M
  status : LoanStatus
  assignedTo : Nat
  appliedAt : Time
  processedAt : Time
  deriving DecidableEq

structure FeedbackRec where
  fbId : Nat
  userId : Nat
  message : CharArray 512
  reviewed : Nat
  actionTaken : CharArray 256
  submittedAt : Time
  deriving DecidableEq

/-! ## Conversions -/

def ageOfInt (age : Int) : UInt8 := UInt8.ofNat (age % 256).toNat

theorem toNat_ageOfInt (age : Int) : ((ageOfInt age).toNat : Int) = age % 256 := by
  simp only [ageOfInt, UInt8.toNat_ofNat']
  omega

/-- What an operation leaves to its caller: its result and the text of `resp_msg`. -/
structure Reply where
  result : Bool
  message : Bytes
  deriving DecidableEq

def respond (text : Bytes) : Bytes := snprintf maxMsgLen text

/-- The reply of `snprintf(resp_msg, resp_sz, text); return result;`. -/
def Reply.say (result : Bool) (text : Bytes) : Reply := ⟨result, respond text⟩

@[simp] theorem Reply.say_result (result : Bool) (text : Bytes) :
    (Reply.say result text).result = result := rfl

end BankingSystem
