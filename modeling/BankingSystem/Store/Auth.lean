import BankingSystem.Store.Commands

/-!
# Hashing and login

The part of `utils.c` that rests on the C library.  `crypt` and the text of a
local time are parameters; a null result of `crypt` is `none`.
-/

namespace BankingSystem

open Foundation

/-- The C library functions that the program calls and does not define. -/
structure Env where
  crypt : Bytes → Bytes → Option Bytes
  /-- `strftime` of `localtime` with the format `%Y-%m-%d %H:%M:%S`. -/
  timeString : Time → Bytes

/-- A `crypt` that prefixes the password with the setting's salt and hashes nothing. -/
def Env.plain : Env where
  crypt password setting := some (setting.take 9 ++ password)
  timeString _ := []

def salt : Bytes := str "$6$IIITB$"

/-- `array[sizeof(array) - 1] = '\0'`. -/
def Foundation.CharArray.terminate {size : Nat} (array : CharArray size) :
    CharArray size where
  bytes := array.bytes.set (size - 1) 0
  size_eq := by rw [List.length_set, array.size_eq]

def generatePasswordHash (env : Env) (password : Bytes)
    (hashOutput : CharArray maxPasswordLen) : CharArray maxPasswordLen :=
  match env.crypt password salt with
  | some hashed => (hashOutput.strncpy hashed).terminate
  | none => hashOutput.strncpy (str "HASH_FAILED")

def verifyPassword (env : Env) (password hash : Bytes) : Bool :=
  match env.crypt password hash with
  | none => false
  | some verifiedHash => verifiedHash = hash

structure Login where
  userId : Nat
  role : Bytes
  firstName : Bytes
  deriving DecidableEq

inductive LoginResult where
  | failed
  | deactivated
  | success (login : Login)
  deriving DecidableEq

def roleString : Role → Bytes
  | .customer => str "customer"
  | .employee => str "employee"
  | .manager => str "manager"
  | .admin => str "admin"

/--
`login_user`.  The results 0, 1 and 2 are `failed`, `success` and `deactivated`.
The name is what `strncpy` copies of the stored one; the rest of the caller's
name buffer is not touched.
-/
def loginUser {M : Type} [Amount M] (env : Env) (username password : Bytes) :
    Prog (Db M) LoginResult := do
  match ← Db.scanUsers with
  | none => return .failed
  | some users =>
      match users.find? (fun user => user.username.text = cstr username) with
      | none => return .failed
      | some user =>
          if verifyPassword env password user.passwordHash.text then
            let acc ← Db.readAccount user.userId
            if user.active = .inactive ∨ acc.any (fun acc => acc.active = .inactive) then
              return .deactivated
            else return .success ⟨user.userId, roleString user.role, user.firstName.text⟩
          else return .failed

def UserRec.loginResult {M : Type} (env : Env) (password : Bytes) (user : UserRec)
    (acc : Option (AccountRec M)) : LoginResult :=
  if verifyPassword env password user.passwordHash.text then
    if user.active = .inactive ∨ acc.any (fun acc => acc.active = .inactive) then .deactivated
    else .success ⟨user.userId, roleString user.role, user.firstName.text⟩
  else .failed

theorem loginUser_exec {M : Type} [Amount M] (env : Env) (username password : Bytes)
    (db : Database M) :
    (loginUser env username password).run Db.exec db =
      ((db.userTable.find? fun user => user.username.text = cstr username).elim .failed
        fun user => user.loginResult env password
          (Table.lookup AccountRec.userId user.userId db.accountTable), db) := by
  unfold loginUser
  rw [Db.scanUsers_bind, Prog.run_call]
  cases husers : db.users with
  | none => simp [Db.exec, Database.userTable, husers]
  | some users =>
      rw [Database.userTable, husers, Option.getD_some]
      simp only [Db.exec, husers]
      cases users.find? (fun user => user.username.text = cstr username) with
      | none => rfl
      | some user =>
          rw [Option.elim_some, UserRec.loginResult]
          by_cases hverified : verifyPassword env password user.passwordHash.text = true
          · simp only [hverified, if_true, Db.readAccount_bind, Prog.run_call, Db.exec]
            by_cases hinactive : user.active = .inactive ∨
                (Table.lookup AccountRec.userId user.userId db.accountTable).any
                  (fun acc => acc.active = .inactive)
            · simp [hinactive]
            · simp [hinactive]
          · simp [hverified]

end BankingSystem
