import BankingSystem.Modules.Manager

/-!
# Admin module

The operations of `admin_module.c`: staff creation, user details and roles, and
the list of users.
-/

namespace BankingSystem

open Foundation Db

variable {M : Type} [Amount M]

def getRoleStrForList : Role → Bytes
  | .customer => str "CUSTOMER"
  | .employee => str "EMPLOYEE"
  | .manager => str "MANAGER"
  | .admin => str "ADMIN"

def modifyUserModifier (d : Details) (user : UserRec) :
    Prog (Db M) (Option UserRec × Bytes) := do
  match ← checkUniqueness user.username.text d.email d.phone user.userId with
  | some clash => return (none, clash)
  | none =>
      return (some (user.setDetails d),
        modifiedMessage (str "User") (user.setDetails d))

/-- On failure the response of the modifier is overwritten. -/
def modifyUser (userId : Nat) (d : Details) : Prog (Db M) Reply := do
  let reply ← atomicUpdateUser userId (modifyUserModifier d) []
  if reply.result then return reply
  else
    return .say false
      (str "User Modification Failed (User not found or concurrency error)")

def changeRoleModifier (roleStr : Bytes) (user : UserRec) :
    Prog (Db M) (Option UserRec × Bytes) :=
  let updated (role : Role) : Option UserRec × Bytes :=
    (some { user with role }, respond (str "User " ++ dec user.userId ++
      str " Role Updated to " ++ roleStr))
  if user.role = .customer then
    return (none,
      respond (str "Error: Cannot change the role of a customer user."))
  else if user.role = .admin then
    return (none, respond
      (str "Error: Cannot modify the role of an Administrator (ID: " ++
        dec user.userId ++ str ")."))
  else if roleStr = str "employee" then return updated .employee
  else if roleStr = str "manager" then return updated .manager
  else return (none, respond (str "Invalid role. Must be 'employee', or 'manager'."))

def changeUserRole (userId : Nat) (roleStr respMsg : Bytes) : Prog (Db M) Reply := do
  let reply ← atomicUpdateUser userId (changeRoleModifier roleStr) respMsg
  if reply.result then return reply
  else
    return ⟨false, respondIfEmpty reply.message
      (str "Role Update Failed (User not found or concurrency error)")⟩

def staffRole (roleStr : Bytes) : Option Role :=
  if roleStr = str "employee" then some .employee
  else if roleStr = str "manager" then some .manager
  else if roleStr = str "admin" then some .admin
  else none

def newEmployee (env : Env) (d : Details) (role : Role) (userId : Nat) (now : Time)
    (username password : Bytes) : UserRec :=
  let user := UserRec.zero.setDetails d
  { user with
    userId
    active := .active
    createdAt := now
    username := user.username.strncpy username
    role
    passwordHash := generatePasswordHash env password user.passwordHash }

def employeeAdded (user : UserRec) (roleStr : Bytes) : Reply :=
  .say true (str "Employee Added (ID: " ++ dec user.userId ++ str ", Role: " ++
    roleStr ++ str ")")

/-- The id is drawn before the role is checked. -/
def addEmployee (env : Env) (d : Details) (roleStr username password : Bytes) :
    Prog (Db M) Reply := do
  match ← checkUniqueness username d.email d.phone 0 with
  | some clash => return ⟨false, clash⟩
  | none =>
      let userId ← generateNewUserId
      let now ← time
      match staffRole roleStr with
      | none =>
          return .say false (str "Invalid role. Must be 'employee' or 'manager'")
      | some role =>
          let user := newEmployee env d role userId now username password
          if ← writeUser user then return employeeAdded user roleStr
          else return .say false (str "Employee Add Failed (Write Error)")

/-- The loop of `list_all_users`: stop with a marker at the first line that does not fit. -/
def listUsersLoop (respMsg : Bytes) : List UserRec → Bytes
  | [] => respMsg
  | user :: users =>
      if user.role = .admin then listUsersLoop respMsg users
      else
        let tmp := snprintf 256 (padRight 4 (dec user.userId) ++ str " | " ++
          padRight 15 user.username.text ++ str " | " ++
          getRoleStrForList user.role ++ str "\n")
        if respMsg.length + tmp.length < maxMsgLen then
          listUsersLoop (strncat respMsg tmp (maxMsgLen - respMsg.length - 1)) users
        else
          strncat respMsg (str "... (list truncated) ...\n")
            (maxMsgLen - respMsg.length - 1)

def listAllUsers : Prog (Db M) Reply := do
  match ← scanUsers with
  | none => return .say false (str "Failed to open user database")
  | some users =>
      let header := str "--- User List ---\n" ++
        str "ID   | Username        | Role\n" ++
        str "---- | --------------- | --------\n"
      if users.all (fun user => user.role = .admin) then
        return .say true (str "No customers or employees found.")
      else return ⟨true, listUsersLoop header users⟩

end BankingSystem
