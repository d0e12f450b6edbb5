import BankingSystem.Server.SessionTable

/-!
# The branch LOGIN

`login_user` copies the first name into an array that its caller does not initialise,
and the handler prints that array.  Where the array ends the name, the branch does what
the session table is proved for.
-/

namespace BankingSystem

open Foundation

variable {κ M : Type} [DecidableEq κ] [Amount M]

/-! ## The handler with its name array -/

/-- `array[0] = '\0'`. -/
def Foundation.CharArray.clear {size : Nat} (array : CharArray size) : CharArray size where
  bytes := array.bytes.set 0 0
  size_eq := by rw [List.length_set, array.size_eq]

/-- `login_user` with the array that it copies the first name to. -/
def loginUserInto (env : Env) (username password : Bytes) (name : CharArray maxFnameLen) :
    Prog (Db M) (LoginResult × CharArray maxFnameLen) := do
  match ← Db.scanUsers with
  | none => return (.failed, name)
  | some users =>
      let name := name.clear
      match users.find? (fun user => user.username.text = cstr username) with
      | none => return (.failed, name)
      | some user =>
          if verifyPassword env password user.passwordHash.text then
            let acc ← Db.readAccount user.userId
            if user.active = .inactive ∨ acc.any (fun acc => acc.active = .inactive) then
              return (.deactivated, name)
            else
              return (.success ⟨user.userId, roleString user.role, user.firstName.text⟩,
                name.strncpy user.firstName.text)
          else return (.failed, name)

/-- What `%s` prints of an array; `beyond` is the memory behind it. -/
def Foundation.CharArray.printed {size : Nat} (array : CharArray size) (beyond : Bytes) : Bytes :=
  cstr (array.bytes ++ beyond)

def intOfId (userId : Nat) : Int := (userId : Int).bmod (2 ^ 32)

/-- `"SUCCESS %d %s|%s"`. -/
def successReply (userId : Nat) (role name : Bytes) : Response :=
  .ok (str "SUCCESS " ++ decInt (intOfId userId) ++ str " " ++ role ++ str "|" ++ name)

/-- The branch `LOGIN` with the variables that it does not initialise. -/
def handleLogin (env : Env) (name : CharArray maxFnameLen) (beyond : Bytes) (c : κ)
    (username password : Bytes) (s : ServerState κ M) : Response × ServerState κ M :=
  let ((result, name), db) := (loginUserInto env username password name).run Db.exec s.db
  let s := { s with db }
  match result with
  | .deactivated =>
      (.ok (str "FAILURE! Account is deactivated. Please contact your bank."), s)
  | .success login =>
      let (response, s') := s.enter c login
      if login.userId ∈ s.activeSessions then (response, s')
      else (successReply login.userId login.role (name.printed beyond), s')
  | .failed => (.ok (str "FAILURE Invalid Credentials"), s)

/-! ## What is copied and what is printed -/

section Printed

variable {size : Nat} {array : CharArray size} {src beyond : Bytes}

theorem printed_of_ends (h : array.Ends) (beyond : Bytes) : array.printed beyond = array.text := by
  have hshort : (array.bytes.takeWhile (· ≠ 0)).length < array.bytes.length := by
    rw [array.size_eq]
    exact CharArray.ends_iff_length_text.mp h
  rw [CharArray.printed, CharArray.text, cstr, cstr, List.takeWhile_append, if_neg hshort.ne]

/-- After a full copy the last byte of the array is printed, and what follows it. -/
theorem printed_full (array : CharArray size) (beyond : Bytes) (hsize : 0 < size)
    (hsrc : cstr src = src) (hfull : src.length = size - 1) :
    ∃ last, array.bytes[size - 1]? = some last ∧
      (array.strncpy src).printed beyond = src ++ cstr (last :: beyond) := by
  have hlength := array.size_eq
  have hlast : size - 1 < array.bytes.length := by omega
  refine ⟨_, List.getElem?_eq_getElem hlast, ?_⟩
  have hdrop : array.bytes.drop (size - 1) = [array.bytes[size - 1]] := by
    rw [List.drop_eq_getElem_cons hlast, List.drop_of_length_le (by omega)]
  have hall : ∀ b ∈ src, decide (b ≠ 0) = true := List.takeWhile_eq_self_iff.mp hsrc
  have hbytes : (array.strncpy src).bytes ++ beyond = src ++ array.bytes[size - 1] :: beyond := by
    have htake : src.take (size - 1) = src := List.take_of_length_le (by omega)
    simp [CharArray.strncpy, CharArray.strncpyPrefix, hsrc, hfull, hdrop, htake]
  rw [CharArray.printed, hbytes, cstr, List.takeWhile_append_of_pos hall, cstr]

end Printed

private theorem decInt_intOfId {userId : Nat} (h : userId < 2 ^ 31) :
    decInt (intOfId userId) = dec userId := by
  have hbmod : intOfId userId = (userId : Int) := by
    have hsmall : ∀ n : Nat, n < 2147483648 → (n : Int).bmod 4294967296 = n := by
      intro n hn
      rw [Int.bmod_def]
      omega
    exact hsmall userId h
  rw [hbmod]
  rfl

/-! ## Where the array ends the name -/

variable {env : Env} {name : CharArray maxFnameLen} {beyond : Bytes} {c : κ}
  {username password : Bytes} {s : ServerState κ M} {user : UserRec}

private theorem loginUserInto_run (env : Env) (username password : Bytes)
    (name : CharArray maxFnameLen) (db : Database M) :
    ((loginUserInto env username password name).run Db.exec db).1.1 =
      ((loginUser env username password).run Db.exec db).1 ∧
    ((loginUserInto env username password name).run Db.exec db).2 = db ∧
    ∀ login, ((loginUserInto env username password name).run Db.exec db).1.1 = .success login →
      ((loginUserInto env username password name).run Db.exec db).1.2 =
        name.clear.strncpy login.firstName := by
  unfold loginUserInto loginUser
  rw [Db.scanUsers_bind, Db.scanUsers_bind, Prog.run_call, Prog.run_call]
  cases husers : db.users with
  | none => simp [Db.exec, husers]
  | some users =>
      simp only [Db.exec, husers]
      cases hfound : users.find? (fun user => user.username.text = cstr username) with
      | none => simp
      | some user =>
          by_cases hverified : verifyPassword env password user.passwordHash.text = true
          · simp only [hverified, if_true, Db.readAccount_bind, Prog.run_call, Db.exec]
            by_cases hinactive : user.active = .inactive ∨
                (Table.lookup AccountRec.userId user.userId db.accountTable).any
                  (fun acc => acc.active = .inactive)
            · simp [hinactive]
            · simp only [hinactive, if_false, Prog.pure_eq, Prog.run_ret, true_and]
              rintro login ⟨⟩
              rfl
          · simp [hverified]

theorem handleLogin_success {login : Login}
    (hlogin : ((loginUser env username password).run Db.exec s.db).1 = .success login)
    (hnew : login.userId ∉ s.activeSessions) :
    (handleLogin env name beyond c username password s).1 =
      successReply login.userId login.role
        ((name.clear.strncpy login.firstName).printed beyond) := by
  obtain ⟨hresult, -, hname⟩ := loginUserInto_run env username password name s.db
  have hcopied := hname login (hresult.trans hlogin)
  rw [← hresult] at hlogin
  simp only [handleLogin, hlogin, hcopied, if_neg hnew]

theorem handleLogin_message (haccepts : Accepts env username password s.db user)
    (hsuccess : (handleLogin env name beyond c username password s).1.Succeeds) :
    (handleLogin env name beyond c username password s).1 =
      successReply user.userId (roleString user.role)
        ((name.clear.strncpy user.firstName.text).printed beyond) := by
  obtain ⟨hresult, hdb, hname⟩ := loginUserInto_run env username password name s.db
  have hlogin := (loginUser_run env username password s.db).2
  rw [← hresult] at hlogin
  unfold handleLogin at hsuccess ⊢
  revert hsuccess
  cases hrun : (loginUserInto env username password name).run Db.exec s.db with
  | mk found db =>
      obtain ⟨result, copied⟩ := found
      rw [hrun] at hdb hname hlogin
      cases hdb
      cases result with
      | failed =>
          intro hsuccess
          have hnot : ¬ (Response.ok (str "FAILURE Invalid Credentials")).Succeeds := by decide
          exact absurd hsuccess hnot
      | deactivated =>
          intro hsuccess
          have hnot : ¬ (Response.ok
              (str "FAILURE! Account is deactivated. Please contact your bank.")).Succeeds := by
            decide
          exact absurd hsuccess hnot
      | success login =>
          obtain ⟨other, hother, rfl⟩ := hlogin login rfl
          have hsame : other = user :=
            Option.some_inj.mp (hother.found.symm.trans haccepts.found)
          subst hsame
          have hcopied : copied = name.clear.strncpy other.firstName.text := hname _ rfl
          simp only
          split
          · next hold =>
              intro hsuccess
              exact absurd hsuccess (enter_refused hold).2
          · intro hsuccess
            rw [hcopied]

theorem printed_copy (hends : user.firstName.Ends)
    (hcloses : name.clear.Closes user.firstName.text) (beyond : Bytes) :
    (name.clear.strncpy user.firstName.text).printed beyond = user.firstName.text := by
  have hcstr := user.firstName.cstr_text
  have hlength : (cstr user.firstName.text).length ≤ maxFnameLen - 1 := by
    rw [hcstr]
    exact Nat.le_sub_one_of_lt (CharArray.ends_iff_length_text.mp hends)
  have hcopied := (CharArray.ends_strncpy_iff_closes _ hlength).mpr hcloses
  rw [printed_of_ends hcopied, CharArray.text_strncpy_of_closes (by decide) hlength hcloses, hcstr]

/-- Where the array ends the name, this is the handler as it is modelled without the array. -/
theorem handleLogin_eq_handle (hclosed : ∀ user, Accepts env username password s.db user →
    user.userId < 2 ^ 31 ∧ user.firstName.Ends ∧ name.clear.Closes user.firstName.text) :
    handleLogin env name beyond c username password s =
      (Command.login username password).handle env c s := by
  obtain ⟨hresult, hdb, hname⟩ := loginUserInto_run env username password name s.db
  obtain ⟨hsame, hlogin⟩ := loginUser_run env username password s.db
  simp only [handleLogin, Command.handle]
  rw [hdb, hsame, hresult]
  cases hfound : ((loginUser env username password).run Db.exec s.db).1 with
  | failed | deactivated => rfl
  | success login =>
      obtain ⟨user, haccepts, rfl⟩ := hlogin _ hfound
      obtain ⟨hid, hends, hcloses⟩ := hclosed user haccepts
      have hcopied := hname _ (hresult.trans hfound)
      simp only
      split
      · rfl
      · next hnew =>
          rw [hcopied, printed_copy hends hcloses, successReply, decInt_intOfId hid]
          simp [ServerState.enter, hnew]

theorem last_clear {size : Nat} (array : CharArray size) (hsize : 1 < size) :
    array.clear.bytes[size - 1]? = array.bytes[size - 1]? :=
  List.getElem?_set_ne (by omega)

end BankingSystem
