import BankingSystem.Server.Sessions

/-!
# Who may do what

The router looks at the operation and the payload, never at the connection: which
operations a user is offered is decided by the menus of the client.  `LOGIN` and
`LOGOUT` are the only requests whose effect depends on the connection.
-/

namespace BankingSystem

open Foundation

variable {κ M : Type}

/-! ## Login -/

/-- The user that `login_user` accepts: the first with the name, if the password fits. -/
structure Accepts (env : Env) (username password : Bytes) (db : Database M) (user : UserRec) :
    Prop where
  found : db.userTable.find? (fun user => user.username.text = cstr username) = some user
  verified : verifyPassword env password user.passwordHash.text = true
  active : user.active = .active

theorem loginUser_run [Amount M] (env : Env) (username password : Bytes) (db : Database M) :
    ((loginUser env username password).run Db.exec db).2 = db ∧
    ∀ login, ((loginUser env username password).run Db.exec db).1 = .success login →
      ∃ user, Accepts env username password db user ∧
        login = ⟨user.userId, roleString user.role, user.firstName.text⟩ := by
  rw [loginUser_exec]
  refine ⟨rfl, fun login hlogin => ?_⟩
  cases hfound : db.userTable.find? (fun user => user.username.text = cstr username) with
  | none =>
      rw [hfound] at hlogin
      cases hlogin
  | some user =>
      rw [hfound, Option.elim_some, UserRec.loginResult] at hlogin
      split_ifs at hlogin with hverified hinactive
      cases hlogin
      refine ⟨user, ⟨hfound, hverified, ?_⟩, rfl⟩
      exact Status.ne_inactive_iff.mp fun h => hinactive (.inl h)

variable [DecidableEq κ]

private theorem enter_db (s : ServerState κ M) (c : κ) (login : Login) :
    (s.enter c login).2.db = s.db := by
  unfold ServerState.enter
  split
  · rfl
  · cases hfree : replaceFirst 0 login.userId s.activeSessions <;> rfl

private theorem enter_current (s : ServerState κ M) (c : κ) (login : Login) :
    (s.enter c login).2.currentUserId c = s.currentUserId c ∨
      (s.enter c login).2.currentUserId c = some login.userId := by
  unfold ServerState.enter
  split
  · exact .inl rfl
  · cases hfree : replaceFirst 0 login.userId s.activeSessions with
    | none => exact .inl rfl
    | some activeSessions => exact .inr (Function.update_self ..)

/-! ## One handled request -/

variable [Amount M]

theorem handle_of_not_session (env : Env) {command : Command M} (h : ¬ command.IsSession)
    (s s' : ServerState κ M) (c c' : κ) (hdb : s'.db = s.db) :
    (command.handle env c' s').1 = (command.handle env c s).1 ∧
    command.handle env c s =
      ((command.handle env c s).1, { s with db := (command.handle env c s).2.db }) ∧
    (command.handle env c' s').2.db = (command.handle env c s).2.db := by
  cases command with
  | login | logout => exact absurd trivial h
  | call request =>
      simp only [Command.handle, hdb]
      exact ⟨trivial, trivial, trivial⟩
  | invalidPayload op => exact ⟨rfl, rfl, hdb⟩
  | unknown => exact ⟨rfl, rfl, hdb⟩

private theorem handle_of_session (env : Env) {command : Command M} (h : command.IsSession)
    (s : ServerState κ M) (c : κ) :
    (command.handle env c s).2.db = s.db ∧
    ∀ userId, userId ≠ 0 → (command.handle env c s).2.currentUserId c = some userId →
      s.currentUserId c = some userId ∨ ∃ username password user,
        command = .login username password ∧
          Accepts env username password s.db user ∧ user.userId = userId := by
  cases command with
  | call | invalidPayload | unknown => exact h.elim
  | logout =>
      refine ⟨rfl, fun userId hne hcurrent => ?_⟩
      have hzero : some 0 = some userId := by
        simpa [Command.handle, ServerState.logout, ServerState.setCurrent] using hcurrent
      exact absurd (Option.some_inj.mp hzero).symm hne
  | login username password =>
      obtain ⟨hdb, haccepts⟩ := loginUser_run env username password s.db
      simp only [Command.handle]
      rw [hdb]
      cases hresult : ((loginUser env username password).run Db.exec s.db).1 with
      | failed => exact ⟨rfl, fun _ _ hcurrent => .inl hcurrent⟩
      | deactivated => exact ⟨rfl, fun _ _ hcurrent => .inl hcurrent⟩
      | success login =>
          refine ⟨enter_db s c login, fun userId _ hcurrent => ?_⟩
          rcases enter_current s c login with hsame | hnew
          · exact .inl (hsame.symm.trans hcurrent)
          · obtain ⟨user, huser, rfl⟩ := haccepts login hresult
            rw [hnew] at hcurrent
            cases hcurrent
            exact .inr ⟨username, password, user, rfl, huser, rfl⟩

variable [Strtod M]

omit [Amount M] [Strtod M] in
private theorem not_isSession_ite {p : Prop} [Decidable p] {first second : Command M}
    (hfirst : ¬ first.IsSession) (hsecond : ¬ second.IsSession) :
    ¬ (if p then first else second).IsSession := by
  split <;> assumption

omit [Amount M] in
theorem dispatch_isSession_iff (locals : Locals M) (op payload : Bytes) :
    (dispatch locals op payload).IsSession ↔ op = str "LOGIN" ∨ op = str "LOGOUT" := by
  by_cases hlogin : op = str "LOGIN"
  · simp [dispatch, hlogin, Command.IsSession]
  by_cases hlogout : op = str "LOGOUT"
  · rw [dispatch, if_neg hlogin, if_pos hlogout]
    exact ⟨fun _ => .inr hlogout, fun _ => trivial⟩
  · rw [dispatch, if_neg hlogin, if_neg hlogout]
    have hnone : ¬(op = str "LOGIN" ∨ op = str "LOGOUT") := by simp [hlogin, hlogout]
    refine iff_of_false ?_ hnone
    repeat' first | exact id | apply not_isSession_ite

/--
A request other than `LOGIN` and `LOGOUT` is served alike for every connection,
logged in or not: response and files depend on the files and the request alone, and
no session changes.  `LOGIN` and `LOGOUT` change no file, and a connection gets a
new user only by a `LOGIN` with the password of that user, who is active.
-/
theorem served_for_every_connection (env : Env) (locals : Locals M) (raw : RawRequest)
    (s : ServerState κ M) (c : κ) :
    (raw.op.text ≠ str "LOGIN" → raw.op.text ≠ str "LOGOUT" →
      (∀ (s' : ServerState κ M) c', s'.db = s.db →
        (handleRequest env locals c' raw s').1 = (handleRequest env locals c raw s).1 ∧
        (handleRequest env locals c' raw s').2.db = (handleRequest env locals c raw s).2.db) ∧
      (handleRequest env locals c raw s).2 =
        { s with db := (handleRequest env locals c raw s).2.db }) ∧
    (raw.op.text = str "LOGIN" ∨ raw.op.text = str "LOGOUT" →
      (handleRequest env locals c raw s).2.db = s.db ∧
      ∀ userId, userId ≠ 0 → (handleRequest env locals c raw s).2.currentUserId c = some userId →
        s.currentUserId c = some userId ∨ ∃ username password user,
          dispatch locals raw.op.text raw.payload.text = .login username password ∧
            Accepts env username password s.db user ∧ user.userId = userId) := by
  have hiff := dispatch_isSession_iff locals raw.op.text raw.payload.text
  constructor
  · intro hlogin hlogout
    have hcommand : ¬ (dispatch locals raw.op.text raw.payload.text).IsSession := by
      rw [hiff]
      simp [hlogin, hlogout]
    constructor
    · intro s' c' hdb
      obtain ⟨hresponse, -, hfiles⟩ := handle_of_not_session env hcommand s s' c c' hdb
      exact ⟨hresponse, hfiles⟩
    · obtain ⟨-, hsame, -⟩ := handle_of_not_session env hcommand s s c c rfl
      exact congrArg Prod.snd hsame
  · intro hop
    exact handle_of_session env (hiff.mpr hop) s c

/-! ## What access control would mean -/

/-- The section of the router that an operation stands in. -/
def Request.section : Request M → Option Role
  | .login _ _ | .changePassword _ _ => none
  | .viewBalance _ | .deposit _ _ | .withdraw _ _ | .transfer _ _ _ | .applyLoan _ _
  | .viewLoan _ | .addFeedback _ _ | .viewFeedback _ | .viewTransactions _
  | .viewDetails _ => some .customer
  | .addCustomer _ _ _ | .modifyCustomer _ _ | .processLoans | .approveRejectLoan _ _ _
  | .viewAssignedLoans _ | .viewCustTransactions _ => some .employee
  | .setAccountStatus _ _ | .viewNonAssignedLoans | .assignLoan _ _
  | .reviewFeedback => some .manager
  | .addEmployee _ _ _ _ | .modifyUser _ _ | .listUsers | .changeRole _ _ => some .admin

def Request.ownId : Request M → Option Nat
  | .changePassword userId _ | .viewBalance userId | .deposit userId _ | .withdraw userId _
  | .transfer userId _ _ | .applyLoan userId _ | .viewLoan userId | .addFeedback userId _
  | .viewFeedback userId | .viewTransactions userId | .viewDetails userId => some userId
  | .approveRejectLoan _ _ empId | .viewAssignedLoans empId => some empId
  | _ => none

/-- The connection is logged in as a user who may make the request. -/
def Authorised (s : ServerState κ M) (c : κ) (request : Request M) : Prop :=
  ∃ userId user, s.currentUserId c = some userId ∧ userId ≠ 0 ∧
    Table.lookup UserRec.userId userId s.db.userTable = some user ∧
    (∀ role ∈ request.section, user.role = role) ∧ ∀ id ∈ request.ownId, id = userId

/-- Nobody logs in; the first connection adds a customer with 5 on the account. -/
def withoutLogin : List (Event (Fin 2) ℚ) :=
  [.connect 0,
    .request 0 .zero
      (.ofText (str "ADD_CUSTOMER") (str "Ann Lee 30 Home a@x 1 ann pw")),
    .request 0 .zero (.ofText (str "DEPOSIT") (str "1001 5")),
    .connect 1]

/-- The second connection takes the money. -/
theorem withdrawn_without_login :
    ¬ ∀ (events : List (Event (Fin 2) ℚ)) (c : Fin 2) (raw : RawRequest) (request : Request ℚ),
      let s := (ServerState.init (Database.empty fun _ => 1)).run .plain events
      s.currentUserId c ≠ none →
      dispatch Locals.zero raw.op.text raw.payload.text = .call request →
      (handleRequest .plain .zero c raw s).2.db.accountTable ≠ s.db.accountTable →
      Authorised s c request := by
  intro h
  have hcurrent : ((ServerState.init (Database.empty fun _ => 1)).run .plain
      withoutLogin).currentUserId 1 = some 0 := by
    decide +kernel
  obtain ⟨userId, user, hlogged, hne, -⟩ := h withoutLogin 1
    (.ofText (str "WITHDRAW") (str "1001 5")) (.withdraw 1001 5)
    (by rw [hcurrent]; nofun) (by decide +kernel) (by decide +kernel)
  rw [hcurrent] at hlogged
  exact hne (Option.some_inj.mp hlogged).symm

end BankingSystem
