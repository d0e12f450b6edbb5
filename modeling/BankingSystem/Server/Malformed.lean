import BankingSystem.Requests.Passwords
import BankingSystem.Server.LoginReply
import BankingSystem.Server.Overlong

/-!
# Requests that do not convert

Most branches of the router ignore the result of `sscanf` and go on with variables
that have no initial value, and a token that is longer than its array is stored all the
same.  `Settled` says, for each operation, which payloads leave nothing open.
-/

namespace BankingSystem

open Foundation

variable {M : Type} [Strtod M]

/-! ## Payloads that leave nothing open -/

def Op.Converts (M : Type) [Strtod M] (op : Op) (payload : Bytes) : Prop :=
  (sscanf (M := M) op.format payload).length = op.format.length

instance (op : Op) (payload : Bytes) : Decidable (op.Converts M payload) :=
  inferInstanceAs (Decidable (_ = _))

/--
The payload leaves nothing to a variable without an initial value.  The record of
`ADD_CUSTOMER` keeps the last byte of its arrays when the fields are copied, as the
array of `LOGIN` does; `MODIFY_USER` goes on when one of its seven fields is missing.
-/
def Op.Settled (M : Type) [Strtod M] (op : Op) (payload : Bytes) : Prop :=
  let values := sscanf (M := M) op.format payload
  match op with
  | .login => False
  | .addCustomer => values.length ≠ 8
  | .modifyUser => values.length ≠ 6
  | .transfer | .addFeedback | .modifyCustomer | .addEmployee => True
  | _ => op.Converts M payload

private theorem Op.length_lt_of_not_converts {o : Op} {payload : Bytes}
    (h : ¬ o.Converts M payload) :
    (sscanf (M := M) o.format payload).length < o.format.length :=
  Nat.lt_of_le_of_ne (length_sscanf_le o.format payload) h

/-- A text that is the name of no operation leaves nothing open either. -/
def RawRequest.Settled (M : Type) [Strtod M] (raw : RawRequest) (beyond : Bytes) : Prop :=
  raw.Contained M beyond ∧
    ∀ o : Op, o.name = raw.op.text → o.Settled M (raw.scanned beyond)

private theorem callWithId_converts {payload : Bytes}
    (h : (sscanf (M := M) [.u] payload).length = 1) (before before' : Nat)
    (request : Nat → Request M) :
    callWithId payload before request = callWithId payload before' request := by
  unfold callWithId
  rw [unsignedAt_converted (by omega) (.inl rfl) before before']

private theorem callWithAmount_converts {payload : Bytes}
    (h : (sscanf (M := M) [.u, .lf] payload).length = 2) (locals locals' : Locals M)
    (request : Nat → M → Request M) :
    callWithAmount payload locals request = callWithAmount payload locals' request := by
  unfold callWithAmount
  simp only
  rw [unsignedAt_converted (by omega) (.inl rfl) locals.userId locals'.userId,
    doubleAt_converted (by omega) rfl locals.amount locals'.amount]

private theorem branch_settled {o : Op} {payload : Bytes} (h : o.Settled M payload)
    (locals locals' : Locals M) (op : Bytes) :
    o.branch locals op payload = o.branch locals' op payload := by
  cases o with
  | login => exact h.elim
  | logout | processLoans | viewNonAssignedLoans | reviewFeedback | listUsers
  | addFeedback => rfl
  | viewBalance | viewLoan | viewFeedback | viewTransactions | viewDetails
  | viewAssignedLoans | viewCustTransactions => exact callWithId_converts h _ _ _
  | deposit | withdraw | applyLoan => exact callWithAmount_converts h _ _ _
  | changePassword =>
      have hall : (sscanf (M := M) [.u, .s] payload).length = 2 := h
      simp only [Op.branch]
      rw [unsignedAt_converted (by omega) (.inl rfl) locals.userId locals'.userId,
        textAt_converted (by omega) rfl locals.newpass locals'.newpass]
  | changeRole =>
      have hall : (sscanf (M := M) [.u, .s] payload).length = 2 := h
      simp only [Op.branch]
      rw [unsignedAt_converted (by omega) (.inl rfl) locals.userId locals'.userId,
        textAt_converted (by omega) rfl locals.role locals'.role]
  | setAccountStatus =>
      have hall : (sscanf (M := M) [.u, .u] payload).length = 2 := h
      simp only [Op.branch]
      rw [unsignedAt_converted (by omega) (.inl rfl) locals.custId locals'.custId,
        unsignedAt_converted (by omega) (.inl rfl) locals.status locals'.status]
  | assignLoan =>
      have hall : (sscanf (M := M) [.u, .u] payload).length = 2 := h
      simp only [Op.branch]
      rw [unsignedAt_converted (by omega) (.inl rfl) locals.loanId locals'.loanId,
        unsignedAt_converted (by omega) (.inl rfl) locals.empId locals'.empId]
  | approveRejectLoan =>
      have hall : (sscanf (M := M) [.llu, .s, .u] payload).length = 3 := h
      simp only [Op.branch]
      rw [unsignedAt_converted (by omega) (.inr rfl) locals.loanId locals'.loanId,
        textAt_converted (by omega) rfl locals.action locals'.action,
        unsignedAt_converted (by omega) (.inl rfl) locals.empId locals'.empId]
  | addCustomer => exact (if_neg h).trans (if_neg h).symm
  | modifyUser => exact (if_neg h).trans (if_neg h).symm
  | transfer =>
      refine ite_congr rfl (fun hall => ?_) fun _ => rfl
      rw [doubleAt_converted (by omega) rfl locals.amount locals'.amount]
  | modifyCustomer =>
      refine ite_congr rfl (fun hall => ?_) fun _ => rfl
      simp only [detailsAt]
      rw [signedAt_converted (by omega) rfl locals.age locals'.age]
  | addEmployee =>
      refine ite_congr rfl (fun hall => ?_) fun _ => rfl
      rw [signedAt_converted (by omega) rfl locals.age locals'.age]

theorem branch_of_not_converts {o : Op} {payload : Bytes} (h : o.Settled M payload)
    (hnot : ¬ o.Converts M payload) (locals : Locals M) (op : Bytes) :
    o.branch locals op payload = .invalidPayload op := by
  cases o with
  | login => exact h.elim
  | logout | processLoans | viewNonAssignedLoans | reviewFeedback | listUsers =>
      exact absurd rfl hnot
  | viewBalance | viewLoan | viewFeedback | viewTransactions | viewDetails
  | viewAssignedLoans | viewCustTransactions | deposit | withdraw | applyLoan
  | changePassword | changeRole | setAccountStatus | assignLoan | approveRejectLoan =>
      exact absurd h hnot
  | addCustomer | modifyUser => exact if_neg h
  | transfer | addFeedback | modifyCustomer | addEmployee => exact if_neg hnot

/-! ### The name at a login -/

def firstToken (payload : Bytes) : Bytes :=
  (skipSpace payload).takeWhile fun b => ¬ isSpace b

private theorem textAt_first (format : List Conv) (payload before : Bytes) :
    Scanned.textAt (sscanf (M := M) (.s :: format) payload) 0 before =
      if firstToken payload = [] then before else firstToken payload := by
  have hscan : Conv.s.scan (M := M) payload = if firstToken payload = [] then none
      else some (.text (firstToken payload),
        (skipSpace payload).dropWhile fun b => ¬ isSpace b) := rfl
  rw [sscanf, hscan]
  by_cases htoken : firstToken payload = []
  · rw [if_pos htoken, if_pos htoken]
    rfl
  · rw [if_neg htoken, if_neg htoken]
    rfl

private theorem mem_of_mem_firstToken {payload : Bytes} {b : UInt8} (h : b ∈ firstToken payload) :
    b ∈ payload :=
  (List.dropWhile_suffix isSpace).subset ((List.takeWhile_prefix _).subset h)

private theorem cstr_ne_zero {text : Bytes} : ∀ b ∈ cstr text, b ≠ 0 :=
  fun b hb => by simpa using List.mem_takeWhile_imp (p := fun b => decide (b ≠ 0)) hb

private theorem cstr_firstToken {payload : Bytes} (h : ∀ b ∈ payload, b ≠ 0) :
    cstr (firstToken payload) = firstToken payload :=
  List.takeWhile_eq_self_iff.mpr fun b hb => by
    simpa using h b (mem_of_mem_firstToken hb)

variable [Amount M]

/-! ## Harmless requests -/

variable {κ : Type} [DecidableEq κ]

/--
One turn of the loop of `client_thread_main` with the array that the reply to `LOGIN`
prints; `beyond` is the memory behind the payload, `behind` that behind the array.
-/
def serveRequest (env : Env) (locals : Locals M) (beyond behind : Bytes) (c : κ)
    (raw : RawRequest) (s : ServerState κ M) : Response × ServerState κ M :=
  match dispatch locals raw.op.text (raw.scanned beyond) with
  | .login username password => handleLogin env locals.name behind c username password s
  | command => command.handle env c s

/-- What the turn can lead to: anything, once `sscanf` stores behind one of its arrays. -/
def LeadsTo (env : Env) (locals : Locals M) (beyond behind : Bytes) (c : κ) (raw : RawRequest)
    (s : ServerState κ M) (result : Response × ServerState κ M) : Prop :=
  raw.Contained M beyond → result = serveRequest env locals beyond behind c raw s

/--
Files and response do not depend on what the variables held, and where `sscanf` does
not convert all fields the files stay as they are.
-/
structure RawRequest.Harmless (M : Type) [Amount M] [Strtod M] (beyond : Bytes) (c : κ)
    (raw : RawRequest) : Prop where
  determined : ∀ (env : Env) (s : ServerState κ M) (behind : Bytes) (locals locals' : Locals M)
    (result result' : Response × ServerState κ M),
    LeadsTo env locals beyond behind c raw s result →
    LeadsTo env locals' beyond behind c raw s result' →
    result.1 = result'.1 ∧ result.2.db = result'.2.db
  unchanged : ∀ o : Op, o.name = raw.op.text → ¬ o.Converts M (raw.scanned beyond) →
    ∀ (env : Env) (s : ServerState κ M) (behind : Bytes) (locals : Locals M)
      (result : Response × ServerState κ M),
      LeadsTo env locals beyond behind c raw s result → result.2.db = s.db

theorem handleRequest_op {raw : RawRequest} {o : Op} (hop : o.name = raw.op.text) (env : Env)
    (locals : Locals M) (c : κ) (s : ServerState κ M) :
    handleRequest env locals c raw s =
      (o.branch locals raw.op.text raw.payload.text).handle env c s := by
  rw [handleRequest, ← hop, dispatch_op]

private theorem scanned_eq_text {raw : RawRequest} (hzero : 0 ∈ raw.payload.bytes)
    (beyond : Bytes) :
    raw.scanned beyond = raw.payload.text :=
  printed_of_ends hzero beyond

/-- With a NUL in the payload and an array that ends the name, the turn as modelled before. -/
theorem serveRequest_eq_handleRequest {env : Env} {locals : Locals M} {behind : Bytes} {c : κ}
    {raw : RawRequest} {s : ServerState κ M} (hzero : 0 ∈ raw.payload.bytes)
    (hclosed : ∀ user ∈ s.db.userTable,
      user.userId < 2 ^ 31 ∧ user.firstName.Ends ∧ locals.name.clear.Closes user.firstName.text)
    (beyond : Bytes) :
    serveRequest env locals beyond behind c raw s = handleRequest env locals c raw s := by
  rw [serveRequest, handleRequest, scanned_eq_text hzero]
  cases dispatch locals raw.op.text raw.payload.text with
  | login username password =>
      exact handleLogin_eq_handle fun user haccepts =>
        hclosed user (List.mem_of_find?_eq_some haccepts.found)
  | logout | call | invalidPayload | unknown => rfl

omit [Amount M] in
private theorem branch_ne_login {o : Op} (hlogin : o ≠ .login) {locals : Locals M} {payload : Bytes}
    {username password : Bytes} :
    o.branch locals o.name payload ≠ .login username password := by
  intro hbranch
  have hsession : (dispatch locals o.name payload).IsSession := by
    rw [dispatch_op, hbranch]
    trivial
  rcases (dispatch_isSession_iff locals o.name payload).mp hsession with hname | hname
  · exact hlogin (Op.name_injective hname)
  · obtain rfl : o = .logout := Op.name_injective hname
    cases hbranch

private theorem serveRequest_op {raw : RawRequest} {o : Op} (hop : o.name = raw.op.text)
    (hlogin : o ≠ .login) (env : Env) (locals : Locals M) (beyond behind : Bytes) (c : κ)
    (s : ServerState κ M) :
    serveRequest env locals beyond behind c raw s =
      (o.branch locals raw.op.text (raw.scanned beyond)).handle env c s := by
  rw [serveRequest, ← hop, dispatch_op]
  cases hcommand : o.branch locals o.name (raw.scanned beyond) with
  | login username password => exact absurd hcommand (branch_ne_login hlogin)
  | logout | call | invalidPayload | unknown => rfl

private theorem serveRequest_login {raw : RawRequest} (hop : Op.login.name = raw.op.text)
    (env : Env) (locals : Locals M) (beyond behind : Bytes) (c : κ) (s : ServerState κ M) :
    serveRequest env locals beyond behind c raw s =
      handleLogin env locals.name behind c
        (Scanned.textAt (sscanf (M := M) [.s, .s] (raw.scanned beyond)) 0 locals.username)
        (Scanned.textAt (sscanf (M := M) [.s, .s] (raw.scanned beyond)) 1 locals.password) s := by
  rw [serveRequest, ← hop, dispatch_op]
  rfl

private theorem RawRequest.Settled.harmless {raw : RawRequest} {beyond : Bytes}
    (h : raw.Settled M beyond) (c : κ) : raw.Harmless M beyond c := by
  obtain ⟨hfits, hsettled⟩ := h
  constructor
  · intro env s behind locals locals' result result' hresult hresult'
    rw [hresult hfits, hresult' hfits]
    by_cases hop : ∃ o : Op, o.name = raw.op.text
    · obtain ⟨o, hop⟩ := hop
      have hlogin : o ≠ .login := by
        rintro rfl
        exact hsettled .login hop
      rw [serveRequest_op hop hlogin, serveRequest_op hop hlogin,
        branch_settled (hsettled o hop) locals locals']
      exact ⟨rfl, rfl⟩
    · have hnone : ∀ o : Op, o.name ≠ raw.op.text := fun o ho => hop ⟨o, ho⟩
      simp only [serveRequest, dispatch_eq_route, route_of_no_op hnone]
      exact ⟨trivial, trivial⟩
  · intro o hop hnot env s behind locals result hresult
    have hlogin : o ≠ .login := by
      rintro rfl
      exact hsettled .login hop
    rw [hresult hfits, serveRequest_op hop hlogin,
      branch_of_not_converts (hsettled o hop) hnot]
    rfl

/-! ## Requests that leave something open -/

private theorem RawRequest.Harmless.contained {beyond : Bytes} {c : κ} {raw : RawRequest}
    (h : raw.Harmless M beyond c) (db : Database M) (locals : Locals M) :
    raw.Contained M beyond := by
  by_contra hnot
  have hsame := (h.determined .plain (ServerState.init db) [] locals locals
    (.ok [65], ServerState.init db) (.ok [66], ServerState.init db)
    (fun hfits => absurd hfits hnot) fun hfits => absurd hfits hnot).1
  have hne : Response.ok [65] ≠ Response.ok [66] := by decide
  exact hne hsame

/-- Values that a variable may hold and that a call tells apart. -/
private theorem RawRequest.Harmless.false_of_open {beyond : Bytes} {c : κ} {raw : RawRequest}
    (h : raw.Harmless M beyond c) {o : Op} (hop : o.name = raw.op.text) {α : Type}
    (request : α → Request M) (env : Env) (db : Database M) (x y : α)
    (hbranch : ∀ x, ∃ locals,
      o.branch locals raw.op.text (raw.scanned beyond) = .call (request x))
    (hdiffer : ((request x).handle env db).1.message = ((request y).handle env db).1.message →
      ((request x).handle env db).2 ≠ ((request y).handle env db).2) : False := by
  obtain ⟨locals, hcall⟩ := hbranch x
  obtain ⟨locals', hcall'⟩ := hbranch y
  have hlogin : o ≠ .login := by
    rintro rfl
    cases hcall
  obtain ⟨hresponse, hdb⟩ := h.determined env (ServerState.init db) [] locals locals' _ _
    (fun _ => rfl) fun _ => rfl
  rw [serveRequest_op hop hlogin, serveRequest_op hop hlogin, hcall, hcall'] at hresponse hdb
  exact hdiffer (congrArg Response.message hresponse) hdb

omit [Amount M] in
private theorem callWithId_open {payload : Bytes} (h : (sscanf (M := M) [.u] payload).length ≠ 1)
    (before : Nat) (request : Nat → Request M) :
    callWithId payload before request = .call (request before) := by
  have hle := length_sscanf_le (M := M) [.u] payload
  rw [List.length_singleton] at hle
  unfold callWithId
  rw [unsignedAt_missing (by omega)]

omit [Amount M] in
private theorem callWithAmount_open {payload : Bytes}
    (h : (sscanf (M := M) [.u, .lf] payload).length ≠ 2) (locals : Locals M)
    (request : Nat → M → Request M) :
    callWithAmount payload locals request = .call (request (Scanned.unsignedAt
      (sscanf (M := M) [.u, .lf] payload) 0 locals.userId) locals.amount) := by
  have hle := length_sscanf_le (M := M) [.u, .lf] payload
  change _ ≤ 2 at hle
  unfold callWithAmount
  simp only
  rw [doubleAt_missing (by omega)]

section Files

/-! ### What a request leaves in the files of a small bank -/

def bankOf (n : Nat) : Database Double where
  users := some [{ UserRec.zero with userId := n, role := .employee }]
  accounts := some [⟨n, n, .fin 1, .active⟩]
  transactions := none
  loans := some [⟨n, n, .fin 1, .pending, 0, 0, 0⟩]
  feedback := none
  clock _ := 0

def oneCustomer : Database Double where
  users := some [{ UserRec.zero with userId := 1, active := .active }]
  accounts := some [⟨1, 1, .fin 1, .active⟩]
  transactions := some [⟨1, 0, 1, .fin 1, 0, str "deposit"⟩]
  loans := some [⟨1, 1, .fin 1, .assigned, 1, 0, 0⟩]
  feedback := some [⟨1, 1, .ofText (str "fine"), 0, .zero _, 0⟩]
  clock _ := 0

/-- The loan is assigned and its customer has no account. -/
def assignedLoan (n : Nat) : Database Double :=
  { bankOf n with accounts := none, loans := some [⟨n, n, .fin 1, .assigned, 1, 0, 0⟩] }

variable (env : Env) (n : Nat)

private theorem one_accepted {request : Nat → Double → Request Double}
    (h : request = .deposit ∨ request = .withdraw ∨ request = .applyLoan) :
    ((request n (.fin 1)).handle env (bankOf n)).2 ≠ bankOf n := by
  have hle : ¬ (Double.fin 1 ≤ (0 : Double)) := by decide
  have hlt : ¬ (Double.fin 1 < Double.fin 1) := by decide
  rcases h with rfl | rfl | rfl <;> intro heq
  · have htransactions := congrArg Database.transactions heq
    simp [Request.handle, Request.program, depositMoney, hle, bankOf, Db.exec, Table.modify,
      Table.locate, AccountModifier.apply, depositModifier, Database.accountTable]
      at htransactions
  · have htransactions := congrArg Database.transactions heq
    simp [Request.handle, Request.program, withdrawMoney, hle, hlt, bankOf, Db.exec,
      Table.modify, Table.locate, AccountModifier.apply, withdrawModifier,
      Database.accountTable] at htransactions
  · have hloans := congrArg Database.loans heq
    simp [Request.handle, Request.program, applyLoan, hle, bankOf, Db.exec,
      Database.loanTable] at hloans

private theorem zero_refused {request : Nat → Double → Request Double}
    (h : request = .deposit ∨ request = .withdraw ∨ request = .applyLoan) :
    ((request n (.fin 0)).handle env (bankOf n)).2 = bankOf n := by
  have hle : Double.fin 0 ≤ (0 : Double) := by decide
  rcases h with rfl | rfl | rfl <;>
    simp [Request.handle, Request.program, depositMoney, withdrawMoney, applyLoan, hle]

private theorem changePassword_users (newpass : Bytes) :
    ((Request.changePassword n newpass).handle env (bankOf n)).2.users =
      some [{ UserRec.zero with
        userId := n
        role := .employee
        passwordHash := generatePasswordHash env newpass (.zero _) }] := by
  simp [Request.handle, Request.program, changePassword, bankOf, Db.exec, Table.locate,
    Db.atomicUpdateUser, Db.atomicUpdate, changePassModifier, Db.commitAt, Table.put,
    Database.userTable]
  rfl

private theorem changeRole_users {roleStr : Bytes} {role : Role}
    (h : roleStr = str "employee" ∧ role = .employee ∨
      roleStr = str "manager" ∧ role = .manager) :
    ((Request.changeRole n roleStr).handle env (bankOf n)).2.users =
      some [{ UserRec.zero with userId := n, role }] := by
  have hne : str "manager" ≠ str "employee" := by decide
  rcases h with ⟨rfl, rfl⟩ | ⟨rfl, rfl⟩ <;>
    simp [Request.handle, Request.program, changeUserRole, bankOf, Db.exec, Table.locate,
      Db.atomicUpdateUser, Db.atomicUpdate, changeRoleModifier, Db.commitAt, Table.put,
      Database.userTable, hne]

private theorem modifyUser_users (d : Details) :
    ((Request.modifyUser n d).handle env (bankOf n)).2.users =
      some [{ UserRec.zero with userId := n, role := .employee }.setDetails d] := by
  simp [Request.handle, Request.program, modifyUser, bankOf, Db.exec, Table.locate,
    Db.atomicUpdateUser, Db.atomicUpdate, modifyUserModifier, Db.commitAt, Table.put,
    Database.userTable, firstClash, UserRec.clash]

private theorem setAccountStatus_accounts (status : Int) :
    ((Request.setAccountStatus n status).handle env (bankOf n)).2.accounts =
      some [⟨n, n, .fin 1, if status = 1 then .active else .inactive⟩] := by
  simp [Request.handle, Request.program, setAccountStatus, bankOf, Db.exec, Table.modify,
    Table.locate, AccountModifier.apply, setStatusModifier, Database.accountTable]

private theorem assignLoan_loans (empId : Nat) :
    ((Request.assignLoan n empId).handle env (bankOf n)).2.loans =
      some [if empId = n then ⟨n, n, .fin 1, .assigned, empId, 0, 0⟩
        else ⟨n, n, .fin 1, .pending, 0, 0, 0⟩] := by
  by_cases hemp : empId = n
  · simp [Request.handle, Request.program, assignLoanToEmployee, bankOf, Db.exec, Table.locate,
      Table.lookup, Db.atomicUpdateLoan, Db.atomicUpdate, assignLoanModifier, Db.commitAt,
      Table.put, Database.userTable, Database.loanTable, hemp]
  · simp [Request.handle, Request.program, assignLoanToEmployee, bankOf, Db.exec, Table.locate,
      Table.lookup, Db.atomicUpdateLoan, Db.atomicUpdate, assignLoanModifier, Db.commitAt,
      Database.userTable, Database.loanTable, hemp, Ne.symm hemp]

private theorem addCustomer_users (user : UserRec) (username password : Bytes) :
    ((Request.addCustomer user username password).handle env
      (Database.empty (M := Double) fun _ => 0)).2.users =
      some [newCustomer env user 1001 0 username password] := by
  simp [Request.handle, Request.program, addNewCustomer, Database.empty, Db.exec, Table.upsert,
    Table.locate, Database.userTable, firstClash]

private theorem approveRejectLoan_other (action : Bytes) :
    ((Request.approveRejectLoan n action 2).handle env (assignedLoan n)).1.message =
      str "Loan not assigned to you." ∧
    ((Request.approveRejectLoan n action 2).handle env (assignedLoan n)).2 = assignedLoan n := by
  have hmessage : respondIfEmpty (respond (str "Loan not assigned to you."))
      (str "Loan Decision Failed (Loan not found or concurrency error)") =
      str "Loan not assigned to you." := by decide
  simp [Request.handle, Request.program, approveRejectLoan, assignedLoan, bankOf, Db.exec,
    Table.locate, Db.atomicUpdateLoan, Db.atomicUpdate, approveRejectLoanModifier, Db.commitAt,
    Database.loanTable, hmessage]

private theorem approveRejectLoan_own (action : Bytes) :
    ((Request.approveRejectLoan n action 1).handle env (assignedLoan n)).1.message ≠
      str "Loan not assigned to you." ∨
    ((Request.approveRejectLoan n action 1).handle env (assignedLoan n)).2 ≠ assignedLoan n := by
  by_cases happrove : action = str "approve"
  · left
    have hmessage : respondIfEmpty (respond
        (str "Loan Approval Failed: Customer account is inactive or not found."))
        (str "Loan Decision Failed (Loan not found or concurrency error)") ≠
        str "Loan not assigned to you." := by decide
    simpa [Request.handle, Request.program, approveRejectLoan, assignedLoan, bankOf, Db.exec,
      Table.locate, Table.lookup, Db.atomicUpdateLoan, Db.atomicUpdate,
      approveRejectLoanModifier, Db.commitAt, Database.loanTable, Database.accountTable,
      happrove] using hmessage
  by_cases hreject : action = str "reject"
  · right
    have hne : str "reject" ≠ str "approve" := by decide
    simp [Request.handle, Request.program, approveRejectLoan, assignedLoan, bankOf, Db.exec,
      Table.locate, Db.atomicUpdateLoan, Db.atomicUpdate, approveRejectLoanModifier,
      Db.commitAt, Table.put, Database.loanTable, hreject, hne]
  · left
    have hmessage : respondIfEmpty (respond
        (str "Invalid action. Use 'approve' or 'reject'."))
        (str "Loan Decision Failed (Loan not found or concurrency error)") ≠
        str "Loan not assigned to you." := by decide
    simpa [Request.handle, Request.program, approveRejectLoan, assignedLoan, bankOf, Db.exec,
      Table.locate, Db.atomicUpdateLoan, Db.atomicUpdate, approveRejectLoanModifier,
      Db.commitAt, Database.loanTable, happrove, hreject] using hmessage

end Files

/-! ### Which operation leaves what open -/

private theorem eq_of_some_singleton {ρ : Type} {r r' : ρ} (h : some [r] = some [r']) : r = r' :=
  List.singleton_inj.mp (Option.some_inj.mp h)

section Open

variable [Strtod Double] {beyond : Bytes} {c : κ} {raw : RawRequest}

private theorem view_open (h : raw.Harmless Double beyond c) {o : Op} (hop : o.name = raw.op.text)
    {request : Nat → Request Double} (hbranch : ∀ id, ∃ locals,
      o.branch locals raw.op.text (raw.scanned beyond) = .call (request id))
    (hdiffer : ((request 1).handle .plain oneCustomer).1.message ≠
      ((request 2).handle .plain oneCustomer).1.message) : False :=
  h.false_of_open hop request .plain oneCustomer 1 2 hbranch
    fun hmessage => absurd hmessage hdiffer

private theorem amount_open (h : raw.Harmless Double beyond c) {o : Op} (hop : o.name = raw.op.text)
    {request : Nat → Double → Request Double}
    (hrequest : request = .deposit ∨ request = .withdraw ∨ request = .applyLoan)
    (hbranch : ∀ locals : Locals Double, o.branch locals raw.op.text (raw.scanned beyond) =
      callWithAmount (raw.scanned beyond) locals request)
    (hmissing : (sscanf (M := Double) [.u, .lf] (raw.scanned beyond)).length ≠ 2) : False := by
  let n := Scanned.unsignedAt (sscanf (M := Double) [.u, .lf] (raw.scanned beyond)) 0 0
  refine h.false_of_open hop (request n) .plain (bankOf n) (.fin 1) (.fin 0)
    (fun amount => ?_) fun _ => ?_
  · refine ⟨{ (Locals.zero : Locals Double) with amount }, ?_⟩
    rw [hbranch, callWithAmount_open hmissing]
    rfl
  · rw [zero_refused _ _ hrequest]
    exact one_accepted _ _ hrequest

private theorem changePassword_open (h : raw.Harmless Double beyond c)
    (hop : Op.changePassword.name = raw.op.text)
    (hnot : ¬ Op.changePassword.Converts Double (raw.scanned beyond)) : False := by
  have hmissing := Nat.lt_succ_iff.mp (Op.length_lt_of_not_converts hnot)
  let n := Scanned.unsignedAt (sscanf (M := Double) [.u, .s] (raw.scanned beyond)) 0 0
  refine h.false_of_open hop (Request.changePassword n) .plain (bankOf n) (str "a") (str "b")
    (fun newpass => ?_) fun _ heq => ?_
  · exact ⟨{ (Locals.zero : Locals Double) with newpass },
      congrArg (fun text => Command.call (.changePassword n text))
        (textAt_missing hmissing newpass)⟩
  · have hne : generatePasswordHash .plain (str "a") (.zero maxPasswordLen) ≠
        generatePasswordHash .plain (str "b") (.zero maxPasswordLen) := by
      decide +kernel
    have husers := congrArg Database.users heq
    rw [changePassword_users, changePassword_users] at husers
    exact hne (congrArg UserRec.passwordHash (eq_of_some_singleton husers))

private theorem changeRole_open (h : raw.Harmless Double beyond c)
    (hop : Op.changeRole.name = raw.op.text)
    (hnot : ¬ Op.changeRole.Converts Double (raw.scanned beyond)) : False := by
  have hmissing := Nat.lt_succ_iff.mp (Op.length_lt_of_not_converts hnot)
  let n := Scanned.unsignedAt (sscanf (M := Double) [.u, .s] (raw.scanned beyond)) 0 0
  refine h.false_of_open hop (Request.changeRole n) .plain (bankOf n) (str "employee")
    (str "manager") (fun role => ?_) fun _ heq => ?_
  · exact ⟨{ (Locals.zero : Locals Double) with role },
      congrArg (fun text => Command.call (.changeRole n text)) (textAt_missing hmissing role)⟩
  · have husers := congrArg Database.users heq
    rw [changeRole_users _ _ (.inl ⟨rfl, rfl⟩), changeRole_users _ _ (.inr ⟨rfl, rfl⟩)] at husers
    have hrole := congrArg UserRec.role (eq_of_some_singleton husers)
    cases hrole

private theorem setAccountStatus_open (h : raw.Harmless Double beyond c)
    (hop : Op.setAccountStatus.name = raw.op.text)
    (hnot : ¬ Op.setAccountStatus.Converts Double (raw.scanned beyond)) : False := by
  have hmissing := Nat.lt_succ_iff.mp (Op.length_lt_of_not_converts hnot)
  let n := Scanned.unsignedAt (sscanf (M := Double) [.u, .u] (raw.scanned beyond)) 0 0
  refine h.false_of_open hop
    (fun status : Nat => Request.setAccountStatus n ((status : Int).bmod (2 ^ 32)))
    .plain (bankOf n) 0 1 (fun status => ?_) fun _ heq => ?_
  · exact ⟨{ (Locals.zero : Locals Double) with status },
      congrArg
        (fun status : Nat => Command.call (.setAccountStatus n ((status : Int).bmod (2 ^ 32))))
        (unsignedAt_missing hmissing status)⟩
  · have haccounts := congrArg Database.accounts heq
    rw [setAccountStatus_accounts, setAccountStatus_accounts] at haccounts
    have hactive := congrArg AccountRec.active
      (eq_of_some_singleton haccounts)
    cases hactive

private theorem assignLoan_open (h : raw.Harmless Double beyond c)
    (hop : Op.assignLoan.name = raw.op.text)
    (hnot : ¬ Op.assignLoan.Converts Double (raw.scanned beyond)) : False := by
  have hmissing := Nat.lt_succ_iff.mp (Op.length_lt_of_not_converts hnot)
  let n := Scanned.unsignedAt (sscanf (M := Double) [.u, .u] (raw.scanned beyond)) 0 0
  refine h.false_of_open hop (Request.assignLoan n) .plain (bankOf n) n (n + 1)
    (fun empId => ?_) fun _ heq => ?_
  · exact ⟨{ (Locals.zero : Locals Double) with empId },
      congrArg (fun id => Command.call (.assignLoan n id)) (unsignedAt_missing hmissing empId)⟩
  · have hloans := congrArg Database.loans heq
    rw [assignLoan_loans, assignLoan_loans, if_pos rfl, if_neg (Nat.succ_ne_self n)] at hloans
    have hstatus := congrArg LoanRec.status (eq_of_some_singleton hloans)
    cases hstatus

private theorem approveRejectLoan_open (h : raw.Harmless Double beyond c)
    (hop : Op.approveRejectLoan.name = raw.op.text)
    (hnot : ¬ Op.approveRejectLoan.Converts Double (raw.scanned beyond)) : False := by
  have hmissing := Nat.lt_succ_iff.mp (Op.length_lt_of_not_converts hnot)
  let values := sscanf (M := Double) [.llu, .s, .u] (raw.scanned beyond)
  let n := Scanned.unsignedAt values 0 0
  let action := Scanned.textAt values 1 []
  obtain ⟨hmessage, hdb⟩ := approveRejectLoan_other .plain n action
  refine h.false_of_open hop (Request.approveRejectLoan n action) .plain (assignedLoan n) 1 2
    (fun empId => ?_) fun hsame heq => ?_
  · exact ⟨{ (Locals.zero : Locals Double) with empId },
      congrArg (fun id => Command.call (.approveRejectLoan n action id))
        (unsignedAt_missing hmissing empId)⟩
  · rw [hmessage] at hsame
    rw [hdb] at heq
    rcases approveRejectLoan_own .plain n action with hown | hown
    · exact hown hsame
    · exact hown heq

private theorem modifyUser_open (h : raw.Harmless Double beyond c)
    (hop : Op.modifyUser.name = raw.op.text)
    (hsix : (sscanf (M := Double) [.u, .d, .s, .s, .s, .s, .s] (raw.scanned beyond)).length = 6) :
    False := by
  let values := sscanf (M := Double) [.u, .d, .s, .s, .s, .s, .s] (raw.scanned beyond)
  let n := Scanned.unsignedAt values 0 0
  let d := detailsAt values (Locals.zero : Locals Double)
  refine h.false_of_open hop (fun phone => Request.modifyUser n { d with phone }) .plain
    (bankOf n) (str "1") (str "2") (fun phone => ?_) fun _ heq => ?_
  · refine ⟨{ (Locals.zero : Locals Double) with phone }, ?_⟩
    have hphone : Scanned.textAt values 6 phone = phone := textAt_missing (Nat.le_of_eq hsix) phone
    exact (if_pos hsix).trans
      (congrArg (fun text => Command.call (.modifyUser n { d with phone := text })) hphone)
  · have hne : (CharArray.zero maxPhoneLen).strncpy (str "1") ≠
        (CharArray.zero maxPhoneLen).strncpy (str "2") := by
      decide +kernel
    have husers := congrArg Database.users heq
    rw [modifyUser_users, modifyUser_users] at husers
    exact hne (congrArg UserRec.phone (eq_of_some_singleton husers))

/-- Memory without a NUL where the name will be. -/
def dirtyUser : UserRec := { UserRec.zero with
  username := ⟨List.replicate maxUsernameLen 1, List.length_replicate⟩ }

private theorem addCustomer_open (h : raw.Harmless Double beyond c)
    (hop : Op.addCustomer.name = raw.op.text)
    (height : (sscanf (M := Double) [.s, .s, .d, .s, .s, .s, .s, .s]
      (raw.scanned beyond)).length = 8) : False := by
  let values := sscanf (M := Double) [.s, .s, .d, .s, .s, .s, .s, .s] (raw.scanned beyond)
  let added (user : UserRec) : Request Double :=
    .addCustomer (newUser values { (Locals.zero : Locals Double) with user })
      (Scanned.textAt values 6 []) (Scanned.textAt values 7 [])
  refine h.false_of_open hop added .plain (Database.empty fun _ => 0) .zero dirtyUser
    (fun user => ?_) fun _ heq => ?_
  · exact ⟨{ (Locals.zero : Locals Double) with user }, if_pos height⟩
  · have husers := congrArg Database.users heq
    rw [addCustomer_users, addCustomer_users] at husers
    have husername := congrArg UserRec.username
      (eq_of_some_singleton husers)
    have hlast := congrArg (fun array => array.bytes.drop (maxUsernameLen - 1)) husername
    simp only [newCustomer, newUser, CharArray.drop_strncpy] at hlast
    exact absurd hlast (by decide)

private theorem scanned_name {payload : Bytes} (hpayload : ∀ b ∈ payload, b ≠ 0)
    (hfits : (Scanned.textAt (sscanf (M := Double) [.s, .s] payload) 0 []).length ≤
      maxUsernameLen - 1) :
    cstr (Scanned.textAt (sscanf (M := Double) [.s, .s] payload) 0 (str "a")) =
      Scanned.textAt (sscanf (M := Double) [.s, .s] payload) 0 (str "a") ∧
    (Scanned.textAt (sscanf (M := Double) [.s, .s] payload) 0 (str "a")).length ≤
      maxUsernameLen := by
  rw [textAt_first] at hfits ⊢
  split
  · decide
  · next htoken =>
      rw [if_neg htoken] at hfits
      exact ⟨cstr_firstToken hpayload, Nat.le_trans hfits (Nat.sub_le _ _)⟩

def loneUser (user : UserRec) : Database Double :=
  { Database.empty fun _ => 0 with users := some [user] }

/-- A user with the given name and password, and a first name of the greatest length. -/
def longNamed (username : CharArray maxUsernameLen) (password : Bytes) : UserRec :=
  { member 0 with
    username
    passwordHash := generatePasswordHash .cut password (.zero _)
    firstName := .ofText (List.replicate 63 65) }

omit [Strtod Double] in
private theorem loginUser_longNamed {username : CharArray maxUsernameLen} {name : Bytes}
    (hname : username.text = cstr name) (password : Bytes) :
    ((loginUser .cut name password).run Db.exec (loneUser (longNamed username password))).1 =
      .success ⟨1001, str "employee", List.replicate 63 65⟩ := by
  have hverified : verifyPassword .cut password (longNamed username password).passwordHash.text =
      true :=
    (Env.cut_hashes.verify_iff (Env.cut_hashes.text_generate password (.zero _)) password).mpr rfl
  have hfound : (loneUser (longNamed username password)).userTable.find?
      (fun user => user.username.text = cstr name) = some (longNamed username password) :=
    List.find?_cons_of_pos (decide_eq_true hname)
  have hactive : ¬ ((longNamed username password).active = .inactive ∨
      (Table.lookup AccountRec.userId (longNamed username password).userId
        (loneUser (longNamed username password)).accountTable).any
          (fun acc => acc.active = .inactive)) := by
    simp [loneUser, longNamed, member, Database.empty, Database.accountTable, Table.lookup]
  have hfirst : (.ofText (List.replicate 63 65) : CharArray maxFnameLen).text =
      List.replicate 63 65 := by decide +kernel
  rw [loginUser_of_found .cut hfound, if_pos hverified, if_neg hactive, longNamed]
  simp only [hfirst]
  rfl

def nameEnding (last : UInt8) : Locals Double :=
  { Locals.zero with
    username := str "a"
    password := str "p"
    name := ⟨List.replicate 63 0 ++ [last], by simp [maxFnameLen]⟩ }

private theorem login_open (h : raw.Harmless Double beyond c) (hop : Op.login.name = raw.op.text) :
    False := by
  have hfits := h.contained (Database.empty fun _ => 0) Locals.zero .login hop
  have hzero : ∀ b ∈ raw.scanned beyond, b ≠ 0 := cstr_ne_zero
  obtain ⟨hcstr, hlength⟩ := scanned_name hzero (hfits 0 maxUsernameLen rfl (Nat.zero_le _)).2
  -- the user has the name and the password that are read, whatever they are
  let values := sscanf (M := Double) [.s, .s] (raw.scanned beyond)
  let user := longNamed (.padded _ hlength) (Scanned.textAt values 1 (str "p"))
  let s : ServerState κ Double := .init (loneUser user)
  have hlogin := loginUser_longNamed
    ((CharArray.text_padded hlength hcstr).trans hcstr.symm) (Scanned.textAt values 1 (str "p"))
  have hnew : 1001 ∉ s.activeSessions := by
    change 1001 ∉ List.replicate maxClients 0
    decide
  have hresponse := (h.determined .cut s [] (nameEnding 0) (nameEnding 88) _ _
    (fun _ => rfl) fun _ => rfl).1
  rw [serveRequest_login hop, serveRequest_login hop,
    handleLogin_success hlogin hnew, handleLogin_success hlogin hnew] at hresponse
  exact absurd hresponse (by decide +kernel)

end Open

theorem RawRequest.Harmless.settled [Strtod Double] {beyond : Bytes} {c : κ} {raw : RawRequest}
    (h : raw.Harmless Double beyond c) : raw.Settled Double beyond := by
  refine ⟨h.contained (Database.empty fun _ => 0) Locals.zero, ?_⟩
  intro o hop
  by_contra hnot
  cases o with
  | logout | processLoans | viewNonAssignedLoans | reviewFeedback | listUsers =>
      exact hnot rfl
  | transfer | addFeedback | modifyCustomer | addEmployee => exact hnot trivial
  | viewBalance =>
      exact view_open h hop (fun id => ⟨{ Locals.zero with userId := id },
        callWithId_open hnot id .viewBalance⟩) (by decide +kernel)
  | viewLoan =>
      exact view_open h hop (fun id => ⟨{ Locals.zero with userId := id },
        callWithId_open hnot id .viewLoan⟩) (by decide +kernel)
  | viewFeedback =>
      exact view_open h hop (fun id => ⟨{ Locals.zero with userId := id },
        callWithId_open hnot id .viewFeedback⟩) (by decide +kernel)
  | viewTransactions =>
      exact view_open h hop (fun id => ⟨{ Locals.zero with userId := id },
        callWithId_open hnot id .viewTransactions⟩) (by decide +kernel)
  | viewDetails =>
      exact view_open h hop (fun id => ⟨{ Locals.zero with userId := id },
        callWithId_open hnot id .viewDetails⟩) (by decide +kernel)
  | viewAssignedLoans =>
      exact view_open h hop (fun id => ⟨{ Locals.zero with empId := id },
        callWithId_open hnot id .viewAssignedLoans⟩) (by decide +kernel)
  | viewCustTransactions =>
      exact view_open h hop (fun id => ⟨{ Locals.zero with custId := id },
        callWithId_open hnot id .viewCustTransactions⟩) (by decide +kernel)
  | deposit => exact amount_open h hop (.inl rfl) (fun _ => rfl) hnot
  | withdraw => exact amount_open h hop (.inr (.inl rfl)) (fun _ => rfl) hnot
  | applyLoan => exact amount_open h hop (.inr (.inr rfl)) (fun _ => rfl) hnot
  | changePassword => exact changePassword_open h hop hnot
  | changeRole => exact changeRole_open h hop hnot
  | setAccountStatus => exact setAccountStatus_open h hop hnot
  | assignLoan => exact assignLoan_open h hop hnot
  | approveRejectLoan => exact approveRejectLoan_open h hop hnot
  | addCustomer => exact addCustomer_open h hop (not_not.mp hnot)
  | modifyUser => exact modifyUser_open h hop (not_not.mp hnot)
  | login => exact login_open h hop

def noNewPassword : RawRequest := .ofText (str "CHANGE_PASSWORD") (str "1001")

@[reducible]
def decimalDouble : Strtod Double :=
  ⟨fun text => (decimalStrtod text).map fun scanned => (.fin scanned.1, scanned.2)⟩

end BankingSystem
