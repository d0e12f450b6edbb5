import BankingSystem.Requests.Acceptance
import BankingSystem.Server.Malformed

/-!
# The status code of a response

`response_t` documents 0 as success and anything else as an error.  The handler sets
the code to 0 first and to 1 where it compares the count of a scan; it does not look at
the result of the call.
-/

namespace BankingSystem

open Foundation

variable {κ M : Type} [DecidableEq κ] [Amount M] [Strtod M]

def LogsIn (env : Env) (locals : Locals M) (c : κ) (raw : RawRequest) (s : ServerState κ M) :
    Prop :=
  ∃ login, loginOf env locals raw s.db = some login ∧ login.userId ∉ s.activeSessions ∧
    login.userId ∈ (handleRequest env locals c raw s).2.activeSessions

structure CodeTells (env : Env) (locals : Locals M) (c : κ) (raw : RawRequest)
    (s : ServerState κ M) : Prop where
  call : ∀ request, dispatch locals raw.op.text raw.payload.text = .call request →
    ((handleRequest env locals c raw s).1.statusCode = 0 ↔
      (request.handle env s.db).1.result = true)
  login : raw.op.text = str "LOGIN" →
    ((handleRequest env locals c raw s).1.statusCode = 0 ↔ LogsIn env locals c raw s)
  unknown : (∀ o : Op, o.name ≠ raw.op.text) →
    (handleRequest env locals c raw s).1.statusCode ≠ 0
  unparsable : ∀ o : Op, o.name = raw.op.text → ¬ o.Converts M raw.payload.text →
    (handleRequest env locals c raw s).1.statusCode ≠ 0

/-- The payload converts, unless the branch compares the count and refuses it. -/
def Op.Parsed (M : Type) [Strtod M] (payload : Bytes) : Op → Prop
  | .transfer | .addFeedback | .addCustomer | .modifyCustomer | .addEmployee => True
  -- the seven conversions are compared with 6
  | .modifyUser => (sscanf (M := M) Op.modifyUser.format payload).length ≠ 6
  | o => o.Converts M payload

/-- Nothing goes wrong that the handler does not put into the code. -/
structure CodeFits (env : Env) (locals : Locals M) (raw : RawRequest) (s : ServerState κ M) :
    Prop where
  parsed : ∃ o : Op, o.name = raw.op.text ∧ o.Parsed M raw.payload.text
  accepted : ∀ request, dispatch locals raw.op.text raw.payload.text = .call request →
    request.Accepted env s.db
  enters : ∀ username password,
    dispatch locals raw.op.text raw.payload.text = .login username password →
    ∃ user, s.db.tables.Admits env username password user ∧
      user.userId ∉ s.activeSessions ∧ 0 ∈ s.activeSessions

/-! ## Where the code is set -/

omit [Strtod M] in
private theorem statusCode_eq_zero_iff (env : Env) (c : κ) (s : ServerState κ M)
    (command : Command M) :
    (command.handle env c s).1.statusCode = 0 ↔ ∀ op, command ≠ .invalidPayload op := by
  cases command with
  | logout | call | unknown => simp [Command.handle, Response.ok]
  | invalidPayload op => simp [Command.handle]
  | login username password =>
      simp only [Command.handle, ne_eq, reduceCtorEq, not_false_eq_true, implies_true, iff_true]
      cases ((loginUser env username password).run Db.exec s.db).1 with
      | failed | deactivated => rfl
      | success login =>
          simp only [ServerState.enter]
          split <;> rfl

omit [Amount M] in
private theorem branch_refuses_iff (o : Op) (locals : Locals M) (op payload : Bytes) :
    (∃ text, o.branch locals op payload = .invalidPayload text) ↔
      o.Parsed M payload ∧ (o = .modifyUser ∨ ¬ o.Converts M payload) := by
  cases o with
  | transfer | addFeedback | addCustomer | modifyCustomer | addEmployee =>
      simp only [Op.branch, Op.Parsed, true_and, reduceCtorEq, false_or]
      rw [Op.Converts]
      split
      case isTrue hall => exact iff_of_false (by simp) (not_not_intro hall)
      case isFalse hnot => exact iff_of_true ⟨op, rfl⟩ hnot
  | modifyUser =>
      simp only [Op.branch, Op.Parsed, true_or, and_true]
      split
      case isTrue hsix => exact iff_of_false (by simp) (not_not_intro hsix)
      case isFalse hnot => exact iff_of_true ⟨op, rfl⟩ hnot
  | login | logout | changePassword | viewBalance | deposit | withdraw | applyLoan | viewLoan
  | viewFeedback | viewTransactions | viewDetails | processLoans | approveRejectLoan
  | viewAssignedLoans | viewCustTransactions | setAccountStatus | viewNonAssignedLoans
  | assignLoan | reviewFeedback | listUsers | changeRole =>
      simp [Op.branch, callWithId, callWithAmount, Op.Parsed]

section Handled

variable {env : Env} {locals : Locals M} {c : κ} {raw : RawRequest} {s : ServerState κ M}

private theorem handled_zero_iff {o : Op} (hop : o.name = raw.op.text) :
    (handleRequest env locals c raw s).1.statusCode = 0 ↔
      ¬ (o.Parsed M raw.payload.text ∧ (o = .modifyUser ∨ ¬ o.Converts M raw.payload.text)) := by
  rw [handleRequest_op hop, statusCode_eq_zero_iff,
    ← branch_refuses_iff o locals raw.op.text raw.payload.text, not_exists]

private theorem zero_of_call {request : Request M}
    (h : dispatch locals raw.op.text raw.payload.text = .call request) :
    (handleRequest env locals c raw s).1.statusCode = 0 := by
  rw [handleRequest, h]
  rfl

private theorem zero_of_login (hop : raw.op.text = str "LOGIN") :
    (handleRequest env locals c raw s).1.statusCode = 0 := by
  obtain ⟨username, password, hlogin⟩ := dispatch_login locals hop
  rw [handleRequest, hlogin, statusCode_eq_zero_iff]
  simp

private theorem zero_of_not_parsed {o : Op} (hop : o.name = raw.op.text)
    (h : ¬ o.Parsed M raw.payload.text) :
    (handleRequest env locals c raw s).1.statusCode = 0 :=
  (handled_zero_iff hop).mpr fun hrefused => h hrefused.1

/-! ## Logging in -/

omit [DecidableEq κ] in
private theorem loginOf_iff {username password : Bytes} {db : Database M} {login : Login}
    (hdispatch : dispatch locals raw.op.text raw.payload.text = .login username password) :
    loginOf env locals raw db = some login ↔
      ∃ user, db.tables.Admits env username password user ∧ login = user.login := by
  rw [← loginUser_success_iff, loginOf, hdispatch]
  cases hresult : ((loginUser env username password).run Db.exec db).1 with
  | failed | deactivated => simp [hresult]
  | success accepted => simp [hresult]

private theorem logsIn_iff {username password : Bytes}
    (hdispatch : dispatch locals raw.op.text raw.payload.text = .login username password) :
    LogsIn env locals c raw s ↔ ∃ user, s.db.tables.Admits env username password user ∧
      user.userId ∉ s.activeSessions ∧ 0 ∈ s.activeSessions := by
  constructor
  · rintro ⟨login, hlogin, hnew, hentered⟩
    obtain ⟨user, hadmits, rfl⟩ := (loginOf_iff hdispatch).mp hlogin
    refine ⟨user, hadmits, hnew, ?_⟩
    by_contra hfull
    rw [handleRequest_accepted hlogin, enter_untracked hnew hfull] at hentered
    exact hnew hentered
  · rintro ⟨user, hadmits, hnew, hfree⟩
    have hlogin : loginOf env locals raw s.db = some user.login :=
      (loginOf_iff hdispatch).mpr ⟨user, hadmits, rfl⟩
    obtain ⟨table, htable⟩ := exists_replaceFirst hfree user.login.userId
    refine ⟨user.login, hlogin, hnew, ?_⟩
    rw [handleRequest_accepted hlogin, enter_tracked hnew htable]
    obtain ⟨before, after, -, rfl⟩ := replaceFirst_eq_some htable
    exact List.mem_append_right _ List.mem_cons_self

/-! ## When the code tells the outcome -/

theorem CodeTells.fits (h : CodeTells env locals c raw s) : CodeFits env locals raw s := by
  constructor
  · have hknown : ∃ o : Op, o.name = raw.op.text := by
      by_contra hnone
      rw [not_exists] at hnone
      refine h.unknown hnone ?_
      rw [handleRequest, dispatch_eq_route, route_of_no_op hnone]
      rfl
    obtain ⟨o, hop⟩ := hknown
    refine ⟨o, hop, ?_⟩
    by_contra hparsed
    have hnot : ¬ o.Converts M raw.payload.text := by
      intro hconverts
      refine hparsed ?_
      cases o with
      | transfer | addFeedback | addCustomer | modifyCustomer | addEmployee => trivial
      | modifyUser =>
          intro hsix
          rw [Op.Converts, hsix] at hconverts
          cases hconverts
      | _ => exact hconverts
    exact h.unparsable o hop hnot (zero_of_not_parsed hop hparsed)
  · intro request hcall
    have hresult := (h.call request hcall).mp (zero_of_call hcall)
    exact (Request.handle_result_iff env request s.db).mp hresult
  · intro username password hdispatch
    have hop : raw.op.text = str "LOGIN" := by
      have hsession : (dispatch locals raw.op.text raw.payload.text).IsSession := by
        rw [hdispatch]
        trivial
      rcases (dispatch_isSession_iff locals _ _).mp hsession with hop | hop
      · exact hop
      · rw [dispatch_logout hop] at hdispatch
        cases hdispatch
    exact (logsIn_iff hdispatch).mp ((h.login hop).mp (zero_of_login hop))

private theorem CodeFits.tells (h : CodeFits env locals raw s) : CodeTells env locals c raw s := by
  obtain ⟨o, hop, hparsed⟩ := h.parsed
  constructor
  · intro request hcall
    exact iff_of_true (zero_of_call hcall)
      ((Request.handle_result_iff env request s.db).mpr (h.accepted request hcall))
  · intro hlogin
    obtain ⟨username, password, hdispatch⟩ := dispatch_login locals hlogin
    exact iff_of_true (zero_of_login hlogin)
      ((logsIn_iff hdispatch).mpr (h.enters username password hdispatch))
  · exact fun hunknown => absurd hop (hunknown o)
  · intro o' hop' hnot hzero
    obtain rfl : o' = o := Op.name_injective (hop'.trans hop.symm)
    exact (handled_zero_iff hop).mp hzero ⟨hparsed, .inr hnot⟩

end Handled

/--
At any time after the start of the server the code of a response tells the outcome exactly
when the request is known and parsed, and nothing refuses it.
-/
theorem status_code_tells_iff (env : Env) (db : Database M) (events : List (Event κ M)) (c : κ)
    (locals : Locals M) (raw : RawRequest) :
    CodeTells env locals c raw ((ServerState.init db).run env events) ↔
      CodeFits env locals raw ((ServerState.init db).run env events) :=
  ⟨CodeTells.fits, CodeFits.tells⟩

/-- `Withdrawal Failed: Account not found`, with the code of a success. -/
theorem refusal_coded_success :
    ¬ ∀ (db : Database ℚ) (events : List (Event Unit ℚ)) (c : Unit) (locals : Locals ℚ)
      (raw : RawRequest),
      CodeTells .plain locals c raw ((ServerState.init db).run .plain events) := by
  intro h
  have htells := h (Database.empty fun _ => 1) [.connect ()] () .zero
    (.ofText (str "WITHDRAW") (str "1001 5"))
  have hcall : dispatch (Locals.zero (M := ℚ)) (RawRequest.ofText (str "WITHDRAW")
      (str "1001 5")).op.text (RawRequest.ofText (str "WITHDRAW") (str "1001 5")).payload.text =
      .call (.withdraw 1001 5) := by
    decide +kernel
  have hresult := (htells.call _ hcall).mp (zero_of_call hcall)
  revert hresult
  decide +kernel

end BankingSystem
