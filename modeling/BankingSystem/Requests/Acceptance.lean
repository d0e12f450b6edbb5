import BankingSystem.Requests.Refinement

/-!
# When a request is accepted

Every refusal of a module function, read off the files before the request.  The function
returns 1 exactly where none of them applies.
-/

namespace BankingSystem

open Foundation

variable {M : Type} [Amount M] {times : Set Time}

namespace Tables

variable (t : Tables M)

def HasUser (userId : Nat) : Prop :=
  ∃ user, Table.lookup UserRec.userId userId t.users = some user

def HasUserAs (role : Role) (userId : Nat) : Prop :=
  ∃ user, Table.lookup UserRec.userId userId t.users = some user ∧ user.role = role

def HasAccount (userId : Nat) : Prop :=
  ∃ acc, Table.lookup AccountRec.userId userId t.accounts = some acc

def Covers (userId : Nat) (amount : M) : Prop :=
  ∃ acc, Table.lookup AccountRec.userId userId t.accounts = some acc ∧
    acc.active = .active ∧ ¬ acc.balance < amount

/-- `login_user` finds the user by the name, verifies the password and sees nothing deactivated. -/
structure Admits (env : Env) (username password : Bytes) (user : UserRec) : Prop where
  found : t.users.find? (fun user => user.username.text = cstr username) = some user
  verified : verifyPassword env password user.passwordHash.text = true
  active : user.active = .active
  account : ∀ acc, Table.lookup AccountRec.userId user.userId t.accounts = some acc →
    acc.active = .active

end Tables

def Request.Accepted (env : Env) (db : Database M) : Request M → Prop
  | login username password => ∃ user, db.tables.Admits env username password user
  | changePassword userId _ | viewDetails userId => db.tables.HasUser userId
  | viewBalance userId | setAccountStatus userId _ => db.tables.HasAccount userId
  | deposit userId amount => ¬ amount ≤ 0 ∧ db.tables.hasActive userId
  | withdraw userId amount => ¬ amount ≤ 0 ∧ db.tables.Covers userId amount
  | transfer fromId toId amount =>
      fromId ≠ toId ∧ ¬ amount ≤ 0 ∧ db.tables.hasActive toId ∧ db.tables.Covers fromId amount
  | applyLoan _ amount => ¬ amount ≤ 0
  | addFeedback _ _ => True
  | viewLoan _ | viewAssignedLoans _ | processLoans | viewNonAssignedLoans => db.loans ≠ none
  | viewFeedback _ | reviewFeedback => db.feedback ≠ none
  | viewTransactions _ => db.transactions ≠ none
  | viewCustTransactions custId =>
      db.tables.HasUserAs .customer custId ∧ db.transactions ≠ none
  | listUsers => db.users ≠ none
  | addCustomer user username _ => db.tables.unique username user.email.text user.phone.text 0
  | addEmployee d roleStr username _ =>
      db.tables.unique username d.email d.phone 0 ∧ staffRole roleStr ≠ none
  | modifyCustomer userId d =>
      ∃ user, Table.lookup UserRec.userId userId db.userTable = some user ∧
        user.role = .customer ∧ db.tables.unique user.username.text d.email d.phone user.userId
  | modifyUser userId d =>
      ∃ user, Table.lookup UserRec.userId userId db.userTable = some user ∧
        db.tables.unique user.username.text d.email d.phone user.userId
  | changeRole userId roleStr =>
      ∃ user, Table.lookup UserRec.userId userId db.userTable = some user ∧
        user.role ≠ .customer ∧ user.role ≠ .admin ∧
        (roleStr = str "employee" ∨ roleStr = str "manager")
  | assignLoan loanId empId =>
      ∃ loan, Table.lookup LoanRec.loanId loanId db.loanTable = some loan ∧
        loan.status = .pending ∧ db.tables.HasUserAs .employee empId
  | approveRejectLoan loanId action empId =>
      ∃ loan, Table.lookup LoanRec.loanId loanId db.loanTable = some loan ∧
        loan.status = .assigned ∧ loan.assignedTo = empId ∧
        (action = str "approve" ∧ db.tables.hasActive loan.userId ∨ action = str "reject")

/-- What serves a login answers 1 for each result of `login_user` but two. -/
private theorem Request.handle_login (env : Env) (username password : Bytes) (db : Database M) :
    ((login username password).handle env db).1.result = true ↔
      ((loginUser env username password).run Db.exec db).1 ≠ .failed ∧
        ((loginUser env username password).run Db.exec db).1 ≠ .deactivated := by
  simp only [handle, program, Prog.run_bind, Prog.pure_eq, Prog.run_ret, decide_eq_true_eq]

/-! ## Programs that answer -/

/-- The program returns 1 if and only if the condition holds. -/
def Answers (times : Set Time) (t : Tables M) (program : Prog (Db M) Reply) (P : Prop) : Prop :=
  Yields times t program fun reply _ => reply.result = true ↔ P

namespace Answers

variable {t : Tables M} {P : Prop} {reply : Reply}

private theorem yes (hreply : reply.result = true) (h : P) : Answers times t (.ret reply) P :=
  .ret (iff_of_true hreply h)

private theorem no (hreply : reply.result = false) (h : ¬ P) : Answers times t (.ret reply) P :=
  .ret (iff_of_false (by rw [hreply]; exact Bool.false_ne_true) h)

/-! ### Updates -/

def KeepsResult (times : Set Time) (f : Reply → Prog (Db M) Reply) : Prop :=
  ∀ reply t, Yields times t (f reply) fun reply' _ => reply'.result = reply.result

theorem KeepsResult.answers {f : Reply → Prog (Db M) Reply} (h : KeepsResult times f)
    (hiff : reply.result = true ↔ P) : Answers times t (f reply) P :=
  (h reply t).imp fun _ _ hsame => by rw [hsame]; exact hiff

private theorem keepsResult_overwrite {failed : Reply → Reply}
    (hfailed : ∀ reply, (failed reply).result = false) :
    KeepsResult (M := M) times fun reply => if reply.result then pure reply
      else pure (failed reply) := by
  rintro ⟨result, message⟩ t
  cases result
  · exact .ret (hfailed _)
  · exact .ret rfl

private theorem updateUser {userId : Nat} {respMsg : Bytes} {Q : UserRec → Prop}
    {modifier : UserRec → Prog (Db M) (Option UserRec × Bytes)} {f : Reply → Prog (Db M) Reply}
    (hf : KeepsResult times f)
    (hmodifier : ∀ i user, t.userAt userId i user →
      Yields times t (modifier user) fun out _ => out.1.isSome = true ↔ Q user) :
    Answers times t (Db.atomicUpdateUser userId modifier respMsg >>= f)
      (∃ user, Table.lookup UserRec.userId userId t.users = some user ∧ Q user) := by
  refine .bind (.atomicUpdateUser (fun hmissing => ?_) fun i user huser => ?_)
  · exact hf.answers (by simp [Table.lookup_of_locate_none hmissing])
  · have hlookup : Table.lookup UserRec.userId userId t.users = some user := by
      rw [Table.lookup_of_locate huser.1, huser.2]
    refine (hmodifier i user huser).imp ?_
    rintro ⟨updated, text⟩ t' hiff
    cases updated <;> exact hf.answers (by simpa [hlookup] using hiff)

private theorem updateLoan {loanId : Nat} {respMsg : Bytes} {Q : LoanRec M → Prop}
    {modifier : LoanRec M → Prog (Db M) (Option (LoanRec M) × Bytes)}
    {f : Reply → Prog (Db M) Reply} (hf : KeepsResult times f)
    (hmodifier : ∀ i loan, t.loanAt loanId i loan →
      Yields times t (modifier loan) fun out _ => out.1.isSome = true ↔ Q loan) :
    Answers times t (Db.atomicUpdateLoan loanId modifier respMsg >>= f)
      (∃ loan, Table.lookup LoanRec.loanId loanId t.loans = some loan ∧ Q loan) := by
  refine .bind (.atomicUpdateLoan (fun hmissing => ?_) fun i loan hloan => ?_)
  · exact hf.answers (by simp [Table.lookup_of_locate_none hmissing])
  · have hlookup : Table.lookup LoanRec.loanId loanId t.loans = some loan := by
      rw [Table.lookup_of_locate hloan.1, hloan.2]
    refine (hmodifier i loan hloan).imp ?_
    rintro ⟨updated, text⟩ t' hiff
    cases updated <;> exact hf.answers (by simpa [hlookup] using hiff)

/-! ### Accounts -/

omit [Amount M] in
private theorem hasActive_iff {userId : Nat} {acc : AccountRec M}
    (h : Table.lookup AccountRec.userId userId t.accounts = some acc) :
    t.hasActive userId ↔ acc.active = .active := by
  simp [Tables.hasActive, h]

private theorem covers_of_withdraw {userId : Nat} {amount : M} {t' : Tables M}
    (h : t.updateAccount userId (.withdraw amount) = some t') : t.Covers userId amount := by
  obtain ⟨acc, acc', happly, hreplaced⟩ := Tables.updateAccount_replaced h
  obtain ⟨hactive, hcovers, -⟩ := withdrawModifier_eq_some_iff.mp happly
  exact ⟨acc, hreplaced.before, hactive, hcovers⟩

private theorem not_covers_of_withdraw {userId : Nat} {amount : M}
    (h : t.updateAccount userId (.withdraw amount) = none) : ¬ t.Covers userId amount := by
  rintro ⟨acc, hlookup, hactive, hcovers⟩
  have hnone := Tables.updateAccount_eq_none_iff.mp h acc hlookup
  rw [show (AccountModifier.withdraw amount).apply acc =
    some { acc with balance := acc.balance - amount } from
      withdrawModifier_eq_some_iff.mpr ⟨hactive, hcovers, rfl⟩] at hnone
  cases hnone

private theorem not_hasActive_of_deposit {userId : Nat} {amount : M}
    (h : t.updateAccount userId (.deposit amount) = none) : ¬ t.hasActive userId := by
  intro hactive
  obtain ⟨t', hsome⟩ := Tables.deposit_of_hasActive amount hactive
  rw [hsome] at h
  cases h

theorem of_depositMoney (userId : Nat) (amount : M) :
    Answers times t (depositMoney userId amount) (¬ amount ≤ 0 ∧ t.hasActive userId) := by
  unfold depositMoney
  by_cases hpos : amount ≤ 0
  · rw [if_pos hpos]
    exact no rfl fun h => h.1 hpos
  · rw [if_neg hpos]
    refine .atomicUpdateAccount (fun hnone => ?_) fun t' hsome => ?_
    · have hrefused : ¬ (¬ amount ≤ 0 ∧ t.hasActive userId) :=
        fun h => not_hasActive_of_deposit hnone h.2
      refine .readAccount ?_
      split
      · split <;> exact no rfl hrefused
      · exact no rfl hrefused
    · exact .time fun now _ => .appendTransaction
        (yes rfl ⟨hpos, Tables.hasActive_of_deposit hsome⟩)

theorem of_withdrawMoney (userId : Nat) (amount : M) :
    Answers times t (withdrawMoney userId amount) (¬ amount ≤ 0 ∧ t.Covers userId amount) := by
  unfold withdrawMoney
  by_cases hpos : amount ≤ 0
  · rw [if_pos hpos]
    exact no rfl fun h => h.1 hpos
  · rw [if_neg hpos]
    refine .atomicUpdateAccount (fun hnone => ?_) fun t' hsome => ?_
    · exact .readAccount (no rfl fun h => not_covers_of_withdraw hnone h.2)
    · exact .time fun now _ => .appendTransaction (yes rfl ⟨hpos, covers_of_withdraw hsome⟩)

theorem of_transferFunds (fromId toId : Nat) (amount : M) :
    Answers times t (transferFunds fromId toId amount)
      (fromId ≠ toId ∧ ¬ amount ≤ 0 ∧ t.hasActive toId ∧ t.Covers fromId amount) := by
  unfold transferFunds
  by_cases hne : fromId = toId
  · rw [if_pos hne]
    exact no rfl fun h => h.1 hne
  by_cases hpos : amount ≤ 0
  · rw [if_neg hne, if_pos hpos]
    exact no rfl fun h => h.2.1 hpos
  rw [if_neg hne, if_neg hpos]
  refine .readAccount ?_
  cases hlookup : Table.lookup AccountRec.userId toId t.accounts with
  | none =>
      refine no rfl ?_
      rintro ⟨-, -, ⟨acc, hacc, -⟩, -⟩
      rw [hlookup] at hacc
      cases hacc
  | some toAcc =>
      by_cases hinactive : toAcc.active = .inactive
      · simp only [Option.all_some, hinactive, decide_true, if_true]
        refine no rfl ?_
        rintro ⟨-, -, hactive, -⟩
        rw [hasActive_iff hlookup, hinactive] at hactive
        cases hactive
      · have hactive := Status.ne_inactive_iff.mp hinactive
        simp only [Option.all_some, hinactive, decide_false, Bool.false_eq_true, if_false]
        refine .atomicUpdateAccount (fun hnone => ?_) fun t₁ hfrom => ?_
        · exact .readAccount (no rfl fun h => not_covers_of_withdraw hnone h.2.2.2)
        · refine .atomicUpdateAccount (fun hnone => ?_) fun t₂ hto => ?_
          · obtain ⟨_, _, -, hreplaced⟩ := Tables.updateAccount_replaced hfrom
            refine absurd ⟨toAcc, ?_, hactive⟩ (not_hasActive_of_deposit hnone)
            rwa [hreplaced.others toId (Ne.symm hne)]
          · refine .time fun now _ => .appendTransaction (.appendTransaction ?_)
            exact yes rfl ⟨hne, hpos, (hasActive_iff hlookup).mpr hactive,
              covers_of_withdraw hfrom⟩

/-! ### Loans -/

theorem of_approveRejectLoan (loanId : Nat) (action : Bytes) (empId : Nat) :
    Answers times t (approveRejectLoan loanId action empId [])
      (∃ loan, Table.lookup LoanRec.loanId loanId t.loans = some loan ∧
        loan.status = .assigned ∧ loan.assignedTo = empId ∧
        (action = str "approve" ∧ t.hasActive loan.userId ∨ action = str "reject")) := by
  refine updateLoan (keepsResult_overwrite fun _ => rfl) fun i loan hloan => ?_
  have hreject : str "reject" ≠ str "approve" := by decide
  unfold approveRejectLoanModifier
  by_cases hassigned : loan.status = .assigned
  · rw [if_neg (not_not_intro hassigned)]
    by_cases hemp : loan.assignedTo = empId
    · rw [if_neg (not_not_intro hemp)]
      by_cases happrove : action = str "approve"
      · subst happrove
        rw [if_pos rfl]
        refine .readAccount ?_
        cases hlookup : Table.lookup AccountRec.userId loan.userId t.accounts with
        | none => exact .ret (by simp [Tables.hasActive, hlookup, hreject.symm])
        | some acc =>
            by_cases hinactive : acc.active = .inactive
            · simp only [Option.all_some, hinactive, decide_true, if_true]
              exact .ret (by simp [hasActive_iff hlookup, hinactive, hreject.symm])
            · have hactive := (hasActive_iff hlookup).mpr (Status.ne_inactive_iff.mp hinactive)
              simp only [Option.all_some, hinactive, decide_false, Bool.false_eq_true, if_false]
              refine .atomicUpdateAccount (fun hnone => ?_) fun t' _ => ?_
              · exact absurd hactive (not_hasActive_of_deposit hnone)
              · refine .time fun logged _ => .appendTransaction (.time fun now _ => ?_)
                exact .ret (iff_of_true rfl ⟨hassigned, hemp, .inl ⟨trivial, hactive⟩⟩)
      · rw [if_neg happrove]
        by_cases hreject : action = str "reject"
        · rw [if_pos hreject]
          exact .time fun now _ => .ret (iff_of_true rfl ⟨hassigned, hemp, .inr hreject⟩)
        · rw [if_neg hreject]
          exact .ret (by simp [happrove, hreject])
    · rw [if_pos hemp]
      exact .ret (by simp [hemp])
  · rw [if_pos hassigned]
    exact .ret (by simp [hassigned])

theorem of_assignLoanToEmployee (loanId empId : Nat) :
    Answers times t (assignLoanToEmployee loanId empId [])
      (∃ loan, Table.lookup LoanRec.loanId loanId t.loans = some loan ∧
        loan.status = .pending ∧ t.HasUserAs .employee empId) := by
  refine updateLoan (keepsResult_overwrite fun _ => rfl) fun i loan hloan => ?_
  unfold assignLoanModifier
  by_cases hpending : loan.status = .pending
  · rw [if_neg (not_not_intro hpending)]
    refine .readUser ?_
    cases hemp : Table.lookup UserRec.userId empId t.users with
    | none => exact .ret (by simp [Tables.HasUserAs, hemp])
    | some emp =>
        by_cases hrole : emp.role = .employee
        · simp only [Option.all_some, hrole, ne_eq, not_true_eq_false, decide_false,
            Bool.false_eq_true, if_false]
          exact .ret (iff_of_true rfl ⟨hpending, emp, hemp, hrole⟩)
        · simp only [Option.all_some, hrole, ne_eq, not_false_eq_true, decide_true, if_true]
          exact .ret (by simp [Tables.HasUserAs, hemp, hrole])
  · rw [if_pos hpending]
    exact .ret (by simp [hpending])

/-! ### Users -/

theorem of_changePassword (env : Env) (userId : Nat) (newpass : Bytes) :
    Answers times t (changePassword env userId newpass) (t.HasUser userId) := by
  have hupdate : Answers times t (changePassword env userId newpass)
      (∃ user, Table.lookup UserRec.userId userId t.users = some user ∧ True) :=
    updateUser (keepsResult_overwrite fun _ => rfl) fun i user _ => .ret (by simp)
  unfold Tables.HasUser
  simpa only [and_true] using hupdate

theorem of_modifyCustomer (userId : Nat) (d : Details) :
    Answers times t (modifyCustomer userId d [])
      (∃ user, Table.lookup UserRec.userId userId t.users = some user ∧
        user.role = .customer ∧ t.unique user.username.text d.email d.phone user.userId) := by
  refine updateUser (keepsResult_overwrite fun _ => rfl) fun i user huser => ?_
  unfold modifyCustomerModifier
  by_cases hrole : user.role = .customer
  · rw [if_neg (not_not_intro hrole)]
    refine .checkUniqueness (fun hclash _ => ?_) fun hunique => ?_
    · exact .ret (by simp [hclash])
    · exact .ret (by simp [hrole, hunique])
  · rw [if_pos hrole]
    exact .ret (by simp [hrole])

theorem of_modifyUser (userId : Nat) (d : Details) :
    Answers times t (modifyUser userId d)
      (∃ user, Table.lookup UserRec.userId userId t.users = some user ∧
        t.unique user.username.text d.email d.phone user.userId) := by
  refine updateUser (keepsResult_overwrite fun _ => rfl) fun i user huser => ?_
  refine .checkUniqueness (fun hclash _ => ?_) fun hunique => ?_
  · exact .ret (by simp [hclash])
  · exact .ret (by simp [hunique])

theorem of_changeUserRole (userId : Nat) (roleStr : Bytes) :
    Answers times t (changeUserRole userId roleStr [])
      (∃ user, Table.lookup UserRec.userId userId t.users = some user ∧
        user.role ≠ .customer ∧ user.role ≠ .admin ∧
        (roleStr = str "employee" ∨ roleStr = str "manager")) := by
  refine updateUser (keepsResult_overwrite fun _ => rfl) fun i user huser => ?_
  unfold changeRoleModifier
  by_cases hcustomer : user.role = .customer
  · simp only [if_pos hcustomer]
    exact .ret (by simp [hcustomer])
  by_cases hadmin : user.role = .admin
  · simp only [if_neg hcustomer, if_pos hadmin]
    exact .ret (by simp [hadmin])
  simp only [if_neg hcustomer, if_neg hadmin]
  by_cases hemp : roleStr = str "employee"
  · rw [if_pos hemp]
    exact .ret (iff_of_true rfl ⟨hcustomer, hadmin, .inl hemp⟩)
  rw [if_neg hemp]
  by_cases hman : roleStr = str "manager"
  · rw [if_pos hman]
    exact .ret (iff_of_true rfl ⟨hcustomer, hadmin, .inr hman⟩)
  · rw [if_neg hman]
    exact .ret (by simp [hemp, hman])

theorem of_addNewCustomer (env : Env) (user : UserRec) (username password : Bytes) :
    Answers times t (addNewCustomer env user username password)
      (t.unique username user.email.text user.phone.text 0) := by
  refine .checkUniqueness (fun hclash _ => no rfl hclash) fun hunique => ?_
  refine .generateNewUserId (.time fun now _ => ?_)
  exact .writeUser (.writeAccount (yes rfl hunique))

theorem of_addEmployee (env : Env) (d : Details) (roleStr username password : Bytes) :
    Answers times t (addEmployee env d roleStr username password)
      (t.unique username d.email d.phone 0 ∧ staffRole roleStr ≠ none) := by
  refine .checkUniqueness (fun hclash _ => no rfl fun h => hclash h.1) fun hunique => ?_
  refine .generateNewUserId (.time fun now _ => ?_)
  cases hrole : staffRole roleStr with
  | none => exact no rfl fun h => h.2 rfl
  | some role => exact .writeUser (yes rfl ⟨hunique, by simp⟩)

/-! ### Accounts and new records -/

private theorem of_viewBalance (userId : Nat) :
    Answers times t (viewBalance userId) (t.HasAccount userId) := by
  refine .readAccount ?_
  cases hlookup : Table.lookup AccountRec.userId userId t.accounts with
  | none => exact no rfl (by simp [Tables.HasAccount, hlookup])
  | some acc => exact yes rfl ⟨acc, hlookup⟩

private theorem of_viewPersonalDetails (userId : Nat) :
    Answers times t (viewPersonalDetails userId) (t.HasUser userId) := by
  refine .readUser ?_
  cases hlookup : Table.lookup UserRec.userId userId t.users with
  | none => exact no rfl (by simp [Tables.HasUser, hlookup])
  | some user => exact yes rfl ⟨user, hlookup⟩

theorem of_setAccountStatus (custId : Nat) (status : Int) :
    Answers times t (setAccountStatus custId status) (t.HasAccount custId) := by
  refine .atomicUpdateAccount (fun hnone => ?_) fun t' hsome => ?_
  · refine no rfl ?_
    rintro ⟨acc, hlookup⟩
    cases Tables.updateAccount_eq_none_iff.mp hnone acc hlookup
  · obtain ⟨acc, acc', -, hreplaced⟩ := Tables.updateAccount_replaced hsome
    exact yes rfl ⟨acc, hreplaced.before⟩

theorem of_applyLoan (userId : Nat) (amount : M) :
    Answers times t (applyLoan userId amount) (¬ amount ≤ 0) := by
  unfold applyLoan
  by_cases hpos : amount ≤ 0
  · rw [if_pos hpos]
    exact no rfl (not_not_intro hpos)
  · rw [if_neg hpos]
    exact .time fun now _ => .appendLoan (yes rfl hpos)

theorem of_addFeedback (userId : Nat) (msg : Bytes) :
    Answers times t (addFeedback userId msg) True :=
  .time fun _ _ => .appendFeedback (yes rfl trivial)

end Answers

/-! ## Programs that need a file -/

private theorem listingOr_result (tmpSize : Nat) (header : Bytes) (lines : List Bytes)
    (notice : Bytes) :
    (listingOr tmpSize header lines notice).result = true := by
  unfold listingOr
  split <;> rfl

namespace Request

variable (env : Env) (db : Database M)

private theorem handle_result_of_list {request : Request M}
    (h : (∃ id, request = .viewLoan id ∨ request = .viewAssignedLoans id) ∨
      request = .processLoans ∨ request = .viewNonAssignedLoans) :
    (request.handle env db).1.result = true ↔ db.loans ≠ none := by
  cases hloans : db.loans with
  | none =>
      rcases h with ⟨id, rfl | rfl⟩ | rfl | rfl <;>
        simp [handle, program, viewLoanStatus, BankingSystem.viewAssignedLoans,
          BankingSystem.processLoans, BankingSystem.viewNonAssignedLoans, Db.exec, hloans,
          Reply.say]
  | some loans =>
      rcases h with ⟨id, rfl | rfl⟩ | rfl | rfl <;>
        simp [handle, program, viewLoanStatus, BankingSystem.viewAssignedLoans,
          BankingSystem.processLoans, BankingSystem.viewNonAssignedLoans, Db.exec, hloans,
          listingOr_result]

private theorem handle_result_of_feedback {request : Request M}
    (h : (∃ id, request = .viewFeedback id) ∨ request = .reviewFeedback) :
    (request.handle env db).1.result = true ↔ db.feedback ≠ none := by
  cases hfeedback : db.feedback with
  | none =>
      rcases h with ⟨id, rfl⟩ | rfl <;>
        simp [handle, program, viewFeedbackStatus, reviewFeedbacks, Db.exec, hfeedback, Reply.say]
  | some feedback =>
      rcases h with ⟨id, rfl⟩ | rfl
      · simp [handle, program, viewFeedbackStatus, Db.exec, hfeedback, listingOr_result]
      · simp only [handle, program, reviewFeedbacks, Db.markReviewed_bind, Prog.run_call, Db.exec,
          hfeedback]
        split <;> simp [Reply.say]

private theorem handle_result_of_viewTransactions (userId : Nat) :
    ((viewTransactions userId : Request M).handle env db).1.result = true ↔
      db.transactions ≠ none := by
  cases hfile : db.transactions with
  | none => simp [handle, program, viewTransactionHistory, Db.exec, hfile, Reply.say]
  | some txns =>
      simp [handle, program, viewTransactionHistory, Db.exec, hfile, listingOr_result]

private theorem handle_result_of_viewCustTransactions (custId : Nat) :
    ((viewCustTransactions custId : Request M).handle env db).1.result = true ↔
      db.tables.HasUserAs .customer custId ∧ db.transactions ≠ none := by
  have htable : db.tables.users = db.userTable := rfl
  unfold Tables.HasUserAs
  rw [htable]
  cases hlookup : Table.lookup UserRec.userId custId db.userTable with
  | none => simp [handle, program, viewCustomerTransactions, Db.exec, hlookup, Reply.say]
  | some user =>
      by_cases hrole : user.role = .customer
      · cases hfile : db.transactions with
        | none =>
            simp [handle, program, viewCustomerTransactions, Db.exec, hlookup, hrole, hfile,
              Reply.say]
        | some txns =>
            simp [handle, program, viewCustomerTransactions, Db.exec, hlookup, hrole, hfile,
              listingOr_result]
      · simp [handle, program, viewCustomerTransactions, Db.exec, hlookup, hrole, Reply.say]

private theorem handle_result_of_listUsers :
    ((listUsers : Request M).handle env db).1.result = true ↔ db.users ≠ none := by
  cases hfile : db.users with
  | none => simp [handle, program, listAllUsers, Db.exec, hfile, Reply.say]
  | some users =>
      simp only [handle, program, listAllUsers, Db.scanUsers_bind, Prog.run_call, Db.exec, hfile]
      split <;> simp [Reply.say]

end Request

/-! ## Login -/

def UserRec.login (user : UserRec) : Login :=
  ⟨user.userId, roleString user.role, user.firstName.text⟩

theorem loginUser_success_iff {env : Env} {db : Database M} {username password : Bytes}
    {login : Login} :
    ((loginUser env username password).run Db.exec db).1 = .success login ↔
      ∃ user, db.tables.Admits env username password user ∧ login = user.login := by
  rw [loginUser_exec]
  constructor
  · intro h
    cases hfound : db.userTable.find? (fun user => user.username.text = cstr username) with
    | none =>
        rw [hfound] at h
        cases h
    | some user =>
        rw [hfound, Option.elim_some, UserRec.loginResult] at h
        split_ifs at h with hverified hinactive
        cases h
        obtain ⟨hactive, haccount⟩ := not_or.mp hinactive
        refine ⟨user, ⟨hfound, hverified, Status.ne_inactive_iff.mp hactive, ?_⟩, rfl⟩
        intro acc hacc
        replace hacc : Table.lookup AccountRec.userId user.userId db.accountTable = some acc := hacc
        rw [hacc, Option.any_some, decide_eq_true_eq] at haccount
        exact Status.ne_inactive_iff.mp haccount
  · rintro ⟨user, hadmits, rfl⟩
    have hfound : db.userTable.find? (fun user => user.username.text = cstr username) =
      some user := hadmits.found
    rw [hfound, Option.elim_some, UserRec.loginResult, if_pos hadmits.verified, if_neg]
    · rfl
    · rintro (hinactive | hinactive)
      · rw [hadmits.active] at hinactive
        cases hinactive
      · cases hacc : Table.lookup AccountRec.userId user.userId db.accountTable with
        | none => simp [hacc] at hinactive
        | some acc =>
            have hactive : acc.active = .active := hadmits.account acc hacc
            simp [hacc, hactive] at hinactive

namespace Request

private theorem handle_result_of_login (env : Env) (db : Database M) (username password : Bytes) :
    ((login username password : Request M).handle env db).1.result = true ↔
      ∃ user, db.tables.Admits env username password user := by
  rw [handle_login]
  cases hresult : ((loginUser env username password).run Db.exec db).1 with
  | failed | deactivated =>
      have hrefused : ¬ ∃ user, db.tables.Admits env username password user := by
        rintro ⟨user, hadmits⟩
        have hsuccess := loginUser_success_iff.mpr ⟨user, hadmits, rfl⟩
        rw [hresult] at hsuccess
        cases hsuccess
      simpa using hrefused
  | success accepted =>
      obtain ⟨user, hadmits, -⟩ := loginUser_success_iff.mp hresult
      simpa using ⟨user, hadmits⟩

/-- The function that serves a request returns 1 exactly when it has no reason to refuse. -/
theorem handle_result_iff (env : Env) (request : Request M) (db : Database M) :
    (request.handle env db).1.result = true ↔ request.Accepted env db := by
  have hticks : db.Ticks Set.univ := fun _ => trivial
  cases request with
  | login username password => exact handle_result_of_login env db username password
  | changePassword userId newpass =>
      exact Answers.of_changePassword env userId newpass db rfl hticks
  | viewBalance userId => exact Answers.of_viewBalance userId db rfl hticks
  | deposit userId amount => exact Answers.of_depositMoney userId amount db rfl hticks
  | withdraw userId amount => exact Answers.of_withdrawMoney userId amount db rfl hticks
  | transfer fromId toId amount => exact Answers.of_transferFunds fromId toId amount db rfl hticks
  | applyLoan userId amount => exact Answers.of_applyLoan userId amount db rfl hticks
  | addFeedback userId msg => exact Answers.of_addFeedback userId msg db rfl hticks
  | viewDetails userId => exact Answers.of_viewPersonalDetails userId db rfl hticks
  | setAccountStatus custId status => exact Answers.of_setAccountStatus custId status db rfl hticks
  | addCustomer user username password =>
      exact Answers.of_addNewCustomer env user username password db rfl hticks
  | addEmployee d roleStr username password =>
      exact Answers.of_addEmployee env d roleStr username password db rfl hticks
  | modifyCustomer userId d => exact Answers.of_modifyCustomer userId d db rfl hticks
  | modifyUser userId d => exact Answers.of_modifyUser userId d db rfl hticks
  | changeRole userId roleStr => exact Answers.of_changeUserRole userId roleStr db rfl hticks
  | assignLoan loanId empId => exact Answers.of_assignLoanToEmployee loanId empId db rfl hticks
  | approveRejectLoan loanId action empId =>
      exact Answers.of_approveRejectLoan loanId action empId db rfl hticks
  | viewLoan id => exact handle_result_of_list env db (.inl ⟨id, .inl rfl⟩)
  | viewAssignedLoans id => exact handle_result_of_list env db (.inl ⟨id, .inr rfl⟩)
  | processLoans => exact handle_result_of_list env db (.inr (.inl rfl))
  | viewNonAssignedLoans => exact handle_result_of_list env db (.inr (.inr rfl))
  | viewFeedback id => exact handle_result_of_feedback env db (.inl ⟨id, rfl⟩)
  | reviewFeedback => exact handle_result_of_feedback env db (.inr rfl)
  | viewTransactions userId => exact handle_result_of_viewTransactions env db userId
  | viewCustTransactions custId => exact handle_result_of_viewCustTransactions env db custId
  | listUsers => exact handle_result_of_listUsers env db

end Request

end BankingSystem
