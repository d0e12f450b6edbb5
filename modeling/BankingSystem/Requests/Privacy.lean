import BankingSystem.Requests.Ledger

/-!
# What a customer is shown

The views of a customer show the customer's own records and nothing else, so they
stay as they are until a request is served that concerns the customer.
-/

namespace BankingSystem

open Foundation Tables

variable {M : Type}

/-! ## A customer's own records -/

/-- The parts of a user record that a view shows; the password hash is not one. -/
def UserRec.shown (user : UserRec) : UserRec := { user with passwordHash := .zero _ }

structure Own (M : Type) where
  user : Option UserRec
  account : Option (AccountRec M)
  transactions : List (TxnRec M)
  loans : List (LoanRec M)
  feedback : List FeedbackRec

def Tables.own (t : Tables M) (userId : Nat) : Own M where
  user := (Table.lookup UserRec.userId userId t.users).map UserRec.shown
  account := Table.lookup AccountRec.userId userId t.accounts
  transactions := t.transactions.filter fun tx => (tx.relevance userId).isSome
  loans := t.loans.filter fun loan => loan.userId = userId
  feedback := t.feedback.filter fun fb => fb.userId = userId

namespace Request

def ShownTo (userId : Nat) : Request M → Prop
  | .viewBalance id | .viewDetails id | .viewLoan id | .viewFeedback id
  | .viewTransactions id | .viewCustTransactions id => id = userId
  | _ => False

/-- The request names the customer, or works on a record of the customer's. -/
def Concerns (userId : Nat) (t : Tables M) : Request M → Prop
  | .deposit id _ | .withdraw id _ | .applyLoan id _ | .addFeedback id _
  | .setAccountStatus id _ | .modifyCustomer id _ | .modifyUser id _ | .changeRole id _ =>
      id = userId
  | .transfer fromId toId _ => fromId = userId ∨ toId = userId
  | .assignLoan loanId _ | .approveRejectLoan loanId _ _ =>
      ∃ i loan, t.loanAt loanId i loan ∧ loan.userId = userId
  | .reviewFeedback => ∃ fb ∈ t.feedback, fb.userId = userId ∧ fb.reviewed = 0
  | .addCustomer _ _ _ | .addEmployee _ _ _ _ => t.nextUserId = userId
  | _ => False

end Request

/-! ## What leaves them alone -/

section Own

variable {t t' : Tables M} {userId : Nat}

private theorem own_withUser {other i : Nat} {user user' : UserRec} (huser : t.userAt other i user)
    (hid : user'.userId = user.userId) (hshown : other = userId → user'.shown = user.shown) :
    (t.withUser i user').own userId = t.own userId := by
  have hkey : user.userId = other := by
    obtain ⟨r, hr, hr'⟩ := Table.getElem?_of_locate huser.1
    rw [huser.2] at hr
    cases hr
    exact hr'
  have hlookup : (Table.lookup UserRec.userId userId (t.users.set i user')).map UserRec.shown =
      (Table.lookup UserRec.userId userId t.users).map UserRec.shown := by
    by_cases hother : other = userId
    · subst hother
      rw [Table.lookup_set_self huser.1 (hid.trans hkey), Table.lookup_of_locate huser.1,
        huser.2, Option.map_some, Option.map_some, hshown rfl]
    · rw [Table.lookup_set_ne huser.1 (hid.trans hkey) (Ne.symm hother)]
  simp only [own, withUser, hlookup]

private theorem own_withLoan {loanId i : Nat} {loan loan' : LoanRec M}
    (hloan : t.loanAt loanId i loan)
    (hne : loan.userId ≠ userId) (hsame : loan'.userId = loan.userId) :
    (t.withLoan i loan').own userId = t.own userId := by
  have hloans : (t.loans.set i loan').filter (fun loan => loan.userId = userId) =
      t.loans.filter fun loan => loan.userId = userId :=
    Table.filter_set hloan.2 (by simpa using hne) (by simpa [hsame] using hne)
  simp only [own, withLoan, hloans]

private theorem own_log {fromAccount toAccount : Nat} {amount : M} {now : Time} (kind : TxnKind)
    (hne : kind.party (⟨0, fromAccount, toAccount, amount, now, []⟩ : TxnRec M) ≠ userId) :
    (t.log fromAccount toAccount amount now kind.narration).own userId = t.own userId := by
  have hnone : (⟨t.transactions.length + 1, fromAccount, toAccount, amount, now,
      kind.narration⟩ : TxnRec M).relevance userId = none := by
    rw [TxnRec.relevance_of_narration kind rfl]
    cases kind <;> exact if_neg hne
  simp only [own, log, List.filter_append, List.filter_cons, List.filter_nil, hnone]
  simp

variable [Amount M]

private theorem own_updateAccount {other : Nat} {modifier : AccountModifier M}
    (h : t.updateAccount other modifier = some t') (hne : other ≠ userId) :
    t'.own userId = t.own userId := by
  obtain ⟨acc, acc', -, hreplaced⟩ := updateAccount_replaced h
  rw [hreplaced.frame]
  simp only [own, withAccounts, hreplaced.others userId (Ne.symm hne)]

end Own

private theorem filter_markReviewed {userId : Nat} {feedback : List FeedbackRec}
    (hseen : ∀ fb ∈ feedback, fb.userId = userId → fb.reviewed ≠ 0) :
    (feedback.map FeedbackRec.markReviewed).filter (fun fb => fb.userId = userId) =
      feedback.filter fun fb => fb.userId = userId := by
  induction feedback with
  | nil => rfl
  | cons fb rest ih =>
      have hrest := ih fun fb hfb => hseen fb (List.mem_cons_of_mem _ hfb)
      by_cases hreviewed : fb.reviewed = 0
      · have hother : fb.userId ≠ userId := fun h => hseen fb List.mem_cons_self h hreviewed
        simp [FeedbackRec.markReviewed, hreviewed, hother, hrest]
      · simp [FeedbackRec.markReviewed, hreviewed, List.filter_cons, hrest]

/-! ## Files of one customer -/

def Own.database (own : Own M) : Database M :=
  ⟨some own.user.toList, some own.account.toList, some own.transactions, some own.loans,
    some own.feedback, fun _ => 0⟩

private theorem lookup_own {ρ : Type} {userId : Nat} {key : ρ → Nat} {table : List ρ}
    {shown : ρ → ρ} (hkey : ∀ r, key (shown r) = key r) :
    Table.lookup key userId ((Table.lookup key userId table).map shown).toList =
      (Table.lookup key userId table).map shown := by
  cases h : Table.lookup key userId table with
  | none => rfl
  | some r =>
      have hshown : key (shown r) = userId := (hkey r).trans (Table.lookup_key h)
      simp [Table.lookup, hshown]

private theorem filterMap_relevance {α : Type} (userId : Nat) (f : TxnRec M → TxnKind → α)
    (txns : List (TxnRec M)) :
    (txns.filter fun tx => (tx.relevance userId).isSome).reverse.filterMap
        (fun tx => (tx.relevance userId).map (f tx)) =
      txns.reverse.filterMap fun tx => (tx.relevance userId).map (f tx) := by
  rw [← List.filter_reverse, List.filterMap_filter]
  refine congrArg (List.filterMap · txns.reverse) (funext fun tx => ?_)
  cases tx.relevance userId <;> rfl

/-! ## What a request changes of them -/

variable [Amount M] {env : Env} {times : Set Time} {t t' : Tables M} {userId : Nat}

private theorem own_step {request : Request M} {result : Bool}
    (h : Step env times t request result t') (hnot : ¬ request.Concerns userId t) :
    t'.own userId = t.own userId := by
  cases h with
  | refused | looked => rfl
  | deposited _ _ haccount =>
      exact (own_log .deposit hnot).trans (own_updateAccount haccount hnot)
  | withdrew _ _ haccount =>
      exact (own_log .withdraw hnot).trans (own_updateAccount haccount hnot)
  | transferred _ _ _ hfrom hto =>
      obtain ⟨hfromId, htoId⟩ := not_or.mp hnot
      exact (own_log .transferIn htoId).trans <| (own_log .transferOut hfromId).trans <|
        (own_updateAccount hto htoId).trans (own_updateAccount hfrom hfromId)
  | loanApplied =>
      have hother : ¬ _ = userId := hnot
      simp [own, hother]
  | @loanAssigned loanId empId i loan _ hloan =>
      exact own_withLoan hloan (fun hown => hnot ⟨i, loan, hloan, hown⟩) rfl
  | @loanApproved loanId empId i loan logged now t' hloan _ _ _ _ haccount =>
      have hother : loan.userId ≠ userId := fun hown => hnot ⟨i, loan, hloan, hown⟩
      have hloan' : (t'.log 0 loan.userId loan.amount logged
          (str "loan_deposit")).loanAt loanId i loan := by
        rw [loanAt, log, updateAccount_loans haccount]
        exact hloan
      refine (own_withLoan hloan' hother ?_).trans ?_
      · rfl
      · exact (own_log .loanDeposit hother).trans (own_updateAccount haccount hother)
  | @loanRejected loanId empId i loan _ hloan =>
      exact own_withLoan hloan (fun hown => hnot ⟨i, loan, hloan, hown⟩) rfl
  | statusSet haccount => exact own_updateAccount haccount hnot
  | feedbackAdded =>
      have hother : ¬ _ = userId := hnot
      simp [own, hother]
  | feedbackReviewed =>
      have hfeedback := filter_markReviewed fun fb hfb hown hreviewed =>
        hnot ⟨fb, hfb, hown, hreviewed⟩
      simp only [own, hfeedback]
  | @customerAdded user username password now =>
      have hother : userId ≠ t.nextUserId := Ne.symm hnot
      have huser := Table.lookup_upsert_ne UserRec.userId t.users
        (r := newCustomer env user t.nextUserId now username password) hother
      have haccount := Table.lookup_upsert_ne AccountRec.userId t.accounts
        (r := ⟨t.nextUserId, t.nextUserId, 0, .active⟩) hother
      simp only [own, huser, haccount]
  | @employeeAdded details roleStr role username password now =>
      have hother : userId ≠ t.nextUserId := Ne.symm hnot
      have huser := Table.lookup_upsert_ne UserRec.userId t.users
        (r := newEmployee env details role t.nextUserId now username password) hother
      simp only [own, huser]
  | customerModified huser | userModified huser | roleChanged huser =>
      exact own_withUser huser rfl fun hown => absurd hown hnot
  | passwordChanged huser => exact own_withUser huser rfl fun _ => rfl

/-! ## The views -/

/-- The three files that the views scan are there. -/
def Database.Stored (db : Database M) : Prop :=
  db.transactions.isSome ∧ db.loans.isSome ∧ db.feedback.isSome

instance (db : Database M) : Decidable db.Stored := inferInstanceAs (Decidable (_ ∧ _))

private theorem Db.exec_stored (cmd : Db.Cmd M) (db : Database M) (h : db.Stored) :
    (Db.exec cmd db).2.Stored := by
  obtain ⟨htransactions, hloans, hfeedback⟩ := h
  cases cmd with
  | updateAccount userId modifier =>
      simp only [Db.exec]
      split <;> exact ⟨htransactions, hloans, hfeedback⟩
  | commitLoan offset loan =>
      cases loan with
      | none => exact ⟨htransactions, hloans, hfeedback⟩
      | some loan => exact ⟨htransactions, rfl, hfeedback⟩
  | markReviewed =>
      refine ⟨htransactions, hloans, ?_⟩
      simpa [Db.exec] using hfeedback
  | _ => simp_all [Db.exec, Database.Stored]

private theorem Request.serve_stored (requests : List (Request M)) {db : Database M}
    (h : db.Stored) :
    (Request.serve env requests db).Stored :=
  Request.serve_invariant (fun request _ hdb =>
    Prog.run_preserves (S := Db M) Db.exec Db.exec_stored (request.program env) hdb) requests h

private theorem handle_shown {view : Request M} (hview : view.ShownTo userId) {db : Database M}
    (hstored : db.Stored) :
    (view.handle env db).1 = (view.handle env (db.tables.own userId).database).1 := by
  obtain ⟨⟨txns, htxns⟩, ⟨loans, hloans⟩, ⟨feedback, hfeedback⟩⟩ :=
    hstored.imp Option.isSome_iff_exists.mp
      (And.imp Option.isSome_iff_exists.mp Option.isSome_iff_exists.mp)
  have huser : Table.lookup UserRec.userId userId
      (db.tables.own userId).database.userTable =
      (Table.lookup UserRec.userId userId db.userTable).map UserRec.shown :=
    lookup_own fun _ => rfl
  have haccount : Table.lookup AccountRec.userId userId
      (db.tables.own userId).database.accountTable =
      (Table.lookup AccountRec.userId userId db.accountTable).map fun acc => acc :=
    (congrArg (fun o => Table.lookup AccountRec.userId userId (Option.toList o))
      Option.map_id'.symm).trans (lookup_own fun _ => rfl)
  cases view with
  | viewBalance other =>
      obtain rfl : other = userId := hview
      simp only [Request.handle, Request.program, viewBalance, Db.readAccount_bind, Prog.run_call,
        Db.exec, haccount]
      cases Table.lookup AccountRec.userId other db.accountTable <;> rfl
  | viewDetails other =>
      obtain rfl : other = userId := hview
      simp only [Request.handle, Request.program, viewPersonalDetails, Db.readUser_bind,
        Prog.run_call, Db.exec, huser]
      cases Table.lookup UserRec.userId other db.userTable <;> rfl
  | viewLoan other =>
      obtain rfl : other = userId := hview
      simp only [Request.handle, Request.program, viewLoanStatus, Db.scanLoans_bind,
        Prog.run_call, Db.exec, hloans]
      simp [Own.database, Tables.own, Database.tables, Database.loanTable, hloans]
  | viewFeedback other =>
      obtain rfl : other = userId := hview
      simp only [Request.handle, Request.program, viewFeedbackStatus, Db.scanFeedback_bind,
        Prog.run_call, Db.exec, hfeedback]
      simp [Own.database, Tables.own, Database.tables, Database.feedbackTable, hfeedback]
  | viewTransactions other =>
      obtain rfl : other = userId := hview
      simp only [Request.handle, Request.program, viewTransactionHistory,
        Db.scanTransactions_bind, Prog.run_call, Db.exec, htxns]
      simp only [Own.database, Tables.own, Database.tables, Database.txnTable, htxns,
        Option.getD_some, filterMap_relevance]
      rfl
  | viewCustTransactions other =>
      obtain rfl : other = userId := hview
      simp only [Request.handle, Request.program, viewCustomerTransactions, Db.readUser_bind,
        Prog.run_call, Db.exec, huser]
      rcases Option.eq_none_or_eq_some (Table.lookup UserRec.userId other db.userTable) with
        hnone | ⟨user, hsome⟩
      · simp [hnone]
      · have hrole : user.shown.role = user.role := rfl
        simp only [hsome, Option.map_some, Option.all_some, hrole]
        by_cases hcustomer : user.role = .customer
        · simp only [hcustomer, ne_eq, not_true_eq_false, decide_false, Bool.false_eq_true,
            if_false, Db.scanTransactions_bind, Prog.run_call, Db.exec, htxns]
          simp only [Own.database, Tables.own, Database.tables, Database.txnTable, htxns,
            Option.getD_some, filterMap_relevance]
          rfl
        · simp [hcustomer]
  | _ => exact hview.elim

/-- No request of a run concerns the customer when it is served. -/
def Request.Unconcerned (env : Env) (userId : Nat) : List (Request M) → Database M → Prop
  | [], _ => True
  | request :: requests, db =>
      ¬ request.Concerns userId db.tables ∧
        Unconcerned env userId requests (request.handle env db).2

private theorem own_serve {requests : List (Request M)} {db : Database M}
    (hothers : Request.Unconcerned env userId requests db) :
    (Request.serve env requests db).tables.own userId = db.tables.own userId := by
  induction requests generalizing db with
  | nil => rfl
  | cons request requests ih =>
      have hticks : db.Ticks Set.univ := fun _ => trivial
      exact (ih hothers.2).trans (own_step (request.handle_step env hticks) hothers.1)

/--
A view of a customer answers as if the files had held nothing but the customer's own
records and the requests that did not concern the customer had not been served.
-/
theorem views_are_private (env : Env) {userId : Nat} {view : Request M}
    (hview : view.ShownTo userId) {db : Database M} (hstored : db.Stored)
    {requests : List (Request M)} (hothers : Request.Unconcerned env userId requests db) :
    (view.handle env (Request.serve env requests db)).1 =
      (view.handle env (db.tables.own userId).database).1 := by
  rw [handle_shown hview (Request.serve_stored requests hstored), own_serve hothers]

/-- Two customers, each with a loan application and a message. -/
def busyBank : Database ℚ :=
  Request.serve .plain
    [.addCustomer .zero (str "ann") (str "pw"),
      .addCustomer { UserRec.zero with email := .ofText (str "b"), phone := .ofText (str "2") }
        (str "bob") (str "pw"),
      .deposit 1001 9, .deposit 1002 4, .applyLoan 1001 7, .applyLoan 1002 8,
      .addFeedback 1001 (str "fine"), .addFeedback 1002 (str "slow")] (Database.empty fun _ => 1)

theorem views_are_private_ann :
    ((Request.viewTransactions 1001).handle .plain (Request.serve .plain
      [.deposit 1002 5, .withdraw 1002 2, .changePassword 1001 (str "new"),
        .addFeedback 1002 (str "slower")] busyBank)).1 =
      ((Request.viewTransactions 1001).handle .plain (busyBank.tables.own 1001).database).1 := by
  have hview : (Request.viewTransactions 1001 : Request ℚ).ShownTo 1001 := rfl
  refine views_are_private .plain hview (by decide +kernel) ?_
  simp [Request.Unconcerned, Request.Concerns]

end BankingSystem
