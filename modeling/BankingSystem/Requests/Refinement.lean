import BankingSystem.Requests.Logic

/-!
# Every request takes a step of the tables

Served alone, the program of each request refines `Step`.
-/

namespace BankingSystem

open Foundation Tables

variable {M : Type} [Amount M] {env : Env} {times : Set Time} {t : Tables M}

namespace Step

/-! ## Customer module -/

theorem of_depositMoney (userId : Nat) (amount : M) :
    Yields times t (depositMoney userId amount) fun reply t' =>
      Step env times t (.deposit userId amount) reply.result t' := by
  unfold depositMoney
  by_cases hpos : amount ≤ 0
  · rw [if_pos hpos]
    exact .ret (refused _)
  · rw [if_neg hpos]
    refine .atomicUpdateAccount (fun _ => ?_) fun t' haccount => ?_
    · refine .readAccount ?_
      split
      · split <;> exact .ret (refused _)
      · exact .ret (refused _)
    · refine .time fun now hnow => ?_
      exact .appendTransaction (.ret (deposited hpos hnow haccount))

theorem of_withdrawMoney (userId : Nat) (amount : M) :
    Yields times t (withdrawMoney userId amount) fun reply t' =>
      Step env times t (.withdraw userId amount) reply.result t' := by
  unfold withdrawMoney
  by_cases hpos : amount ≤ 0
  · rw [if_pos hpos]
    exact .ret (refused _)
  · rw [if_neg hpos]
    refine .atomicUpdateAccount (fun _ => ?_) fun t' haccount => ?_
    · exact .readAccount (.ret (refused _))
    · refine .time fun now hnow => ?_
      exact .appendTransaction (.ret (withdrew hpos hnow haccount))

theorem of_applyLoan (userId : Nat) (amount : M) :
    Yields times t (applyLoan userId amount) fun reply t' =>
      Step env times t (.applyLoan userId amount) reply.result t' := by
  unfold applyLoan
  by_cases hpos : amount ≤ 0
  · rw [if_pos hpos]
    exact .ret (refused _)
  · rw [if_neg hpos]
    refine .time fun now hnow => ?_
    exact .appendLoan (.ret (loanApplied hpos hnow))

theorem of_transferFunds (fromId toId : Nat) (amount : M) :
    Yields times t (transferFunds fromId toId amount) fun reply t' =>
      Step env times t (.transfer fromId toId amount) reply.result t' := by
  unfold transferFunds
  by_cases hne : fromId = toId
  · rw [if_pos hne]
    exact .ret (refused _)
  by_cases hpos : amount ≤ 0
  · rw [if_neg hne, if_pos hpos]
    exact .ret (refused _)
  · rw [if_neg hne, if_neg hpos]
    refine .readAccount ?_
    cases hlookup : Table.lookup AccountRec.userId toId t.accounts with
    | none => exact .ret (refused _)
    | some toAcc =>
        by_cases hinactive : toAcc.active = .inactive
        · simp only [Option.all_some, hinactive, decide_true, if_true]
          exact .ret (refused _)
        · simp only [Option.all_some, hinactive, decide_false, Bool.false_eq_true, if_false]
          refine .atomicUpdateAccount (fun _ => ?_) fun t₁ hfrom => ?_
          · exact .readAccount (.ret (refused _))
          · refine .atomicUpdateAccount (fun hnone => ?_) fun t₂ hto => ?_
            · -- alone, nobody can have closed the recipient's account since the check
              obtain ⟨_, _, -, hreplaced⟩ := updateAccount_replaced hfrom
              have hactive := Status.ne_inactive_iff.mp hinactive
              rw [← hreplaced.others toId (Ne.symm hne)] at hlookup
              obtain ⟨t₂, hdeposit⟩ :=
                deposit_of_hasActive amount ⟨toAcc, hlookup, hactive⟩
              rw [hdeposit] at hnone
              cases hnone
            · refine .time fun now hnow => ?_
              refine .appendTransaction (.appendTransaction ?_)
              exact .ret (transferred hne hpos hnow hfrom hto)

theorem of_addFeedback (userId : Nat) (msg : Bytes) :
    Yields times t (addFeedback userId msg) fun reply t' =>
      Step env times t (.addFeedback userId msg : Request M) reply.result t' := by
  refine .time fun now hnow => ?_
  exact .appendFeedback (.ret (feedbackAdded hnow))

theorem of_changePassword (userId : Nat) (newpass : Bytes) :
    Yields times t (changePassword env userId newpass) fun reply t' =>
      Step env times t (.changePassword userId newpass : Request M) reply.result t' := by
  refine .bind (.atomicUpdateUser (fun _ => .ret (refused _)) fun i user huser => ?_)
  exact .ret (.ret (passwordChanged huser))

/-! ## Employee and manager modules -/

theorem of_approveRejectLoan (loanId : Nat) (action : Bytes) (empId : Nat) :
    Yields times t (approveRejectLoan loanId action empId []) fun reply t' =>
      Step env times t (.approveRejectLoan loanId action empId : Request M)
        reply.result t' := by
  refine .bind (.atomicUpdateLoan (fun _ => .ret (refused _)) fun i loan hloan => ?_)
  unfold approveRejectLoanModifier
  by_cases hassigned : loan.status = .assigned
  · rw [if_neg (not_not_intro hassigned)]
    by_cases hemp : loan.assignedTo = empId
    · rw [if_neg (not_not_intro hemp)]
      by_cases happrove : action = str "approve"
      · subst happrove
        rw [if_pos rfl]
        refine .readAccount ?_
        split
        · exact .ret (.ret (refused _))
        · refine .atomicUpdateAccount (fun _ => ?_) fun t' haccount => ?_
          · exact .ret (.ret (refused _))
          · refine .time fun logged hlogged => .appendTransaction ?_
            refine .time fun now hnow => ?_
            exact .ret (.ret (loanApproved hloan hassigned hemp hlogged hnow haccount))
      · rw [if_neg happrove]
        by_cases hreject : action = str "reject"
        · subst hreject
          rw [if_pos rfl]
          refine .time fun now hnow => ?_
          exact .ret (.ret (loanRejected hloan hassigned hemp hnow))
        · rw [if_neg hreject]
          exact .ret (.ret (refused _))
    · rw [if_pos hemp]
      exact .ret (.ret (refused _))
  · rw [if_pos hassigned]
    exact .ret (.ret (refused _))

theorem of_assignLoanToEmployee (loanId empId : Nat) :
    Yields times t (assignLoanToEmployee loanId empId []) fun reply t' =>
      Step env times t (.assignLoan loanId empId : Request M) reply.result t' := by
  refine .bind (.atomicUpdateLoan (fun _ => .ret (refused _)) fun i loan hloan => ?_)
  unfold assignLoanModifier
  by_cases hpending : loan.status = .pending
  · rw [if_neg (not_not_intro hpending)]
    refine .readUser ?_
    cases hemp : Table.lookup UserRec.userId empId t.users with
    | none => exact .ret (.ret (refused _))
    | some emp =>
        by_cases hrole : emp.role = .employee
        · simp only [Option.all_some, hrole, ne_eq, not_true_eq_false, decide_false,
            Bool.false_eq_true, if_false]
          exact .ret (.ret (loanAssigned hloan hpending hemp hrole))
        · simp only [Option.all_some, hrole, ne_eq, not_false_eq_true, decide_true,
            if_true]
          exact .ret (.ret (refused _))
  · rw [if_pos hpending]
    exact .ret (.ret (refused _))

theorem of_setAccountStatus (custId : Nat) (status : Int) :
    Yields times t (setAccountStatus custId status) fun reply t' =>
      Step env times t (.setAccountStatus custId status : Request M)
        reply.result t' := by
  refine .atomicUpdateAccount (fun _ => .ret (refused _)) fun t' haccount => ?_
  exact .ret (statusSet haccount)

private theorem of_reviewFeedbacks :
    Yields times t reviewFeedbacks fun reply t' =>
      Step env times t (.reviewFeedback : Request M) reply.result t' := by
  refine .markReviewed (.ret (refused _)) ?_
  dsimp only
  split <;> exact .ret feedbackReviewed

/-! ## Users -/

theorem of_addNewCustomer (user : UserRec) (username password : Bytes) :
    Yields times t (addNewCustomer env user username password) fun reply t' =>
      Step env times t (.addCustomer user username password : Request M)
        reply.result t' := by
  refine .checkUniqueness (fun _ _ => .ret (refused _)) fun hunique => ?_
  refine .generateNewUserId (.time fun now hnow => ?_)
  exact .writeUser (.writeAccount (.ret (customerAdded hunique hnow)))

theorem of_addEmployee (details : Details) (roleStr username password : Bytes) :
    Yields times t (addEmployee env details roleStr username password) fun reply t' =>
      Step env times t (.addEmployee details roleStr username password : Request M)
        reply.result t' := by
  refine .checkUniqueness (fun _ _ => .ret (refused _)) fun hunique => ?_
  refine .generateNewUserId (.time fun now hnow => ?_)
  cases hrole : staffRole roleStr with
  | none => exact .ret (refused _)
  | some role => exact .writeUser (.ret (employeeAdded hunique hrole hnow))

theorem of_modifyCustomer (userId : Nat) (details : Details) :
    Yields times t (modifyCustomer userId details []) fun reply t' =>
      Step env times t (.modifyCustomer userId details : Request M)
        reply.result t' := by
  refine .bind (.atomicUpdateUser (fun _ => .ret (refused _)) fun i user huser => ?_)
  unfold modifyCustomerModifier
  by_cases hrole : user.role = .customer
  · rw [if_neg (not_not_intro hrole)]
    refine .checkUniqueness (fun _ _ => .ret (.ret (refused _))) fun hunique => ?_
    exact .ret (.ret (customerModified huser hrole hunique))
  · rw [if_pos hrole]
    exact .ret (.ret (refused _))

theorem of_modifyUser (userId : Nat) (details : Details) :
    Yields times t (modifyUser userId details) fun reply t' =>
      Step env times t (.modifyUser userId details : Request M)
        reply.result t' := by
  refine .bind (.atomicUpdateUser (fun _ => .ret (refused _)) fun i user huser => ?_)
  refine .checkUniqueness (fun _ _ => .ret (.ret (refused _))) fun hunique => ?_
  exact .ret (.ret (userModified huser hunique))

theorem of_changeUserRole (userId : Nat) (roleStr : Bytes) :
    Yields times t (changeUserRole userId roleStr []) fun reply t' =>
      Step env times t (.changeRole userId roleStr : Request M) reply.result t' := by
  refine .bind (.atomicUpdateUser (fun _ => .ret (refused _)) fun i user huser => ?_)
  unfold changeRoleModifier
  by_cases hcustomer : user.role = .customer
  · simp only [if_pos hcustomer]
    exact .ret (.ret (refused _))
  by_cases hadmin : user.role = .admin
  · simp only [if_neg hcustomer, if_pos hadmin]
    exact .ret (.ret (refused _))
  simp only [if_neg hcustomer, if_neg hadmin]
  by_cases hemp : roleStr = str "employee"
  · rw [if_pos hemp]
    exact .ret (.ret (roleChanged huser hcustomer hadmin (.inl ⟨hemp, rfl⟩)))
  rw [if_neg hemp]
  by_cases hman : roleStr = str "manager"
  · rw [if_pos hman]
    exact .ret (.ret (roleChanged huser hcustomer hadmin (.inr ⟨hman, rfl⟩)))
  · rw [if_neg hman]
    exact .ret (.ret (refused _))

/-! ## The requests that only look -/

private theorem of_look {request : Request M} (hread : request.readOnly = true) :
    ∀ reply : Reply, Step env times t request reply.result t
  | ⟨false, _⟩ => refused _
  | ⟨true, _⟩ => looked hread

private theorem of_readOnly {request : Request M} (hread : request.readOnly = true) :
    Yields times t (request.program env) fun reply t' =>
      Step env times t request reply.result t' := by
  have hlook : ∀ reply : Reply, Yields times t (.ret reply) fun reply t' =>
      Step env times t request reply.result t' := fun reply => .ret (of_look hread reply)
  cases request with
  | login username password =>
      refine .bind (.scanUsers fun users => ?_)
      cases users with
      | none => exact .ret (hlook _)
      | some users =>
          dsimp only
          split
          · exact .ret (hlook _)
          · split
            · refine .readAccount ?_
              split <;> exact .ret (hlook _)
            · exact .ret (hlook _)
  | viewBalance userId =>
      refine .readAccount ?_
      split <;> exact hlook _
  | viewLoan userId =>
      refine .scanLoans fun loans => ?_
      split <;> exact hlook _
  | viewFeedback userId =>
      refine .scanFeedback fun feedback => ?_
      split <;> exact hlook _
  | viewTransactions userId =>
      refine .scanTransactions fun txns => ?_
      split <;> exact hlook _
  | viewDetails userId =>
      refine .readUser ?_
      split <;> exact hlook _
  | processLoans =>
      refine .scanLoans fun loans => ?_
      split <;> exact hlook _
  | viewAssignedLoans empId =>
      refine .scanLoans fun loans => ?_
      split <;> exact hlook _
  | viewCustTransactions custId =>
      refine .readUser ?_
      split
      · exact hlook _
      · refine .scanTransactions fun txns => ?_
        split <;> exact hlook _
  | viewNonAssignedLoans =>
      refine .scanLoans fun loans => ?_
      split <;> exact hlook _
  | listUsers =>
      refine .scanUsers fun users => ?_
      split
      · exact hlook _
      · dsimp only
        split <;> exact hlook _
  | _ => cases hread

end Step

/-! ## One request, and a run of them -/

namespace Request

private theorem program_step (request : Request M) :
    Yields times t (request.program env) fun reply t' =>
      Step env times t request reply.result t' := by
  cases request with
  | deposit userId amount => exact Step.of_depositMoney userId amount
  | withdraw userId amount => exact Step.of_withdrawMoney userId amount
  | transfer fromId toId amount => exact Step.of_transferFunds fromId toId amount
  | applyLoan userId amount => exact Step.of_applyLoan userId amount
  | addFeedback userId msg => exact Step.of_addFeedback userId msg
  | changePassword userId newpass => exact Step.of_changePassword userId newpass
  | approveRejectLoan loanId action empId =>
      exact Step.of_approveRejectLoan loanId action empId
  | assignLoan loanId empId => exact Step.of_assignLoanToEmployee loanId empId
  | setAccountStatus custId status => exact Step.of_setAccountStatus custId status
  | reviewFeedback => exact Step.of_reviewFeedbacks
  | addCustomer user username password =>
      exact Step.of_addNewCustomer user username password
  | addEmployee details roleStr username password =>
      exact Step.of_addEmployee details roleStr username password
  | modifyCustomer userId details => exact Step.of_modifyCustomer userId details
  | modifyUser userId details => exact Step.of_modifyUser userId details
  | changeRole userId roleStr => exact Step.of_changeUserRole userId roleStr
  | _ => exact Step.of_readOnly rfl

variable (env) {db : Database M}

theorem handle_step (request : Request M) (hticks : db.Ticks times) :
    Step env times db.tables request (request.handle env db).1.result
      (request.handle env db).2.tables :=
  program_step request db rfl hticks

private theorem handle_ticks (request : Request M) (hticks : db.Ticks times) :
    (request.handle env db).2.Ticks times :=
  Prog.run_preserves (S := Db M) Db.exec Db.exec_ticks (request.program env) hticks

theorem serve_tables {I : Tables M → Prop}
    (hstep : ∀ t request result t', Step env times t request result t' → I t → I t')
    (requests : List (Request M)) (hticks : db.Ticks times) (hdb : I db.tables) :
    I (serve env requests db).tables := by
  have hinv : (serve env requests db).Ticks times ∧ I (serve env requests db).tables := by
    refine serve_invariant (I := fun db => db.Ticks times ∧ I db.tables) ?_ requests
      ⟨hticks, hdb⟩
    rintro request db ⟨hticks, hdb⟩
    exact ⟨handle_ticks env request hticks,
      hstep _ _ _ _ (handle_step env request hticks) hdb⟩
  exact hinv.2

theorem serve_tables_of_mem {I : Tables M → Prop} (requests : List (Request M))
    (hstep : ∀ request ∈ requests, ∀ t result t',
      Step env times t request result t' → I t → I t')
    (hticks : db.Ticks times) (hdb : I db.tables) : I (serve env requests db).tables := by
  induction requests generalizing db with
  | nil => exact hdb
  | cons request requests ih =>
      have hnext := hstep request List.mem_cons_self _ _ _ (handle_step env request hticks) hdb
      exact ih (fun request hmem => hstep request (List.mem_cons_of_mem _ hmem))
        (handle_ticks env request hticks) hnext

theorem serve_ticks (requests : List (Request M)) (hticks : db.Ticks times) :
    (serve env requests db).Ticks times :=
  serve_invariant (fun request _ => handle_ticks env request) requests hticks

end Request

/-! ## Refusals -/

theorem Step.eq_of_refused {request : Request M} {t' : Tables M}
    (h : Step env times t request false t') : t' = t := by
  cases h
  rfl

/-- An operation that answers 0 leaves all five files as they were. -/
theorem refused_changes_nothing (env : Env) (request : Request M) (db : Database M)
    (hrefused : (request.handle env db).1.result = false) :
    (request.handle env db).2.tables = db.tables := by
  have hticks : db.Ticks Set.univ := fun _ => trivial
  have hstep := request.handle_step env hticks
  rw [hrefused] at hstep
  exact hstep.eq_of_refused

/-- A transfer of more than the sender has. -/
theorem refused_changes_nothing_transfer :
    ((Request.transfer 1001 1002 5).handle .plain
      (Database.ofAccounts [⟨1001, 1001, (3 : ℚ), .active⟩, ⟨1002, 1002, 0, .active⟩]
        fun _ => 1)).2.tables =
      (Database.ofAccounts [⟨1001, 1001, (3 : ℚ), .active⟩, ⟨1002, 1002, 0, .active⟩]
        fun _ => 1).tables :=
  refused_changes_nothing _ _ _ (by decide +kernel)

end BankingSystem
