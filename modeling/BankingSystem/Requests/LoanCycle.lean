import Mathlib.Logic.Relation
import Mathlib.Data.List.Perm.Basic
import BankingSystem.Requests.Ledger

/-!
# The life of a loan

A loan is applied for, assigned and decided, in this order and by three modules.
`LoanMove` is what one request can do to one loan record; the rest of the module
follows it through whole runs and compares the approved loans with the log.
-/

namespace BankingSystem

open Foundation Tables

variable {M : Type} {times : Set Time}

/-! ## Moves of one record -/

def LoanStatus.Decided (status : LoanStatus) : Prop :=
  status = .approved ∨ status = .rejected

inductive LoanStatus.Moves : LoanStatus → LoanStatus → Prop
  | assign : Moves .pending .assigned
  | approve : Moves .assigned .approved
  | reject : Moves .assigned .rejected

inductive LoanMove (times : Set Time) : Request M → LoanRec M → LoanRec M → Prop
  | assign {loan empId} (hpending : loan.status = .pending) (hemp : empId ≠ 0) :
      LoanMove times (.assignLoan loan.loanId empId) loan
        { loan with assignedTo := empId, status := .assigned }
  | decide {loan action status now} (hassigned : loan.status = .assigned)
      (hdecided : status.Decided) (hnow : now ∈ times) :
      LoanMove times (.approveRejectLoan loan.loanId action loan.assignedTo) loan
        { loan with status, processedAt := now }

/-- What every later state of a loan record has in common with this one. -/
structure LoanRec.Later (loan loan' : LoanRec M) : Prop where
  loanId : loan'.loanId = loan.loanId
  userId : loan'.userId = loan.userId
  amount : loan'.amount = loan.amount
  status : Relation.ReflTransGen LoanStatus.Moves loan.status loan'.status
  assignedTo : loan.status ≠ .pending → loan'.assignedTo = loan.assignedTo
  decided : loan.status.Decided → loan' = loan

private theorem LoanStatus.Moves.ne_pending {status status' : LoanStatus}
    (h : status.Moves status') : status' ≠ .pending := by
  cases h <;> simp

private theorem LoanStatus.ne_pending_of_path {status status' : LoanStatus}
    (h : Relation.ReflTransGen Moves status status') (hne : status ≠ .pending) :
    status' ≠ .pending := by
  cases h with
  | refl => exact hne
  | tail _ hlast => exact hlast.ne_pending

theorem LoanRec.Later.refl (loan : LoanRec M) : loan.Later loan :=
  ⟨rfl, rfl, rfl, .refl, fun _ => rfl, fun _ => rfl⟩

theorem LoanRec.Later.trans {loan loan' loan'' : LoanRec M} (h : loan.Later loan')
    (h' : loan'.Later loan'') : loan.Later loan'' where
  loanId := h'.loanId.trans h.loanId
  userId := h'.userId.trans h.userId
  amount := h'.amount.trans h.amount
  status := h.status.trans h'.status
  assignedTo hne :=
    (h'.assignedTo (LoanStatus.ne_pending_of_path h.status hne)).trans (h.assignedTo hne)
  decided hdecided := by
    have hsame := h.decided hdecided
    rw [h'.decided (hsame ▸ hdecided), hsame]

theorem LoanMove.moves {request : Request M} {loan loan' : LoanRec M}
    (h : LoanMove times request loan loan') : loan.status.Moves loan'.status := by
  cases h with
  | assign hpending => exact hpending ▸ .assign
  | decide hassigned hdecided =>
      rcases hdecided with rfl | rfl
      · exact hassigned ▸ .approve
      · exact hassigned ▸ .reject

theorem LoanMove.later {request : Request M} {loan loan' : LoanRec M}
    (h : LoanMove times request loan loan') : loan.Later loan' := by
  have hstatus := Relation.ReflTransGen.single h.moves
  cases h with
  | assign hpending =>
      refine ⟨rfl, rfl, rfl, hstatus, fun hne => absurd hpending hne, ?_⟩
      rintro (h | h) <;> simp [h] at hpending
  | decide hassigned =>
      refine ⟨rfl, rfl, rfl, hstatus, fun _ => rfl, ?_⟩
      rintro (h | h) <;> simp [h] at hassigned

/-! ## Moves of the file -/

structure LoanRec.Fresh (loan : LoanRec M) : Prop where
  status : loan.status = .pending
  assignedTo : loan.assignedTo = 0
  processedAt : loan.processedAt = 0

structure LoansAdvance (times : Set Time) (request : Request M) (t t' : Tables M) :
    Prop where
  kept : ∀ (i : Nat) loan, t.loans[i]? = some loan →
    ∃ loan', t'.loans[i]? = some loan' ∧
      (loan' = loan ∨ LoanMove times request loan loan')
  new : ∀ (i : Nat) loan', t.loans[i]? = none → t'.loans[i]? = some loan' →
    loan'.Fresh

variable {request : Request M} {t t' : Tables M}

theorem LoansAdvance.of_eq (h : t'.loans = t.loans) : LoansAdvance times request t t' := by
  refine ⟨fun i loan hloan => ⟨loan, h ▸ hloan, .inl rfl⟩, fun i loan' hnone hloan' => ?_⟩
  rw [h, hnone] at hloan'
  cases hloan'

theorem LoansAdvance.of_append {loan : LoanRec M} (hfresh : loan.Fresh)
    (h : t'.loans = t.loans ++ [loan]) : LoansAdvance times request t t' := by
  constructor
  · intro i old hold
    obtain ⟨hi, -⟩ := List.getElem?_eq_some_iff.mp hold
    exact ⟨old, by rw [h, List.getElem?_append_left hi, hold], .inl rfl⟩
  · intro i loan' hnone hloan'
    have hi : t.loans.length ≤ i := List.getElem?_eq_none_iff.mp hnone
    rw [h, List.getElem?_append_right hi, List.getElem?_singleton] at hloan'
    split at hloan'
    · exact Option.some.inj hloan' ▸ hfresh
    · cases hloan'

private theorem LoansAdvance.of_move {loanId i : Nat} {loan loan' : LoanRec M}
    (hloan : t.loanAt loanId i loan) (hmove : LoanMove times request loan loan')
    (h : t'.loans = t.loans.set i loan') : LoansAdvance times request t t' := by
  constructor
  · intro j old hold
    rw [h, Table.getElem?_set_of_locate hloan.1]
    by_cases hj : j = i
    · subst hj
      have hsame : loan = old := Option.some.inj (hloan.2.symm.trans hold)
      exact ⟨loan', if_pos rfl, .inr (hsame ▸ hmove)⟩
    · exact ⟨old, by rw [if_neg hj, hold], .inl rfl⟩
  · intro j new hnone hnew
    rw [h, List.getElem?_eq_none_iff.mpr] at hnew
    · cases hnew
    · simpa using hnone

theorem LoansAdvance.later (h : LoansAdvance times request t t') (i : Nat)
    (loan : LoanRec M) (hloan : t.loans[i]? = some loan) :
    ∃ loan', t'.loans[i]? = some loan' ∧ loan.Later loan' := by
  obtain ⟨loan', hloan', rfl | hmove⟩ := h.kept i loan hloan
  · exact ⟨loan', hloan', .refl loan'⟩
  · exact ⟨loan', hloan', hmove.later⟩

private theorem loanAt_loanId {loanId i : Nat} {loan : LoanRec M} (h : t.loanAt loanId i loan) :
    loan.loanId = loanId := by
  obtain ⟨loan', hloan', hid⟩ := Table.getElem?_of_locate h.1
  rw [h.2] at hloan'
  exact Option.some.inj hloan' ▸ hid

section Steps

variable [Amount M] {env : Env} {result : Bool}

private theorem Step.loansAdvance (h : Step env times t request result t') (hwf : WellFormed t) :
    LoansAdvance times request t t' := by
  cases h with
  | deposited _ _ haccount =>
      have hsame := updateAccount_loans haccount
      exact .of_eq hsame
  | withdrew _ _ haccount =>
      have hsame := updateAccount_loans haccount
      exact .of_eq hsame
  | transferred _ _ _ hfrom hto =>
      exact .of_eq ((updateAccount_loans hto).trans (updateAccount_loans hfrom))
  | statusSet haccount => exact .of_eq (updateAccount_loans haccount)
  | loanApplied => exact .of_append ⟨rfl, rfl, rfl⟩ rfl
  | loanAssigned hloan hpending hemp =>
      have hempId := (hwf.user_lt (Table.lookup_mem hemp)).1
      rw [Table.lookup_key hemp] at hempId
      have hid := loanAt_loanId hloan
      subst hid
      exact .of_move hloan (.assign hpending (by omega)) rfl
  | loanApproved hloan hassigned hemp _ hnow haccount =>
      have hid := loanAt_loanId hloan
      subst hid hemp
      have hsame := updateAccount_loans haccount
      exact .of_move hloan (.decide hassigned (.inl rfl) hnow)
        (congrArg (List.set · _ _) hsame)
  | loanRejected hloan hassigned hemp hnow =>
      have hid := loanAt_loanId hloan
      subst hid hemp
      exact .of_move hloan (.decide hassigned (.inr rfl) hnow) rfl
  | _ => exact .of_eq rfl

end Steps

/-! ## Fields, and the log -/

/-- Who was paid how much, over the approved loans. -/
def Tables.approvedLoans (t : Tables M) : List (Nat × M) :=
  (t.loans.filter fun loan => loan.status = .approved).map fun loan =>
    (loan.userId, loan.amount)

def Tables.loanDeposits (t : Tables M) : List (Nat × M) :=
  (t.transactions.filter fun tx => tx.narration = str "loan_deposit").map fun tx =>
    (tx.toAccount, tx.amount)

structure LoanRec.Agrees (loan : LoanRec M) : Prop where
  assignedTo : loan.assignedTo = 0 ↔ loan.status = .pending
  processedAt : loan.processedAt = 0 ↔ ¬ loan.status.Decided

theorem LoanRec.Fresh.agrees {loan : LoanRec M} (h : loan.Fresh) : loan.Agrees := by
  refine ⟨by simp [h.assignedTo, h.status], ?_⟩
  simp [h.processedAt, h.status, LoanStatus.Decided]

theorem LoanMove.agrees {request : Request M} {loan loan' : LoanRec M}
    (h : LoanMove times request loan loan') (htimes : 0 ∉ times) (hloan : loan.Agrees) :
    loan'.Agrees := by
  cases h with
  | assign hpending hemp =>
      have hprocessed := hloan.processedAt
      simp only [hpending, LoanStatus.Decided] at hprocessed
      exact ⟨by simp [hemp], by simpa [LoanStatus.Decided] using hprocessed⟩
  | @decide _ _ status now hassigned hdecided hnow =>
      have hnow0 : now ≠ 0 := fun h0 => htimes (h0 ▸ hnow)
      have hpending : status ≠ .pending := by
        rintro rfl
        rcases hdecided with h | h <;> cases h
      have hemp := hloan.assignedTo
      simp only [hassigned, reduceCtorEq, iff_false] at hemp
      exact ⟨by simp [hemp, hpending], by simp [hnow0, hdecided]⟩

theorem LoansAdvance.fields (h : LoansAdvance times request t t') (htimes : 0 ∉ times)
    (hfields : ∀ loan ∈ t.loans, loan.Agrees) : ∀ loan ∈ t'.loans, loan.Agrees := by
  intro loan' hmem
  obtain ⟨i, hloan'⟩ := List.mem_iff_getElem?.mp hmem
  cases hloan : t.loans[i]? with
  | none => exact (h.new i loan' hloan hloan').agrees
  | some loan =>
      have hagrees := hfields loan (List.mem_of_getElem? hloan)
      obtain ⟨loan'', hloan'', hmove⟩ := h.kept i loan hloan
      rw [hloan'] at hloan''
      cases hloan''
      rcases hmove with rfl | hmove
      · exact hagrees
      · exact hmove.agrees htimes hagrees

private theorem filter_map_set_perm {α β : Type} {l : List α} {i : Nat} {x y : α} (p : α → Bool)
    (f : α → β) (hx : l[i]? = some x) (hpx : p x = false) :
    (((l.set i y).filter p).map f).Perm
      ((if p y then [f y] else []) ++ (l.filter p).map f) := by
  obtain ⟨hi, rfl⟩ := List.getElem?_eq_some_iff.mp hx
  have hset := ((List.set_perm_cons_eraseIdx hi y).filter p).map f
  have hold := ((List.getElem_cons_eraseIdx_perm hi).filter p).map f
  rw [List.filter_cons_of_neg (by simp [hpx])] at hold
  refine hset.trans ?_
  cases hpy : p y
  · rw [List.filter_cons_of_neg (by simp [hpy])]
    exact hold
  · rw [List.filter_cons_of_pos hpy]
    exact hold.cons (f y)

private theorem loanDeposits_log (fromAccount toAccount : Nat) (amount : M) (now : Time)
    (narration : Bytes) :
    (t.log fromAccount toAccount amount now narration).loanDeposits =
      t.loanDeposits ++
        if narration = str "loan_deposit" then [(toAccount, amount)] else [] := by
  by_cases h : narration = str "loan_deposit" <;>
    simp [loanDeposits, log, h]

/-- The approved loans and the log pay the same amounts to the same users. -/
def Tables.Settled (t : Tables M) : Prop := t.approvedLoans.Perm t.loanDeposits

theorem Tables.Settled.congr (h : t.Settled) (hloans : t'.loans = t.loans)
    (htxns : t'.transactions = t.transactions) : t'.Settled := by
  unfold Settled approvedLoans loanDeposits
  rw [hloans, htxns]
  exact h

theorem Tables.Settled.log {fromAccount toAccount : Nat} {amount : M} {now : Time}
    {narration : Bytes} (h : t.Settled) (hne : narration ≠ str "loan_deposit") :
    (t.log fromAccount toAccount amount now narration).Settled := by
  unfold Settled
  rw [loanDeposits_log, if_neg hne, List.append_nil]
  exact h

private theorem approvedLoans_withLoan {i : Nat} {loan : LoanRec M} (loan' : LoanRec M)
    (hloan : t.loans[i]? = some loan) (hstatus : loan.status ≠ .approved) :
    (t.withLoan i loan').approvedLoans.Perm
      ((if loan'.status = .approved then [(loan'.userId, loan'.amount)] else []) ++
        t.approvedLoans) := by
  have hperm := filter_map_set_perm (y := loan')
    (fun loan : LoanRec M => decide (loan.status = .approved))
    (fun loan => (loan.userId, loan.amount)) hloan (by simp [hstatus])
  simp only [decide_eq_true_eq] at hperm
  exact hperm

theorem Tables.Settled.withLoan {i : Nat} {loan loan' : LoanRec M} (h : t.Settled)
    (hloan : t.loans[i]? = some loan) (hstatus : loan.status ≠ .approved)
    (hstatus' : loan'.status ≠ .approved) : (t.withLoan i loan').Settled := by
  have hperm := approvedLoans_withLoan loan' hloan hstatus
  rw [if_neg hstatus'] at hperm
  exact hperm.trans h

structure LoansInvariant (t : Tables M) : Prop where
  wellFormed : WellFormed t
  fields : ∀ loan ∈ t.loans, loan.Agrees
  settled : t.Settled

theorem LoansInvariant.empty (clock : Nat → Time) :
    LoansInvariant (Database.empty (M := M) clock).tables :=
  ⟨WellFormed.empty clock, nofun, .refl _⟩

section Runs

variable [Amount M] {env : Env} {result : Bool}

theorem Tables.Settled.updated {userId : Nat} {modifier : AccountModifier M}
    (h : t.Settled) (haccount : t.updateAccount userId modifier = some t') : t'.Settled :=
  h.congr (updateAccount_loans haccount) (updateAccount_transactions haccount)

theorem Step.settled (h : Step env times t request result t') (hpay : t.Settled) :
    t'.Settled := by
  cases h with
  | deposited _ _ haccount => exact (hpay.updated haccount).log (by decide)
  | withdrew _ _ haccount => exact (hpay.updated haccount).log (by decide)
  | transferred _ _ _ hfrom hto =>
      exact (((hpay.updated hfrom).updated hto).log (by decide)).log (by decide)
  | statusSet haccount => exact hpay.updated haccount
  | @loanApplied userId amount now =>
      have hsame : Tables.approvedLoans { t with loans := t.loans ++
          [⟨t.loans.length + 1, userId, amount, .pending, 0, now, 0⟩] } =
          t.approvedLoans := by
        simp [approvedLoans]
      unfold Settled
      rw [hsame]
      exact hpay
  | loanAssigned hloan hpending =>
      exact hpay.withLoan hloan.2 (by simp [hpending]) (by simp)
  | @loanApproved _ _ i loan logged now t' hloan hassigned _ _ _ haccount =>
      have hloan' : t'.loans[i]? = some loan := updateAccount_loans haccount ▸ hloan.2
      have hperm := approvedLoans_withLoan
        (t := t'.log 0 loan.userId loan.amount logged (str "loan_deposit"))
        { loan with status := .approved, processedAt := now } hloan' (by simp [hassigned])
      rw [if_pos rfl] at hperm
      refine hperm.trans ?_
      have hpaid := hpay.updated haccount
      refine (hpaid.cons (loan.userId, loan.amount)).trans ?_
      have hlog := loanDeposits_log (t := t') 0 loan.userId loan.amount logged
        (str "loan_deposit")
      rw [if_pos rfl] at hlog
      exact (List.perm_append_singleton _ _).symm.trans (.of_eq hlog.symm)
  | loanRejected hloan hassigned =>
      exact hpay.withLoan hloan.2 (by simp [hassigned]) (by simp)
  | _ => exact hpay

theorem LoansInvariant.step (h : Step env times t request result t') (htimes : 0 ∉ times)
    (hinv : LoansInvariant t) : LoansInvariant t' where
  wellFormed := hinv.wellFormed.step h
  fields := (h.loansAdvance hinv.wellFormed).fields htimes hinv.fields
  settled := h.settled hinv.settled

private theorem loans_later (env : Env) (requests : List (Request M)) {db : Database M}
    (hwf : WellFormed db.tables) (i : Nat) (loan : LoanRec M)
    (hloan : db.loanTable[i]? = some loan) :
    ∃ loan', (Request.serve env requests db).loanTable[i]? = some loan' ∧
      loan.Later loan' := by
  have hticks : db.Ticks Set.univ := fun _ => trivial
  have hinv : WellFormed (Request.serve env requests db).tables ∧
      ∃ loan', (Request.serve env requests db).tables.loans[i]? = some loan' ∧
        loan.Later loan' := by
    refine Request.serve_tables env
      (I := fun t => WellFormed t ∧ ∃ loan', t.loans[i]? = some loan' ∧ loan.Later loan')
      ?_ requests hticks ⟨hwf, loan, hloan, .refl loan⟩
    rintro t request result t' hstep ⟨hwf, loan', hloan', hlater⟩
    obtain ⟨loan'', hloan'', hlater'⟩ := (hstep.loansAdvance hwf).later i loan' hloan'
    exact ⟨hwf.step hstep, loan'', hloan'', hlater.trans hlater'⟩
  exact hinv.2

end Runs

/--
The life of the loans in any run of requests from empty databases, provided that
`time(NULL)` is never 0.  After `requests`: the fields of each loan agree with its
status and the approved loans with the log; one more request makes at most the
moves of `LoanMove`; and after any further requests a loan is still `Later`.
-/
theorem loan_life_cycle [Amount M] (env : Env) (clock : Nat → Time)
    (hclock : ∀ n, clock n ≠ 0) (requests : List (Request M)) :
    let db := Request.serve env requests (Database.empty clock)
    (∀ loan ∈ db.loanTable, (loan.assignedTo = 0 ↔ loan.status = .pending) ∧
      (loan.processedAt = 0 ↔ ¬ loan.status.Decided)) ∧
    db.tables.approvedLoans.Perm db.tables.loanDeposits ∧
    (∀ request : Request M, LoansAdvance {now | now ≠ 0} request db.tables
      (request.handle env db).2.tables) ∧
    ∀ (later : List (Request M)) (i : Nat) (loan : LoanRec M),
      db.loanTable[i]? = some loan →
      ∃ loan', (Request.serve env later db).loanTable[i]? = some loan' ∧
        loan.Later loan' := by
  intro db
  have hticks : (Database.empty (M := M) clock).Ticks {now | now ≠ 0} := hclock
  have hinv : LoansInvariant db.tables :=
    Request.serve_tables env (fun _ _ _ _ hstep => .step hstep (by simp)) requests hticks
      (LoansInvariant.empty clock)
  refine ⟨fun loan hmem => ?_, hinv.settled, fun request => ?_, fun later i loan => ?_⟩
  · have hagrees := hinv.fields loan hmem
    exact ⟨hagrees.assignedTo, hagrees.processedAt⟩
  · exact (Request.handle_step env request
      (Request.serve_ticks env requests hticks)).loansAdvance hinv.wellFormed
  · exact loans_later env later hinv.wellFormed i loan

theorem loan_life_cycle_approved :
    let requests : List (Request ℚ) :=
      [.addCustomer .zero (str "ann") (str "pw"),
        .addEmployee ⟨[], [], 30, [], str "e@bank", str "1"⟩ (str "employee")
          (str "eve") (str "pw"),
        .applyLoan 1001 5, .assignLoan 1 1002,
        .approveRejectLoan 1 (str "approve") 1002]
    let db := Request.serve .plain requests (Database.empty fun _ => 1)
    db.tables.loanDeposits = [(1001, 5)] ∧
      db.tables.approvedLoans.Perm db.tables.loanDeposits :=
  ⟨by decide +kernel, (loan_life_cycle .plain (fun _ => 1) (by simp) _).2.1⟩

end BankingSystem
