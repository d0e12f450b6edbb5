import BankingSystem.Failures.Helpers
import BankingSystem.Requests.Refinement

/-!
# Loan approval when system calls fail

The deposit and its record are written from inside the modifier, before the loan record.
If the loan record is then not written, the loan stays assigned and its amount is paid,
and the next try pays it again.
-/

namespace BankingSystem

open Foundation Posix Sys

variable {M : Type} [Amount M]

/-! ## What a decision leaves -/

/--
The amount of the loan is on the account, and the record of it is in the log unless so
many calls on the log have failed.
-/
def Credited (loan : LoanRec M) (t : Tables M) (logFailures : Nat) (t' : Tables M) : Prop :=
  ∃ t₁, t.updateAccount loan.userId (.deposit loan.amount) = some t₁ ∧
    ((logFailures = 0 ∧ ∃ now,
        t' = t₁.log 0 loan.userId loan.amount now (str "loan_deposit")) ∨
      (logFailures ≠ 0 ∧ t' = t₁))

inductive Draft (action : Bytes) (loan : LoanRec M) (t : Tables M) (logFailures : Nat) :
    Option (LoanRec M) → Tables M → Prop
  | refused : Draft action loan t logFailures none t
  | rejected (haction : action ≠ str "approve") (loan') :
      Draft action loan t logFailures (some loan') t
  | approved {t'} (haction : action = str "approve") (hassigned : loan.status = .assigned)
      (hcredited : Credited loan t logFailures t') (now) :
      Draft action loan t logFailures
        (some { loan with status := .approved, processedAt := now }) t'

/--
What a decision on a loan returns and leaves: it is refused, it is recorded, or the
amount is paid and the loan is as before.
-/
inductive Decision (loanId : Nat) (action : Bytes) (t : Tables M) (trace : Trace M) :
    Bool → Tables M → Prop
  | refused (hwrites : action = str "approve" → false ∉ writes .loans trace) :
      Decision loanId action t trace false t
  | recorded {t'} (hwrites : false ∉ writes .loans trace)
      (hdone : action = str "approve" → ∃ i loan now t₁, t.loanAt loanId i loan ∧
        loan.status = .assigned ∧ Credited loan t (failures .transactions trace) t₁ ∧
        t' = t₁.withLoan i { loan with status := .approved, processedAt := now }) :
      Decision loanId action t trace true t'
  | halfway {i loan t'} (haction : action = str "approve")
      (hwrites : false ∈ writes .loans trace) (hloan : t.loanAt loanId i loan)
      (hassigned : loan.status = .assigned)
      (hcredited : Credited loan t (failures .transactions trace) t') :
      Decision loanId action t trace false t'

theorem Credited.loans {loan : LoanRec M} {t t' : Tables M} {logFailures : Nat}
    (h : Credited loan t logFailures t') : t'.loans = t.loans := by
  obtain ⟨t₁, haccount, ⟨-, now, rfl⟩ | ⟨-, rfl⟩⟩ := h
  · have hloans : t₁.loans = t.loans := Tables.updateAccount_loans haccount
    exact hloans
  · exact Tables.updateAccount_loans haccount

/-! ## An update of a loan -/

omit [Amount M] in
private theorem tables_putLoan {d : Disk DbFile (DbFile.Rec M)} {i : Nat} (loan : LoanRec M)
    (hi : i < d.tables.loans.length) :
    (d.setFile .loans (Table.put (d.content .loans) i loan)).tables =
      d.tables.withLoan i loan := by
  have hput : Table.put (d.content .loans) i loan = (d.content .loans).set i loan :=
    Table.put_of_lt hi
  rw [hput]
  simp [Disk.tables, Disk.content, Disk.setFile, Tables.withLoan]

namespace Sys

variable {fuel : Nat} {d : Disk DbFile (DbFile.Rec M)}

/--
Either the modifier is not reached, or what it has made of the record is written back,
or not.
-/
private theorem atomicUpdateLoan_surely {loanId : Nat} {respMsg : Bytes}
    {modifier : LoanRec M → Prog (Db M) (Option (LoanRec M) × Bytes)}
    {R : Reply → Disk DbFile (DbFile.Rec M) → Trace M → Prop}
    (hfuel : d.tables.loans.length < fuel)
    (hmissed : ∀ trace : Trace M, writes .loans trace = [] → R ⟨false, respMsg⟩ d trace)
    (hfound : ∀ i loan, d.tables.loanAt loanId i loan →
      Surely true (expand fuel (modifier loan)) d fun out d₁ middle =>
        ∀ before result d' after, OnlyLooks .loans d d before →
          Committed .loans i out.1 d₁ result d' after →
            R ⟨result, out.2⟩ d' (before ++ (middle ++ after))) :
    Surely true (expand fuel (Db.atomicUpdateLoan loanId modifier respMsg)) d R := by
  rw [Db.atomicUpdateLoan_eq]
  refine expand_call_surely (findOffset_surely (f := .loans) _ hfuel) ?_
  rintro offset d₁ first ⟨hlooks, -, hanswers⟩
  obtain rfl := hlooks.disk
  cases offset with
  | none => exact hmissed _ (by simp [hlooks.writes])
  | some i =>
      refine expand_call_surely (beginUpdate_surely (f := .loans) i) ?_
      rintro tmp d₂ second ⟨hlooks', -, hanswers'⟩
      obtain rfl := hlooks'.disk
      cases tmp with
      | none => exact hmissed _ (by simp [hlooks.writes, hlooks'.writes])
      | some loan =>
          have hloan : d₂.tables.loanAt loanId i loan :=
            ⟨hanswers.of_some.1, hanswers'.of_some.1⟩
          refine expand_bind_surely ((hfound i loan hloan).imp ?_)
          rintro out d₃ middle hout
          refine expand_call_surely (endUpdate_surely (f := .loans) i out.1) ?_
          rintro result d' after hcommitted
          have hR := hout (first ++ second) result d' after (hlooks.append hlooks') hcommitted
          show R ⟨result, out.2⟩ d' (first ++ (second ++ (middle ++ (after ++ []))))
          rwa [List.append_nil, ← List.append_assoc]

variable {action : Bytes} {empId : Nat} {loan : LoanRec M}

private theorem approve_surely (hassigned : loan.status = .assigned)
    (hfuel : d.tables.accounts.length < fuel) {approved refused : Bytes} :
    Surely true (expand fuel (do
      if ← Db.atomicUpdateAccount loan.userId (.deposit loan.amount) then
        let logged ← Db.time
        let _ ← Db.appendTransaction
          ⟨0, 0, loan.userId, loan.amount, logged, str "loan_deposit"⟩
        let now ← Db.time
        return (some { loan with status := .approved, processedAt := now }, approved)
      else return (none, refused))) d fun out d₁ middle =>
        writes .loans middle = [] ∧
          Draft (str "approve") loan d.tables (failures .transactions middle) out.1
            d₁.tables := by
  refine expand_call_surely (atomicUpdateAccount_surely loan.userId _ hfuel) ?_
  intro success d₁ first hupdated
  have hlogs := hupdated.within.failures (g := .transactions) nofun
  have hwrites := hupdated.within.writes (g := .loans) nofun
  rcases hupdated.tables with ⟨rfl, haccount, -, -⟩ | ⟨rfl, rfl, -, -⟩
  · refine expand_call_surely time_surely ?_
    rintro logged d₂ second ⟨-, hfiles, rfl⟩
    refine expand_call_surely (appendTransaction_surely ..) ?_
    rintro logged' d₃ third ⟨hwithin, houtcome⟩
    rw [tables_of_files hfiles] at houtcome
    have hwrites' := hwithin.writes (g := .loans) nofun
    refine expand_call_surely time_surely ?_
    rintro now d₄ fourth ⟨-, hfiles', rfl⟩
    refine ⟨by simp [hwrites, hwrites', Call.isWrite], .approved rfl hassigned ?_ now⟩
    rw [tables_of_files hfiles']
    refine ⟨d₁.tables, haccount, ?_⟩
    rcases houtcome with ⟨htables, hnone⟩ | ⟨htables, hone⟩
    · exact .inl ⟨by simp [hlogs, hnone], _, htables⟩
    · exact .inr ⟨by simp [hlogs, hone], htables⟩
  · exact ⟨by simp [hwrites], .refused⟩

private theorem approveRejectLoanModifier_surely (action : Bytes) (empId : Nat) (loan : LoanRec M)
    (hfuel : d.tables.accounts.length < fuel) :
    Surely true (expand fuel (approveRejectLoanModifier action empId loan)) d
      fun out d₁ middle => writes .loans middle = [] ∧
        Draft action loan d.tables (failures .transactions middle) out.1 d₁.tables := by
  unfold approveRejectLoanModifier
  by_cases hassigned : loan.status = .assigned
  swap
  · rw [if_pos hassigned]
    exact ⟨rfl, .refused⟩
  rw [if_neg (not_not_intro hassigned)]
  by_cases hemp : loan.assignedTo = empId
  swap
  · rw [if_pos hemp]
    exact ⟨rfl, .refused⟩
  rw [if_neg (not_not_intro hemp)]
  by_cases happrove : action = str "approve"
  · subst happrove
    rw [if_pos rfl]
    refine expand_call_surely (readRecord_surely (f := .accounts) _ hfuel) ?_
    rintro acc d₁ first ⟨⟨rfl, hwithin, -⟩, -, -⟩
    have hlogs := hwithin.failures (g := .transactions) nofun
    have hwrites := hwithin.writes (g := .loans) nofun
    by_cases hinactive : acc.all (fun acc => acc.active = .inactive) = true
    · simp only [Prog.bind, if_pos hinactive]
      exact ⟨by simp [hwrites], .refused⟩
    · simp only [Prog.bind, if_neg hinactive]
      refine (approve_surely hassigned hfuel).imp ?_
      rintro out d₂ middle ⟨hmiddle, hdraft⟩
      refine ⟨by simp [hwrites, hmiddle], ?_⟩
      rwa [failures_append, hlogs, Nat.zero_add]
  · rw [if_neg happrove]
    by_cases hreject : action = str "reject"
    · rw [if_pos hreject]
      refine expand_call_surely time_surely ?_
      rintro now d₁ first ⟨-, hfiles, rfl⟩
      rw [← tables_of_files hfiles]
      exact ⟨by simp [Call.isWrite], .rejected happrove _⟩
    · rw [if_neg hreject]
      exact ⟨rfl, .refused⟩

end Sys

/-! ## A decision when calls fail -/

variable {fuel : Nat} {d : Disk DbFile (DbFile.Rec M)}

private theorem Draft.decision {action : Bytes} {loan : LoanRec M} {loanId i : Nat}
    {t t' : Tables M}
    {updated : Option (LoanRec M)} {result : Bool} {d₁ d' : Disk DbFile (DbFile.Rec M)}
    {before middle after : Trace M}
    (hdraft : Draft action loan t (failures .transactions middle) updated t')
    (htables : d₁.tables = t') (hloan : t.loanAt loanId i loan)
    (hlooks : OnlyLooks .loans d d before) (hmiddle : writes .loans middle = [])
    (hcommitted : Committed .loans i updated d₁ result d' after) :
    Decision loanId action t (before ++ (middle ++ after)) result d'.tables := by
  have hwrites : writes .loans (before ++ (middle ++ after)) = writes .loans after := by
    simp [hlooks.writes, hmiddle]
  have hlogs : failures .transactions (before ++ (middle ++ after)) =
      failures .transactions middle := by
    have hbefore := hlooks.within.failures (g := .transactions) nofun
    have hafter := hcommitted.within.failures (g := .transactions) nofun
    simp [hbefore, hafter]
  have hi : i < t.loans.length := (List.getElem?_eq_some_iff.mp hloan.2).1
  cases hdraft with
  | refused =>
      rcases hcommitted.outcome with ⟨_, hsome, -⟩ | ⟨hsome, -⟩ | ⟨-, rfl, rfl, hnone, -⟩
      · cases hsome
      · cases hsome
      · rw [htables]
        exact .refused fun _ => by simp [hwrites, hnone]
  | rejected haction loan' =>
      rcases hcommitted.outcome with ⟨_, -, rfl, -, hwritten, -⟩ | ⟨-, rfl, rfl, -⟩ | ⟨hnone, -⟩
      · exact .recorded (by simp [hwrites, hwritten]) fun happrove => absurd happrove haction
      · rw [htables]
        exact .refused fun happrove => absurd happrove haction
      · cases hnone
  | approved haction hassigned hcredited now =>
      rcases hcommitted.outcome with ⟨_, ⟨⟩, rfl, rfl, hwritten, -⟩ |
        ⟨-, rfl, rfl, hwritten, -⟩ | ⟨hnone, -⟩
      · refine .recorded (by simp [hwrites, hwritten]) fun _ => ?_
        refine ⟨i, loan, now, t', hloan, hassigned, by rwa [hlogs], ?_⟩
        rw [tables_putLoan, htables]
        rw [htables, hcredited.loans]
        exact hi
      · rw [htables]
        exact .halfway haction (by simp [hwrites, hwritten]) hloan hassigned (by rwa [hlogs])
      · cases hnone

private theorem approveRejectLoan_surely (loanId : Nat) (action : Bytes) (empId : Nat)
    (hloans : d.tables.loans.length < fuel) (haccounts : d.tables.accounts.length < fuel) :
    Surely true (expand fuel (approveRejectLoan loanId action empId [])) d
      fun reply d' trace => Decision loanId action d.tables trace reply.result d'.tables := by
  have hupdate : Surely true (expand fuel
      (Db.atomicUpdateLoan loanId (approveRejectLoanModifier action empId) [])) d
      fun reply d' trace => Decision loanId action d.tables trace reply.result d'.tables := by
    refine atomicUpdateLoan_surely hloans (fun trace hnone => ?_) fun i loan hloan => ?_
    · exact .refused fun _ => by simp [hnone]
    · refine (approveRejectLoanModifier_surely action empId loan haccounts).imp ?_
      rintro ⟨updated, text⟩ d₁ middle ⟨hmiddle, hdraft⟩ before result d' after hlooks hcommitted
      exact hdraft.decision rfl hloan hlooks hmiddle hcommitted
  refine expand_bind_surely (hupdate.imp ?_)
  rintro ⟨result, text⟩ d' trace hdecision
  have hend : Decision loanId action d.tables (trace ++ []) result d'.tables := by
    rwa [List.append_nil]
  cases result <;> exact hend

/-! ## The condition -/

private theorem deposit_eq_self_iff {t t' : Tables M} {userId : Nat} {amount : M}
    {acc : AccountRec M} (hacc : Table.lookup AccountRec.userId userId t.accounts = some acc)
    (haccount : t.updateAccount userId (.deposit amount) = some t') :
    t' = t ↔ acc.balance + amount = acc.balance := by
  obtain ⟨i, acc₁, acc', hloc, hget, happly, rfl⟩ :=
    Tables.updateAccount_eq_some_iff.mp haccount
  obtain rfl : acc₁ = acc := by
    rw [Table.lookup_of_locate hloc, hget] at hacc
    exact Option.some.inj hacc
  obtain ⟨-, rfl⟩ := depositModifier_eq_some_iff.mp happly
  exact Tables.withBalance_eq_self_iff hget

/--
If an approval comes to write the loan record, the write succeeds; or else the amount
changes no balance, and there is no record of it in the log.
-/
def ApprovalCompletes (loanId : Nat) (action : Bytes) (t : Tables M) (trace : Trace M) : Prop :=
  action = str "approve" → false ∈ writes .loans trace →
    failures .transactions trace ≠ 0 ∧
      ∀ loan acc, Table.lookup LoanRec.loanId loanId t.loans = some loan →
        Table.lookup AccountRec.userId loan.userId t.accounts = some acc →
          acc.balance + loan.amount = acc.balance

theorem Credited.eq_self_iff {loan : LoanRec M} {t t' : Tables M} {logFailures : Nat}
    {acc : AccountRec M} (h : Credited loan t logFailures t')
    (hacc : Table.lookup AccountRec.userId loan.userId t.accounts = some acc) :
    t' = t ↔ logFailures ≠ 0 ∧ acc.balance + loan.amount = acc.balance := by
  obtain ⟨t₁, haccount, ⟨hnone, now, rfl⟩ | ⟨hsome, rfl⟩⟩ := h
  · refine iff_of_false (fun hsame => ?_) fun h => h.1 hnone
    have hlength := congrArg (fun t : Tables M => t.transactions.length) hsame
    have hkept := Tables.updateAccount_transactions haccount
    simp [Tables.log, hkept] at hlength
  · rw [deposit_eq_self_iff hacc haccount, and_iff_right hsome]

private theorem Decision.undone_iff {loanId : Nat} {action : Bytes} {t t' : Tables M}
    {trace : Trace M} {result : Bool} (h : Decision loanId action t trace result t') :
    (result = false → t' = t) ↔ ApprovalCompletes loanId action t trace := by
  cases h with
  | refused hwrites => exact iff_of_true (fun _ => rfl) fun haction h => absurd h (hwrites haction)
  | recorded hwrites _ => exact iff_of_true nofun fun _ h => absurd h hwrites
  | @halfway i loan t' haction hwrites hloan _ hcredited =>
      have hlookup : Table.lookup LoanRec.loanId loanId t.loans = some loan := by
        rw [Table.lookup_of_locate hloan.1, hloan.2]
      obtain ⟨t₁, haccount, -⟩ := id hcredited
      obtain ⟨acc, _, -, hreplaced⟩ := Tables.updateAccount_replaced haccount
      have hacc := hreplaced.before
      rw [forall_prop_of_true rfl, hcredited.eq_self_iff hacc]
      constructor
      · rintro ⟨hlog, hsame⟩ - -
        refine ⟨hlog, fun loan' acc' hloan' hacc' => ?_⟩
        rw [hlookup] at hloan'
        cases hloan'
        rw [hacc] at hacc'
        cases hacc'
        exact hsame
      · intro h
        obtain ⟨hlog, hsame⟩ := h haction hwrites
        exact ⟨hlog, hsame loan acc hlookup hacc⟩

/-! ## Retries -/

/-- Any number of tries to approve the loan, each alone and each meeting the condition. -/
inductive Tries (fuel loanId : Nat) :
    Disk DbFile (DbFile.Rec M) → Disk DbFile (DbFile.Rec M) → Prop
  | done (d : Disk DbFile (DbFile.Rec M)) : Tries fuel loanId d d
  | retry {d d' s' reply} (empId : Nat) (fails : Nat → Bool)
      (hends : Prog.Ends (Faulty.step (ioErrors true) Disk.exec)
        (expand fuel (approveRejectLoan loanId (str "approve") empId [])) ⟨d, fails, []⟩
        reply s')
      (hcompletes : ApprovalCompletes loanId (str "approve") d.tables s'.trace)
      (hrest : Tries fuel loanId s'.state d') : Tries fuel loanId d d'

/-- Nothing has changed, or the amount of the loan was paid once and the loan is not assigned. -/
def PaidAtMostOnce (loanId : Nat) (t t' : Tables M) : Prop :=
  t' = t ∨ ∃ i loan loan' t₁, t.loanAt loanId i loan ∧
    t.updateAccount loan.userId (.deposit loan.amount) = some t₁ ∧
    t'.accounts = t₁.accounts ∧ t'.transactions.length ≤ t.transactions.length + 1 ∧
    t'.loans = t.loans.set i loan' ∧ loan'.loanId = loan.loanId ∧ loan'.status ≠ .assigned

theorem Credited.paid {loan : LoanRec M} {t t' : Tables M} {logFailures : Nat}
    (h : Credited loan t logFailures t') :
    ∃ t₁, t.updateAccount loan.userId (.deposit loan.amount) = some t₁ ∧
      t'.accounts = t₁.accounts ∧ t'.transactions.length ≤ t.transactions.length + 1 := by
  obtain ⟨t₁, haccount, hlog⟩ := h
  have hkept := Tables.updateAccount_transactions haccount
  refine ⟨t₁, haccount, ?_⟩
  rcases hlog with ⟨-, now, rfl⟩ | ⟨-, rfl⟩
  · exact ⟨rfl, by simp [Tables.log, hkept]⟩
  · exact ⟨rfl, by simp [hkept]⟩

theorem PaidAtMostOnce.lengths {loanId : Nat} {t t' : Tables M} (h : PaidAtMostOnce loanId t t') :
    t'.loans.length = t.loans.length ∧ t'.accounts.length = t.accounts.length := by
  rcases h with rfl | ⟨i, loan, loan', t₁, -, haccount, haccounts, -, hloans, -⟩
  · exact ⟨rfl, rfl⟩
  · rw [hloans, haccounts, List.length_set, Tables.updateAccount_length haccount]
    exact ⟨rfl, rfl⟩

private theorem Decision.paidAtMostOnce {loanId : Nat} {t t₁ t₂ : Tables M} {trace : Trace M}
    {result : Bool} (h : Decision loanId (str "approve") t₁ trace result t₂)
    (hcompletes : ApprovalCompletes loanId (str "approve") t₁ trace)
    (hpaid : PaidAtMostOnce loanId t t₁) : PaidAtMostOnce loanId t t₂ := by
  have hundone := h.undone_iff.mpr hcompletes
  rcases hpaid with rfl | hpaid
  · cases h with
    | refused => exact .inl rfl
    | halfway => exact .inl (hundone rfl)
    | recorded _ hdone =>
        obtain ⟨i, loan, now, t₃, hloan, -, hcredited, rfl⟩ := hdone rfl
        obtain ⟨t₄, haccount, haccounts, hlength⟩ := hcredited.paid
        refine .inr ⟨i, loan, { loan with status := .approved, processedAt := now }, t₄, hloan,
          haccount, haccounts, hlength, ?_, rfl, nofun⟩
        rw [Tables.withLoan, hcredited.loans]
  · -- the loan is not assigned any more
    have hprocessed : ∀ j loan, t₁.loanAt loanId j loan → loan.status ≠ .assigned := by
      obtain ⟨i, loan, loan', -, hloan, -, -, -, hloans, hkey, hstatus⟩ := hpaid
      intro j other hother
      have hi := (List.getElem?_eq_some_iff.mp hloan.2).1
      have hloc : Table.locate LoanRec.loanId loanId t₁.loans = some i := by
        rw [hloans, Table.locate_set hloan.2 hkey]
        exact hloan.1
      obtain rfl : i = j := Option.some.inj (hloc.symm.trans hother.1)
      have hget := hother.2
      rw [hloans, List.getElem?_set_self hi] at hget
      cases hget
      exact hstatus
    cases h with
    | refused => exact .inr hpaid
    | halfway _ _ hloan hassigned => exact absurd hassigned (hprocessed _ _ hloan)
    | recorded _ hdone =>
        obtain ⟨i, loan, -, -, hloan, hassigned, -⟩ := hdone rfl
        exact absurd hassigned (hprocessed _ _ hloan)

private theorem Tries.paidAtMostOnce {loanId : Nat} {t : Tables M}
    {d d' : Disk DbFile (DbFile.Rec M)}
    (h : Tries fuel loanId d d') (hloans : t.loans.length < fuel)
    (haccounts : t.accounts.length < fuel) (hpaid : PaidAtMostOnce loanId t d.tables) :
    PaidAtMostOnce loanId t d'.tables := by
  induction h with
  | done d => exact hpaid
  | retry empId fails hends hcompletes hrest ih =>
      have hlengths := hpaid.lengths
      have hdecision := (approveRejectLoan_surely loanId (str "approve") empId
        (by omega) (by omega)).of_ends hends
      exact ih (hdecision.paidAtMostOnce hcompletes hpaid)

/--
Whatever fails, a decision ends, and one that is refused changes nothing exactly under
the condition.  If every try meets it, the amount is paid at most once.
-/
theorem refused_decision_undone_iff (loanId : Nat) (action : Bytes) (empId : Nat)
    (fails : Nat → Bool) (hloans : d.tables.loans.length < fuel)
    (haccounts : d.tables.accounts.length < fuel) :
    (∃ reply s', Prog.Ends (Faulty.step (ioErrors true) Disk.exec)
        (expand fuel (approveRejectLoan loanId action empId [])) ⟨d, fails, []⟩ reply s' ∧
      ((reply.result = false → s'.state.tables = d.tables) ↔
        ApprovalCompletes loanId action d.tables s'.trace)) ∧
    ∀ d', Tries fuel loanId d d' → PaidAtMostOnce loanId d.tables d'.tables := by
  constructor
  · obtain ⟨reply, d', later, trace, hends, hdecision⟩ :=
      (approveRejectLoan_surely loanId action empId hloans haccounts).ends fails []
    exact ⟨reply, _, hends, hdecision.undone_iff⟩
  · exact fun d' htries => htries.paidAtMostOnce hloans haccounts (.inl rfl)

def loanBank : Database ℚ :=
  { Database.ofAccounts [⟨1001, 1001, 100, .active⟩] fun _ => 1 with
    loans := some [⟨1, 1001, 5, .assigned, 1002, 1, 0⟩] }

theorem refused_decision_undone_iff_approve :
    (∃ reply s', Prog.Ends (Faulty.step (ioErrors true) Disk.exec)
        (expand 2 (approveRejectLoan 1 (str "approve") 1002 []))
        ⟨loanBank.disk, fun n => n = 32, []⟩ reply s' ∧
      ((reply.result = false → s'.state.tables = loanBank.disk.tables) ↔
        ApprovalCompletes 1 (str "approve") loanBank.disk.tables s'.trace)) ∧
    ∀ d', Tries 2 1 loanBank.disk d' → PaidAtMostOnce 1 loanBank.disk.tables d'.tables :=
  refused_decision_undone_iff 1 (str "approve") 1002 (fun n => n = 32) (by decide) (by decide)

/-- The last write is the one of the loan record. -/
theorem refused_approval_pays :
    ¬ ∀ fails : Nat → Bool, ∃ reply s',
      Prog.Ends (Faulty.step (ioErrors true) Disk.exec)
        (expand 2 (approveRejectLoan 1 (str "approve") 1002 [])) ⟨loanBank.disk, fails, []⟩
        reply s' ∧
      (reply.result = false → s'.state.tables = loanBank.disk.tables) := by
  intro h
  obtain ⟨reply, s', hends, hundone⟩ := h fun n => n = 32
  have hrun : (Prog.run? (Faulty.step (ioErrors true) Disk.exec)
      (expand 2 (approveRejectLoan 1 (str "approve") 1002 []))
      ⟨loanBank.disk, fun n => n = 32, []⟩).map
        (fun result => (result.1.result, result.2.state.tables.accounts)) =
      some (false, [⟨1001, 1001, 105, .active⟩]) := by
    decide +kernel
  rw [hends] at hrun
  simp only [Option.map_some, Option.some.injEq, Prod.mk.injEq] at hrun
  have hpaid := hrun.2
  rw [hundone hrun.1] at hpaid
  exact absurd hpaid (by decide +kernel)

end BankingSystem
