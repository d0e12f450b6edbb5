import BankingSystem.Failures.Helpers
import BankingSystem.Requests.Refinement

/-!
# Money and log when system calls fail

A deposit, a withdrawal or a transfer writes the accounts first and the log after them,
and does not look at the result of the log.  A transfer whose deposit fails puts the
amount back, which can fail as well.
-/

namespace BankingSystem

open Foundation Posix Sys

variable {M : Type}

/-! ## The condition -/

def Sys.afterPayment (trace : Trace M) : Trace M := afterFirst (Call.isWrite .accounts) trace

/--
What is left of a balance after so many failed calls on the accounts: the first makes
the deposit of a transfer fail, a second one the rollback.
-/
def BalanceRestored [Amount M] (balance amount : M) : Nat → Prop
  | 0 => True
  | 1 => balance - amount + amount = balance
  | _ + 2 => balance - amount = balance

/--
After the payment no call on the log fails, and the failed calls on the accounts leave
the sender of a transfer with the old balance.
-/
def Request.Completes [Amount M] (t : Tables M) (request : Request M) (trace : Trace M) : Prop :=
  failures .transactions (afterPayment trace) = 0 ∧
  ∀ fromId toId amount, request = .transfer fromId toId amount →
    ∀ acc, Table.lookup AccountRec.userId fromId t.accounts = some acc →
      BalanceRestored acc.balance amount (failures .accounts (afterPayment trace))

def Request.MovesMoney : Request M → Prop
  | .deposit _ _ | .withdraw _ _ | .transfer _ _ _ => True
  | _ => False

def Request.logs : Request M → Nat
  | .transfer _ _ _ => 2
  | _ => 1

section Traces

variable {first second : Trace M} {f : DbFile}

private theorem afterPayment_append_of_written (h : true ∈ writes .accounts first)
    (second : Trace M) :
    afterPayment (first ++ second) = afterPayment first ++ second :=
  afterFirst_append_of_mem h second

private theorem afterPayment_append_of_unwritten (h : true ∉ writes .accounts first)
    (second : Trace M) :
    afterPayment (first ++ second) = afterPayment second :=
  afterFirst_append_of_not_mem h second

private theorem afterPayment_of_unwritten (h : true ∉ writes .accounts first) :
    afterPayment first = [] := by
  have hnil := afterPayment_append_of_unwritten h []
  rwa [List.append_nil] at hnil

private theorem failures_afterPayment (h : failures f first = 0) :
    failures f (afterPayment first) = 0 := by
  have hle : failures f (afterPayment first) ≤ failures f first :=
    count_outcomes_afterFirst_le (S := Sys M) (Call.isOn f) false first
  omega

private theorem Request.completes_of_unwritten [Amount M] {t : Tables M} (request : Request M)
    (h : true ∉ writes .accounts first) : request.Completes t first := by
  rw [Completes, afterPayment_of_unwritten h]
  exact ⟨rfl, fun _ _ _ _ _ _ => trivial⟩

end Traces

/-! ## Deposits and withdrawals -/

section Programs

variable [Amount M] {env : Env} {fuel : Nat} {d : Disk DbFile (DbFile.Rec M)}
  {request : Request M} {reply : Reply}

private theorem Step.length_transactions {times : Set Time} {t t' : Tables M} {result : Bool}
    (h : Step env times t request result t') (hmoney : request.MovesMoney) :
    t'.transactions.length = t.transactions.length + if result then request.logs else 0 := by
  cases h with
  | refused => rfl
  | deposited _ _ haccount | withdrew _ _ haccount =>
      rw [← Tables.updateAccount_transactions haccount]
      simp [Tables.log, Request.logs]
  | transferred _ _ _ hfrom hto =>
      rw [← Tables.updateAccount_transactions hfrom, ← Tables.updateAccount_transactions hto]
      simp [Tables.log, Request.logs]
  | looked hread => cases request <;> first | exact hmoney.elim | cases hread
  | _ => exact hmoney.elim

private theorem refusal_surely {userId : Nat} {next : Option (AccountRec M) → Prog (Db M) Reply}
    (hnext : ∀ acc, ∃ reply, next acc = .ret reply ∧ reply.result = false)
    (hfuel : d.tables.accounts.length < fuel) :
    Surely true (expand fuel (.call (.readAccount userId) next)) d fun reply d' rest =>
      reply.result = false ∧ d' = d ∧ writes .accounts rest = [] := by
  refine expand_call_surely (readRecord_surely (f := .accounts) _ hfuel) ?_
  rintro acc d₁ first ⟨⟨rfl, -, hwrites⟩, -, -⟩
  obtain ⟨reply, hreply, hresult⟩ := hnext acc
  rw [hreply]
  exact ⟨hresult, rfl, by simp [hwrites]⟩

private theorem logging_surely (fromAccount toAccount : Nat) (amount : M) (narration : Bytes) :
    Surely true (expand fuel (do
      let now ← Db.time
      let _ ← Db.appendTransaction ⟨0, fromAccount, toAccount, amount, now, narration⟩
      return reply)) d fun reply' d' rest =>
        reply' = reply ∧ failures .accounts rest = 0 ∧
        ((∃ now, d'.tables = d.tables.log fromAccount toAccount amount now narration) ∧
            failures .transactions rest = 0 ∨
          d'.tables = d.tables ∧ failures .transactions rest = 1) := by
  refine expand_call_surely time_surely ?_
  rintro now d₁ first ⟨-, hfiles, rfl⟩
  refine expand_call_surely (appendTransaction_surely ..) ?_
  rintro logged d₂ second ⟨hwithin, houtcome⟩
  rw [tables_of_files hfiles] at houtcome
  have haccounts := hwithin.failures (g := .accounts) nofun
  refine ⟨rfl, by simp [haccounts], ?_⟩
  simpa using houtcome.imp_left fun h => ⟨⟨now, h.1⟩, h.2⟩

private theorem payment_surely {userId fromAccount toAccount : Nat} {modifier : AccountModifier M}
    {amount : M} {narration : Bytes} {next : Option (AccountRec M) → Prog (Db M) Reply}
    (hnext : ∀ acc, ∃ reply, next acc = .ret reply ∧ reply.result = false)
    (hprogram : request.program env = .call (.updateAccount userId modifier) fun success =>
      if success then (do
        let now ← Db.time
        let _ ← Db.appendTransaction ⟨0, fromAccount, toAccount, amount, now, narration⟩
        return reply)
      else .call (.readAccount userId) next)
    (hresult : reply.result = true) (hmoney : request.MovesMoney)
    (hplain : ∀ fromId toId amount, request ≠ .transfer fromId toId amount)
    (hstep : ∀ t₁ now, d.tables.updateAccount userId modifier = some t₁ →
      Step env Set.univ d.tables request true
        (t₁.log fromAccount toAccount amount now narration))
    (hfuel : d.tables.accounts.length < fuel) :
    Surely true (expand fuel (request.program env)) d fun reply d' trace =>
      Step env Set.univ d.tables request reply.result d'.tables ↔
        request.Completes d.tables trace := by
  have hcompletes : ∀ trace : Trace M, request.Completes d.tables trace ↔
      failures .transactions (afterPayment trace) = 0 := by
    intro trace
    refine and_iff_left ?_
    exact fun fromId toId amount heq => absurd heq (hplain fromId toId amount)
  rw [hprogram]
  refine expand_call_surely (atomicUpdateAccount_surely userId modifier.apply hfuel) ?_
  intro success d₁ first hupdated
  rcases hupdated.tables with ⟨rfl, haccount, hwritten, -⟩ | ⟨rfl, rfl, hunwritten, -⟩
  · refine (logging_surely fromAccount toAccount amount narration).imp ?_
    rintro reply' d' rest ⟨rfl, -, houtcome⟩
    have hfirst := failures_afterPayment (hupdated.within.failures (g := .transactions) nofun)
    rw [hcompletes, afterPayment_append_of_written hwritten, failures_append, hfirst,
      Nat.zero_add]
    rcases houtcome with ⟨⟨now, htables⟩, hnone⟩ | ⟨htables, hone⟩
    · rw [hresult, htables]
      exact iff_of_true (hstep d₁.tables now haccount) hnone
    · refine iff_of_false (fun h => ?_) (by omega)
      have hlength := h.length_transactions hmoney
      rw [htables, Tables.updateAccount_transactions haccount, hresult] at hlength
      cases request <;> simp [Request.logs] at hlength
  · refine (refusal_surely hnext hfuel).imp ?_
    rintro reply' d' rest ⟨hrefused, rfl, hwrites⟩
    rw [hrefused]
    exact iff_of_true (.refused _) (request.completes_of_unwritten (by simp [hunwritten, hwrites]))

private theorem deposit_surely (userId : Nat) (amount : M)
    (hfuel : d.tables.accounts.length < fuel) :
    Surely true (expand fuel ((Request.deposit userId amount).program env)) d
      fun reply d' trace => Step env Set.univ d.tables (.deposit userId amount) reply.result
        d'.tables ↔ (Request.deposit userId amount).Completes d.tables trace := by
  by_cases hpos : amount ≤ 0
  · simp only [Request.program, depositMoney, if_pos hpos]
    exact iff_of_true (.refused _) (Request.completes_of_unwritten _ nofun)
  · apply payment_surely
    case hprogram =>
      simp only [Request.program, depositMoney, if_neg hpos]
      rfl
    case hresult => rfl
    case hmoney => trivial
    case hplain => nofun
    case hstep => exact fun t₁ now haccount => .deposited hpos trivial haccount
    case hfuel => exact hfuel
    case hnext =>
      intro acc
      cases acc with
      | none => exact ⟨_, rfl, rfl⟩
      | some acc =>
          by_cases hinactive : acc.active = .inactive
          · exact ⟨_, if_pos hinactive, rfl⟩
          · exact ⟨_, if_neg hinactive, rfl⟩

private theorem withdraw_surely (userId : Nat) (amount : M)
    (hfuel : d.tables.accounts.length < fuel) :
    Surely true (expand fuel ((Request.withdraw userId amount).program env)) d
      fun reply d' trace => Step env Set.univ d.tables (.withdraw userId amount) reply.result
        d'.tables ↔ (Request.withdraw userId amount).Completes d.tables trace := by
  by_cases hpos : amount ≤ 0
  · simp only [Request.program, withdrawMoney, if_pos hpos]
    exact iff_of_true (.refused _) (Request.completes_of_unwritten _ nofun)
  · apply payment_surely
    case hprogram =>
      simp only [Request.program, withdrawMoney, if_neg hpos]
      rfl
    case hresult => rfl
    case hmoney => trivial
    case hplain => nofun
    case hstep => exact fun t₁ now haccount => .withdrew hpos trivial haccount
    case hfuel => exact hfuel
    case hnext => exact fun acc => ⟨_, rfl, rfl⟩

/-! ## Transfers -/

private theorem withdraw_deposit_tables {t t₁ : Tables M} {userId : Nat} {amount : M}
    {acc : AccountRec M} (hacc : Table.lookup AccountRec.userId userId t.accounts = some acc)
    (hwithdrawn : t.updateAccount userId (.withdraw amount) = some t₁) :
    (t₁ = t ↔ acc.balance - amount = acc.balance) ∧
      ∃ t₂, t₁.updateAccount userId (.deposit amount) = some t₂ ∧
        (t₂ = t ↔ acc.balance - amount + amount = acc.balance) := by
  obtain ⟨i, acc', acc₁, hloc, hget, happly, rfl⟩ :=
    Tables.updateAccount_eq_some_iff.mp hwithdrawn
  obtain rfl : acc' = acc := by
    rw [Table.lookup_of_locate hloc, hget] at hacc
    exact Option.some.inj hacc
  obtain ⟨hactive, -, rfl⟩ := withdrawModifier_eq_some_iff.mp happly
  obtain ⟨hi, -⟩ := List.getElem?_eq_some_iff.mp hget
  refine ⟨Tables.withBalance_eq_self_iff hget, _, Tables.updateAccount_eq_some_iff.mpr
    ⟨i, { acc' with balance := acc'.balance - amount }, _, ?_, List.getElem?_set_self hi,
      depositModifier_eq_some_iff.mpr ⟨hactive, rfl⟩, rfl⟩, ?_⟩
  · exact Eq.trans (Table.locate_set hget (by rfl)) hloc
  · simp only [Tables.withAccounts, List.set_set]
    exact Tables.withBalance_eq_self_iff hget

/-- The rollback puts back what a failed deposit has left out, unless it fails. -/
private theorem rollback_surely {t : Tables M} {userId : Nat} {amount : M} {acc : AccountRec M}
    (hacc : Table.lookup AccountRec.userId userId t.accounts = some acc)
    (hwithdrawn : t.updateAccount userId (.withdraw amount) = some d.tables)
    (hfuel : d.tables.accounts.length < fuel) :
    Surely true (expand fuel (do
      let _ ← Db.atomicUpdateAccount userId (.deposit amount)
      return reply)) d fun reply' d' rest =>
        reply' = reply ∧ failures .transactions rest = 0 ∧
          (d'.tables = t ↔ BalanceRestored acc.balance amount (1 + failures .accounts rest)) := by
  obtain ⟨hwithout, t₂, hdeposit, hwith⟩ := withdraw_deposit_tables hacc hwithdrawn
  refine expand_call_surely (atomicUpdateAccount_surely userId _ hfuel) ?_
  intro success d₁ first hupdated
  have hlogs := hupdated.within.failures (g := .transactions) nofun
  rcases hupdated.tables with ⟨rfl, haccount, -, hnone⟩ | ⟨rfl, rfl, -, hfailed⟩
  · refine ⟨rfl, by simp [hlogs], ?_⟩
    rw [hdeposit] at haccount
    rw [failures_append, hnone, ← Option.some.inj haccount, hwith]
    rfl
  · have hone : failures .accounts first = 1 := by
      refine hfailed.resolve_left fun h => ?_
      rw [hdeposit] at h
      cases h.1
    refine ⟨rfl, by simp [hlogs], ?_⟩
    rw [failures_append, hone, hwithout]
    rfl

private theorem transferLogging_surely (fromId toId : Nat) (amount : M) :
    Surely true (expand fuel (do
      let now ← Db.time
      let _ ← Db.appendTransaction ⟨0, fromId, toId, amount, now, str "transfer_out"⟩
      let _ ← Db.appendTransaction ⟨0, fromId, toId, amount, now, str "transfer_in"⟩
      return reply)) d fun reply' d' rest =>
        reply' = reply ∧ failures .accounts rest = 0 ∧
        ((∃ now, d'.tables = (d.tables.log fromId toId amount now (str "transfer_out")).log
              fromId toId amount now (str "transfer_in")) ∧
            failures .transactions rest = 0 ∨
          d'.tables.transactions.length < d.tables.transactions.length + 2 ∧
            failures .transactions rest ≠ 0) := by
  refine expand_call_surely time_surely ?_
  rintro now d₁ first ⟨-, hfiles, rfl⟩
  refine expand_call_surely (appendTransaction_surely ..) ?_
  rintro logged d₂ second ⟨hwithin, hout⟩
  refine expand_call_surely (appendTransaction_surely ..) ?_
  rintro logged' d₃ third ⟨hwithin', hin⟩
  rw [tables_of_files hfiles] at hout
  have haccounts := hwithin.failures (g := .accounts) nofun
  have haccounts' := hwithin'.failures (g := .accounts) nofun
  refine ⟨rfl, by simp [haccounts, haccounts'], ?_⟩
  simp only [List.append_nil, List.cons_append, List.nil_append, failures_ok, failures_append]
  rcases hout with ⟨hout, hnone⟩ | ⟨hout, hone⟩ <;> rcases hin with ⟨hin, hnone'⟩ | ⟨hin, hone'⟩
  · exact .inl ⟨⟨now, by rw [hin, hout]⟩, by omega⟩
  · exact .inr ⟨by simp [hin, hout, Tables.log], by omega⟩
  · exact .inr ⟨by simp [hin, hout, Tables.log], by omega⟩
  · exact .inr ⟨by simp [hin, hout], by omega⟩

private theorem transferIn_surely (env : Env) {t : Tables M} {fromId toId : Nat} {amount : M}
    {acc : AccountRec M} {made failed : Reply} (hmade : made.result = true)
    (hfailed : failed.result = false)
    (hne : fromId ≠ toId) (hpos : ¬ amount ≤ 0) (hto : t.hasActive toId)
    (hacc : Table.lookup AccountRec.userId fromId t.accounts = some acc)
    (hfrom : t.updateAccount fromId (.withdraw amount) = some d.tables)
    (hfuel : d.tables.accounts.length < fuel) :
    Surely true (expand fuel (do
      if ← Db.atomicUpdateAccount toId (.deposit amount) then
        let now ← Db.time
        let _ ← Db.appendTransaction ⟨0, fromId, toId, amount, now, str "transfer_out"⟩
        let _ ← Db.appendTransaction ⟨0, fromId, toId, amount, now, str "transfer_in"⟩
        return made
      else
        let _ ← Db.atomicUpdateAccount fromId (.deposit amount)
        return failed)) d fun reply d' rest =>
          Step env Set.univ t (.transfer fromId toId amount) reply.result d'.tables ↔
            failures .transactions rest = 0 ∧
              BalanceRestored acc.balance amount (failures .accounts rest) := by
  refine expand_call_surely (atomicUpdateAccount_surely toId _ hfuel) ?_
  intro success d₁ first hdeposited
  have hlogs := hdeposited.within.failures (g := .transactions) nofun
  rcases hdeposited.tables with ⟨rfl, hin, -, hnone⟩ | ⟨rfl, rfl, -, hone⟩
  · refine (transferLogging_surely fromId toId amount).imp ?_
    rintro reply' d' rest ⟨rfl, haccounts, houtcome⟩
    rw [failures_append, failures_append, hlogs, hnone, haccounts, hmade]
    rcases houtcome with ⟨⟨now, htables⟩, hall⟩ | ⟨hless, hsome⟩
    · rw [htables]
      exact iff_of_true (.transferred hne hpos trivial hfrom hin) ⟨by omega, trivial⟩
    · refine iff_of_false (fun h => ?_) (fun h => hsome (by omega))
      have hlength := h.length_transactions trivial
      rw [← Tables.updateAccount_transactions hfrom, ← Tables.updateAccount_transactions hin]
        at hlength
      simp [Request.logs] at hlength
      omega
  · -- alone, nobody can have closed the recipient's account since the check
    have hone' : failures .accounts first = 1 := by
      refine hone.resolve_left fun h => ?_
      obtain ⟨_, _, -, hreplaced⟩ := Tables.updateAccount_replaced hfrom
      obtain ⟨toAcc, hlookup, hactive⟩ := hto
      rw [← hreplaced.others toId (Ne.symm hne)] at hlookup
      obtain ⟨t₂, hdeposit⟩ := Tables.deposit_of_hasActive amount ⟨toAcc, hlookup, hactive⟩
      rw [hdeposit] at h
      cases h.1
    refine (rollback_surely hacc hfrom hfuel).imp ?_
    rintro reply' d' rest ⟨rfl, hlogs', hrestored⟩
    rw [failures_append, failures_append, hlogs, hlogs', hone', ← hrestored, hfailed]
    constructor
    · exact fun h => ⟨rfl, h.eq_of_refused⟩
    · rintro ⟨-, hsame⟩
      rw [hsame]
      exact .refused _

private theorem transfer_surely (fromId toId : Nat) (amount : M)
    (hfuel : d.tables.accounts.length < fuel) :
    Surely true (expand fuel ((Request.transfer fromId toId amount).program env)) d
      fun reply d' trace => Step env Set.univ d.tables (.transfer fromId toId amount) reply.result
        d'.tables ↔ (Request.transfer fromId toId amount).Completes d.tables trace := by
  have hrefused : ∀ {trace : Trace M}, true ∉ writes .accounts trace →
      (Step env Set.univ d.tables (.transfer fromId toId amount) false d.tables ↔
        (Request.transfer fromId toId amount).Completes d.tables trace) :=
    fun hunwritten => iff_of_true (.refused _) (Request.completes_of_unwritten _ hunwritten)
  simp only [Request.program, transferFunds]
  by_cases hne : fromId = toId
  · rw [if_pos hne]
    exact hrefused nofun
  by_cases hpos : amount ≤ 0
  · rw [if_neg hne, if_pos hpos]
    exact hrefused nofun
  rw [if_neg hne, if_neg hpos]
  refine expand_call_surely (readRecord_surely (f := .accounts) _ hfuel) ?_
  rintro toAcc d₁ looked ⟨⟨rfl, hwithin, hwrites⟩, -, hanswers⟩
  by_cases hinactive : toAcc.all (fun acc => acc.active = .inactive) = true
  · simp only [Prog.bind, if_pos hinactive]
    exact hrefused (by simp [hwrites])
  simp only [Prog.bind, if_neg hinactive]
  -- the recipient has an active account
  have hto : d₁.tables.hasActive toId := by
    cases toAcc with
    | none => simp at hinactive
    | some acc =>
        refine ⟨acc, hanswers.of_some.1, ?_⟩
        exact Status.ne_inactive_iff.mp (by simpa using hinactive)
  refine expand_call_surely (atomicUpdateAccount_surely fromId _ hfuel) ?_
  intro success d₂ first hwithdrawn
  rcases hwithdrawn.tables with ⟨rfl, hfrom, hwritten, hnone⟩ | ⟨rfl, rfl, hunwritten, -⟩
  · obtain ⟨acc, acc', -, hreplaced⟩ := Tables.updateAccount_replaced hfrom
    have hfuel₂ : d₂.tables.accounts.length < fuel := by
      rwa [Tables.updateAccount_length hfrom]
    have hlogs := failures_afterPayment (hwithdrawn.within.failures (g := .transactions) nofun)
    have hacc := hreplaced.before
    refine (transferIn_surely env rfl rfl hne hpos hto hacc hfrom hfuel₂).imp ?_
    intro reply' d' rest hstep
    have hafter : afterPayment (looked ++ (first ++ rest)) = afterPayment first ++ rest := by
      rw [afterPayment_append_of_unwritten (by simp [hwrites]),
        afterPayment_append_of_written hwritten]
    rw [hstep, Request.Completes, hafter, failures_append, failures_append, hlogs,
      failures_afterPayment hnone, Nat.zero_add, Nat.zero_add]
    refine and_congr_right fun _ => ⟨?_, fun h => h _ _ _ rfl _ hacc⟩
    rintro h _ _ _ ⟨⟩ acc₁ hacc₁
    rw [hacc] at hacc₁
    cases hacc₁
    exact h
  · refine (refusal_surely (fun acc => ⟨_, rfl, rfl⟩) hfuel).imp ?_
    rintro reply' d' rest ⟨hresult, rfl, hrest⟩
    rw [hresult]
    exact hrefused (by simp [hwrites, hunwritten, hrest])

/--
Whatever fails, a deposit, a withdrawal or a transfer ends, and changes balances and log
together exactly under the condition.
-/
theorem money_and_log_together_iff (env : Env) (d : Disk DbFile (DbFile.Rec M))
    (fails : Nat → Bool) {request : Request M} (hmoney : request.MovesMoney)
    (hfuel : d.tables.accounts.length < fuel) :
    ∃ reply s', Prog.Ends (Faulty.step (ioErrors true) Disk.exec)
        (expand fuel (request.program env)) ⟨d, fails, []⟩ reply s' ∧
      (Step env Set.univ d.tables request reply.result s'.state.tables ↔
        request.Completes d.tables s'.trace) := by
  have hsurely : Surely true (expand fuel (request.program env)) d fun reply d' trace =>
      Step env Set.univ d.tables request reply.result d'.tables ↔
        request.Completes d.tables trace := by
    cases request with
    | deposit userId amount => exact deposit_surely userId amount hfuel
    | withdraw userId amount => exact withdraw_surely userId amount hfuel
    | transfer fromId toId amount => exact transfer_surely fromId toId amount hfuel
    | _ => exact hmoney.elim
  obtain ⟨reply, d', later, trace, hends, hiff⟩ := hsurely.ends fails []
  exact ⟨reply, _, hends, hiff⟩

end Programs

def oneAccount : Database ℚ := .ofAccounts [⟨1001, 1001, 100, .active⟩] fun _ => 1

/-- The thirteenth call opens the log. -/
def logFails (n : Nat) : Bool := n = 12

theorem money_and_log_together_iff_deposit :
    ∃ reply s', Prog.Ends (Faulty.step (ioErrors true) Disk.exec)
        (expand 2 ((Request.deposit 1001 5).program .plain)) ⟨oneAccount.disk, logFails, []⟩
        reply s' ∧
      (Step .plain Set.univ oneAccount.disk.tables (.deposit 1001 5) reply.result
          s'.state.tables ↔
        (Request.deposit 1001 5).Completes oneAccount.disk.tables s'.trace) :=
  money_and_log_together_iff .plain oneAccount.disk logFails trivial (by decide)

theorem unlogged_deposit :
    ¬ ∀ fails : Nat → Bool, ∃ reply s',
      Prog.Ends (Faulty.step (ioErrors true) Disk.exec)
        (expand 2 ((Request.deposit 1001 5).program .plain)) ⟨oneAccount.disk, fails, []⟩
        reply s' ∧
      Step .plain Set.univ oneAccount.disk.tables (.deposit 1001 5) reply.result
        s'.state.tables := by
  intro h
  obtain ⟨reply, s', hends, hstep⟩ := h logFails
  have hrun : (Prog.run? (Faulty.step (ioErrors true) Disk.exec)
      (expand 2 ((Request.deposit 1001 5).program .plain))
      ⟨oneAccount.disk, logFails, []⟩).map
        (fun result => (result.1.result, result.2.state.tables.transactions.length)) =
      some (true, 0) := by
    decide +kernel
  rw [hends] at hrun
  simp only [Option.map_some, Option.some.injEq, Prod.mk.injEq] at hrun
  have hlogged := hstep.length_transactions trivial
  rw [hrun.1, hrun.2] at hlogged
  simp [Request.logs] at hlogged

end BankingSystem
