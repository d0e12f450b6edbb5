import BankingSystem.Requests.Balance
import BankingSystem.Requests.WellFormed

/-!
# The log explains the balances

The balance of an account is the signed sum of the transactions that its history
shows, with amounts as exact numbers.
-/

namespace BankingSystem

open Foundation Tables

variable {env : Env} {times : Set Time} {t t' : Tables ℚ}

/-! ## What a transaction record is worth to an account -/

def TxnKind.narration : TxnKind → Bytes
  | .deposit => str "deposit"
  | .withdraw => str "withdraw"
  | .transferOut => str "transfer_out"
  | .transferIn => str "transfer_in"
  | .loanDeposit => str "loan_deposit"

/-- The account in whose history a record of this kind appears. -/
def TxnKind.party {M : Type} (tx : TxnRec M) : TxnKind → Nat
  | .withdraw | .transferOut => tx.fromAccount
  | .deposit | .transferIn | .loanDeposit => tx.toAccount

/-- Money in counts for, money out counts against. -/
def TxnKind.signed (amount : ℚ) : TxnKind → ℚ
  | .withdraw | .transferOut => -amount
  | .deposit | .transferIn | .loanDeposit => amount

private theorem TxnKind.narration_inj {kind kind' : TxnKind} :
    kind.narration = kind'.narration ↔ kind = kind' := by
  cases kind <;> cases kind' <;> decide

theorem TxnRec.relevance_of_narration {M : Type} {tx : TxnRec M} (kind : TxnKind)
    (h : tx.narration = kind.narration) (userId : Nat) :
    tx.relevance userId = if kind.party tx = userId then some kind else none := by
  have hchain : tx.relevance userId =
      if kind = .deposit ∧ tx.toAccount = userId then some .deposit
      else if kind = .withdraw ∧ tx.fromAccount = userId then some .withdraw
      else if kind = .transferOut ∧ tx.fromAccount = userId then some .transferOut
      else if kind = .transferIn ∧ tx.toAccount = userId then some .transferIn
      else if kind = .loanDeposit ∧ tx.toAccount = userId then some .loanDeposit
      else none := by
    simp only [← @TxnKind.narration_inj kind, ← h]
    rfl
  rw [hchain]
  cases kind <;> simp <;> rfl

def TxnRec.worth (userId : Nat) (tx : TxnRec ℚ) : ℚ :=
  match tx.relevance userId with
  | some kind => kind.signed tx.amount
  | none => 0

theorem TxnRec.worth_of_narration {tx : TxnRec ℚ} (kind : TxnKind)
    (h : tx.narration = kind.narration) (userId : Nat) :
    tx.worth userId = if kind.party tx = userId then kind.signed tx.amount else 0 := by
  unfold worth
  rw [relevance_of_narration kind h]
  split_ifs <;> rfl

def historySum (userId : Nat) (txns : List (TxnRec ℚ)) : ℚ :=
  (txns.map (TxnRec.worth userId)).sum

theorem historySum_append (userId : Nat) (txns txns' : List (TxnRec ℚ)) :
    historySum userId (txns ++ txns') =
      historySum userId txns + historySum userId txns' := by
  simp [historySum]

private theorem historySum_log (kind : TxnKind) (userId fromAccount toAccount : Nat)
    (amount : ℚ) (now : Time) :
    historySum userId (t.log fromAccount toAccount amount now kind.narration).transactions =
      historySum userId t.transactions +
        if kind.party (⟨0, fromAccount, toAccount, amount, now, []⟩ : TxnRec ℚ) = userId
        then kind.signed amount else 0 := by
  simp only [log, historySum_append]
  rw [historySum, historySum, List.map_singleton, List.sum_singleton,
    TxnRec.worth_of_narration kind rfl]
  cases kind <;> rfl

/-! ## The invariant -/

structure Explained (t : Tables ℚ) : Prop where
  wellFormed : WellFormed t
  balances : ∀ u, t.balanceOf u = historySum u t.transactions

theorem Explained.step {request : Request ℚ} {result : Bool}
    (h : Step env times t request result t') (hexp : Explained t) : Explained t' := by
  refine ⟨hexp.wellFormed.step h, fun u => ?_⟩
  have hbefore := hexp.balances u
  cases h with
  | @deposited userId amount now t' _ _ haccount =>
      calc t'.balanceOf u
          = t.balanceOf u + if userId = u then amount else 0 :=
            balanceOf_deposit haccount u
        _ = historySum u t'.transactions + if userId = u then amount else 0 := by
            rw [hbefore, updateAccount_transactions haccount]
        _ = _ := (historySum_log .deposit u 0 userId amount now).symm
  | @withdrew userId amount now t' _ _ haccount =>
      calc t'.balanceOf u
          = t.balanceOf u + if userId = u then -amount else 0 :=
            balanceOf_withdraw haccount u
        _ = historySum u t'.transactions + if userId = u then -amount else 0 := by
            rw [hbefore, updateAccount_transactions haccount]
        _ = _ := (historySum_log .withdraw u userId 0 amount now).symm
  | @transferred fromId toId amount now t₁ t₂ _ _ _ hfrom hto =>
      have hout := historySum_log (t := t₂) .transferOut u fromId toId amount now
      have hin := historySum_log
        (t := t₂.log fromId toId amount now TxnKind.transferOut.narration)
        .transferIn u fromId toId amount now
      calc t₂.balanceOf u
          = t.balanceOf u + (if fromId = u then -amount else 0) +
              if toId = u then amount else 0 := by
            rw [balanceOf_deposit hto, balanceOf_withdraw hfrom]
        _ = historySum u t₂.transactions + (if fromId = u then -amount else 0) +
              if toId = u then amount else 0 := by
            rw [hbefore, updateAccount_transactions hto, updateAccount_transactions hfrom]
        _ = _ := (hin.trans (congrArg (· + _) hout)).symm
  | @loanApproved loanId empId i loan logged now t' _ _ _ _ _ haccount =>
      calc t'.balanceOf u
          = t.balanceOf u + if loan.userId = u then loan.amount else 0 :=
            balanceOf_deposit haccount u
        _ = historySum u t'.transactions + if loan.userId = u then loan.amount else 0 := by
            rw [hbefore, updateAccount_transactions haccount]
        _ = _ := (historySum_log .loanDeposit u 0 loan.userId loan.amount logged).symm
  | statusSet haccount =>
      rw [balanceOf_setStatus haccount, updateAccount_transactions haccount, hbefore]
  | customerAdded =>
      -- the new account is appended, with the balance of a user without one
      have happend : Table.upsert AccountRec.userId ⟨t.nextUserId, t.nextUserId, 0, .active⟩
          t.accounts = t.accounts ++ [⟨t.nextUserId, t.nextUserId, 0, .active⟩] :=
        hexp.wellFormed.upsert_account rfl
      rw [← hbefore]
      simp only [Tables.balanceOf, happend, Table.lookup_append_singleton]
      cases Table.lookup AccountRec.userId u t.accounts with
      | some acc => rfl
      | none =>
          simp only [Option.none_or]
          split <;> rfl
  | _ => exact hbefore

theorem Explained.empty (clock : Nat → Time) : Explained (Database.empty clock).tables :=
  ⟨WellFormed.empty clock, fun _ => rfl⟩

/--
After any run of requests from empty databases, the balance of every account is
the sum over the log of what its history counts for or against it.
-/
theorem balance_eq_historySum (env : Env) (clock : Nat → Time)
    (requests : List (Request ℚ)) :
    ∀ acc ∈ (Request.serve env requests (Database.empty clock)).accountTable,
      acc.balance = historySum acc.userId
        (Request.serve env requests (Database.empty clock)).txnTable := by
  have hticks : (Database.empty (M := ℚ) clock).Ticks Set.univ := fun _ => trivial
  have hexp : Explained (Request.serve env requests (Database.empty clock)).tables :=
    Request.serve_tables env (fun _ _ _ _ => Explained.step) requests hticks
      (Explained.empty clock)
  intro acc hacc
  have hlookup := hexp.wellFormed.lookup_account hacc
  have hbalance := hexp.balances acc.userId
  rw [Tables.balanceOf, hlookup] at hbalance
  exact hbalance

theorem balance_eq_historySum_after_deposit :
    (5 : ℚ) = historySum 1001 (Request.serve .plain
      [.addCustomer .zero (str "ann") (str "pw"), .deposit 1001 5]
      (Database.empty fun _ => 1)).txnTable :=
  balance_eq_historySum .plain (fun _ => 1)
    [.addCustomer .zero (str "ann") (str "pw"), .deposit 1001 5]
    ⟨1001, 1001, 5, .active⟩ (by decide +kernel)

end BankingSystem
