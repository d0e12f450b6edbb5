import BankingSystem.Clients.Transfer
import BankingSystem.Requests.Ledger
import Mathlib.Algebra.BigOperators.Pi
import Mathlib.Algebra.Group.Pi.Lemmas
import Mathlib.Algebra.Order.BigOperators.Group.Finset
import Mathlib.Algebra.Order.Pi

/-!
# Balances and histories among other clients

A request that moves money changes a balance in one step and logs it in another.
What it owes the log between the two is a function of its own commands and their
answers (`Books`), so at any moment the balances differ from the histories by what
all requests together owe.
-/

namespace BankingSystem

open Foundation Tables

/-! ## What a request owes the log -/

/--
What the thread has moved but not logged, by user; what it can have under way, by
user; whether a rollback of a transfer was refused.
-/
structure Books where
  owed : Nat → ℚ
  stake : Nat → ℚ
  refused : Bool

def Request.stake : Request ℚ → Nat → ℚ
  | .deposit userId amount => Pi.single userId amount
  | .withdraw userId amount => Pi.single userId amount
  | .transfer fromId toId amount => Pi.single fromId amount + Pi.single toId amount
  | _ => 0

/-- What is lost when the rollback of a transfer is refused. -/
def Request.lost : Request ℚ → Nat → ℚ
  | .transfer fromId _ amount => Pi.single fromId amount
  | _ => 0

def Request.rollsBack (userId : Nat) (amount : ℚ) : Request ℚ → Bool
  | .transfer fromId _ amount' => fromId = userId ∧ amount' = amount
  | _ => false

def Books.note (request : Request ℚ) (books : Books) :
    (cmd : Db.Cmd ℚ) → Db.Ans ℚ cmd → Books
  | .updateAccount userId (.deposit amount), true =>
      { books with owed := books.owed + Pi.single userId amount }
  | .updateAccount userId (.deposit amount), false =>
      { books with refused := books.refused || request.rollsBack userId amount }
  | .updateAccount userId (.withdraw amount), true =>
      { books with owed := books.owed - Pi.single userId amount }
  | .appendTransaction tx, _ =>
      { books with owed := books.owed - fun userId => tx.worth userId }
  | .lockLoan _, some loan => { books with stake := Pi.single loan.userId loan.amount }
  | _, _ => books

/-- No more is under way than the request is about, and accounts start empty. -/
def Books.Allows (books : Books) (cmd : Db.Cmd ℚ) : Prop :=
  (∀ userId, |books.owed userId| ≤ |books.stake userId|) ∧
    ∀ acc ∈ cmd.newAccount?, acc.balance = 0

def booksProtocol (request : Request ℚ) : Protocol (Db ℚ) Books where
  allows := Books.Allows
  answers _ _ _ := True
  next := Books.note request

/-- At its end a request owes nothing, unless its rollback was refused. -/
structure Books.Closed (request : Request ℚ) (books : Books) : Prop where
  owed : books.owed = if books.refused then -request.lost else 0
  lost : books.refused = true → 0 < request.lost

/-! ## What the log is worth -/

private theorem worth_eq_single {tx : TxnRec ℚ} (kind : TxnKind)
    (h : tx.narration = kind.narration) :
    (fun userId => tx.worth userId) = Pi.single (kind.party tx) (kind.signed tx.amount) := by
  funext userId
  rw [TxnRec.worth_of_narration kind h, Pi.single_apply]
  exact if_congr eq_comm rfl rfl

section Effects

variable {t t' : Tables ℚ} {db : Database ℚ}

/-- By how much a balance exceeds its history. -/
def Database.gap (db : Database ℚ) (userId : Nat) : ℚ :=
  db.tables.balanceOf userId - historySum userId db.txnTable

private theorem gap_eq_of_tables {db' : Database ℚ}
    (hbalance : ∀ u, db'.tables.balanceOf u = db.tables.balanceOf u)
    (hlog : db'.txnTable = db.txnTable) : db'.gap = db.gap := by
  funext u
  rw [Database.gap, Database.gap, hbalance, hlog]

private theorem gap_update {userId : Nat} {modifier : AccountModifier ℚ} {amount : ℚ}
    (h : ∀ {t t' : Tables ℚ}, t.updateAccount userId modifier = some t' →
      ∀ u, t'.balanceOf u = t.balanceOf u + if userId = u then amount else 0)
    (db : Database ℚ) :
    (Db.exec (.updateAccount userId modifier) db).2.gap =
      db.gap + if (Db.exec (.updateAccount userId modifier) db).1 then Pi.single userId amount
        else 0 := by
  rcases Db.exec_updateAccount userId modifier db with ⟨hexec, -⟩ | ⟨db', hexec, htables⟩
  · simp [hexec]
  · rw [hexec]
    funext u
    have hlog : db'.txnTable = db.txnTable := updateAccount_transactions htables
    simp only [Database.gap, hlog, if_true, Pi.add_apply]
    rw [h htables u, Pi.single_apply, if_congr eq_comm rfl rfl]
    ring

private theorem gap_append (tx : TxnRec ℚ) (db : Database ℚ) :
    (Db.exec (.appendTransaction tx) db).2.gap = db.gap - fun u => tx.worth u := by
  funext u
  have hlog : (Db.exec (.appendTransaction tx) db).2.txnTable =
      db.txnTable ++ [{ tx with txnId := db.txnTable.length + 1 }] := rfl
  have hsame : (Db.exec (.appendTransaction tx) db).2.tables.balanceOf u =
      db.tables.balanceOf u := rfl
  have hworth : TxnRec.worth u { tx with txnId := db.txnTable.length + 1 } = tx.worth u := rfl
  have hone : ∀ tx : TxnRec ℚ, historySum u [tx] = tx.worth u := fun tx => by simp [historySum]
  rw [Database.gap, hlog, hsame, historySum_append, hone, hworth, Pi.sub_apply, Database.gap]
  ring

private theorem gap_writeAccount {acc : AccountRec ℚ} (hzero : acc.balance = 0)
    (hfresh : ∀ old ∈ db.accountTable, old.userId ≠ acc.userId) :
    (Db.exec (.writeAccount acc) db).2.gap = db.gap := by
  refine gap_eq_of_tables (fun u => ?_) rfl
  have happend : (Db.exec (.writeAccount acc) db).2.tables.accounts =
      db.tables.accounts ++ [acc] := Table.upsert_of_fresh hfresh
  rw [Tables.balanceOf, Tables.balanceOf, happend, Table.lookup_append_singleton]
  cases Table.lookup AccountRec.userId u db.tables.accounts with
  | some old => rfl
  | none =>
      simp only [Option.none_or]
      split
      · exact hzero
      · rfl

private theorem gap_exec (request : Request ℚ) {books : Books} {cmd : Db.Cmd ℚ}
    (hallow : books.Allows cmd)
    (hfresh : ∀ acc ∈ cmd.newAccount?, ∀ old ∈ db.accountTable, old.userId ≠ acc.userId) :
    (Db.exec cmd db).2.gap =
      db.gap + ((books.note request cmd (Db.exec cmd db).1).owed - books.owed) := by
  cases cmd with
  | updateAccount userId modifier =>
      cases modifier with
      | deposit amount =>
          rw [gap_update balanceOf_deposit]
          cases (Db.exec (.updateAccount userId (.deposit amount)) db).1 <;>
            simp [Books.note]
      | withdraw amount =>
          rw [gap_update balanceOf_withdraw]
          cases (Db.exec (.updateAccount userId (.withdraw amount)) db).1 <;>
            simp [Books.note, Pi.single_neg]
      | setStatus status =>
          have hgap : ∀ {t t' : Tables ℚ}, t.updateAccount userId (.setStatus status) = some t' →
              ∀ u, t'.balanceOf u = t.balanceOf u + if userId = u then 0 else 0 := by
            intro t t' h u
            rw [balanceOf_setStatus h u, ite_self, add_zero]
          rw [gap_update hgap]
          simp [Books.note]
  | appendTransaction tx =>
      rw [gap_append]
      simp [Books.note, sub_eq_add_neg]
  | writeAccount acc =>
      rw [gap_writeAccount (hallow.2 acc rfl) (hfresh acc rfl)]
      simp [Books.note]
  | lockLoan offset =>
      have hsame : (Db.exec (.lockLoan offset) db).2.gap = db.gap := rfl
      rw [hsame]
      cases (Db.exec (.lockLoan offset) db).1 <;> simp [Books.note]
  | _ =>
      refine (gap_eq_of_tables (fun _ => rfl) rfl : _ = db.gap).trans ?_
      simp [Books.note]

end Effects

/-! ## The requests that move nothing -/

def Db.Cmd.Quiet : Db.Cmd ℚ → Prop
  | .updateAccount _ (.setStatus _) => True
  | .updateAccount _ _ | .writeAccount _ | .appendTransaction _ => False
  | _ => True

def Books.Settled (books : Books) : Prop := books.owed = 0 ∧ books.refused = false

section Quiet

variable {request : Request ℚ} {books : Books}

theorem Books.Settled.closed (h : books.Settled) (request : Request ℚ) :
    books.Closed request := by
  refine ⟨?_, ?_⟩
  · rw [h.1, h.2]
    rfl
  · rw [h.2]
    nofun

theorem Books.Settled.allows (h : books.Settled) {cmd : Db.Cmd ℚ}
    (hnew : ∀ acc ∈ cmd.newAccount?, acc.balance = 0) : books.Allows cmd := by
  refine ⟨fun userId => ?_, hnew⟩
  rw [h.1, Pi.zero_apply, abs_zero]
  exact abs_nonneg _

theorem Db.Cmd.Quiet.settled {cmd : Db.Cmd ℚ} (hquiet : cmd.Quiet) (h : books.Settled)
    (answer : Db.Ans ℚ cmd) : (books.note request cmd answer).Settled := by
  cases cmd with
  | updateAccount userId modifier =>
      cases modifier with
      | deposit | withdraw => exact hquiet.elim
      | setStatus status => exact h
  | writeAccount | appendTransaction => exact hquiet.elim
  | lockLoan offset => cases answer <;> exact h
  | _ => exact h

private theorem Db.Cmd.Quiet.newAccount {cmd : Db.Cmd ℚ} (hquiet : cmd.Quiet) :
    cmd.newAccount? = none := by
  cases cmd with
  | writeAccount => exact hquiet.elim
  | _ => rfl

private theorem follows_settled {α : Type} {program : Prog (Db ℚ) α}
    (hquiet : program.Only Db.Cmd.Quiet) (h : books.Settled) :
    (booksProtocol request).Follows (fun books _ => books.Settled) books program := by
  induction program generalizing books with
  | ret value => exact h
  | call cmd next ih =>
      refine ⟨h.allows ?_, fun answer _ => ih answer (hquiet.2 answer) (hquiet.1.settled h answer)⟩
      rw [hquiet.1.newAccount]
      nofun

private theorem follows_quiet {program : Prog (Db ℚ) Reply} (hquiet : program.Only Db.Cmd.Quiet)
    (h : books.Settled) :
    (booksProtocol request).Follows (fun books _ => books.Closed request) books program :=
  (follows_settled hquiet h).imp fun _ _ h => h.closed request

end Quiet

private theorem quiet_bind {α : Type} {cmd : Db.Cmd ℚ} {f : Db.Ans ℚ cmd → Prog (Db ℚ) α}
    (hquiet : cmd.Quiet) (hf : ∀ answer, (f answer).Only Db.Cmd.Quiet) :
    (Db.issue cmd >>= f).Only Db.Cmd.Quiet :=
  ⟨hquiet, hf⟩

private theorem quiet_issue {cmd : Db.Cmd ℚ} (hquiet : cmd.Quiet) :
    (Db.issue cmd).Only Db.Cmd.Quiet :=
  ⟨hquiet, fun _ => trivial⟩

private theorem quiet_atomicUpdate {ρ : Type} {find : Prog (Db ℚ) (Option Nat)}
    {lock : Nat → Prog (Db ℚ) (Option ρ)} {commit : Nat → Option ρ → Prog (Db ℚ) Bool}
    {modifier : ρ → Prog (Db ℚ) (Option ρ × Bytes)} {respMsg : Bytes}
    (hfind : find.Only Db.Cmd.Quiet) (hlock : ∀ offset, (lock offset).Only Db.Cmd.Quiet)
    (hcommit : ∀ offset r, (commit offset r).Only Db.Cmd.Quiet)
    (hmodifier : ∀ r, (modifier r).Only Db.Cmd.Quiet) :
    (Db.atomicUpdate find lock commit modifier respMsg).Only Db.Cmd.Quiet := by
  refine hfind.bind fun offset => ?_
  cases offset with
  | none => trivial
  | some offset =>
      refine (hlock offset).bind fun r => ?_
      cases r with
      | none => trivial
      | some r =>
          exact (hmodifier r).bind fun out => (hcommit offset out.1).bind fun _ => trivial

private theorem quiet_updateUser {userId : Nat}
    {modifier : UserRec → Prog (Db ℚ) (Option UserRec × Bytes)} {respMsg : Bytes}
    {f : Reply → Prog (Db ℚ) Reply} (hmodifier : ∀ user, (modifier user).Only Db.Cmd.Quiet)
    (hf : ∀ reply, (f reply).Only Db.Cmd.Quiet) :
    (Db.atomicUpdateUser userId modifier respMsg >>= f).Only Db.Cmd.Quiet := by
  unfold Db.atomicUpdateUser
  refine (quiet_atomicUpdate ?_ ?_ ?_ hmodifier).bind hf
  · exact quiet_issue trivial
  · exact fun _ => quiet_issue trivial
  · exact fun _ _ => quiet_issue trivial

private theorem quiet_updateLoan {loanId : Nat}
    {modifier : LoanRec ℚ → Prog (Db ℚ) (Option (LoanRec ℚ) × Bytes)} {respMsg : Bytes}
    {f : Reply → Prog (Db ℚ) Reply} (hmodifier : ∀ loan, (modifier loan).Only Db.Cmd.Quiet)
    (hf : ∀ reply, (f reply).Only Db.Cmd.Quiet) :
    (Db.atomicUpdateLoan loanId modifier respMsg >>= f).Only Db.Cmd.Quiet := by
  unfold Db.atomicUpdateLoan
  refine (quiet_atomicUpdate ?_ ?_ ?_ hmodifier).bind hf
  · exact quiet_issue trivial
  · exact fun _ => quiet_issue trivial
  · exact fun _ _ => quiet_issue trivial

def Request.IsQuiet : Request ℚ → Prop
  | .deposit _ _ | .withdraw _ _ | .transfer _ _ _ | .approveRejectLoan _ _ _
  | .addCustomer _ _ _ => False
  | _ => True

private theorem quiet_program (env : Env) {request : Request ℚ} (h : request.IsQuiet) :
    (request.program env).Only Db.Cmd.Quiet := by
  cases request with
  | deposit | withdraw | transfer | approveRejectLoan | addCustomer => exact h.elim
  | login username password =>
      refine Prog.Only.bind (quiet_bind trivial fun users => ?_) fun _ => trivial
      cases users with
      | none => trivial
      | some users =>
          dsimp only
          split
          · trivial
          · split
            · refine quiet_bind trivial fun acc => ?_
              split <;> trivial
            · trivial
  | changePassword userId newpass =>
      refine quiet_updateUser (fun _ => trivial) fun reply => ?_
      split <;> trivial
  | modifyCustomer userId details =>
      refine quiet_updateUser (fun user => ?_) fun reply => ?_
      · unfold modifyCustomerModifier
        split
        · trivial
        · refine quiet_bind trivial fun clash => ?_
          cases clash <;> trivial
      · split <;> trivial
  | modifyUser userId details =>
      refine quiet_updateUser (fun user => quiet_bind trivial fun clash => ?_) fun reply => ?_
      · cases clash <;> trivial
      · split <;> trivial
  | changeRole userId roleStr =>
      refine quiet_updateUser (fun user => ?_) fun reply => ?_
      · simp only [changeRoleModifier]
        split_ifs <;> trivial
      · split <;> trivial
  | assignLoan loanId empId =>
      refine quiet_updateLoan (fun loan => ?_) fun reply => ?_
      · unfold assignLoanModifier
        split
        · trivial
        · refine quiet_bind trivial fun emp => ?_
          split <;> trivial
      · split <;> trivial
  | setAccountStatus custId status =>
      refine quiet_bind trivial fun success => ?_
      cases success <;> trivial
  | applyLoan userId amount =>
      simp only [Request.program, applyLoan]
      split
      · trivial
      · refine ⟨trivial, fun now => quiet_bind trivial fun loanId => ?_⟩
        cases loanId <;> trivial
  | addFeedback userId msg =>
      refine ⟨trivial, fun now => quiet_bind trivial fun fbId => ?_⟩
      cases fbId <;> trivial
  | viewCustTransactions custId =>
      refine quiet_bind trivial fun user => ?_
      split
      · trivial
      · refine quiet_bind trivial fun txns => ?_
        cases txns <;> trivial
  | addEmployee details roleStr username password =>
      refine quiet_bind trivial fun clash => ?_
      cases clash with
      | some clash => trivial
      | none =>
          refine quiet_bind trivial fun userId => quiet_bind trivial fun now => ?_
          cases staffRole roleStr with
          | none => trivial
          | some role =>
              refine quiet_bind trivial fun success => ?_
              cases success <;> trivial
  | reviewFeedback =>
      refine quiet_bind trivial fun feedback => ?_
      cases feedback with
      | none => trivial
      | some feedback =>
          dsimp only
          split <;> trivial
  | listUsers =>
      refine quiet_bind trivial fun users => ?_
      cases users with
      | none => trivial
      | some users =>
          dsimp only
          split <;> trivial
  | _ =>
      refine quiet_bind trivial fun found => ?_
      cases found <;> trivial

/-! ## The requests that move money -/

abbrev FollowsBooks (request : Request ℚ) (books : Books) (program : Prog (Db ℚ) Reply) : Prop :=
  (booksProtocol request).Follows (fun books _ => books.Closed request) books program

section Money

variable {request : Request ℚ} {books : Books} {stake : Nat → ℚ} {refused : Bool}

private theorem Books.allows_of_le {owed : Nat → ℚ} (h : ∀ userId, |owed userId| ≤ |stake userId|)
    {cmd : Db.Cmd ℚ} (hnew : cmd.newAccount? = none) :
    Books.Allows ⟨owed, stake, refused⟩ cmd := by
  refine ⟨h, ?_⟩
  rw [hnew]
  nofun

private theorem follows_log {α : Type} {post : Books → α → Prop} (kind : TxnKind) {tx : TxnRec ℚ}
    (hkind : tx.narration = kind.narration) {owed : Nat → ℚ}
    (h : ∀ userId, |owed userId| ≤ |stake userId|) {f : Bool → Prog (Db ℚ) α}
    (hf : ∀ logged, (booksProtocol request).Follows post
      ⟨owed - Pi.single (kind.party tx) (kind.signed tx.amount), stake, refused⟩ (f logged)) :
    (booksProtocol request).Follows post ⟨owed, stake, refused⟩
      (Db.appendTransaction tx >>= f) := by
  refine Db.follows_bind (Books.allows_of_le h rfl) fun logged _ => ?_
  have hnote : (booksProtocol request).next ⟨owed, stake, refused⟩ (.appendTransaction tx) logged =
      ⟨owed - Pi.single (kind.party tx) (kind.signed tx.amount), stake, refused⟩ := by
    rw [← worth_eq_single kind hkind]
    rfl
  rw [hnote]
  exact hf logged

private theorem follows_deposit (userId : Nat) (amount : ℚ) :
    FollowsBooks (.deposit userId amount) ⟨0, Request.stake (.deposit userId amount), false⟩
      (depositMoney userId amount) := by
  have hsettled : Books.Settled ⟨0, Request.stake (.deposit userId amount), false⟩ := ⟨rfl, rfl⟩
  unfold depositMoney
  by_cases hpos : amount ≤ 0
  · rw [if_pos hpos]
    exact hsettled.closed _
  · rw [if_neg hpos]
    refine Db.follows_bind (hsettled.allows nofun) fun success _ => ?_
    cases success with
    | false =>
        refine follows_quiet (quiet_bind trivial fun acc => ?_) hsettled
        split
        · split <;> trivial
        · trivial
    | true =>
        have howed : ∀ u, |(0 + Pi.single userId amount : Nat → ℚ) u| ≤
            |Request.stake (.deposit userId amount) u| := by
          intro u
          rw [zero_add]
          exact le_refl _
        refine Db.follows_bind (Books.allows_of_le howed rfl) fun now _ => ?_
        refine follows_log .deposit rfl howed fun logged => ?_
        refine Books.Settled.closed ⟨?_, rfl⟩ _
        simp [TxnKind.party, TxnKind.signed]

private theorem follows_withdraw (userId : Nat) (amount : ℚ) :
    FollowsBooks (.withdraw userId amount) ⟨0, Request.stake (.withdraw userId amount), false⟩
      (withdrawMoney userId amount) := by
  have hsettled : Books.Settled ⟨0, Request.stake (.withdraw userId amount), false⟩ := ⟨rfl, rfl⟩
  unfold withdrawMoney
  by_cases hpos : amount ≤ 0
  · rw [if_pos hpos]
    exact hsettled.closed _
  · rw [if_neg hpos]
    refine Db.follows_bind (hsettled.allows nofun) fun success _ => ?_
    cases success with
    | false => exact follows_quiet (quiet_bind trivial fun acc => trivial) hsettled
    | true =>
        have howed : ∀ u, |(0 - Pi.single userId amount : Nat → ℚ) u| ≤
            |Request.stake (.withdraw userId amount) u| := by
          intro u
          rw [zero_sub, Pi.neg_apply, abs_neg]
          exact le_refl _
        refine Db.follows_bind (Books.allows_of_le howed rfl) fun now _ => ?_
        refine follows_log .withdraw rfl howed fun logged => ?_
        refine Books.Settled.closed ⟨?_, rfl⟩ _
        simp [TxnKind.party, TxnKind.signed, Pi.single_neg]

private theorem follows_transfer (fromId toId : Nat) (amount : ℚ) :
    FollowsBooks (.transfer fromId toId amount)
      ⟨0, Request.stake (.transfer fromId toId amount), false⟩
      (transferFunds fromId toId amount) := by
  have hsettled : Books.Settled ⟨0, Request.stake (.transfer fromId toId amount), false⟩ :=
    ⟨rfl, rfl⟩
  unfold transferFunds
  by_cases hne : fromId = toId
  · rw [if_pos hne]
    exact hsettled.closed _
  by_cases hpos : amount ≤ 0
  · rw [if_neg hne, if_pos hpos]
    exact hsettled.closed _
  rw [if_neg hne, if_neg hpos]
  refine Db.follows_bind (hsettled.allows nofun) fun toAcc _ => ?_
  split
  · exact hsettled.closed _
  refine Db.follows_bind (hsettled.allows nofun) fun withdrawn _ => ?_
  cases withdrawn with
  | false => exact follows_quiet (quiet_bind trivial fun acc => trivial) hsettled
  | true =>
      -- the two amounts lie on different accounts, so neither hides the other
      have hout : ∀ u, |(0 - Pi.single fromId amount : Nat → ℚ) u| ≤
          |Request.stake (.transfer fromId toId amount) u| := by
        intro u
        rw [zero_sub, Pi.neg_apply, abs_neg, Request.stake, Pi.add_apply]
        by_cases hu : u = fromId
        · subst hu
          rw [Pi.single_eq_of_ne hne, add_zero]
        · rw [Pi.single_eq_of_ne hu, abs_zero]
          exact abs_nonneg _
      refine Db.follows_bind (Books.allows_of_le hout rfl) fun deposited _ => ?_
      cases deposited with
      | true =>
          have hboth : ∀ u, |(0 - Pi.single fromId amount + Pi.single toId amount : Nat → ℚ) u| ≤
              |Request.stake (.transfer fromId toId amount) u| := by
            intro u
            rw [zero_sub, Pi.add_apply, Pi.neg_apply, Request.stake, Pi.add_apply]
            by_cases hu : u = fromId
            · subst hu
              rw [Pi.single_eq_of_ne hne, add_zero, add_zero, abs_neg]
            · rw [Pi.single_eq_of_ne hu, neg_zero]
          have hin : ∀ u, |(0 - Pi.single fromId amount + Pi.single toId amount -
              Pi.single fromId (-amount) : Nat → ℚ) u| ≤
              |Request.stake (.transfer fromId toId amount) u| := by
            intro u
            rw [Pi.single_neg, sub_neg_eq_add, zero_sub, neg_add_eq_sub, sub_add_cancel,
              Request.stake, Pi.add_apply]
            by_cases hu : u = toId
            · subst hu
              rw [Pi.single_eq_of_ne (Ne.symm hne), zero_add]
            · rw [Pi.single_eq_of_ne hu, abs_zero]
              exact abs_nonneg _
          refine Db.follows_bind (Books.allows_of_le hboth rfl) fun now _ => ?_
          refine follows_log .transferOut rfl hboth fun logged => ?_
          refine follows_log .transferIn rfl hin fun logged => ?_
          refine Books.Settled.closed ⟨?_, rfl⟩ _
          simp [TxnKind.party, TxnKind.signed, Pi.single_neg]
      | false =>
          have hother : Request.rollsBack toId amount (.transfer fromId toId amount) = false := by
            simp [Request.rollsBack, hne]
          have hown : Request.rollsBack fromId amount (.transfer fromId toId amount) = true := by
            simp [Request.rollsBack]
          refine Db.follows_bind (Books.allows_of_le hout rfl) fun rolledBack _ => ?_
          cases rolledBack with
          | true =>
              refine Books.Settled.closed ⟨?_, ?_⟩ _
              · simp [booksProtocol, Books.note]
              · simp [booksProtocol, Books.note, hother]
          | false =>
              have hrefused : ((booksProtocol (.transfer fromId toId amount)).next
                  ⟨0 - Pi.single fromId amount, Request.stake (.transfer fromId toId amount),
                    false || Request.rollsBack toId amount (.transfer fromId toId amount)⟩
                  (.updateAccount fromId (.deposit amount)) false).refused = true := by
                simp [booksProtocol, Books.note, hown]
              refine ⟨Eq.trans ?_ (if_pos hrefused).symm, fun _ => ?_⟩
              · exact zero_sub _
              · exact Pi.single_pos.mpr (not_le.mp hpos)

private theorem follows_approveModifier (loanId : Nat) (action : Bytes) (empId : Nat)
    (loan : LoanRec ℚ) :
    (booksProtocol (.approveRejectLoan loanId action empId)).Follows
      (fun books _ => books.Settled) ⟨0, Pi.single loan.userId loan.amount, false⟩
      (approveRejectLoanModifier action empId loan) := by
  have hsettled : Books.Settled ⟨0, Pi.single loan.userId loan.amount, false⟩ := ⟨rfl, rfl⟩
  unfold approveRejectLoanModifier
  split
  · exact hsettled
  split
  · exact hsettled
  split
  · refine Db.follows_bind (hsettled.allows nofun) fun custAcc _ => ?_
    split
    · exact hsettled
    refine Db.follows_bind (hsettled.allows nofun) fun deposited _ => ?_
    cases deposited with
    | false => exact hsettled
    | true =>
        have howed : ∀ u, |(0 + Pi.single loan.userId loan.amount : Nat → ℚ) u| ≤
            |(Pi.single loan.userId loan.amount : Nat → ℚ) u| := by
          intro u
          rw [zero_add]
        refine Db.follows_bind (Books.allows_of_le howed rfl) fun time _ => ?_
        refine follows_log .loanDeposit rfl howed fun logged => ?_
        refine follows_settled (quiet_bind trivial fun now => trivial) ⟨?_, rfl⟩
        simp [TxnKind.party, TxnKind.signed]
  · refine follows_settled ?_ hsettled
    split
    · exact quiet_bind trivial fun now => trivial
    · trivial

private theorem follows_approveRejectLoan_books (loanId : Nat) (action : Bytes) (empId : Nat) :
    FollowsBooks (.approveRejectLoan loanId action empId) ⟨0, 0, false⟩
      (approveRejectLoan loanId action empId []) := by
  have hsettled : Books.Settled ⟨0, 0, false⟩ := ⟨rfl, rfl⟩
  have hupdate : (booksProtocol (.approveRejectLoan loanId action empId)).Follows
      (fun books _ => books.Settled) ⟨0, 0, false⟩
      (Db.atomicUpdateLoan loanId (approveRejectLoanModifier action empId) []) := by
    rw [Db.atomicUpdateLoan_eq]
    refine ⟨hsettled.allows nofun, fun offset _ => ?_⟩
    cases offset with
    | none => exact hsettled
    | some offset =>
        refine ⟨hsettled.allows nofun, fun loan _ => ?_⟩
        cases loan with
        | none => exact hsettled
        | some loan =>
            refine (follows_approveModifier loanId action empId loan).bind fun books out hout => ?_
            exact follows_settled (quiet_bind trivial fun success => trivial) hout
  refine hupdate.bind fun books reply h => ?_
  split <;> exact h.closed _

private theorem follows_addCustomer (env : Env) (user : UserRec) (username password : Bytes) :
    FollowsBooks (.addCustomer user username password) ⟨0, 0, false⟩
      (addNewCustomer env user username password) := by
  have hsettled : Books.Settled ⟨0, 0, false⟩ := ⟨rfl, rfl⟩
  refine Db.follows_bind (hsettled.allows nofun) fun clash _ => ?_
  cases clash with
  | some clash => exact hsettled.closed _
  | none =>
      refine Db.follows_bind (hsettled.allows nofun) fun userId _ => ?_
      refine Db.follows_bind (hsettled.allows nofun) fun now _ => ?_
      refine Db.follows_bind (hsettled.allows nofun) fun written _ => ?_
      cases written with
      | false => exact hsettled.closed _
      | true =>
          refine Db.follows_bind (hsettled.allows ?_) fun added _ => ?_
          · rintro acc ⟨⟩
            rfl
          · cases added <;> exact hsettled.closed _

def Books.start (request : Request ℚ) : Books := ⟨0, request.stake, false⟩

private theorem follows_program (env : Env) (request : Request ℚ) :
    FollowsBooks request (.start request) (request.program env) := by
  by_cases hquiet : request.IsQuiet
  · exact follows_quiet (quiet_program env hquiet) ⟨rfl, rfl⟩
  · cases request with
    | deposit userId amount => exact follows_deposit userId amount
    | withdraw userId amount => exact follows_withdraw userId amount
    | transfer fromId toId amount => exact follows_transfer fromId toId amount
    | approveRejectLoan loanId action empId =>
        exact follows_approveRejectLoan_books loanId action empId
    | addCustomer user username password => exact follows_addCustomer env user username password
    | _ => exact absurd trivial hquiet

end Money

/-! ## All requests together -/

section Together

variable {ι : Type} [Fintype ι] [DecidableEq ι] (env : Env) (requests : ι → Request ℚ)

def requestPool (db : Database ℚ) : Pool (Db ℚ) (Database ℚ) ι Reply :=
  ⟨db, fun i => (requests i).program env⟩

def booksAfter (db : Database ℚ) (schedule : List ι) (i : ι) : Books :=
  (Pool.own Db.shared i schedule (requestPool env requests db)).foldl
    (fun books action => books.note (requests i) action.cmd action.answer) (.start (requests i))

private theorem books_sound (base : Nat → ℚ) :
    Protocol.Sound (fun i => booksProtocol (requests i)) Db.shared
      (fun db books => db.gap = base + ∑ i, (books i).owed) FreshIds where
  step {db db' books i cmd answer} h hfresh hallow hexec := by
    obtain ⟨rfl, rfl⟩ := Db.shared_eq_some_iff.mp hexec
    refine ⟨trivial, ?_⟩
    rw [sum_comp_update, gap_exec (requests i) hallow hfresh.2, h, add_assoc]
    rfl

private theorem books_run {db : Database ℚ} {schedule : List ι}
    {pool : Pool (Db ℚ) (Database ℚ) ι Reply}
    (hfresh : Pool.Along Db.shared (Pool.Guard FreshIds) schedule (requestPool env requests db))
    (hrun : Pool.run Db.shared schedule (requestPool env requests db) = some pool) :
    Protocol.Explains (fun i => booksProtocol (requests i))
      (fun db' books => db'.gap = db.gap + ∑ i, (books i).owed)
      (fun i books _ => books.Closed (requests i)) pool
      (booksAfter env requests db schedule) := by
  refine (books_sound requests db.gap).run_own (g := fun i => .start (requests i))
    ⟨?_, fun i => follows_program env (requests i)⟩ hfresh hrun
  have hzero : ∀ i, (Books.start (requests i)).owed = 0 := fun _ => rfl
  simp only [hzero, Finset.sum_const_zero, add_zero]
  rfl

end Together

/-! ## Refused rollbacks -/

def Request.refuses (request : Request ℚ) : Action (Db ℚ) (Database ℚ) → Bool
  | ⟨_, .updateAccount userId (.deposit amount), false, _⟩ => request.rollsBack userId amount
  | _ => false

private theorem refused_note (request : Request ℚ) (books : Books)
    (action : Action (Db ℚ) (Database ℚ)) :
    (books.note request action.cmd action.answer).refused =
      (books.refused || request.refuses action) := by
  obtain ⟨before, cmd, answer, after⟩ := action
  cases cmd with
  | updateAccount userId modifier =>
      cases modifier with
      | deposit amount => cases answer <;> simp [Books.note, Request.refuses]
      | withdraw amount => cases answer <;> simp [Books.note, Request.refuses]
      | setStatus status => simp [Books.note, Request.refuses]
  | lockLoan offset => cases answer <;> simp [Books.note, Request.refuses]
  | _ => simp [Books.note, Request.refuses]

private theorem refused_foldl (request : Request ℚ) (own : List (Action (Db ℚ) (Database ℚ)))
    (books : Books) :
    (own.foldl (fun books action => books.note request action.cmd action.answer) books).refused =
      (books.refused || own.any request.refuses) := by
  induction own generalizing books with
  | nil => simp
  | cons action own ih =>
      rw [List.foldl_cons, ih, refused_note, List.any_cons, Bool.or_assoc]

private theorem not_refuses_iff {fromId toId : Nat} {amount : ℚ} {t : ι}
    {action : Action (Db ℚ) (Database ℚ)}
    (hexec : Db.shared t action.cmd action.before = some (action.answer, action.after)) :
    Request.refuses (.transfer fromId toId amount) action = false ↔
      (action.cmd = .updateAccount fromId (.deposit amount) →
        action.before.tables.hasActive fromId) := by
  obtain ⟨before, cmd, answer, after⟩ := action
  obtain ⟨hanswer, -⟩ := Db.shared_eq_some_iff.mp hexec
  dsimp only at hanswer ⊢
  by_cases hcmd : cmd = .updateAccount fromId (.deposit amount)
  · subst hcmd
    rcases Db.exec_updateAccount fromId (.deposit amount) before with
      ⟨hrun, hnone⟩ | ⟨db', hrun, hsome⟩
    · rw [hrun] at hanswer
      subst hanswer
      have hinactive : ¬ before.tables.hasActive fromId := by
        intro hactive
        obtain ⟨t', ht'⟩ := deposit_of_hasActive amount hactive
        rw [hnone] at ht'
        cases ht'
      simp [Request.refuses, Request.rollsBack, hinactive]
    · rw [hrun] at hanswer
      subst hanswer
      simp [Request.refuses, hasActive_of_deposit hsome]
  · refine ⟨fun _ h => absurd h hcmd, fun _ => ?_⟩
    unfold Request.refuses
    split
    · rename_i userId amount' _ hsame
      obtain ⟨-, rfl, -⟩ := Foundation.Action.mk.inj hsame
      simp only [Request.rollsBack, decide_eq_false_iff_not]
      rintro ⟨rfl, rfl⟩
      exact hcmd rfl
    · rfl

/-! ## When the balances are explained -/

section Explained

variable {ι : Type} [Fintype ι] [DecidableEq ι]

omit [Fintype ι] in
private theorem booksAfter_refused_iff {env : Env} {requests : ι → Request ℚ} {db : Database ℚ}
    {schedule : List ι} {i : ι} {fromId toId : Nat} {amount : ℚ}
    (hrequest : requests i = .transfer fromId toId amount) :
    (booksAfter env requests db schedule i).refused = false ↔
      RollbackAccepted fromId amount
        (Pool.own Db.shared i schedule (requestPool env requests db)) := by
  rw [booksAfter, refused_foldl, Books.start, Bool.false_or, List.any_eq_false, hrequest]
  refine forall_congr' fun action => forall_congr' fun hmem => ?_
  rw [Bool.not_eq_true]
  exact not_refuses_iff (Pool.own_exec action hmem)

/--
All requests have been answered, in whatever order their steps were taken.  The
balances are then the sums over the histories exactly when every rollback of a transfer
found the sender's account active.
-/
theorem balances_explained_iff (env : Env) (requests : ι → Request ℚ) (db : Database ℚ)
    (schedule : List ι) (pool : Pool (Db ℚ) (Database ℚ) ι Reply)
    (hbefore : ∀ u, db.tables.balanceOf u = historySum u db.txnTable)
    (hfresh : Pool.Along Db.shared (Pool.Guard FreshIds) schedule (requestPool env requests db))
    (hrun : Pool.run Db.shared schedule (requestPool env requests db) = some pool)
    (hall : pool.AllReturned) :
    (∀ u, pool.state.tables.balanceOf u = historySum u pool.state.txnTable) ↔
      ∀ i fromId toId amount, requests i = .transfer fromId toId amount →
        RollbackAccepted fromId amount
          (Pool.own Db.shared i schedule (requestPool env requests db)) := by
  have hexplains := books_run env requests hfresh hrun
  have hclosed : ∀ i, (booksAfter env requests db schedule i).Closed (requests i) := fun i => by
    obtain ⟨reply, hreturned⟩ := hall i
    exact hexplains.returned hreturned
  -- what each request has lost for good
  let lost (i : ι) : Nat → ℚ :=
    if (booksAfter env requests db schedule i).refused then (requests i).lost else 0
  have hgap : pool.state.gap = -∑ i, lost i := by
    have hzero : db.gap = 0 := funext fun u => sub_eq_zero.mpr (hbefore u)
    rw [hexplains.1, hzero, zero_add, ← Finset.sum_neg_distrib]
    refine Finset.sum_congr rfl fun i _ => ?_
    rw [(hclosed i).owed]
    dsimp only [lost]
    split_ifs <;> simp
  have hnonneg : ∀ i ∈ Finset.univ, 0 ≤ lost i := by
    intro i _
    dsimp only [lost]
    split_ifs with hrefused
    · exact ((hclosed i).lost hrefused).le
    · exact le_refl _
  have hexplained : (∀ u, pool.state.tables.balanceOf u = historySum u pool.state.txnTable) ↔
      ∀ i, (booksAfter env requests db schedule i).refused = false := by
    have hstate : (∀ u, pool.state.tables.balanceOf u = historySum u pool.state.txnTable) ↔
        pool.state.gap = 0 := by
      rw [funext_iff]
      exact forall_congr' fun u => sub_eq_zero.symm
    rw [hstate, hgap, neg_eq_zero, Finset.sum_eq_zero_iff_of_nonneg hnonneg]
    refine forall_congr' fun i => ?_
    dsimp only [lost]
    cases hrefused : (booksAfter env requests db schedule i).refused with
    | false => simp
    | true => simp [((hclosed i).lost hrefused).ne']
  rw [hexplained]
  constructor
  · intro h i fromId toId amount hrequest
    exact (booksAfter_refused_iff hrequest).mp (h i)
  · intro h i
    cases hrefused : (booksAfter env requests db schedule i).refused with
    | false => rfl
    | true =>
        -- only a transfer has anything to lose
        have hlost := (hclosed i).lost hrefused
        cases hrequest : requests i with
        | transfer fromId toId amount =>
            rw [← hrefused]
            exact (booksAfter_refused_iff hrequest).mpr (h i fromId toId amount hrequest)
        | _ =>
            rw [hrequest] at hlost
            exact absurd rfl hlost.ne

def twoHolders : Database ℚ :=
  Request.serve .plain
    [.addCustomer .zero (str "ann") (str "pw"),
      .addCustomer { UserRec.zero with email := .ofText (str "b"), phone := .ofText (str "2") }
        (str "bob") (str "pw"),
      .deposit 1001 9] (Database.empty fun _ => 1)

private theorem twoHolders_explained (u : Nat) :
    twoHolders.tables.balanceOf u = historySum u twoHolders.txnTable := by
  have hticks : (Database.empty (M := ℚ) fun _ => 1).Ticks Set.univ := fun _ => trivial
  exact (Request.serve_tables .plain (fun _ _ _ _ => Explained.step) _ hticks
    (Explained.empty fun _ => 1)).balances u

def transferAndDeposit (i : Bool) : Request ℚ :=
  if i then .deposit 1002 3 else .transfer 1001 1002 5

/-- The deposit takes its steps in between those of the transfer. -/
def transferMeanwhile : List Bool :=
  [false, false, true, false, false, true, false, false, true]

theorem balances_explained_of_two : ∃ pool,
    Pool.run Db.shared transferMeanwhile (requestPool .plain transferAndDeposit twoHolders) =
      some pool ∧
    ∀ u, pool.state.tables.balanceOf u = historySum u pool.state.txnTable := by
  obtain ⟨pool, hrun, hreturned⟩ := Pool.exists_run Db.shared transferMeanwhile
    (requestPool .plain transferAndDeposit twoHolders)
    (fun i => .say true (if i then str "Deposit Successful: 3.00"
      else str "Transfer Successful: 5.00 from 1001 to 1002")) (by decide +kernel)
  refine ⟨pool, hrun, (balances_explained_iff .plain transferAndDeposit twoHolders
    transferMeanwhile pool twoHolders_explained (by decide +kernel) hrun
    fun i => ⟨_, hreturned i⟩).mpr fun i fromId toId amount hrequest => ?_⟩
  refine (booksAfter_refused_iff hrequest).mp ?_
  have hboth : ∀ i, (booksAfter .plain transferAndDeposit twoHolders
      transferMeanwhile i).refused = false := by
    decide +kernel
  exact hboth i

/-! ## Killed in the middle -/

/-- Requests served at the same time, up to the moment when the server is killed. -/
structure Life (ι : Type) where
  requests : ι → Request ℚ
  schedule : List ι

/-- What is at stake for a user: amounts under way, and rollbacks that were refused. -/
def Life.exposure (env : Env) (life : Life ι) (db : Database ℚ)
    (pool : Pool (Db ℚ) (Database ℚ) ι Reply) (u : Nat) : ℚ :=
  ∑ i, match pool.threads i with
    | .ret _ =>
        if (booksAfter env life.requests db life.schedule i).refused then
          |(life.requests i).lost u| else 0
    | .call _ _ => |(booksAfter env life.requests db life.schedule i).stake u|

/-- One life after the other over the same files, with all that was at stake. -/
inductive Lives (env : Env) : List (Life ι) → Database ℚ → Database ℚ → (Nat → ℚ) → Prop
  | none (db : Database ℚ) : Lives env [] db db 0
  | killed {life : Life ι} {lives : List (Life ι)} {db db' : Database ℚ} {total : Nat → ℚ}
      {pool : Pool (Db ℚ) (Database ℚ) ι Reply}
      (hfresh : Pool.Along Db.shared (Pool.Guard FreshIds) life.schedule
        (requestPool env life.requests db))
      (hrun : Pool.run Db.shared life.schedule (requestPool env life.requests db) = some pool)
      (hrest : Lives env lives pool.state db' total) :
      Lives env (life :: lives) db db' (life.exposure env db pool + total)

private theorem Life.gap_le {env : Env} {life : Life ι} {db : Database ℚ}
    {pool : Pool (Db ℚ) (Database ℚ) ι Reply}
    (hfresh : Pool.Along Db.shared (Pool.Guard FreshIds) life.schedule
      (requestPool env life.requests db))
    (hrun : Pool.run Db.shared life.schedule (requestPool env life.requests db) = some pool)
    (u : Nat) : |pool.state.gap u - db.gap u| ≤ life.exposure env db pool u := by
  have hexplains := books_run env life.requests hfresh hrun
  rw [hexplains.1, Pi.add_apply, add_sub_cancel_left, Finset.sum_apply]
  refine (Finset.abs_sum_le_sum_abs _ _).trans (Finset.sum_le_sum fun i _ => ?_)
  cases hthread : pool.threads i with
  | ret reply =>
      rw [(hexplains.returned hthread).owed]
      dsimp only
      split_ifs <;> simp
  | call cmd next =>
      have hfollows := hexplains.2 i
      rw [hthread] at hfollows
      exact hfollows.1.1 u

/--
The server may be killed and started again any number of times, each time between any
two calls of a helper.  A balance differs from its history by no more than the
amounts that were under way for the user then, and the rollbacks that were refused.
-/
theorem killed_server_loses_at_most (env : Env) (lives : List (Life ι)) (db db' : Database ℚ)
    (total : Nat → ℚ) (hbefore : ∀ u, db.tables.balanceOf u = historySum u db.txnTable)
    (h : Lives env lives db db' total) (u : Nat) :
    |db'.tables.balanceOf u - historySum u db'.txnTable| ≤ total u := by
  have hgap : |db'.gap u - db.gap u| ≤ total u := by
    clear hbefore
    induction h with
    | none db => simp
    | @killed life lives db db' total pool hfresh hrun hrest ih =>
        calc |db'.gap u - db.gap u|
            ≤ |db'.gap u - pool.state.gap u| + |pool.state.gap u - db.gap u| :=
              abs_sub_le _ _ _
          _ ≤ total u + life.exposure env db pool u :=
              add_le_add ih (Life.gap_le hfresh hrun u)
          _ = (life.exposure env db pool + total) u := by rw [Pi.add_apply, add_comm]
  have hzero : db.gap u = 0 := sub_eq_zero.mpr (hbefore u)
  rwa [hzero, sub_zero] at hgap

end Explained

/-- The server is killed between the two halves of the transfer. -/
def killedTransfer : Life Bool := ⟨transferAndDeposit, [false, false, true]⟩

theorem killed_transfer_loses_at_most : ∃ pool,
    Pool.run Db.shared killedTransfer.schedule
      (requestPool .plain killedTransfer.requests twoHolders) = some pool ∧
    |pool.state.tables.balanceOf 1001 - historySum 1001 pool.state.txnTable| ≤
      killedTransfer.exposure .plain twoHolders pool 1001 + 0 := by
  obtain ⟨pool, hrun⟩ := Option.isSome_iff_exists.mp
    (by decide +kernel : (Pool.run Db.shared killedTransfer.schedule
      (requestPool .plain killedTransfer.requests twoHolders)).isSome)
  exact ⟨pool, hrun, killed_server_loses_at_most .plain [killedTransfer] twoHolders pool.state
    _ twoHolders_explained (.killed (by decide +kernel) hrun (.none pool.state)) 1001⟩

end BankingSystem
