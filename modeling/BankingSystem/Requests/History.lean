import BankingSystem.Foundation.Seek
import BankingSystem.Foundation.Trace
import BankingSystem.Clients.Interleaving
import BankingSystem.Requests.Ledger
import BankingSystem.Requests.Listings

/-!
# The two transaction views

`view_transaction_history` and `view_customer_transactions` read the log from its end and
take the other account of a row from different fields.  On what the program appends to the
log they show the same rows.
-/

namespace BankingSystem

open Foundation ByteFd

variable {M : Type}

/-! ## What is appended -/

section Appends

variable [Amount M]

/-- For some answers of the helpers, some request makes the call. -/
def Db.Cmd.Own (cmd : Db.Cmd M) : Prop :=
  ∃ (env : Env) (request : Request M), (request.program env).MayIssue (S := Db M) cmd

/-- The program appends the record, under the number that `append_transaction` gives it. -/
def TxnRec.Appended (tx : TxnRec M) : Prop :=
  ∃ txnId, (Db.Cmd.appendTransaction { tx with txnId }).Own

/-- The bank has no account: where it is the other side, the field is 0. -/
def TxnKind.BankSide (tx : TxnRec M) : TxnKind → Prop
  | .deposit | .loanDeposit => tx.fromAccount = 0
  | .withdraw => tx.toAccount = 0
  | .transferOut | .transferIn => True

def TxnRec.Logged (tx : TxnRec M) : Prop :=
  ∃ kind : TxnKind, tx.narration = kind.narration ∧ kind.BankSide tx

def Db.Cmd.Logs : Db.Cmd M → Prop
  | .appendTransaction tx => tx.Logged
  | _ => True

/-- All that the program appends to the log is of one of the five kinds. -/
abbrev Logs {α : Type} (program : Prog (Db M) α) : Prop := program.Only (S := Db M) Db.Cmd.Logs

section Helpers

omit [Amount M]

private theorem logs_bind {α : Type} {cmd : Db.Cmd M} {f : Db.Ans M cmd → Prog (Db M) α}
    (hcmd : cmd.Logs) (hnext : ∀ answer, Logs (f answer)) : Logs (Db.issue cmd >>= f) :=
  ⟨hcmd, hnext⟩

private theorem logs_atomicUpdate {ρ : Type} {find : Prog (Db M) (Option Nat)}
    {lock : Nat → Prog (Db M) (Option ρ)} {commit : Nat → Option ρ → Prog (Db M) Bool}
    {modifier : ρ → Prog (Db M) (Option ρ × Bytes)} (respMsg : Bytes) (hfind : Logs find)
    (hlock : ∀ offset, Logs (lock offset)) (hcommit : ∀ offset r, Logs (commit offset r))
    (hmodifier : ∀ r, Logs (modifier r)) :
    Logs (Db.atomicUpdate find lock commit modifier respMsg) := by
  refine hfind.bind fun offset => ?_
  cases offset with
  | none => trivial
  | some offset =>
      refine (hlock offset).bind fun tmp => ?_
      cases tmp with
      | none => trivial
      | some tmp =>
          refine (hmodifier tmp).bind fun out => ?_
          exact (hcommit offset out.1).bind fun success => trivial

private theorem logs_updateUser {modifier : UserRec → Prog (Db M) (Option UserRec × Bytes)}
    (hmodifier : ∀ user, Logs (modifier user)) (userId : Nat) (respMsg : Bytes) :
    Logs (Db.atomicUpdateUser userId modifier respMsg) :=
  logs_atomicUpdate respMsg ⟨trivial, fun _ => trivial⟩ (fun _ => ⟨trivial, fun _ => trivial⟩)
    (fun _ _ => ⟨trivial, fun _ => trivial⟩) hmodifier

private theorem logs_updateLoan {modifier : LoanRec M → Prog (Db M) (Option (LoanRec M) × Bytes)}
    (hmodifier : ∀ loan, Logs (modifier loan)) (loanId : Nat) (respMsg : Bytes) :
    Logs (Db.atomicUpdateLoan loanId modifier respMsg) :=
  logs_atomicUpdate respMsg ⟨trivial, fun _ => trivial⟩ (fun _ => ⟨trivial, fun _ => trivial⟩)
    (fun _ _ => ⟨trivial, fun _ => trivial⟩) hmodifier

end Helpers

private theorem logs_depositMoney (userId : Nat) (amount : M) :
    Logs (depositMoney userId amount) := by
  unfold depositMoney
  split
  · trivial
  · refine logs_bind trivial fun success => ?_
    cases success with
    | false =>
        refine logs_bind trivial fun acc => ?_
        split
        · split <;> trivial
        · trivial
    | true =>
        refine logs_bind trivial fun now => ?_
        exact logs_bind ⟨.deposit, rfl, rfl⟩ fun _ => trivial

private theorem logs_withdrawMoney (userId : Nat) (amount : M) :
    Logs (withdrawMoney userId amount) := by
  unfold withdrawMoney
  split
  · trivial
  · refine logs_bind trivial fun success => ?_
    cases success with
    | false => exact logs_bind trivial fun acc => trivial
    | true =>
        refine logs_bind trivial fun now => ?_
        exact logs_bind ⟨.withdraw, rfl, rfl⟩ fun _ => trivial

private theorem logs_transferFunds (fromId toId : Nat) (amount : M) :
    Logs (transferFunds fromId toId amount) := by
  unfold transferFunds
  split
  · trivial
  · split
    · trivial
    · refine logs_bind trivial fun toAcc => ?_
      split
      · trivial
      · refine logs_bind trivial fun withdrawn => ?_
        cases withdrawn with
        | false => exact logs_bind trivial fun acc => trivial
        | true =>
            refine logs_bind trivial fun deposited => ?_
            cases deposited with
            | false => exact logs_bind trivial fun _ => trivial
            | true =>
                refine logs_bind trivial fun now => ?_
                refine logs_bind ⟨.transferOut, rfl, trivial⟩ fun _ => ?_
                exact logs_bind ⟨.transferIn, rfl, trivial⟩ fun _ => trivial

omit [Amount M] in
private theorem logs_approveRejectLoanModifier (action : Bytes) (empId : Nat) (loan : LoanRec M) :
    Logs (approveRejectLoanModifier action empId loan) := by
  unfold approveRejectLoanModifier
  split
  · trivial
  · split
    · trivial
    · split
      · refine logs_bind trivial fun acc => ?_
        split
        · trivial
        · refine logs_bind trivial fun success => ?_
          cases success with
          | false => trivial
          | true =>
              refine logs_bind trivial fun logged => ?_
              refine logs_bind ⟨.loanDeposit, rfl, rfl⟩ fun _ => ?_
              exact logs_bind trivial fun now => trivial
      · split
        · exact logs_bind trivial fun now => trivial
        · trivial

private theorem logs_writesUsers (env : Env) {request : Request M}
    (h : request.writesUsers = true) :
    Logs (request.program env) := by
  cases request with
  | changePassword userId newpass =>
      refine (logs_updateUser (fun user => ?_) userId []).bind fun reply => ?_
      · trivial
      · split <;> trivial
  | modifyCustomer userId details =>
      refine (logs_updateUser (fun user => ?_) userId []).bind fun reply => ?_
      · unfold modifyCustomerModifier
        split
        · trivial
        · refine ⟨trivial, fun clash => ?_⟩
          cases clash <;> trivial
      · split <;> trivial
  | modifyUser userId details =>
      refine (logs_updateUser (fun user => ?_) userId []).bind fun reply => ?_
      · refine ⟨trivial, fun clash => ?_⟩
        cases clash <;> trivial
      · split <;> trivial
  | changeRole userId roleStr =>
      refine (logs_updateUser (fun user => ?_) userId []).bind fun reply => ?_
      · unfold changeRoleModifier
        dsimp only
        split_ifs <;> trivial
      · split <;> trivial
  | addCustomer user username password =>
      refine ⟨trivial, fun clash => ?_⟩
      cases clash with
      | some field => trivial
      | none =>
          refine logs_bind trivial fun userId => ?_
          refine logs_bind trivial fun now => ?_
          refine logs_bind trivial fun success => ?_
          cases success with
          | false => trivial
          | true =>
              refine logs_bind trivial fun success => ?_
              cases success <;> trivial
  | addEmployee details roleStr username password =>
      refine ⟨trivial, fun clash => ?_⟩
      cases clash with
      | some field => trivial
      | none =>
          refine logs_bind trivial fun userId => ?_
          refine logs_bind trivial fun now => ?_
          split
          · trivial
          · refine logs_bind trivial fun success => ?_
            cases success <;> trivial
  | _ => cases h

private theorem logs_readOnly (env : Env) {request : Request M} (h : request.readOnly = true) :
    Logs (request.program env) := by
  cases request with
  | login username password =>
      refine Prog.Only.bind (logs_bind trivial fun users => ?_) fun result => trivial
      cases users with
      | none => trivial
      | some users =>
          dsimp only
          split
          · trivial
          · split
            · refine logs_bind trivial fun acc => ?_
              split <;> trivial
            · trivial
  | viewCustTransactions custId =>
      refine logs_bind trivial fun user => ?_
      split
      · trivial
      · refine logs_bind trivial fun txns => ?_
        cases txns <;> trivial
  | listUsers =>
      refine logs_bind trivial fun users => ?_
      cases users with
      | none => trivial
      | some users =>
          dsimp only
          split <;> trivial
  | viewBalance | viewLoan | viewFeedback | viewTransactions | viewDetails | processLoans
  | viewAssignedLoans | viewNonAssignedLoans =>
      refine logs_bind trivial fun answer => ?_
      cases answer <;> trivial
  | _ => cases h

private theorem logs_program (env : Env) (request : Request M) : Logs (request.program env) := by
  cases request with
  | deposit userId amount => exact logs_depositMoney userId amount
  | withdraw userId amount => exact logs_withdrawMoney userId amount
  | transfer fromId toId amount => exact logs_transferFunds fromId toId amount
  | approveRejectLoan loanId action empId =>
      refine (logs_updateLoan (logs_approveRejectLoanModifier action empId) loanId []).bind
        fun reply => ?_
      split <;> trivial
  | assignLoan loanId empId =>
      refine (logs_updateLoan (fun loan => ?_) loanId []).bind fun reply => ?_
      · unfold assignLoanModifier
        split
        · trivial
        · refine logs_bind trivial fun emp => ?_
          split <;> trivial
      · split <;> trivial
  | applyLoan userId amount =>
      simp only [Request.program, applyLoan]
      split
      · trivial
      · refine logs_bind trivial fun now => ?_
        refine logs_bind trivial fun loanId => ?_
        cases loanId <;> trivial
  | addFeedback userId msg =>
      refine logs_bind trivial fun now => ?_
      refine logs_bind trivial fun fbId => ?_
      cases fbId <;> trivial
  | setAccountStatus custId status =>
      refine logs_bind trivial fun success => ?_
      cases success <;> trivial
  | reviewFeedback =>
      refine logs_bind trivial fun feedback => ?_
      cases feedback with
      | none => trivial
      | some feedback =>
          dsimp only
          split <;> trivial
  | changePassword | modifyCustomer | modifyUser | changeRole | addCustomer | addEmployee =>
      exact logs_writesUsers env rfl
  | _ => exact logs_readOnly env rfl

theorem TxnRec.Appended.logged {tx : TxnRec M} (h : tx.Appended) : tx.Logged := by
  obtain ⟨txnId, env, request, hissue⟩ := h
  exact (logs_program env request).of_mayIssue hissue

/-! ### Runs -/

private theorem appended_exec {cmd : Db.Cmd M} {db : Database M} (hcmd : cmd.Own)
    (h : ∀ tx ∈ db.txnTable, tx.Appended) :
    ∀ tx ∈ (Db.exec cmd db).2.txnTable, tx.Appended := by
  cases cmd with
  | appendTransaction tx =>
      intro tx' hmem
      rcases List.mem_append.mp hmem with hold | hnew
      · exact h tx' hold
      · rw [List.mem_singleton.mp hnew]
        exact ⟨tx.txnId, hcmd⟩
  | updateAccount userId modifier =>
      simp only [Db.exec]
      split <;> exact h
  | _ => exact h

private theorem own_session (env : Env) (requests : List (Request M)) :
    (Request.session env requests).Only (S := Db M) Db.Cmd.Own := by
  induction requests with
  | nil => trivial
  | cons request requests ih =>
      have hrequest := (Prog.only_mayIssue (request.program env)).imp fun cmd h =>
        (⟨env, request, h⟩ : cmd.Own)
      exact hrequest.bind fun reply => ih.bind fun replies => trivial

private theorem appended_serve (env : Env) (requests : List (Request M)) {db : Database M}
    (h : ∀ tx ∈ db.txnTable, tx.Appended) :
    ∀ tx ∈ (Request.serve env requests db).txnTable, tx.Appended := by
  rw [← Request.session_run]
  exact (own_session env requests).run_preserves
    (I := fun db : Database M => ∀ tx ∈ db.txnTable, tx.Appended)
    (fun _ _ hcmd hdb => appended_exec hcmd hdb) h

end Appends

/-! ## Rows -/

structure TxnRow (M : Type) where
  kind : TxnKind
  amount : M
  otherId : Nat
  timestamp : Time

def TxnRow.line [Amount M] (env : Env) (row : TxnRow M) : Bytes :=
  txnLine env ⟨0, 0, 0, row.amount, row.timestamp, []⟩ row.kind row.otherId

def historyRow (userId : Nat) (tx : TxnRec M) : Option (TxnRow M) :=
  (tx.relevance userId).map fun kind =>
    ⟨kind, tx.amount, historyOtherId tx kind, tx.timestamp⟩

def auditRow (custId : Nat) (tx : TxnRec M) : Option (TxnRow M) :=
  (tx.relevance custId).map fun kind =>
    ⟨kind, tx.amount, auditOtherId tx kind, tx.timestamp⟩

def sizeofTxnRec : BitVec 64 := 160

/-- The rows that a view formats in its loop over the bytes of the file. -/
def formatRows (row : TxnRec M → Option (TxnRow M)) (decode : Bytes → TxnRec M) (fuel : Nat)
    (bytes : Bytes) : Option (List (TxnRow M)) :=
  (readBackward sizeofTxnRec fuel bytes).map fun (visits, _) =>
    visits.filterMap fun visit => row (decode visit.2)

def TxnRec.Credits (userId : Nat) (tx : TxnRec M) : Prop :=
  tx.toAccount = userId ∧ (tx.narration = str "deposit" ∨ tx.narration = str "transfer_in" ∨
    tx.narration = str "loan_deposit")

def TxnRec.Debits (userId : Nat) (tx : TxnRec M) : Prop :=
  tx.fromAccount = userId ∧ (tx.narration = str "withdraw" ∨ tx.narration = str "transfer_out")

instance (userId : Nat) (tx : TxnRec M) : Decidable (tx.Credits userId) :=
  inferInstanceAs (Decidable (_ ∧ _))

instance (userId : Nat) (tx : TxnRec M) : Decidable (tx.Debits userId) :=
  inferInstanceAs (Decidable (_ ∧ _))

def statement (userId : Nat) (txns : List (TxnRec M)) : List (TxnRec M) :=
  txns.reverse.filter fun tx => tx.Credits userId ∨ tx.Debits userId

/-- The row tells type, amount, other account and time of the record. -/
structure TxnRow.Describes (tx : TxnRec M) (row : TxnRow M) : Prop where
  kind : row.kind.narration = tx.narration
  amount : row.amount = tx.amount
  otherId : row.otherId = if tx.narration = str "transfer_out" then tx.toAccount
    else if tx.narration = str "transfer_in" then tx.fromAccount else 0
  timestamp : row.timestamp = tx.timestamp

private theorem TxnRec.Logged.auditRow_eq {tx : TxnRec M} (h : tx.Logged) (userId : Nat) :
    auditRow userId tx = historyRow userId tx := by
  obtain ⟨kind, hkind, hbank⟩ := h
  rw [auditRow, historyRow, relevance_of_narration kind hkind]
  split_ifs
  · cases kind <;> simp_all [auditOtherId, historyOtherId, TxnKind.BankSide]
  · rfl

private theorem shown_iff {tx : TxnRec M} {kind : TxnKind} (h : tx.narration = kind.narration)
    (userId : Nat) : tx.Credits userId ∨ tx.Debits userId ↔ kind.party tx = userId := by
  rw [TxnRec.Credits, TxnRec.Debits, h]
  cases kind <;> simp [TxnKind.narration, TxnKind.party, str]

private theorem TxnRec.Logged.historyRow_eq {tx : TxnRec M} (h : tx.Logged) (userId : Nat) :
    if tx.Credits userId ∨ tx.Debits userId
    then ∃ row, historyRow userId tx = some row ∧ row.Describes tx
    else historyRow userId tx = none := by
  obtain ⟨kind, hkind, -⟩ := h
  rw [historyRow, relevance_of_narration kind hkind]
  simp only [shown_iff hkind]
  split_ifs
  · refine ⟨_, rfl, hkind.symm, rfl, ?_, rfl⟩
    rw [hkind]
    cases kind <;> simp [TxnKind.narration, historyOtherId, str]
  · rfl

private theorem forall₂_filterMap {α β : Type} {R : α → β → Prop} {p : α → Prop} [DecidablePred p]
    {f : α → Option β} {records : List α}
    (h : ∀ a ∈ records, if p a then ∃ b, f a = some b ∧ R a b else f a = none) :
    List.Forall₂ R (records.filter p) (records.filterMap f) := by
  induction records with
  | nil => exact .nil
  | cons a records ih =>
      have hrest := ih fun b hb => h b (List.mem_cons_of_mem _ hb)
      have hfirst := h a List.mem_cons_self
      by_cases ha : p a
      · rw [if_pos ha] at hfirst
        obtain ⟨b, hb, hab⟩ := hfirst
        rw [List.filter_cons_of_pos (by simpa using ha), List.filterMap_cons_some hb]
        exact .cons hab hrest
      · rw [if_neg ha] at hfirst
        rw [List.filter_cons_of_neg (by simpa using ha), List.filterMap_cons_none hfirst]
        exact hrest

section Files

variable {chunks : List Bytes} (hchunks : ∀ chunk ∈ chunks, chunk.length = sizeofTxnRec.toNat)
include hchunks

private theorem txnLoop_eq (fuel : Nat) :
    readBackward sizeofTxnRec fuel chunks.flatten =
      if chunks.length < fuel then some ((numbered sizeofTxnRec chunks).reverse, -1)
      else none :=
  readBackward_eq (by decide) (by decide) fuel hchunks

private theorem formatRows_eq (row : TxnRec M → Option (TxnRow M)) (decode : Bytes → TxnRec M)
    {fuel : Nat} (hfuel : chunks.length < fuel) :
    formatRows row decode fuel chunks.flatten =
      some ((chunks.map decode).reverse.filterMap row) := by
  rw [formatRows, txnLoop_eq hchunks, if_pos hfuel, Option.map_some, Option.some_inj,
    ← List.map_reverse, List.filterMap_map]
  conv_rhs => rw [← numbered_map_snd sizeofTxnRec chunks, ← List.map_reverse, List.filterMap_map]
  rfl

end Files

variable [Amount M]

private theorem history_reply (env : Env) {db : Database M} (userId : Nat) {txns : List (TxnRec M)}
    (hfile : db.transactions = some txns) :
    ((Request.viewTransactions userId).handle env db).1 =
      listingOr 256 txnHeader
        ((txns.reverse.filterMap (historyRow userId)).map (TxnRow.line env))
        (str "No transaction history found for your ID.") := by
  simp only [Request.handle, Request.program, viewTransactionHistory, Db.scanTransactions_bind,
    Prog.run_call, Db.exec, hfile, List.map_filterMap, historyRow, Option.map_map]
  rfl

private theorem audit_reply (env : Env) {db : Database M} {custId : Nat} {txns : List (TxnRec M)}
    {user : UserRec} (hfile : db.transactions = some txns)
    (huser : Table.lookup UserRec.userId custId db.userTable = some user)
    (hrole : user.role = .customer) :
    ((Request.viewCustTransactions custId).handle env db).1 =
      listingOr 256 (str "--- Transaction History for Customer " ++ dec custId ++
        str " ---\n" ++ txnHeader)
        ((txns.reverse.filterMap (auditRow custId)).map (TxnRow.line env))
        (str "No transaction history found for customer " ++ dec custId ++ str ".") := by
  have hcustomer : (some user).all (fun user => user.role ≠ .customer) = false := by
    simp [hrole]
  simp only [Request.handle, Request.program, viewCustomerTransactions, Db.readUser_bind,
    Prog.run_call, Db.exec, huser, hcustomer, Bool.false_eq_true, if_false,
    Db.scanTransactions_bind, hfile, List.map_filterMap, auditRow, Option.map_map]
  rfl

/--
A file of whole records, all of which the program has appended, and a customer.  The loop
of either view reads every record once, from the last one to the first, and leaves when
`lseek` fails; its rows are the same in both, one for each record that credits or debits the
customer, newest first, and they are what the view answers with.
-/
theorem transaction_views_agree (env : Env) {db : Database M} (decode : Bytes → TxnRec M)
    {chunks : List Bytes} {userId : Nat} {user : UserRec}
    (hchunks : ∀ chunk ∈ chunks, chunk.length = sizeofTxnRec.toNat)
    (hfile : db.transactions = some (chunks.map decode))
    (happended : ∀ tx ∈ db.txnTable, tx.Appended)
    (huser : Table.lookup UserRec.userId userId db.userTable = some user)
    (hrole : user.role = .customer) :
    (∀ fuel, readBackward sizeofTxnRec fuel chunks.flatten =
      if chunks.length < fuel then some ((numbered sizeofTxnRec chunks).reverse, -1)
      else none) ∧
    ∃ rows : List (TxnRow M),
      List.Forall₂ TxnRow.Describes (statement userId db.txnTable) rows ∧
      (∀ fuel, chunks.length < fuel →
        formatRows (historyRow userId) decode fuel chunks.flatten = some rows ∧
        formatRows (auditRow userId) decode fuel chunks.flatten = some rows) ∧
      ((Request.viewTransactions userId).handle env db).1 =
        listingOr 256 txnHeader (rows.map (TxnRow.line env))
          (str "No transaction history found for your ID.") ∧
      ((Request.viewCustTransactions userId).handle env db).1 =
        listingOr 256 (str "--- Transaction History for Customer " ++ dec userId ++
          str " ---\n" ++ txnHeader) (rows.map (TxnRow.line env))
          (str "No transaction history found for customer " ++ dec userId ++ str ".") := by
  have htxns : db.txnTable = chunks.map decode := by rw [Database.txnTable, hfile]; rfl
  have hlogged : ∀ tx ∈ (chunks.map decode).reverse, tx.Logged := by
    intro tx htx
    rw [List.mem_reverse, ← htxns] at htx
    exact (happended tx htx).logged
  have hsame : (chunks.map decode).reverse.filterMap (auditRow userId) =
      (chunks.map decode).reverse.filterMap (historyRow userId) :=
    List.filterMap_congr fun tx htx => (hlogged tx htx).auditRow_eq userId
  refine ⟨txnLoop_eq hchunks, (chunks.map decode).reverse.filterMap (historyRow userId),
    ?_, fun fuel hfuel => ⟨?_, ?_⟩, ?_, ?_⟩
  · rw [htxns, statement]
    exact forall₂_filterMap fun tx htx => (hlogged tx htx).historyRow_eq userId
  · exact formatRows_eq hchunks _ decode hfuel
  · rw [formatRows_eq hchunks _ decode hfuel, hsame]
  · rw [history_reply env userId hfile]
  · rw [audit_reply env hfile huser hrole, hsame]


def annTxns : List (TxnRec ℚ) :=
  [⟨1, 0, 1001, 5, 1, str "deposit"⟩, ⟨2, 1001, 0, 2, 1, str "withdraw"⟩]

def annServed : Database ℚ :=
  Request.serve .plain [.addCustomer .zero (str "ann") (str "pw"), .deposit 1001 5,
    .withdraw 1001 2] (Database.empty fun _ => 1)

/-- The file as two blocks of bytes, which start with the number of the record. -/
def annChunks : List Bytes := [List.replicate 160 1, List.replicate 160 2]

def annDecode (bytes : Bytes) : TxnRec ℚ :=
  if bytes.head? = some 1 then ⟨1, 0, 1001, 5, 1, str "deposit"⟩
  else ⟨2, 1001, 0, 2, 1, str "withdraw"⟩

theorem transaction_views_agree_ann : ∃ rows : List (TxnRow ℚ),
    List.Forall₂ TxnRow.Describes annTxns.reverse rows ∧
    formatRows (historyRow 1001) annDecode 3 annChunks.flatten = some rows ∧
    formatRows (auditRow 1001) annDecode 3 annChunks.flatten = some rows := by
  have hchunks : ∀ chunk ∈ annChunks, chunk.length = sizeofTxnRec.toNat := by
    intro chunk hmem
    rw [annChunks, List.mem_cons, List.mem_singleton] at hmem
    rcases hmem with rfl | rfl <;> exact List.length_replicate
  have hfile : annServed.transactions = some (annChunks.map annDecode) := by decide +kernel
  have happended : ∀ tx ∈ annServed.txnTable, tx.Appended :=
    appended_serve .plain _ fun tx htx => by simp [Database.empty, Database.txnTable] at htx
  have hcustomer : (Table.lookup UserRec.userId 1001 annServed.userTable).any
      (fun user => user.role = .customer) = true := by decide +kernel
  obtain ⟨user, huser, hrole⟩ := Option.any_eq_true _ _ |>.mp hcustomer
  obtain ⟨-, rows, hrows, hformat, -⟩ := transaction_views_agree .plain annDecode hchunks hfile
    happended huser (of_decide_eq_true hrole)
  have hstatement : statement 1001 annServed.txnTable = annTxns.reverse := by decide +kernel
  rw [hstatement] at hrows
  exact ⟨rows, hrows, hformat 3 (by decide)⟩

end BankingSystem
