import BankingSystem.Requests.Alone
import BankingSystem.Requests.WellFormed

/-!
# Identity of the records

Every file numbers its records in order, no request moves a record or changes its
key, and so the offset that a search returns stays that of the only record with
the key.
-/

namespace BankingSystem

open Foundation Tables

variable {M : Type} {t t' t'' : Tables M}

private theorem map_fbId_markReviewed (feedback : List FeedbackRec) :
    (feedback.map FeedbackRec.markReviewed).map FeedbackRec.fbId =
      feedback.map FeedbackRec.fbId := by
  rw [List.map_map]
  refine List.map_congr_left fun fb _ => ?_
  simp only [Function.comp_apply, FeedbackRec.markReviewed]
  split <;> rfl

/-! ## Keys that stay -/

structure KeysKept (t t' : Tables M) : Prop where
  users : t.users.map UserRec.userId <+: t'.users.map UserRec.userId
  accounts : t.accounts.map AccountRec.userId <+: t'.accounts.map AccountRec.userId
  loans : t.loans.map LoanRec.loanId <+: t'.loans.map LoanRec.loanId
  transactions : t.transactions.map TxnRec.txnId <+: t'.transactions.map TxnRec.txnId
  feedback : t.feedback.map FeedbackRec.fbId <+: t'.feedback.map FeedbackRec.fbId

namespace KeysKept

theorem refl (t : Tables M) : KeysKept t t :=
  ⟨List.prefix_refl _, List.prefix_refl _, List.prefix_refl _, List.prefix_refl _,
    List.prefix_refl _⟩

theorem trans (h : KeysKept t t') (h' : KeysKept t' t'') : KeysKept t t'' where
  users := h.users.trans h'.users
  accounts := h.accounts.trans h'.accounts
  loans := h.loans.trans h'.loans
  transactions := h.transactions.trans h'.transactions
  feedback := h.feedback.trans h'.feedback

theorem log {fromAccount toAccount : Nat} {amount : M} {now : Time} {narration : Bytes}
    (h : KeysKept t t') : KeysKept t (t'.log fromAccount toAccount amount now narration) := by
  refine ⟨h.users, h.accounts, h.loans, h.transactions.trans ?_, h.feedback⟩
  rw [Tables.log, List.map_append]
  exact List.prefix_append _ _

theorem withLoan {loanId i : Nat} {loan loan' : LoanRec M} (hloan : t.loanAt loanId i loan)
    (hid : loan'.loanId = loan.loanId) : KeysKept t (t.withLoan i loan') := by
  refine ⟨List.prefix_refl _, List.prefix_refl _, ?_, List.prefix_refl _, List.prefix_refl _⟩
  rw [Tables.withLoan, Table.map_key_set hloan.2 hid]

theorem withUser {userId i : Nat} {user user' : UserRec} (huser : t.userAt userId i user)
    (hid : user'.userId = user.userId) : KeysKept t (t.withUser i user') := by
  refine ⟨?_, List.prefix_refl _, List.prefix_refl _, List.prefix_refl _, List.prefix_refl _⟩
  rw [Tables.withUser, Table.map_key_set huser.2 hid]

variable [Amount M] {env : Env} {times : Set Time}

theorem updated {userId : Nat} {modifier : AccountModifier M}
    (h : t.updateAccount userId modifier = some t') : KeysKept t t' := by
  obtain ⟨acc, acc', -, hreplaced⟩ := updateAccount_replaced h
  rw [hreplaced.frame]
  refine ⟨List.prefix_refl _, ?_, List.prefix_refl _, List.prefix_refl _, List.prefix_refl _⟩
  rw [Tables.withAccounts, hreplaced.keys]

theorem step {request : Request M} {result : Bool}
    (h : Step env times t request result t') : KeysKept t t' := by
  cases h with
  | refused | looked => exact .refl t
  | deposited _ _ haccount | withdrew _ _ haccount => exact (updated haccount).log
  | transferred _ _ _ hfrom hto => exact ((updated hfrom).trans (updated hto)).log.log
  | loanApplied =>
      refine { refl t with loans := ?_ }
      rw [List.map_append]
      exact List.prefix_append _ _
  | loanAssigned hloan => exact withLoan hloan rfl
  | @loanApproved loanId empId i loan logged now t₁ hloan _ _ _ _ haccount =>
      have hloan₁ : t₁.loanAt loanId i loan := by
        rw [loanAt, updateAccount_loans haccount]
        exact hloan
      exact (updated haccount).log.trans (withLoan (t := t₁.log ..) hloan₁ rfl)
  | loanRejected hloan => exact withLoan hloan rfl
  | statusSet haccount => exact updated haccount
  | feedbackAdded =>
      refine { refl t with feedback := ?_ }
      rw [List.map_append]
      exact List.prefix_append _ _
  | feedbackReviewed =>
      refine { refl t with feedback := ?_ }
      rw [map_fbId_markReviewed]
  | customerAdded =>
      exact { refl t with
        users := Table.map_key_prefix_upsert
        accounts := Table.map_key_prefix_upsert }
  | employeeAdded => exact { refl t with users := Table.map_key_prefix_upsert }
  | customerModified huser => exact withUser huser rfl
  | userModified huser => exact withUser huser rfl
  | roleChanged huser => exact withUser huser rfl
  | passwordChanged huser => exact withUser huser rfl

end KeysKept

/-! ## Numbers in file order -/

structure Numbered (t : Tables M) : Prop where
  users : ∀ (i : Nat) user, t.users[i]? = some user → user.userId = 1001 + i
  loans : ∀ (i : Nat) loan, t.loans[i]? = some loan → loan.loanId = i + 1
  transactions : ∀ (i : Nat) tx, t.transactions[i]? = some tx → tx.txnId = i + 1
  feedback : ∀ (i : Nat) fb, t.feedback[i]? = some fb → fb.fbId = i + 1

/-- The identifiers of the two files that `WellFormed` does not speak of. -/
structure LogsNumbered (t : Tables M) : Prop where
  transactions : t.transactions.map TxnRec.txnId = List.range' 1 t.transactions.length
  feedback : t.feedback.map FeedbackRec.fbId = List.range' 1 t.feedback.length

private theorem key_of_range {ρ : Type} {key : ρ → Nat} {table : List ρ} {start : Nat}
    (h : table.map key = List.range' start table.length) (i : Nat) (r : ρ)
    (hr : table[i]? = some r) : key r = start + i := by
  have hi : (table.map key)[i]? = some (key r) := by simp [hr]
  obtain ⟨hlt, -⟩ := List.getElem?_eq_some_iff.mp hr
  rw [h, List.getElem?_range' hlt] at hi
  simpa using hi.symm

private theorem range_append {ρ : Type} {key : ρ → Nat} {table : List ρ} {r : ρ}
    (h : table.map key = List.range' 1 table.length) (hr : key r = table.length + 1) :
    (table ++ [r]).map key = List.range' 1 (table ++ [r]).length := by
  simp only [List.map_append, List.map_cons, List.map_nil, List.length_append,
    List.length_singleton, List.range'_concat, Nat.one_mul, h, hr, Nat.add_comm 1]

private theorem Numbered.of_wellFormed (hwf : WellFormed t) (hlogs : LogsNumbered t) :
    Numbered t where
  users := key_of_range hwf.userIds
  loans i loan hloan := (key_of_range hwf.loanIds i loan hloan).trans (Nat.add_comm 1 i)
  transactions i tx htx :=
    (key_of_range hlogs.transactions i tx htx).trans (Nat.add_comm 1 i)
  feedback i fb hfb := (key_of_range hlogs.feedback i fb hfb).trans (Nat.add_comm 1 i)

namespace LogsNumbered

theorem log {fromAccount toAccount : Nat} {amount : M} {now : Time} {narration : Bytes}
    (h : LogsNumbered t) :
    LogsNumbered (t.log fromAccount toAccount amount now narration) :=
  ⟨range_append h.transactions rfl, h.feedback⟩

variable [Amount M] {env : Env} {times : Set Time}

theorem updated {userId : Nat} {modifier : AccountModifier M} (h : LogsNumbered t)
    (haccount : t.updateAccount userId modifier = some t') : LogsNumbered t' := by
  obtain ⟨acc, acc', -, hreplaced⟩ := updateAccount_replaced haccount
  rw [hreplaced.frame]
  exact ⟨h.transactions, h.feedback⟩

theorem step {request : Request M} {result : Bool}
    (hstep : Step env times t request result t') (h : LogsNumbered t) : LogsNumbered t' := by
  cases hstep with
  | deposited _ _ haccount | withdrew _ _ haccount => exact (h.updated haccount).log
  | transferred _ _ _ hfrom hto => exact ((h.updated hfrom).updated hto).log.log
  | loanApproved _ _ _ _ _ haccount =>
      exact ⟨(h.updated haccount).log.transactions, (h.updated haccount).feedback⟩
  | statusSet haccount => exact h.updated haccount
  | feedbackAdded => exact ⟨h.transactions, range_append h.feedback rfl⟩
  | feedbackReviewed =>
      refine ⟨h.transactions, ?_⟩
      rw [map_fbId_markReviewed, List.length_map, h.feedback]
  | _ => exact ⟨h.transactions, h.feedback⟩

end LogsNumbered

/-! ## What the searches return -/

/-- An offset is that of the only record with the key, or there is no such record. -/
def Finds {ρ : Type} (key : ρ → Nat) (k : Nat) (table : List ρ) : Option Nat → Prop
  | some i => ∃ r, table[i]? = some r ∧ key r = k ∧
      ∀ (j : Nat) r', table[j]? = some r' → key r' = k → j = i
  | none => ∀ r ∈ table, key r ≠ k

private theorem finds_locate {ρ : Type} {key : ρ → Nat} {table : List ρ}
    (hnodup : (table.map key).Nodup) (k : Nat) :
    Finds key k table (Table.locate key k table) := by
  cases hloc : Table.locate key k table with
  | none => exact Table.locate_eq_none_iff.mp hloc
  | some i =>
      obtain ⟨r, hr, hkey⟩ := Table.getElem?_of_locate hloc
      refine ⟨r, hr, hkey, fun j r' hj hkey' => ?_⟩
      exact Table.getElem?_key_inj hnodup hr hj (hkey'.trans hkey.symm)

private theorem locate_of_prefix {ρ : Type} {key : ρ → Nat} {table table' : List ρ} {k i : Nat}
    (h : table.map key <+: table'.map key) (hloc : Table.locate key k table = some i) :
    Table.locate key k table' = some i := by
  rw [Table.locate_eq_map] at hloc ⊢
  obtain ⟨rest, hrest⟩ := h
  rw [← hrest, Table.locate, List.findIdx?_append]
  rw [Table.locate] at hloc
  rw [hloc, Option.some_or]

/--
Run alone with enough fuel, the search returns the offset of the only record with
the key, or none where there is no such record, and changes nothing; in `db'` it
returns the same offset.
-/
def OffsetStays {ρ : Type} (find : Nat → Nat → Prog (Sys M) (Option Nat)) (key : ρ → Nat)
    (table : Database M → List ρ) (db db' : Database M) : Prop :=
  ∀ k, ∃ offset, (∀ fuel, db.fuel ≤ fuel → Sys.Ends (find fuel k) db.disk offset db.disk) ∧
    Finds key k (table db) offset ∧
    ∀ i, offset = some i → Finds key k (table db') (some i) ∧
      ∀ fuel, db'.fuel ≤ fuel → Sys.Ends (find fuel k) db'.disk (some i) db'.disk

private theorem OffsetStays.of_grown {ρ : Type} {find : Nat → Nat → Prog (Sys M) (Option Nat)}
    {key : ρ → Nat} {table : Database M → List ρ} {db db' : Database M}
    (hfind : ∀ (db : Database M) k fuel, db.fuel ≤ fuel →
      Sys.Ends (find fuel k) db.disk (Table.locate key k (table db)) db.disk)
    (hgrown : (table db).map key <+: (table db').map key)
    (hnodup : ((table db').map key).Nodup) : OffsetStays find key table db db' := by
  intro k
  refine ⟨_, hfind db k, finds_locate (hgrown.sublist.nodup hnodup) k, fun i hloc => ?_⟩
  have hloc' := locate_of_prefix hgrown hloc
  rw [← hloc']
  exact ⟨finds_locate hnodup k, hfind db' k⟩

variable [Amount M]

/--
Requests one at a time from empty files: the records are numbered in file order and
no user has two accounts; later requests remove, move or rename no record, and the
offset of a record stays the one that the searches return.
-/
theorem identities_stay (env : Env) (clock : Nat → Time)
    (requests later : List (Request M)) :
    let db := Request.serve env requests (Database.empty clock)
    let db' := Request.serve env later db
    Numbered db.tables ∧ (db.accountTable.map AccountRec.userId).Nodup ∧
    KeysKept db.tables db'.tables ∧
    OffsetStays Sys.findUserOffset UserRec.userId Database.userTable db db' ∧
    OffsetStays Sys.findAccountOffset AccountRec.userId Database.accountTable db db' ∧
    OffsetStays Sys.findLoanOffset LoanRec.loanId Database.loanTable db db' := by
  intro db db'
  have hticks : (Database.empty (M := M) clock).Ticks Set.univ := fun _ => trivial
  have hinv : ∀ requests, WellFormed (Request.serve env requests
      (Database.empty (M := M) clock)).tables ∧
      LogsNumbered (Request.serve env requests (Database.empty (M := M) clock)).tables :=
    fun requests => Request.serve_tables (I := fun t => WellFormed t ∧ LogsNumbered t) env
      (fun t request result t' hstep h => ⟨h.1.step hstep, h.2.step hstep⟩) requests hticks
      ⟨.empty clock, rfl, rfl⟩
  obtain ⟨hwf, hlogs⟩ := hinv requests
  have hwf' : WellFormed db'.tables := by
    rw [show db' = _ from (Request.serve_append env requests later _).symm]
    exact (hinv (requests ++ later)).1
  have hkept : KeysKept db.tables db'.tables :=
    Request.serve_tables (I := fun t => KeysKept db.tables t) env
      (fun t request result t' hstep h => h.trans (.step hstep)) later
      (Request.serve_ticks env requests hticks) (.refl _)
  have hlt : ∀ (db : Database M) fuel f, db.fuel ≤ fuel →
      (db.disk.content f).length < fuel :=
    fun db fuel f hfuel => Nat.lt_of_lt_of_le (db.length_content_lt f) hfuel
  refine ⟨.of_wellFormed hwf hlogs, hwf.accounts_nodup, hkept, ?_, ?_, ?_⟩
  · refine .of_grown (fun db k fuel hfuel => ?_) hkept.users ?_
    · exact Sys.findOffset_ends (f := .users) _ (hlt db fuel .users hfuel)
    · exact hwf'.userIds ▸ List.nodup_range'
  · refine .of_grown (fun db k fuel hfuel => ?_) hkept.accounts hwf'.accounts_nodup
    exact Sys.findOffset_ends (f := .accounts) _ (hlt db fuel .accounts hfuel)
  · refine .of_grown (fun db k fuel hfuel => ?_) hkept.loans ?_
    · exact Sys.findOffset_ends (f := .loans) _ (hlt db fuel .loans hfuel)
    · exact hwf'.loanIds ▸ List.nodup_range'

end BankingSystem
