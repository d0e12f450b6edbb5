import BankingSystem.Requests.Tables

/-!
# A program logic over the tables

`Yields times t program R`: from any database whose tables are `t`, the program
returns a value and leaves tables that satisfy `R`.  There is one rule for each
helper, so the proofs about the operations never unfold `Db.exec`.
-/

namespace BankingSystem

open Foundation

variable {M : Type} [Amount M] {times : Set Time} {α β : Type}

/-- Every later value of `time(NULL)` is one of `times`. -/
def Database.Ticks (times : Set Time) (db : Database M) : Prop :=
  ∀ n, db.clock n ∈ times

theorem Db.exec_ticks (cmd : Db.Cmd M) (db : Database M) (h : db.Ticks times) :
    (Db.exec cmd db).2.Ticks times := by
  cases cmd with
  | time => exact fun n => h (n + 1)
  | updateAccount userId modifier =>
      simp only [Db.exec]
      split <;> exact h
  | _ => exact h

private theorem Db.tables_commitUser {db : Database M} {i : Nat} (user : UserRec)
    (hi : i < db.userTable.length) :
    (Db.exec (.commitUser i (some user)) db).2.tables = db.tables.withUser i user :=
  congrArg (fun users => { db.tables with users }) (Table.put_of_lt hi)

private theorem Db.tables_commitLoan {db : Database M} {i : Nat} (loan : LoanRec M)
    (hi : i < db.loanTable.length) :
    (Db.exec (.commitLoan i (some loan)) db).2.tables = db.tables.withLoan i loan :=
  congrArg (fun loans => { db.tables with loans }) (Table.put_of_lt hi)

def Yields (times : Set Time) (t : Tables M) (program : Prog (Db M) α)
    (R : α → Tables M → Prop) : Prop :=
  ∀ db : Database M, db.tables = t → db.Ticks times →
    R (program.run Db.exec db).1 (program.run Db.exec db).2.tables

namespace Yields

variable {t : Tables M} {R : α → Tables M → Prop}

theorem ret {value : α} (h : R value t) : Yields times t (.ret value) R := by
  rintro db rfl -
  exact h

theorem bind {program : Prog (Db M) β} {f : β → Prog (Db M) α}
    (h : Yields times t program fun value t' => Yields times t' (f value) R) :
    Yields times t (program >>= f) R := by
  intro db ht hticks
  rw [Prog.run_bind]
  exact h db ht hticks _ rfl
    (Prog.run_preserves Db.exec Db.exec_ticks program hticks)

theorem imp {program : Prog (Db M) α} {R' : α → Tables M → Prop}
    (h : Yields times t program R) (himp : ∀ value t', R value t' → R' value t') :
    Yields times t program R' :=
  fun db ht hticks => himp _ _ (h db ht hticks)

/-- A record that was found in a file is still there when a program has run. -/
theorem kept {ρ : Type} {file : Tables M → List ρ} {program : Prog (Db M) α} {i : Nat}
    (h : Yields times t program R) (hi : i < (file t).length)
    (hgrows : ∀ cmd (db : Database M),
      (file db.tables).length ≤ (file (Db.exec cmd db).2.tables).length) :
    Yields times t program fun value t' => i < (file t').length ∧ R value t' := by
  rintro db rfl hticks
  refine ⟨?_, h db rfl hticks⟩
  exact Prog.run_preserves (I := fun db : Database M => i < (file db.tables).length) Db.exec
    (fun cmd db hi => Nat.lt_of_lt_of_le hi (hgrows cmd db)) program hi

theorem call {cmd : Db.Cmd M} {f : Db.Ans M cmd → Prog (Db M) α}
    (h : ∀ db : Database M, db.tables = t → db.Ticks times →
      Yields times (Db.exec cmd db).2.tables (f (Db.exec cmd db).1) R) :
    Yields times t (Prog.call (S := Db M) cmd f) R :=
  fun db ht hticks => h db ht hticks _ rfl (Db.exec_ticks cmd db hticks)

/-! ## Looking -/

theorem readAccount {userId : Nat} {f : Option (AccountRec M) → Prog (Db M) α}
    (h : Yields times t (f (Table.lookup AccountRec.userId userId t.accounts)) R) :
    Yields times t (Db.readAccount userId >>= f) R := by
  refine call ?_
  rintro db rfl -
  exact h

theorem readUser {userId : Nat} {f : Option UserRec → Prog (Db M) α}
    (h : Yields times t (f (Table.lookup UserRec.userId userId t.users)) R) :
    Yields times t (Db.readUser userId >>= f) R := by
  refine call ?_
  rintro db rfl -
  exact h

theorem checkUniqueness {username email phone : Bytes} {currentUserId : Nat}
    {f : Option Bytes → Prog (Db M) α}
    (hclash : ¬ t.unique username email phone currentUserId →
      ∀ message, Yields times t (f (some message)) R)
    (hunique : t.unique username email phone currentUserId →
      Yields times t (f none) R) :
    Yields times t (Db.checkUniqueness username email phone currentUserId >>= f) R := by
  rw [Db.checkUniqueness_bind]
  refine call ?_
  rintro db rfl -
  simp only [Db.exec]
  cases hfirst : firstClash username email phone currentUserId db.userTable with
  | none => exact hunique hfirst
  | some field =>
      refine hclash (fun hunique => ?_) _
      have hnone : firstClash username email phone currentUserId db.userTable = none := hunique
      rw [hfirst] at hnone
      cases hnone

theorem scanUsers {f : Option (List UserRec) → Prog (Db M) α}
    (h : ∀ users, Yields times t (f users) R) :
    Yields times t (Db.scanUsers >>= f) R := by
  refine call ?_
  rintro db rfl -
  exact h _

theorem scanTransactions {f : Option (List (TxnRec M)) → Prog (Db M) α}
    (h : ∀ txns, Yields times t (f txns) R) :
    Yields times t (Db.scanTransactions >>= f) R := by
  refine call ?_
  rintro db rfl -
  exact h _

theorem scanLoans {f : Option (List (LoanRec M)) → Prog (Db M) α}
    (h : ∀ loans, Yields times t (f loans) R) :
    Yields times t (Db.scanLoans >>= f) R := by
  refine call ?_
  rintro db rfl -
  exact h _

theorem scanFeedback {f : Option (List FeedbackRec) → Prog (Db M) α}
    (h : ∀ feedback, Yields times t (f feedback) R) :
    Yields times t (Db.scanFeedback >>= f) R := by
  refine call ?_
  rintro db rfl -
  exact h _

theorem time {f : Time → Prog (Db M) α}
    (h : ∀ now, now ∈ times → Yields times t (f now) R) :
    Yields times t (Db.time >>= f) R := by
  refine call ?_
  rintro db rfl hticks
  exact h _ (hticks 0)

theorem generateNewUserId {f : Nat → Prog (Db M) α}
    (h : Yields times t (f t.nextUserId) R) :
    Yields times t (Db.generateNewUserId >>= f) R := by
  refine call ?_
  rintro db rfl -
  exact h

/-! ## Writing -/

theorem atomicUpdateAccount {userId : Nat} {modifier : AccountModifier M}
    {f : Bool → Prog (Db M) α}
    (hfail : t.updateAccount userId modifier = none → Yields times t (f false) R)
    (hdone : ∀ t', t.updateAccount userId modifier = some t' →
      Yields times t' (f true) R) :
    Yields times t (Db.atomicUpdateAccount userId modifier >>= f) R := by
  refine call ?_
  rintro db rfl -
  simp only [Db.exec]
  cases hmod : Table.modify AccountRec.userId userId modifier.apply db.accountTable with
  | none => exact hfail (Option.map_eq_none_iff.mpr hmod)
  | some accounts => exact hdone _ (Option.map_eq_some_iff.mpr ⟨accounts, hmod, rfl⟩)

theorem writeAccount {acc : AccountRec M} {f : Bool → Prog (Db M) α}
    (h : Yields times
      { t with accounts := Table.upsert AccountRec.userId acc t.accounts } (f true) R) :
    Yields times t (Db.writeAccount acc >>= f) R := by
  refine call ?_
  rintro db rfl -
  exact h

theorem writeUser {user : UserRec} {f : Bool → Prog (Db M) α}
    (h : Yields times
      { t with users := Table.upsert UserRec.userId user t.users } (f true) R) :
    Yields times t (Db.writeUser user >>= f) R := by
  refine call ?_
  rintro db rfl -
  exact h

theorem appendTransaction {fromAccount toAccount : Nat} {amount : M} {now : Time}
    {narration : Bytes} {f : Bool → Prog (Db M) α}
    (h : Yields times (t.log fromAccount toAccount amount now narration) (f true) R) :
    Yields times t (Db.appendTransaction
      ⟨0, fromAccount, toAccount, amount, now, narration⟩ >>= f) R := by
  refine call ?_
  rintro db rfl -
  exact h

theorem appendLoan {loan : LoanRec M} {f : Option Nat → Prog (Db M) α}
    (h : Yields times
      { t with loans := t.loans ++ [{ loan with loanId := t.loans.length + 1 }] }
      (f (some (t.loans.length + 1))) R) :
    Yields times t (Db.appendLoan loan >>= f) R := by
  refine call ?_
  rintro db rfl -
  exact h

theorem appendFeedback {fb : FeedbackRec} {f : Option Nat → Prog (Db M) α}
    (h : Yields times
      { t with feedback := t.feedback ++ [{ fb with fbId := t.feedback.length + 1 }] }
      (f (some (t.feedback.length + 1))) R) :
    Yields times t (Db.appendFeedback fb >>= f) R := by
  refine call ?_
  rintro db rfl -
  exact h

theorem markReviewed {f : Option (List FeedbackRec) → Prog (Db M) α}
    (hmissing : Yields times t (f none) R)
    (h : Yields times { t with feedback := t.feedback.map FeedbackRec.markReviewed }
      (f (some t.feedback)) R) :
    Yields times t (Db.markReviewed >>= f) R := by
  rw [Db.markReviewed_bind]
  refine call ?_
  rintro db rfl -
  cases hfile : db.feedback with
  | none =>
      have hexec : Db.exec .markReviewed db = (none, db) := by
        cases db
        subst hfile
        rfl
      rw [hexec]
      exact hmissing
  | some feedback =>
      have htable : db.tables.feedback = feedback := by
        simp [Database.tables, Database.feedbackTable, hfile]
      have hexec : Db.exec .markReviewed db =
          (some feedback,
            { db with feedback := some (feedback.map FeedbackRec.markReviewed) }) := by
        simp only [Db.exec, hfile, Option.map_some]
      rw [htable] at h
      rw [hexec]
      exact h

/-! ## The two record updates -/

theorem atomicUpdate {ρ : Type} (key : ρ → Nat) (file : Tables M → List ρ)
    (write : Tables M → Nat → ρ → Tables M) {k : Nat} {find : Prog (Db M) (Option Nat)}
    {lock : Nat → Prog (Db M) (Option ρ)} {commit : Nat → Option ρ → Prog (Db M) Bool}
    {modifier : ρ → Prog (Db M) (Option ρ × Bytes)} {respMsg : Bytes}
    {R : Reply → Tables M → Prop}
    (hfind : Yields times t find fun offset t' =>
      offset = Table.locate key k (file t) ∧ t' = t)
    (hlock : ∀ i, Yields times t (lock i) fun tmp t' => tmp = (file t)[i]? ∧ t' = t)
    (hcommit : ∀ t' i updated, i < (file t').length →
      Yields times t' (commit i updated) fun success t'' =>
        success = updated.isSome ∧ t'' = updated.elim t' (write t' i))
    (hgrows : ∀ cmd (db : Database M),
      (file db.tables).length ≤ (file (Db.exec cmd db).2.tables).length)
    (hmissing : Table.locate key k (file t) = none → R ⟨false, respMsg⟩ t)
    (hfound : ∀ i r, Table.locate key k (file t) = some i ∧ (file t)[i]? = some r →
      Yields times t (modifier r) fun out t' =>
        out.1.elim (R ⟨false, out.2⟩ t') fun r' => R ⟨true, out.2⟩ (write t' i r')) :
    Yields times t (Db.atomicUpdate find lock commit modifier respMsg) R := by
  refine bind (hfind.imp ?_)
  rintro offset t' ⟨hoffset, ht'⟩
  subst t'
  cases hloc : Table.locate key k (file t) with
  | none =>
      rw [hoffset, hloc]
      exact ret (hmissing hloc)
  | some i =>
      obtain ⟨r, hr, -⟩ := Table.getElem?_of_locate hloc
      have hi : i < (file t).length := (List.getElem?_eq_some_iff.mp hr).1
      rw [hoffset, hloc]
      refine bind ((hlock i).imp ?_)
      rintro tmp t' ⟨htmp, ht'⟩
      subst t'
      rw [htmp, hr]
      refine bind (((hfound i r ⟨hloc, hr⟩).kept hi hgrows).imp ?_)
      rintro ⟨updated, text⟩ t' ⟨hi', hout⟩
      refine bind ((hcommit t' i updated hi').imp ?_)
      rintro success t'' ⟨hsuccess, ht''⟩
      subst hsuccess ht''
      cases updated with
      | none => exact ret hout
      | some r' => exact ret hout

theorem atomicUpdateLoan {loanId : Nat} {respMsg : Bytes}
    {modifier : LoanRec M → Prog (Db M) (Option (LoanRec M) × Bytes)}
    {R : Reply → Tables M → Prop}
    (hmissing : Table.locate LoanRec.loanId loanId t.loans = none → R ⟨false, respMsg⟩ t)
    (hfound : ∀ i loan, t.loanAt loanId i loan →
      Yields times t (modifier loan) fun out t' =>
        match out.1 with
        | none => R ⟨false, out.2⟩ t'
        | some loan' => R ⟨true, out.2⟩ (t'.withLoan i loan')) :
    Yields times t (Db.atomicUpdateLoan loanId modifier respMsg) R := by
  refine atomicUpdate LoanRec.loanId Tables.loans Tables.withLoan ?_ ?_ ?_
    (fun _ db => Db.length_loanTable_le db) hmissing fun i loan hloan =>
      (hfound i loan hloan).imp ?_
  · rintro db rfl -
    exact ⟨rfl, rfl⟩
  · rintro i db rfl -
    exact ⟨rfl, rfl⟩
  · rintro t' i updated hi db rfl -
    cases updated with
    | none => exact ⟨rfl, rfl⟩
    | some loan => exact ⟨rfl, Db.tables_commitLoan loan hi⟩
  · rintro ⟨updated, text⟩ t' hout
    cases updated <;> exact hout

theorem atomicUpdateUser {userId : Nat} {respMsg : Bytes}
    {modifier : UserRec → Prog (Db M) (Option UserRec × Bytes)}
    {R : Reply → Tables M → Prop}
    (hmissing : Table.locate UserRec.userId userId t.users = none → R ⟨false, respMsg⟩ t)
    (hfound : ∀ i user, t.userAt userId i user →
      Yields times t (modifier user) fun out t' =>
        match out.1 with
        | none => R ⟨false, out.2⟩ t'
        | some user' => R ⟨true, out.2⟩ (t'.withUser i user')) :
    Yields times t (Db.atomicUpdateUser userId modifier respMsg) R := by
  refine atomicUpdate UserRec.userId Tables.users Tables.withUser ?_ ?_ ?_
    (fun _ db => Db.length_userTable_le db) hmissing fun i user huser =>
      (hfound i user huser).imp ?_
  · rintro db rfl -
    exact ⟨rfl, rfl⟩
  · rintro i db rfl -
    exact ⟨rfl, rfl⟩
  · rintro t' i updated hi db rfl -
    cases updated with
    | none => exact ⟨rfl, rfl⟩
    | some user => exact ⟨rfl, Db.tables_commitUser user hi⟩
  · rintro ⟨updated, text⟩ t' hout
    cases updated <;> exact hout

end Yields

end BankingSystem
