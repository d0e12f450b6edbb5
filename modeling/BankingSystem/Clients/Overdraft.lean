import BankingSystem.Clients.Interleaving
import Mathlib.Tactic.Linarith

/-!
# No overdraft, and frozen means frozen

Amounts are exact numbers.  What a money request may do to the accounts is said
by a protocol without memory: it never creates an account, and what it deposits
is positive.  The tests that matter are made by the modifiers, inside the step.
-/

namespace BankingSystem

open Foundation

def Request.movesMoney {M : Type} : Request M → Bool
  | .deposit _ _ | .withdraw _ _ | .transfer _ _ _ | .setAccountStatus _ _
  | .approveRejectLoan _ _ _ => true
  | _ => false

def moneyProtocol : Protocol (Db ℚ) Unit where
  allows _
    | .updateAccount _ (.deposit amount) => 0 < amount
    | .writeAccount _ => False
    | .appendLoan _ => False
    | .commitLoan _ (some loan) => 0 < loan.amount
    | _ => True
  answers _
    | .lockLoan _, answer => ∀ loan, answer = some loan → 0 < loan.amount
    | _, _ => True
  next _ _ _ := ()

structure Solvent (db : Database ℚ) : Prop where
  balances : ∀ acc ∈ db.accountTable, 0 ≤ acc.balance
  loans : ∀ loan ∈ db.loanTable, 0 < loan.amount

/-! ## The requests follow the protocol -/

abbrev FollowsMoney (program : Prog (Db ℚ) Reply) : Prop :=
  moneyProtocol.Follows (fun _ _ => True) () program

private theorem follows_depositMoney (userId : Nat) (amount : ℚ) :
    FollowsMoney (depositMoney userId amount) := by
  unfold depositMoney
  by_cases hpos : amount ≤ 0
  · rw [if_pos hpos]
    trivial
  · rw [if_neg hpos]
    refine Db.follows_bind (not_le.mp hpos) fun success _ => ?_
    cases success with
    | true =>
        refine Db.follows_bind trivial fun now _ => ?_
        exact Db.follows_bind trivial fun _ _ => trivial
    | false =>
        refine Db.follows_bind trivial fun acc _ => ?_
        split
        · split <;> trivial
        · trivial

private theorem follows_withdrawMoney (userId : Nat) (amount : ℚ) :
    FollowsMoney (withdrawMoney userId amount) := by
  unfold withdrawMoney
  by_cases hpos : amount ≤ 0
  · rw [if_pos hpos]
    trivial
  · rw [if_neg hpos]
    refine Db.follows_bind trivial fun success _ => ?_
    cases success with
    | true =>
        refine Db.follows_bind trivial fun now _ => ?_
        exact Db.follows_bind trivial fun _ _ => trivial
    | false => exact Db.follows_bind trivial fun acc _ => trivial

private theorem follows_transferFunds (fromId toId : Nat) (amount : ℚ) :
    FollowsMoney (transferFunds fromId toId amount) := by
  unfold transferFunds
  by_cases hne : fromId = toId
  · rw [if_pos hne]
    trivial
  by_cases hpos : amount ≤ 0
  · rw [if_neg hne, if_pos hpos]
    trivial
  · rw [if_neg hne, if_neg hpos]
    have hamount : 0 < amount := not_le.mp hpos
    refine Db.follows_bind trivial fun toAcc _ => ?_
    split
    · trivial
    · refine Db.follows_bind trivial fun withdrawn _ => ?_
      cases withdrawn with
      | false => exact Db.follows_bind trivial fun acc _ => trivial
      | true =>
          refine Db.follows_bind hamount fun deposited _ => ?_
          cases deposited with
          | false => exact Db.follows_bind hamount fun _ _ => trivial
          | true =>
              refine Db.follows_bind trivial fun now _ => ?_
              refine Db.follows_bind trivial fun _ _ => ?_
              exact Db.follows_bind trivial fun _ _ => trivial

private theorem follows_setAccountStatus (custId : Nat) (status : Int) :
    FollowsMoney (setAccountStatus custId status) := by
  refine Db.follows_bind trivial fun success _ => ?_
  cases success <;> trivial

private theorem follows_approveRejectLoanModifier (action : Bytes) (empId : Nat)
    (loan : LoanRec ℚ) (hloan : 0 < loan.amount) :
    moneyProtocol.Follows (fun _ out => ∀ loan', out.1 = some loan' → 0 < loan'.amount)
      () (approveRejectLoanModifier action empId loan) := by
  unfold approveRejectLoanModifier
  split
  · nofun
  · split
    · nofun
    · split
      · refine Db.follows_bind trivial fun custAcc _ => ?_
        split
        · nofun
        · refine Db.follows_bind hloan fun deposited _ => ?_
          cases deposited with
          | false => nofun
          | true =>
              refine Db.follows_bind trivial fun logged _ => ?_
              refine Db.follows_bind trivial fun _ _ => ?_
              refine Db.follows_bind trivial fun now _ => ?_
              rintro loan' ⟨⟩
              exact hloan
      · split
        · refine Db.follows_bind trivial fun now _ => ?_
          rintro loan' ⟨⟩
          exact hloan
        · nofun

private theorem follows_approveRejectLoan (loanId : Nat) (action : Bytes) (empId : Nat) :
    FollowsMoney (approveRejectLoan loanId action empId []) := by
  have hupdate : FollowsMoney
      (Db.atomicUpdateLoan loanId (approveRejectLoanModifier action empId) []) := by
    rw [Db.atomicUpdateLoan_eq]
    refine ⟨trivial, fun offset _ => ?_⟩
    cases offset with
    | none => trivial
    | some offset =>
        refine ⟨trivial, fun loan hloan => ?_⟩
        cases loan with
        | none => trivial
        | some loan =>
            refine (follows_approveRejectLoanModifier action empId loan
              (hloan loan rfl)).bind fun _ out hout => ?_
            refine ⟨?_, fun success _ => trivial⟩
            rcases out with ⟨_ | loan', respMsg⟩
            · trivial
            · exact hout loan' rfl
  refine hupdate.bind fun _ reply _ => ?_
  split <;> trivial

private theorem follows_movesMoney (env : Env) (request : Request ℚ)
    (hmoney : request.movesMoney = true) : FollowsMoney (request.program env) := by
  cases request with
  | deposit userId amount => exact follows_depositMoney userId amount
  | withdraw userId amount => exact follows_withdrawMoney userId amount
  | transfer fromId toId amount => exact follows_transferFunds fromId toId amount
  | setAccountStatus custId status => exact follows_setAccountStatus custId status
  | approveRejectLoan loanId action empId =>
      exact follows_approveRejectLoan loanId action empId
  | _ => cases hmoney

/-! ## The database keeps the promises -/

private theorem apply_nonneg {userId : Nat} {modifier : AccountModifier ℚ}
    {acc acc' : AccountRec ℚ} (hallow : moneyProtocol.allows () (.updateAccount userId modifier))
    (hacc : 0 ≤ acc.balance) (h : modifier.apply acc = some acc') : 0 ≤ acc'.balance := by
  cases modifier with
  | deposit amount =>
      obtain ⟨-, rfl⟩ := depositModifier_eq_some_iff.mp h
      have hpos : 0 < amount := hallow
      exact add_nonneg hacc hpos.le
  | withdraw amount =>
      obtain ⟨-, hlt, rfl⟩ := withdrawModifier_eq_some_iff.mp h
      exact sub_nonneg.mpr (not_lt.mp hlt)
  | setStatus status =>
      cases h
      exact hacc

private theorem solvent_balances {cmd : Db.Cmd ℚ} {db : Database ℚ}
    (hallow : moneyProtocol.allows () cmd) (h : Solvent db) :
    ∀ acc ∈ (Db.exec cmd db).2.accountTable, 0 ≤ acc.balance := by
  cases cmd with
  | updateAccount userId modifier =>
      rcases Db.exec_updateAccount userId modifier db with
        ⟨hexec, -⟩ | ⟨db', hexec, htables⟩
      · rw [hexec]
        exact h.balances
      · rw [hexec]
        obtain ⟨old, new, happly, hreplaced⟩ := Tables.updateAccount_replaced htables
        intro acc hmem
        rcases hreplaced.mem acc hmem with rfl | hold
        · exact apply_nonneg hallow
            (h.balances old (Table.lookup_mem hreplaced.before)) happly
        · exact h.balances acc hold
  | writeAccount acc => exact hallow.elim
  | _ => exact h.balances

private theorem solvent_loans {cmd : Db.Cmd ℚ} {db : Database ℚ}
    (hallow : moneyProtocol.allows () cmd) (h : Solvent db) :
    ∀ loan ∈ (Db.exec cmd db).2.loanTable, 0 < loan.amount := by
  by_cases hcommit : ∃ offset loan, cmd = .commitLoan offset (some loan)
  · obtain ⟨offset, loan', rfl⟩ := hcommit
    intro loan hmem
    rcases Table.mem_put hmem with rfl | hold
    · exact hallow
    · exact h.loans loan hold
  · rw [Db.exec_loanTable db ?_ fun offset loan hcmd => hcommit ⟨offset, loan, hcmd⟩]
    · exact h.loans
    · rintro loan rfl
      exact hallow

private theorem money_answers {cmd : Db.Cmd ℚ} {db : Database ℚ} (h : Solvent db) :
    moneyProtocol.answers () cmd (Db.exec cmd db).1 := by
  cases cmd with
  | lockLoan offset => exact fun loan hloan => h.loans loan (List.mem_of_getElem? hloan)
  | _ => trivial

private theorem money_sound {ι : Type} [DecidableEq ι] :
    Protocol.Sound (fun _ : ι => moneyProtocol) Db.shared (fun db _ => Solvent db)
      fun _ _ _ => True where
  step h _ hallow hexec := by
    obtain ⟨rfl, rfl⟩ := Db.shared_eq_some_iff.mp hexec
    exact ⟨money_answers h, solvent_balances hallow h, solvent_loans hallow h⟩

private theorem apply_inactive {modifier : AccountModifier ℚ} {acc acc' : AccountRec ℚ}
    (hinactive : acc.active = .inactive) (h : modifier.apply acc = some acc') :
    acc'.balance = acc.balance := by
  cases modifier with
  | deposit amount =>
      obtain ⟨hactive, -⟩ := depositModifier_eq_some_iff.mp h
      simp [hinactive] at hactive
  | withdraw amount =>
      obtain ⟨hactive, -⟩ := withdrawModifier_eq_some_iff.mp h
      simp [hinactive] at hactive
  | setStatus status =>
      cases h
      rfl

/--
Any number of clients send money requests, in any interleaving of their steps.
Then in every state no balance is negative, and the next step, whoever takes it,
leaves the balance of every inactive account as it is.
-/
theorem no_overdraft_and_frozen {ι : Type} [DecidableEq ι] (env : Env)
    (requests : ι → List (Request ℚ)) (db : Database ℚ)
    (hmoney : ∀ i, ∀ request ∈ requests i, request.movesMoney = true)
    (hbalances : ∀ acc ∈ db.accountTable, 0 ≤ acc.balance)
    (hloans : ∀ loan ∈ db.loanTable, 0 < loan.amount)
    (schedule : List ι) (pool : Pool (Db ℚ) (Database ℚ) ι (List Reply))
    (hrun : Pool.run Db.shared schedule
      ⟨db, fun i => Request.session env (requests i)⟩ = some pool) :
    (∀ acc ∈ pool.state.accountTable, 0 ≤ acc.balance) ∧
    ∀ i pool', pool.step Db.shared i = some pool' →
      ∀ (j : Nat) acc, pool.state.accountTable[j]? = some acc → acc.active = .inactive →
        ∃ acc', pool'.state.accountTable[j]? = some acc' ∧
          acc'.userId = acc.userId ∧ acc'.balance = acc.balance := by
  have hinit : Protocol.Explains (fun _ : ι => moneyProtocol) (fun db _ => Solvent db)
      (fun _ _ _ => True) ⟨db, fun i => Request.session env (requests i)⟩ fun _ => () :=
    ⟨⟨hbalances, hloans⟩, fun i => Request.session_follows env (requests i)
      fun request hmem => follows_movesMoney env request (hmoney i request hmem)⟩
  obtain ⟨g, hsolvent, hfollows⟩ := money_sound.run hinit
    (Pool.along_of_always (fun _ _ _ _ _ => trivial) schedule _) hrun
  refine ⟨hsolvent.balances, fun i pool' hstep j acc hacc hinactive => ?_⟩
  obtain ⟨cmd, next, answer, db', hthread, hexec, rfl⟩ := Pool.step_eq_some_iff.mp hstep
  obtain ⟨rfl, rfl⟩ := Db.shared_eq_some_iff.mp hexec
  have hallow := hfollows i
  rw [hthread] at hallow
  have hwrite : ∀ acc, cmd ≠ .writeAccount acc := by
    rintro acc rfl
    exact hallow.1
  obtain ⟨acc', hacc', hsame | ⟨modifier, -, happly⟩⟩ := Db.exec_account hwrite hacc
  · exact ⟨acc', hacc', by rw [hsame], by rw [hsame]⟩
  · exact ⟨acc', hacc', AccountModifier.apply_userId happly, apply_inactive hinactive happly⟩

/-- A deposit is under way when a manager freezes the account. -/
theorem no_overdraft_and_frozen_two_clients :
    ∃ pool, Pool.run Db.shared [0, 1, 0]
        ⟨Database.ofAccounts [⟨1001, 1001, 5, .active⟩] fun _ => 1, fun i : Fin 2 =>
          Request.session .plain
            (if i = 0 then [.deposit 1001 3] else [.setAccountStatus 1001 0])⟩ =
        some pool ∧
      ∀ acc ∈ pool.state.accountTable, (0 : ℚ) ≤ acc.balance := by
  obtain ⟨pool, hrun⟩ := Option.isSome_iff_exists.mp
    (by decide +kernel : (Pool.run Db.shared [0, 1, 0]
      ⟨Database.ofAccounts [⟨1001, 1001, (5 : ℚ), .active⟩] fun _ => 1, fun i : Fin 2 =>
        Request.session .plain
          (if i = 0 then [.deposit 1001 3] else [.setAccountStatus 1001 0])⟩).isSome)
  have hsafe := no_overdraft_and_frozen .plain
    (fun i : Fin 2 => if i = 0 then [.deposit 1001 3] else [.setAccountStatus 1001 0])
    _ (by decide) (by decide +kernel) (by decide) _ pool hrun
  exact ⟨pool, hrun, hsafe.1⟩

end BankingSystem
