import Mathlib.Data.List.Induction
import BankingSystem.Requests.WellFormed

/-!
# Amounts that are not numbers

The guards on amounts are negative tests, and a comparison with `nan` is always
false.  `Harmless` says, for one request and the tables it meets, that no special
value gets through; a run keeps every balance and every record finite exactly
when each of its requests is harmless.
-/

namespace BankingSystem

open Foundation Tables

/-! ## Requests that are accepted -/

section Accepted

variable {M : Type} [Amount M] {times : Set Time} {t t₁ t₂ : Tables M}
  {userId fromId toId : Nat} {amount : M}

private theorem depositMoney_accepted (hpos : ¬ amount ≤ 0)
    (h : t.updateAccount userId (.deposit amount) = some t₁) :
    Yields times t (depositMoney userId amount) fun reply _ => reply.result = true := by
  unfold depositMoney
  rw [if_neg hpos]
  refine .atomicUpdateAccount (fun hnone => ?_) fun t' haccount => ?_
  · rw [h] at hnone
    cases hnone
  · exact .time fun now hnow => .appendTransaction (.ret rfl)

private theorem withdrawMoney_accepted (hpos : ¬ amount ≤ 0)
    (h : t.updateAccount userId (.withdraw amount) = some t₁) :
    Yields times t (withdrawMoney userId amount) fun reply _ => reply.result = true := by
  unfold withdrawMoney
  rw [if_neg hpos]
  refine .atomicUpdateAccount (fun hnone => ?_) fun t' haccount => ?_
  · rw [h] at hnone
    cases hnone
  · exact .time fun now hnow => .appendTransaction (.ret rfl)

private theorem transferFunds_accepted (hne : fromId ≠ toId) (hpos : ¬ amount ≤ 0)
    (hto : t.hasActive toId) (hfrom : t.updateAccount fromId (.withdraw amount) = some t₁)
    (hdeposit : t₁.updateAccount toId (.deposit amount) = some t₂) :
    Yields times t (transferFunds fromId toId amount) fun reply _ =>
      reply.result = true := by
  unfold transferFunds
  rw [if_neg hne, if_neg hpos]
  refine .readAccount ?_
  obtain ⟨acc, hacc, hactive⟩ := hto
  simp only [hacc, Option.all_some, hactive, reduceCtorEq, decide_false,
    Bool.false_eq_true, if_false]
  refine .atomicUpdateAccount (fun hnone => ?_) fun t' hout => ?_
  · rw [hfrom] at hnone
    cases hnone
  · rw [hfrom] at hout
    cases hout
    refine .atomicUpdateAccount (fun hnone => ?_) fun t' hin => ?_
    · rw [hdeposit] at hnone
      cases hnone
    · exact .time fun now hnow => .appendTransaction (.appendTransaction (.ret rfl))

private theorem applyLoan_accepted (hpos : ¬ amount ≤ 0) :
    Yields times t (applyLoan userId amount) fun reply _ => reply.result = true := by
  unfold applyLoan
  rw [if_neg hpos]
  exact .time fun now hnow => .appendLoan (.ret rfl)

end Accepted

/-! ## Harmless requests -/

variable {env : Env} {times : Set Time} {t t' : Tables Double}

/-- Every balance is a number and not negative, every recorded amount is a number. -/
structure Unpoisoned (t : Tables Double) : Prop where
  balances : ∀ acc ∈ t.accounts, ∃ q : ℚ, 0 ≤ q ∧ acc.balance = .fin q
  loans : ∀ loan ∈ t.loans, loan.amount.IsFinite
  transactions : ∀ tx ∈ t.transactions, tx.amount.IsFinite

def Harmless (t : Tables Double) : Request Double → Prop
  | .deposit userId amount =>
      amount.IsFinite ∨ amount = .negInf ∨ ¬ t.hasActive userId
  | .withdraw userId amount => amount ≠ .nan ∨ ¬ t.hasActive userId
  | .transfer fromId toId amount =>
      amount ≠ .nan ∨ fromId = toId ∨ ¬ t.hasActive fromId ∨ ¬ t.hasActive toId
  | .applyLoan _ amount => amount.IsFinite ∨ amount = .negInf
  | _ => True

private theorem not_le_zero_iff {amount : Double} :
    ¬ amount ≤ 0 ↔ amount = .nan ∨ amount = .posInf ∨ ∃ q : ℚ, 0 < q ∧ amount = .fin q := by
  cases amount with
  | fin q => simp [Double.zero_def]
  | posInf => simpa [Double.zero_def] using (by decide : ¬ Double.posInf ≤ .fin 0)
  | negInf => simpa [Double.zero_def] using (by decide : Double.negInf ≤ .fin 0)
  | nan => simpa [Double.zero_def] using (by decide : ¬ Double.nan ≤ .fin 0)

private theorem positive_of_guard {amount : Double} (hpos : ¬ amount ≤ 0) (hnan : amount ≠ .nan)
    (hinf : amount ≠ .posInf) : ∃ q : ℚ, 0 < q ∧ amount = .fin q := by
  rcases not_le_zero_iff.mp hpos with h | h | h
  · exact absurd h hnan
  · exact absurd h hinf
  · exact h

/-- `Unpoisoned`, and what a loan pays out later is a positive number. -/
structure PoisonFree (t : Tables Double) : Prop extends Unpoisoned t where
  positive : ∀ loan ∈ t.loans, ∃ q : ℚ, 0 < q ∧ loan.amount = .fin q

namespace PoisonFree

theorem empty (clock : Nat → Time) : PoisonFree (Database.empty clock).tables :=
  ⟨⟨nofun, nofun, nofun⟩, nofun⟩

theorem log {fromAccount toAccount : Nat} {amount : Double} {now : Time}
    {narration : Bytes} (h : PoisonFree t) (hamount : amount.IsFinite) :
    PoisonFree (t.log fromAccount toAccount amount now narration) := by
  refine ⟨⟨h.balances, h.loans, fun tx hmem => ?_⟩, h.positive⟩
  rcases List.mem_append.mp hmem with hold | hnew
  · exact h.transactions tx hold
  · rw [List.mem_singleton.mp hnew]
    exact hamount

theorem updated {userId : Nat} {modifier : AccountModifier Double} (h : PoisonFree t)
    (hbalance : ∀ acc acc' q, acc.balance = .fin q → 0 ≤ q →
      modifier.apply acc = some acc' → ∃ q' : ℚ, 0 ≤ q' ∧ acc'.balance = .fin q')
    (haccount : t.updateAccount userId modifier = some t') : PoisonFree t' := by
  obtain ⟨acc, acc', happly, hreplaced⟩ := updateAccount_replaced haccount
  obtain ⟨q, hq, hacc⟩ := h.balances acc (Table.lookup_mem hreplaced.before)
  rw [hreplaced.frame]
  refine ⟨⟨fun a hmem => ?_, h.loans, h.transactions⟩, h.positive⟩
  rcases hreplaced.mem a hmem with rfl | hold
  · exact hbalance acc a q hacc hq happly
  · exact h.balances a hold

theorem deposited {userId : Nat} {amount : ℚ} (h : PoisonFree t) (hpos : 0 < amount)
    (haccount : t.updateAccount userId (.deposit (.fin amount)) = some t') :
    PoisonFree t' := by
  refine h.updated (fun acc acc' q hacc hq happly => ?_) haccount
  obtain ⟨-, rfl⟩ := depositModifier_eq_some_iff.mp happly
  refine ⟨q + amount, by linarith, ?_⟩
  simp [hacc]

theorem withdrawn {userId : Nat} {amount : ℚ} (h : PoisonFree t)
    (haccount : t.updateAccount userId (.withdraw (.fin amount)) = some t') :
    PoisonFree t' := by
  refine h.updated (fun acc acc' q hacc hq happly => ?_) haccount
  obtain ⟨-, hlt, rfl⟩ := withdrawModifier_eq_some_iff.mp happly
  rw [hacc, Double.fin_lt_fin, not_lt] at hlt
  refine ⟨q - amount, by linarith, ?_⟩
  simp [hacc]

private theorem withdraw_ne_posInf {userId : Nat} {amount : Double} (h : PoisonFree t)
    (haccount : t.updateAccount userId (.withdraw amount) = some t') :
    amount ≠ .posInf := by
  rintro rfl
  obtain ⟨acc, acc', happly, hreplaced⟩ := updateAccount_replaced haccount
  obtain ⟨q, -, hacc⟩ := h.balances acc (Table.lookup_mem hreplaced.before)
  obtain ⟨-, hlt, -⟩ := withdrawModifier_eq_some_iff.mp happly
  exact hlt (hacc ▸ (rfl : Double.lt (.fin q) .posInf = true))

theorem withLoan {i : Nat} {loan loan' : LoanRec Double} (h : PoisonFree t)
    (hloan : t.loans[i]? = some loan) (hamount : loan'.amount = loan.amount) :
    PoisonFree (t.withLoan i loan') := by
  have hmem := List.mem_of_getElem? hloan
  refine ⟨⟨h.balances, fun l hl => ?_, h.transactions⟩, fun l hl => ?_⟩
  · rcases Table.mem_set hl with rfl | hold
    · exact hamount ▸ h.loans loan hmem
    · exact h.loans l hold
  · rcases Table.mem_set hl with rfl | hold
    · exact hamount ▸ h.positive loan hmem
    · exact h.positive l hold

theorem addCustomer {users : List UserRec} {acc : AccountRec Double} (h : PoisonFree t)
    (hacc : acc.balance = 0) :
    PoisonFree { t with users
                        accounts := Table.upsert AccountRec.userId acc t.accounts } := by
  refine ⟨⟨fun a hmem => ?_, h.loans, h.transactions⟩, h.positive⟩
  rcases Table.mem_upsert hmem with rfl | hold
  · exact ⟨0, le_refl 0, hacc⟩
  · exact h.balances a hold

theorem step {request : Request Double} {result : Bool}
    (hstep : Step env times t request result t') (hharmless : Harmless t request)
    (h : PoisonFree t) : PoisonFree t' := by
  cases hstep with
  | @deposited userId amount now t' hpos _ haccount =>
      have hactive : t.hasActive userId := hasActive_of_deposit haccount
      obtain ⟨q, hq, rfl⟩ : ∃ q : ℚ, 0 < q ∧ amount = .fin q := by
        rcases hharmless with hfin | rfl | hinactive
        · exact positive_of_guard hpos (by rintro rfl; exact hfin) (by rintro rfl; exact hfin)
        · simpa using not_le_zero_iff.mp hpos
        · exact absurd hactive hinactive
      exact (h.deposited hq haccount).log trivial
  | @withdrew userId amount now t' hpos _ haccount =>
      have hactive : t.hasActive userId := hasActive_of_withdraw haccount
      have hnan : amount ≠ .nan := hharmless.resolve_right (not_not_intro hactive)
      obtain ⟨q, -, rfl⟩ := positive_of_guard hpos hnan (h.withdraw_ne_posInf haccount)
      exact (h.withdrawn haccount).log trivial
  | @transferred fromId toId amount now t₁ t₂ hne hpos _ hfrom hto =>
      have hactive : t.hasActive fromId := hasActive_of_withdraw hfrom
      have hactive' : t.hasActive toId := by
        obtain ⟨acc, hacc, hact⟩ := hasActive_of_deposit hto
        obtain ⟨_, _, -, hout⟩ := updateAccount_replaced hfrom
        exact ⟨acc, (hout.others toId (Ne.symm hne)).symm.trans hacc, hact⟩
      have hnan : amount ≠ .nan := by
        rcases hharmless with h | h | h | h
        · exact h
        · exact absurd h hne
        · exact absurd hactive h
        · exact absurd hactive' h
      obtain ⟨q, hq, rfl⟩ := positive_of_guard hpos hnan (h.withdraw_ne_posInf hfrom)
      have hpaid := (h.withdrawn hfrom).deposited hq hto
      exact (hpaid.log (Double.isFinite_fin q)).log (Double.isFinite_fin q)
  | @loanApplied userId amount now hpos =>
      obtain ⟨q, hq, rfl⟩ : ∃ q : ℚ, 0 < q ∧ amount = .fin q := by
        rcases hharmless with hfin | rfl
        · exact positive_of_guard hpos (by rintro rfl; exact hfin) (by rintro rfl; exact hfin)
        · simpa using not_le_zero_iff.mp hpos
      refine ⟨⟨h.balances, fun loan hmem => ?_, h.transactions⟩, fun loan hmem => ?_⟩
      · rcases List.mem_append.mp hmem with hold | hnew
        · exact h.loans loan hold
        · rw [List.mem_singleton.mp hnew]
          exact trivial
      · rcases List.mem_append.mp hmem with hold | hnew
        · exact h.positive loan hold
        · exact ⟨q, hq, by rw [List.mem_singleton.mp hnew]⟩
  | loanAssigned hloan => exact h.withLoan hloan.2 rfl
  | @loanApproved _ _ i loan logged now t' hloan _ _ _ _ haccount =>
      obtain ⟨q, hq, hamount⟩ := h.positive loan (List.mem_of_getElem? hloan.2)
      have hdeposited := h.deposited hq (hamount ▸ haccount)
      have hloan' : t'.loans[i]? = some loan := updateAccount_loans haccount ▸ hloan.2
      exact (hdeposited.log (hamount ▸ trivial)).withLoan hloan' rfl
  | loanRejected hloan => exact h.withLoan hloan.2 rfl
  | statusSet haccount =>
      refine h.updated (fun acc acc' q hacc hq happly => ?_) haccount
      cases happly
      exact ⟨q, hq, hacc⟩
  | customerAdded => exact h.addCustomer rfl
  | _ => exact ⟨⟨h.balances, h.loans, h.transactions⟩, h.positive⟩

end PoisonFree

/-! ## Harmful requests -/

private theorem poisoned_of_log {fromAccount toAccount : Nat} {amount : Double} {now : Time}
    {narration : Bytes} (hamount : ¬ amount.IsFinite) :
    ¬ Unpoisoned (t.log fromAccount toAccount amount now narration) :=
  fun h => hamount (h.transactions _ (List.mem_append_right _ (List.mem_singleton_self _)))

private theorem poisoned_of_accepted {request : Request Double}
    (hstep : Step env times t request true t') (hharm : ¬ Harmless t request) :
    ¬ Unpoisoned t' := by
  cases hstep with
  | looked hread => cases request <;> first | exact absurd trivial hharm | cases hread
  | deposited => exact poisoned_of_log fun hfin => hharm (.inl hfin)
  | withdrew =>
      refine poisoned_of_log fun hfin => hharm (.inl ?_)
      rintro rfl
      exact hfin
  | transferred =>
      refine poisoned_of_log fun hfin => hharm (.inl ?_)
      rintro rfl
      exact hfin
  | loanApplied =>
      refine fun h => hharm (.inl ?_)
      exact h.loans _ (List.mem_append_right _ (List.mem_singleton_self _))
  | _ => exact absurd trivial hharm

private theorem withdraw_nan_of_hasActive {userId : Nat} (h : t.hasActive userId) :
    ∃ t', t.updateAccount userId (.withdraw .nan) = some t' := by
  obtain ⟨acc, hacc, hactive⟩ := h
  have hlt : ¬ acc.balance < .nan := by
    change ¬ Double.lt acc.balance .nan = true
    cases acc.balance <;> simp [Double.lt]
  exact updateAccount_of_apply hacc (withdrawModifier_eq_some_iff.mpr ⟨hactive, hlt, rfl⟩)

private theorem harmful_accepted {request : Request Double} (hharm : ¬ Harmless t request) :
    Yields times t (request.program env) fun reply _ => reply.result = true := by
  have hguard : ∀ {amount : Double}, ¬ amount.IsFinite → amount ≠ .negInf → ¬ amount ≤ 0 := by
    intro amount hfin hneg
    rw [not_le_zero_iff]
    cases amount with
    | fin q => exact absurd trivial hfin
    | posInf => exact .inr (.inl rfl)
    | negInf => exact absurd rfl hneg
    | nan => exact .inl rfl
  cases request with
  | deposit userId amount =>
      simp only [Harmless, not_or, not_not] at hharm
      obtain ⟨t', haccount⟩ := deposit_of_hasActive amount hharm.2.2
      exact depositMoney_accepted (hguard hharm.1 hharm.2.1) haccount
  | withdraw userId amount =>
      simp only [Harmless, not_or, not_not] at hharm
      obtain ⟨rfl, hactive⟩ := hharm
      obtain ⟨t', haccount⟩ := withdraw_nan_of_hasActive hactive
      exact withdrawMoney_accepted (hguard id (by simp)) haccount
  | transfer fromId toId amount =>
      simp only [Harmless, not_or, not_not] at hharm
      obtain ⟨rfl, hne, hfrom, hto⟩ := hharm
      obtain ⟨t₁, hout⟩ := withdraw_nan_of_hasActive hfrom
      obtain ⟨_, _, -, hreplaced⟩ := updateAccount_replaced hout
      have hto' : t₁.hasActive toId := by
        obtain ⟨acc, hacc, hactive⟩ := hto
        exact ⟨acc, (hreplaced.others toId (Ne.symm hne)).trans hacc, hactive⟩
      obtain ⟨t₂, hin⟩ := deposit_of_hasActive .nan hto'
      exact transferFunds_accepted hne (hguard id (by simp)) hto hout hin
  | applyLoan userId amount =>
      simp only [Harmless, not_or] at hharm
      exact applyLoan_accepted (hguard hharm.1 hharm.2)
  | _ => exact absurd trivial hharm

/-! ## Runs -/

private theorem handle_unpoisoned_iff (env : Env) (request : Request Double)
    {db : Database Double} (h : PoisonFree db.tables) :
    Unpoisoned (request.handle env db).2.tables ↔ Harmless db.tables request := by
  have hticks : db.Ticks Set.univ := fun _ => trivial
  have hstep := Request.handle_step env request hticks
  constructor
  · intro hunp
    by_contra hharm
    have haccepted : (request.handle env db).1.result = true :=
      harmful_accepted hharm db rfl hticks
    rw [haccepted] at hstep
    exact poisoned_of_accepted hstep hharm hunp
  · exact fun hharm => (PoisonFree.step hstep hharm h).toUnpoisoned

private theorem serve_poisonFree (env : Env) (clock : Nat → Time)
    (requests : List (Request Double))
    (h : ∀ first request rest, requests = first ++ request :: rest →
      Harmless (Request.serve env first (Database.empty clock)).tables request) :
    PoisonFree (Request.serve env requests (Database.empty clock)).tables := by
  induction requests using List.reverseRecOn with
  | nil => exact PoisonFree.empty clock
  | append_singleton requests request ih =>
      have hbefore := ih fun first next rest hsplit =>
        h first next (rest ++ [request]) (by simp [hsplit])
      have hharm := h requests request [] rfl
      rw [Request.serve_append]
      have hticks : (Request.serve env requests (Database.empty clock)).Ticks Set.univ :=
        fun _ => trivial
      exact PoisonFree.step (Request.handle_step env request hticks) hharm hbefore

/--
A run of requests from empty databases reaches only states without special values
exactly when each request is harmless for the tables it meets.
-/
theorem run_unpoisoned_iff (env : Env) (clock : Nat → Time)
    (requests : List (Request Double)) :
    (∀ first rest, requests = first ++ rest →
      Unpoisoned (Request.serve env first (Database.empty clock)).tables) ↔
    ∀ first request rest, requests = first ++ request :: rest →
      Harmless (Request.serve env first (Database.empty clock)).tables request := by
  constructor
  · intro hgood
    induction requests using List.reverseRecOn with
    | nil => simp
    | append_singleton requests last ih =>
        have hbefore := ih fun first rest hsplit =>
          hgood first (rest ++ [last]) (by simp [hsplit])
        have hfree := serve_poisonFree env clock requests hbefore
        have hlast := hgood (requests ++ [last]) [] (by simp)
        rw [Request.serve_append] at hlast
        intro first request rest hsplit
        rcases List.eq_nil_or_concat rest with rfl | ⟨rest, final, rfl⟩
        · obtain ⟨rfl, hrequest⟩ := List.append_inj' hsplit rfl
          cases hrequest
          exact (handle_unpoisoned_iff env last hfree).mp hlast
        · refine hbefore first request rest ?_
          rw [List.concat_eq_append, ← List.cons_append, ← List.append_assoc] at hsplit
          exact (List.append_inj' hsplit rfl).1
  · intro hharm first rest hsplit
    refine (serve_poisonFree env clock first fun before request after hbefore =>
      ?_).toUnpoisoned
    exact hharm before request (after ++ rest) (by simp [hsplit, hbefore])

/-- A customer deposits `nan`: the guard lets it through and the balance is `nan`. -/
theorem deposit_nan_poisons :
    ¬ ∀ requests : List (Request Double), Unpoisoned
      (Request.serve .plain requests (Database.empty fun _ => 1)).tables := by
  intro h
  have hrun := (h [.addCustomer .zero (str "ann") (str "pw"), .deposit 1001 .nan]).transactions
    ⟨1, 0, 1001, .nan, 1, str "deposit"⟩ (by decide +kernel)
  exact hrun

end BankingSystem
