import BankingSystem.Foundation.Trace
import BankingSystem.Clients.Interleaving
import BankingSystem.Requests.Balance
import Mathlib.Data.Fin.VecNotation

/-!
# A transfer among other clients

A transfer is four helper calls with a compensating deposit whose result is
ignored.  What it does to the two balances is read off its own actions, whatever
the other clients do between them.
-/

namespace BankingSystem

open Foundation Tables

variable {ι : Type} {t : ι} {userId : Nat}

def netEffect (userId : Nat) (own : List (Action (Db ℚ) (Database ℚ))) : ℚ :=
  (own.map fun action =>
    action.after.tables.balanceOf userId - action.before.tables.balanceOf userId).sum

def AllOrNothing (fromId toId : Nat) (amount : ℚ) (result : Bool)
    (own : List (Action (Db ℚ) (Database ℚ))) : Prop :=
  (result = true → netEffect fromId own = -amount ∧ netEffect toId own = amount) ∧
    (result = false → netEffect fromId own = 0 ∧ netEffect toId own = 0)

/-- Whenever the compensating deposit is made, the sender's account is active. -/
def RollbackAccepted (fromId : Nat) (amount : ℚ)
    (own : List (Action (Db ℚ) (Database ℚ))) : Prop :=
  ∀ action ∈ own, action.cmd = .updateAccount fromId (.deposit amount) →
    action.before.tables.hasActive fromId

/-! ## The actions of a helper call -/

def Db.act {M : Type} [Amount M] (cmd : Db.Cmd M) (db : Database M) :
    Action (Db M) (Database M) :=
  ⟨db, cmd, (Db.exec cmd db).1, (Db.exec cmd db).2⟩

private theorem traces_bind {M β : Type} [Amount M] {cmd : Db.Cmd M}
    {f : Db.Ans M cmd → Prog (Db M) β} {own : List (Action (Db M) (Database M))} {value : β}
    (h : (Db.issue cmd >>= f).Traces (Db.shared t) own value) :
    ∃ db rest, own = Db.act cmd db :: rest ∧
      (f (Db.exec cmd db).1).Traces (Db.shared t) rest value := by
  obtain ⟨db, answer, db', rest, rfl, hexec, hrest⟩ := h
  obtain ⟨rfl, rfl⟩ := Db.shared_eq_some_iff.mp hexec
  exact ⟨db, rest, rfl, hrest⟩

section Effect

variable {cmd : Db.Cmd ℚ} {db : Database ℚ} {rest : List (Action (Db ℚ) (Database ℚ))}

@[simp] theorem netEffect_nil : netEffect userId [] = 0 := rfl

theorem netEffect_act :
    netEffect userId (Db.act cmd db :: rest) =
      (Db.exec cmd db).2.tables.balanceOf userId - db.tables.balanceOf userId +
        netEffect userId rest := by
  simp [netEffect, Db.act]

private theorem netEffect_quiet (hupdate : ∀ userId modifier, cmd ≠ .updateAccount userId modifier)
    (hwrite : ∀ acc, cmd ≠ .writeAccount acc) :
    netEffect userId (Db.act cmd db :: rest) = netEffect userId rest := by
  have hsame : (Db.exec cmd db).2.tables.balanceOf userId = db.tables.balanceOf userId :=
    congrArg (fun accounts => (Table.lookup AccountRec.userId userId accounts).elim 0 _)
      (Db.exec_accountTable db hupdate hwrite)
  rw [netEffect_act, hsame, sub_self, zero_add]

private theorem netEffect_update (user : Nat) (modifier : AccountModifier ℚ) (db : Database ℚ)
    (rest : List (Action (Db ℚ) (Database ℚ))) :
    ((Db.exec (.updateAccount user modifier) db).1 = false ∧
      db.tables.updateAccount user modifier = none ∧
      ∀ u, netEffect u (Db.act (.updateAccount user modifier) db :: rest) =
        netEffect u rest) ∨
    ((Db.exec (.updateAccount user modifier) db).1 = true ∧
      ∃ t', db.tables.updateAccount user modifier = some t' ∧
      ∀ u, netEffect u (Db.act (.updateAccount user modifier) db :: rest) =
        t'.balanceOf u - db.tables.balanceOf u + netEffect u rest) := by
  rcases Db.exec_updateAccount user modifier db with ⟨hexec, hnone⟩ | ⟨db', hexec, hsome⟩
  · refine .inl ⟨by rw [hexec], hnone, fun u => ?_⟩
    rw [netEffect_act, hexec, sub_self, zero_add]
  · refine .inr ⟨by rw [hexec], db'.tables, hsome, fun u => ?_⟩
    rw [netEffect_act, hexec]

end Effect

/-! ## The paths through a transfer -/

private theorem allOrNothing_of_refused {fromId toId : Nat} {amount : ℚ} {result : Bool}
    {own : List (Action (Db ℚ) (Database ℚ))} (hresult : result = false)
    (heffect : ∀ u, netEffect u own = 0)
    (hrollback : RollbackAccepted fromId amount own) :
    AllOrNothing fromId toId amount result own ↔ RollbackAccepted fromId amount own := by
  subst hresult
  exact ⟨fun _ => hrollback, fun _ => ⟨nofun, fun _ => ⟨heffect fromId, heffect toId⟩⟩⟩

private theorem balanceOf_withdraw_sub {t₁ t₂ : Tables ℚ} {fromId : Nat} {amount : ℚ}
    (h : t₁.updateAccount fromId (.withdraw amount) = some t₂) (u : Nat) :
    t₂.balanceOf u - t₁.balanceOf u = if fromId = u then -amount else 0 := by
  rw [balanceOf_withdraw h, add_sub_cancel_left]

private theorem balanceOf_deposit_sub {t₁ t₂ : Tables ℚ} {toId : Nat} {amount : ℚ}
    (h : t₁.updateAccount toId (.deposit amount) = some t₂) (u : Nat) :
    t₂.balanceOf u - t₁.balanceOf u = if toId = u then amount else 0 := by
  rw [balanceOf_deposit h, add_sub_cancel_left]

private theorem transferFunds_traces {fromId toId : Nat} {amount : ℚ}
    {own : List (Action (Db ℚ) (Database ℚ))} {reply : Reply}
    (h : (transferFunds fromId toId amount).Traces (Db.shared t) own reply) :
    AllOrNothing fromId toId amount reply.result own ↔
      RollbackAccepted fromId amount own := by
  unfold transferFunds at h
  by_cases hne : fromId = toId
  · rw [if_pos hne] at h
    obtain ⟨rfl, rfl⟩ := h
    refine allOrNothing_of_refused rfl (fun _ => netEffect_nil) ?_
    simp [RollbackAccepted]
  by_cases hpos : amount ≤ 0
  · rw [if_neg hne, if_pos hpos] at h
    obtain ⟨rfl, rfl⟩ := h
    refine allOrNothing_of_refused rfl (fun _ => netEffect_nil) ?_
    simp [RollbackAccepted]
  rw [if_neg hne, if_neg hpos] at h
  obtain ⟨db₁, rest₁, rfl, h₁⟩ := traces_bind h
  have hread : ∀ u, netEffect u (Db.act (.readAccount toId) db₁ :: rest₁) =
      netEffect u rest₁ := fun u => netEffect_quiet nofun nofun
  split at h₁
  · obtain ⟨rfl, rfl⟩ := h₁
    exact allOrNothing_of_refused rfl hread (by simp [RollbackAccepted, Db.act])
  obtain ⟨db₂, rest₂, rfl, h₂⟩ := traces_bind h₁
  rcases netEffect_update fromId (.withdraw amount) db₂ rest₂ with
    ⟨hanswer, -, hout⟩ | ⟨hanswer, t₂, hwithdraw, hout⟩
  · rw [hanswer] at h₂
    obtain ⟨db₃, rest₃, rfl, h₃⟩ := traces_bind h₂
    obtain ⟨rfl, rfl⟩ := h₃
    refine allOrNothing_of_refused rfl (fun u => ?_) (by simp [RollbackAccepted, Db.act])
    exact (hread u).trans ((hout u).trans (netEffect_quiet nofun nofun))
  rw [hanswer] at h₂
  obtain ⟨db₃, rest₃, rfl, h₃⟩ := traces_bind h₂
  rcases netEffect_update toId (.deposit amount) db₃ rest₃ with
    ⟨hanswer', -, hin⟩ | ⟨hanswer', t₃, hdeposit, hin⟩
  · rw [hanswer'] at h₃
    obtain ⟨db₄, rest₄, rfl, h₄⟩ := traces_bind h₃
    obtain ⟨rfl, rfl⟩ := h₄
    rcases netEffect_update fromId (.deposit amount) db₄ [] with
      ⟨-, hnone, hback⟩ | ⟨-, t₄, hsome, hback⟩
    · -- the rollback is refused: the amount has left the sender for good
      have hlost := (hread fromId).trans ((hout fromId).trans
        (congrArg _ ((hin fromId).trans (hback fromId))))
      rw [balanceOf_withdraw_sub hwithdraw, if_pos rfl, netEffect_nil, add_zero] at hlost
      constructor
      · intro hnothing
        have hzero := hlost.symm.trans (hnothing.2 rfl).1
        exact absurd (neg_eq_zero.mp hzero).le hpos
      · intro haccepted
        obtain ⟨t₄, hsome⟩ := deposit_of_hasActive amount
          (haccepted (Db.act (.updateAccount fromId (.deposit amount)) db₄) (by simp) rfl)
        rw [Db.act, hnone] at hsome
        cases hsome
    · refine allOrNothing_of_refused rfl (fun u => ?_) ?_
      · refine (hread u).trans ((hout u).trans ?_)
        rw [hin, hback, balanceOf_withdraw_sub hwithdraw, balanceOf_deposit_sub hsome,
          netEffect_nil, add_zero]
        split <;> simp
      · have hactive := hasActive_of_deposit hsome
        simp [RollbackAccepted, Db.act, Ne.symm hne, hactive]
  · rw [hanswer'] at h₃
    obtain ⟨hresult, hquiet, hlogged⟩ : reply.result = true ∧
        (∀ u, netEffect u rest₃ = 0) ∧
        ∀ action ∈ rest₃, ∀ u modifier, action.cmd ≠ .updateAccount u modifier := by
      obtain ⟨db₄, rest₄, rfl, h₄⟩ := traces_bind h₃
      obtain ⟨db₅, rest₅, rfl, h₅⟩ := traces_bind h₄
      obtain ⟨db₆, rest₆, rfl, h₆⟩ := traces_bind h₅
      obtain ⟨rfl, rfl⟩ := h₆
      refine ⟨rfl, fun u => ?_, by simp [Db.act]⟩
      rw [netEffect_quiet, netEffect_quiet, netEffect_quiet, netEffect_nil] <;> nofun
    have heffect := fun u => (hread u).trans ((hout u).trans (congrArg _ (hin u)))
    simp only [balanceOf_withdraw_sub hwithdraw, balanceOf_deposit_sub hdeposit, hquiet,
      add_zero] at heffect
    refine ⟨fun _ action hmem hcmd => ?_, fun _ => ⟨fun _ => ⟨?_, ?_⟩, ?_⟩⟩
    · simp only [List.mem_cons] at hmem
      rcases hmem with rfl | rfl | rfl | hmem
      · simp [Db.act] at hcmd
      · simp [Db.act] at hcmd
      · simp [Db.act, Ne.symm hne] at hcmd
      · exact absurd hcmd (hlogged action hmem _ _)
    · exact (heffect fromId).trans (by simp [Ne.symm hne])
    · exact (heffect toId).trans (by simp [hne])
    · simp [hresult]

/-! ## In every interleaving -/

/--
A transfer that has returned, in any interleaving with any other threads, moved
its amount if it returns 1 and moved nothing if it returns 0, exactly when every
rollback it made found the sender's account active.
-/
theorem transfer_all_or_nothing_iff [DecidableEq ι] (threads : ι → Prog (Db ℚ) Reply)
    (t : ι) (fromId toId : Nat) (amount : ℚ) (db : Database ℚ) (schedule : List ι)
    (pool : Pool (Db ℚ) (Database ℚ) ι Reply) (reply : Reply)
    (hthread : threads t = transferFunds fromId toId amount)
    (hrun : Pool.run Db.shared schedule ⟨db, threads⟩ = some pool)
    (hret : pool.Returned t reply) :
    AllOrNothing fromId toId amount reply.result
        (Pool.own Db.shared t schedule ⟨db, threads⟩) ↔
      RollbackAccepted fromId amount (Pool.own Db.shared t schedule ⟨db, threads⟩) := by
  have htraces := Pool.own_traces hrun hret
  dsimp only at htraces
  rw [hthread] at htraces
  exact transferFunds_traces htraces

def depositMeanwhile : Pool (Db ℚ) (Database ℚ) (Fin 2) Reply where
  state := Database.ofAccounts [⟨1001, 1001, 9, .active⟩, ⟨1002, 1002, 0, .active⟩]
    fun _ => 1
  threads := ![transferFunds 1001 1002 5, depositMoney 1002 3]

theorem transfer_all_or_nothing_iff_meanwhile :
    RollbackAccepted 1001 5
      (Pool.own Db.shared 0 [0, 0, 1, 0, 0, 0, 0] depositMeanwhile) := by
  obtain ⟨pool, hrun, hresult⟩ := Option.bind_eq_some_iff.mp
    (by decide +kernel : ((Pool.run Db.shared [0, 0, 1, 0, 0, 0, 0] depositMeanwhile).bind
      fun pool => pool.result 0) = some (.say true
        (str "Transfer Successful: 5.00 from 1001 to 1002")))
  refine (transfer_all_or_nothing_iff _ 0 1001 1002 5 _ _ pool _ rfl hrun
    (Pool.returned_of_result hresult)).mp ⟨fun _ => ?_, nofun⟩
  decide +kernel

/-! ### Money lost -/

def closingBoth : Pool (Db ℚ) (Database ℚ) (Fin 3) Reply where
  state := Database.ofAccounts [⟨1001, 1001, 9, .active⟩, ⟨1002, 1002, 0, .active⟩]
    fun _ => 1
  threads := ![transferFunds 1001 1002 5, setAccountStatus 1002 0, setAccountStatus 1001 0]

/-- Closed after the withdrawal, the recipient's account refuses and the sender's too. -/
theorem transfer_loses_money :
    ¬ ∀ schedule pool reply, Pool.run Db.shared schedule closingBoth = some pool →
      pool.Returned 0 reply →
      AllOrNothing 1001 1002 5 reply.result
        (Pool.own Db.shared 0 schedule closingBoth) := by
  intro h
  obtain ⟨pool, hrun, hresult⟩ := Option.bind_eq_some_iff.mp
    (by decide +kernel : ((Pool.run Db.shared [0, 0, 1, 2, 0, 0] closingBoth).bind
      fun pool => pool.result 0) = some (.say false
        (str "CRITICAL ERROR: Transfer failed after withdrawal. Contact support.")))
  have hnothing := h _ pool _ hrun (Pool.returned_of_result hresult)
  have hlost : netEffect 1001 (Pool.own Db.shared 0 [0, 0, 1, 2, 0, 0] closingBoth) = -5 := by
    decide +kernel
  rw [(hnothing.2 rfl).1] at hlost
  exact absurd hlost (by norm_num)

end BankingSystem
