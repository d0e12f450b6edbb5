import BankingSystem.Requests.Tables
import Mathlib.Tactic.Ring

/-!
# Balances

The balance of a user is that of the first account record with the user's id.
Amounts are exact numbers.
-/

namespace BankingSystem

open Foundation Tables

variable {t t' : Tables ℚ}

def Tables.balanceOf (t : Tables ℚ) (userId : Nat) : ℚ :=
  (Table.lookup AccountRec.userId userId t.accounts).elim 0 AccountRec.balance

theorem Replaced.balanceOf {userId : Nat} {acc acc' : AccountRec ℚ}
    (h : Replaced t userId acc acc' t') (u : Nat) :
    t'.balanceOf u =
      t.balanceOf u + if userId = u then acc'.balance - acc.balance else 0 := by
  by_cases hu : userId = u
  · subst hu
    simp [Tables.balanceOf, h.before, h.after]
  · simp [Tables.balanceOf, h.others u (Ne.symm hu), hu]

theorem balanceOf_deposit {userId : Nat} {amount : ℚ}
    (h : t.updateAccount userId (.deposit amount) = some t') (u : Nat) :
    t'.balanceOf u = t.balanceOf u + if userId = u then amount else 0 := by
  obtain ⟨acc, acc', happly, hreplaced⟩ := updateAccount_replaced h
  obtain ⟨-, rfl⟩ := depositModifier_eq_some_iff.mp happly
  rw [hreplaced.balanceOf u]
  simp

theorem balanceOf_withdraw {userId : Nat} {amount : ℚ}
    (h : t.updateAccount userId (.withdraw amount) = some t') (u : Nat) :
    t'.balanceOf u = t.balanceOf u + if userId = u then -amount else 0 := by
  obtain ⟨acc, acc', happly, hreplaced⟩ := updateAccount_replaced h
  obtain ⟨-, -, rfl⟩ := withdrawModifier_eq_some_iff.mp happly
  rw [hreplaced.balanceOf u]
  simp

theorem balanceOf_setStatus {userId : Nat} {status : Int}
    (h : t.updateAccount userId (.setStatus status) = some t') (u : Nat) :
    t'.balanceOf u = t.balanceOf u := by
  obtain ⟨acc, acc', happly, hreplaced⟩ := updateAccount_replaced h
  cases happly
  rw [hreplaced.balanceOf u]
  simp

end BankingSystem
