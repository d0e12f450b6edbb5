import BankingSystem.Records
import BankingSystem.Foundation.Amount

/-!
# Account modifiers

The functions that the program passes to `atomic_update_account`.  A modifier
returns the new record, or `none` where the source returns 0 and the update is
abandoned.
-/

namespace BankingSystem

open Foundation

variable {M : Type} [Amount M]

def depositModifier (amount : M) (acc : AccountRec M) : Option (AccountRec M) :=
  if acc.active = .inactive then none
  else some { acc with balance := acc.balance + amount }

def withdrawModifier (amount : M) (acc : AccountRec M) : Option (AccountRec M) :=
  if acc.active = .inactive then none
  else if acc.balance < amount then none
  else some { acc with balance := acc.balance - amount }

def setStatusModifier (newStatus : Int) (acc : AccountRec M) :
    Option (AccountRec M) :=
  some { acc with active := if newStatus = 1 then .active else .inactive }

inductive AccountModifier (M : Type) where
  | deposit (amount : M)
  | withdraw (amount : M)
  | setStatus (newStatus : Int)
  deriving DecidableEq

def AccountModifier.apply : AccountModifier M → AccountRec M → Option (AccountRec M)
  | .deposit amount => depositModifier amount
  | .withdraw amount => withdrawModifier amount
  | .setStatus newStatus => setStatusModifier newStatus

variable {acc acc' : AccountRec M} {amount : M}

theorem depositModifier_eq_some_iff :
    depositModifier amount acc = some acc' ↔
      acc.active = .active ∧ acc' = { acc with balance := acc.balance + amount } := by
  unfold depositModifier
  cases hactive : acc.active <;> simp [eq_comm]

theorem withdrawModifier_eq_some_iff :
    withdrawModifier amount acc = some acc' ↔
      acc.active = .active ∧ ¬ acc.balance < amount ∧
        acc' = { acc with balance := acc.balance - amount } := by
  unfold withdrawModifier
  cases hactive : acc.active
  · simp
  · by_cases hlt : acc.balance < amount <;> simp [hlt, eq_comm]

theorem AccountModifier.apply_ids {modifier : AccountModifier M}
    (h : modifier.apply acc = some acc') :
    acc'.userId = acc.userId ∧ acc'.accountId = acc.accountId := by
  cases modifier with
  | deposit amount =>
      obtain ⟨-, rfl⟩ := depositModifier_eq_some_iff.mp h
      exact ⟨rfl, rfl⟩
  | withdraw amount =>
      obtain ⟨-, -, rfl⟩ := withdrawModifier_eq_some_iff.mp h
      exact ⟨rfl, rfl⟩
  | setStatus newStatus =>
      cases h
      exact ⟨rfl, rfl⟩

theorem AccountModifier.apply_userId {modifier : AccountModifier M}
    (h : modifier.apply acc = some acc') : acc'.userId = acc.userId :=
  (apply_ids h).1

end BankingSystem
