import BankingSystem.Requests.Refinement

/-!
# Identifiers in the files

Requests served one at a time number the users from 1001 and the loans from 1 in
file order, and an account record always belongs to a user, so a new customer's
account never meets an old record.
-/

namespace BankingSystem

open Foundation Tables

variable {M : Type} {t t' : Tables M}

structure WellFormed (t : Tables M) : Prop where
  userIds : t.users.map UserRec.userId = List.range' 1001 t.users.length
  accountIds : (t.accounts.map AccountRec.userId).Sublist (t.users.map UserRec.userId)
  loanIds : t.loans.map LoanRec.loanId = List.range' 1 t.loans.length

namespace WellFormed

theorem empty (clock : Nat → Time) :
    WellFormed (Database.empty (M := M) clock).tables :=
  ⟨rfl, List.Sublist.refl _, rfl⟩

theorem user_lt (hwf : WellFormed t) {user : UserRec} (huser : user ∈ t.users) :
    1001 ≤ user.userId ∧ user.userId < t.nextUserId := by
  have hmem : user.userId ∈ t.users.map UserRec.userId := List.mem_map_of_mem huser
  rw [hwf.userIds, List.mem_range'_1] at hmem
  exact hmem

private theorem account_lt (hwf : WellFormed t) {acc : AccountRec M} (hacc : acc ∈ t.accounts) :
    acc.userId < t.nextUserId := by
  have hmem := hwf.accountIds.subset (List.mem_map_of_mem hacc)
  rw [hwf.userIds, List.mem_range'_1] at hmem
  exact hmem.2

theorem accounts_nodup (hwf : WellFormed t) :
    (t.accounts.map AccountRec.userId).Nodup :=
  hwf.accountIds.nodup (hwf.userIds ▸ List.nodup_range')

theorem lookup_account (hwf : WellFormed t) {acc : AccountRec M}
    (hacc : acc ∈ t.accounts) :
    Table.lookup AccountRec.userId acc.userId t.accounts = some acc :=
  Table.lookup_of_mem hwf.accounts_nodup hacc

private theorem user_fresh (hwf : WellFormed t) : ∀ u ∈ t.users, u.userId ≠ t.nextUserId :=
  fun _ hu => (hwf.user_lt hu).2.ne

theorem account_fresh (hwf : WellFormed t) :
    ∀ a ∈ t.accounts, a.userId ≠ t.nextUserId :=
  fun _ ha => (hwf.account_lt ha).ne

/-! ## What keeps it -/

theorem logged {fromAccount toAccount : Nat} {amount : M} {now : Time}
    {narration : Bytes} (hwf : WellFormed t) :
    WellFormed (t.log fromAccount toAccount amount now narration) :=
  ⟨hwf.userIds, hwf.accountIds, hwf.loanIds⟩

theorem withLoan {loanId i : Nat} {loan loan' : LoanRec M} (hwf : WellFormed t)
    (hloan : t.loanAt loanId i loan) (hid : loan'.loanId = loan.loanId) :
    WellFormed (t.withLoan i loan') := by
  refine ⟨hwf.userIds, hwf.accountIds, ?_⟩
  simp only [Tables.withLoan, List.length_set]
  rw [Table.map_key_set hloan.2 hid, hwf.loanIds]

theorem withUser {userId i : Nat} {user user' : UserRec} (hwf : WellFormed t)
    (huser : t.userAt userId i user) (hid : user'.userId = user.userId) :
    WellFormed (t.withUser i user') := by
  refine ⟨?_, ?_, hwf.loanIds⟩
  · simp only [Tables.withUser, List.length_set]
    rw [Table.map_key_set huser.2 hid, hwf.userIds]
  · simp only [Tables.withUser]
    rw [Table.map_key_set huser.2 hid]
    exact hwf.accountIds

theorem upsert_user (hwf : WellFormed t) {user : UserRec}
    (hid : user.userId = t.nextUserId) :
    Table.upsert UserRec.userId user t.users = t.users ++ [user] :=
  Table.upsert_of_fresh (hid ▸ hwf.user_fresh)

theorem upsert_account (hwf : WellFormed t) {acc : AccountRec M}
    (hid : acc.userId = t.nextUserId) :
    Table.upsert AccountRec.userId acc t.accounts = t.accounts ++ [acc] :=
  Table.upsert_of_fresh (hid ▸ hwf.account_fresh)

theorem addUser (hwf : WellFormed t) {user : UserRec} (hid : user.userId = t.nextUserId) :
    WellFormed { t with users := Table.upsert UserRec.userId user t.users } := by
  rw [hwf.upsert_user hid]
  refine ⟨?_, ?_, hwf.loanIds⟩
  · simp only [List.map_append, List.map_cons, List.map_nil, List.length_append,
      List.length_singleton, List.range'_concat, Nat.one_mul]
    rw [hwf.userIds, hid, nextUserId]
  · simp only [List.map_append]
    exact hwf.accountIds.trans (List.sublist_append_left _ _)

theorem addCustomer (hwf : WellFormed t) {user : UserRec} {acc : AccountRec M}
    (huser : user.userId = t.nextUserId) (hacc : acc.userId = t.nextUserId) :
    WellFormed { t with
      users := Table.upsert UserRec.userId user t.users
      accounts := Table.upsert AccountRec.userId acc t.accounts } := by
  refine ⟨(hwf.addUser huser).userIds, ?_, hwf.loanIds⟩
  simp only [hwf.upsert_user huser, hwf.upsert_account hacc, List.map_append,
    List.map_cons, List.map_nil, huser, hacc]
  exact hwf.accountIds.append (List.Sublist.refl _)

variable [Amount M] {env : Env} {times : Set Time}

theorem updated {userId : Nat} {modifier : AccountModifier M} (hwf : WellFormed t)
    (h : t.updateAccount userId modifier = some t') : WellFormed t' := by
  obtain ⟨acc, acc', -, hreplaced⟩ := updateAccount_replaced h
  rw [hreplaced.frame]
  refine ⟨hwf.userIds, ?_, hwf.loanIds⟩
  change (t'.accounts.map _).Sublist _
  rw [hreplaced.keys]
  exact hwf.accountIds

theorem step {request : Request M} {result : Bool}
    (h : Step env times t request result t') (hwf : WellFormed t) : WellFormed t' := by
  cases h with
  | refused => exact hwf
  | looked => exact hwf
  | deposited _ _ haccount => exact (hwf.updated haccount).logged
  | withdrew _ _ haccount => exact (hwf.updated haccount).logged
  | transferred _ _ _ hfrom hto => exact ((hwf.updated hfrom).updated hto).logged.logged
  | loanApplied =>
      refine ⟨hwf.userIds, hwf.accountIds, ?_⟩
      simp only [List.map_append, List.map_cons, List.map_nil, List.length_append,
        List.length_singleton, List.range'_concat, Nat.one_mul, hwf.loanIds]
      rw [Nat.add_comm]
  | loanAssigned hloan => exact hwf.withLoan hloan rfl
  | loanApproved hloan _ _ _ _ haccount =>
      obtain ⟨acc, acc', -, hreplaced⟩ := updateAccount_replaced haccount
      rw [hreplaced.frame]
      have hwf' := hreplaced.frame ▸ hwf.updated haccount
      exact hwf'.logged.withLoan hloan rfl
  | loanRejected hloan => exact hwf.withLoan hloan rfl
  | statusSet haccount => exact hwf.updated haccount
  | feedbackAdded => exact ⟨hwf.userIds, hwf.accountIds, hwf.loanIds⟩
  | feedbackReviewed => exact ⟨hwf.userIds, hwf.accountIds, hwf.loanIds⟩
  | customerAdded => exact hwf.addCustomer rfl rfl
  | employeeAdded => exact hwf.addUser rfl
  | customerModified huser => exact hwf.withUser huser rfl
  | userModified huser => exact hwf.withUser huser rfl
  | roleChanged huser => exact hwf.withUser huser rfl
  | passwordChanged huser => exact hwf.withUser huser rfl

end WellFormed

end BankingSystem
