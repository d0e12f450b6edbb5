import BankingSystem.Requests.WellFormed

/-!
# Customers and their accounts

The accounts are those of the customers, one each and in the same order: both files
grow together when a customer is added, and no role change makes a customer of
somebody else or the other way round.
-/

namespace BankingSystem

open Foundation Tables

variable {M : Type} {t t' t'' : Tables M}

/-! ## Roles -/

def Role.isStaff : Role → Bool
  | .employee | .manager => true
  | .customer | .admin => false

def RolesKept (t t' : Tables M) : Prop :=
  ∀ (i : Nat) user, t.users[i]? = some user → ∃ user', t'.users[i]? = some user' ∧
    user'.userId = user.userId ∧
    (user'.role = user.role ∨ user.role.isStaff = true ∧ user'.role.isStaff = true)

namespace RolesKept

theorem of_eq (h : t'.users = t.users) : RolesKept t t' :=
  fun _ user huser => ⟨user, h ▸ huser, rfl, .inl rfl⟩

theorem of_append {user : UserRec} (h : t'.users = t.users ++ [user]) : RolesKept t t' := by
  intro i old hold
  obtain ⟨hlt, -⟩ := List.getElem?_eq_some_iff.mp hold
  exact ⟨old, by rw [h, List.getElem?_append_left hlt, hold], rfl, .inl rfl⟩

theorem withUser {userId p : Nat} {user user' : UserRec} (huser : t.userAt userId p user)
    (hid : user'.userId = user.userId)
    (hrole : user'.role = user.role ∨ user.role.isStaff = true ∧ user'.role.isStaff = true) :
    RolesKept t (t.withUser p user') := by
  intro i old hold
  have hget := Table.getElem?_set_of_locate (j := i) (r := user') huser.1
  by_cases hi : i = p
  · subst hi
    rw [huser.2] at hold
    cases hold
    exact ⟨user', hget.trans (if_pos rfl), hid, hrole⟩
  · exact ⟨old, hget.trans ((if_neg hi).trans hold), rfl, .inl rfl⟩

theorem trans (h : RolesKept t t') (h' : RolesKept t' t'') : RolesKept t t'' := by
  intro i user huser
  obtain ⟨user', huser', hid, hrole⟩ := h i user huser
  obtain ⟨user'', huser'', hid', hrole'⟩ := h' i user' huser'
  refine ⟨user'', huser'', hid'.trans hid, ?_⟩
  rcases hrole with hsame | ⟨hstaff, hstaff'⟩
  · rcases hrole' with hsame' | ⟨hstaff, hstaff'⟩
    · exact .inl (hsame'.trans hsame)
    · exact .inr ⟨hsame ▸ hstaff, hstaff'⟩
  · rcases hrole' with hsame' | ⟨-, hstaff''⟩
    · exact .inr ⟨hstaff, hsame' ▸ hstaff'⟩
    · exact .inr ⟨hstaff, hstaff''⟩

end RolesKept

/-! ## One account for each customer -/

def customers (users : List UserRec) : List UserRec :=
  users.filter fun user => user.role = .customer

structure Dedicated (t : Tables M) : Prop where
  owners : t.accounts.map AccountRec.userId = (customers t.users).map UserRec.userId
  ids : ∀ acc ∈ t.accounts, acc.accountId = acc.userId

namespace Dedicated

theorem empty (clock : Nat → Time) : Dedicated (Database.empty (M := M) clock).tables :=
  ⟨rfl, nofun⟩

private theorem customers_set {users : List UserRec} {i : Nat} {user user' : UserRec}
    (huser : users[i]? = some user) (hid : user'.userId = user.userId)
    (hrole : user'.role = .customer ↔ user.role = .customer) :
    (customers (users.set i user')).map UserRec.userId =
      (customers users).map UserRec.userId := by
  induction users generalizing i with
  | nil => rfl
  | cons first users ih =>
      cases i with
      | zero =>
          cases huser
          by_cases hcustomer : user.role = .customer <;>
            simp [customers, hrole, hcustomer, hid]
      | succ i =>
          have hrest := ih (i := i) huser
          by_cases hcustomer : first.role = .customer <;>
            simpa [customers, hcustomer] using hrest

theorem withUser {userId i : Nat} {user user' : UserRec} (h : Dedicated t)
    (huser : t.userAt userId i user) (hid : user'.userId = user.userId)
    (hrole : user'.role = .customer ↔ user.role = .customer) :
    Dedicated (t.withUser i user') :=
  ⟨h.owners.trans (customers_set huser.2 hid hrole).symm, h.ids⟩

variable [Amount M] {env : Env} {times : Set Time}

theorem updated {userId : Nat} {modifier : AccountModifier M} (h : Dedicated t)
    (haccount : t.updateAccount userId modifier = some t') : Dedicated t' := by
  obtain ⟨acc, acc', happly, hreplaced⟩ := updateAccount_replaced haccount
  obtain ⟨huserId, haccountId⟩ := AccountModifier.apply_ids happly
  refine ⟨?_, fun a ha => ?_⟩
  · rw [hreplaced.keys, h.owners, hreplaced.frame]
    rfl
  · rcases hreplaced.mem a ha with rfl | hold
    · rw [haccountId, huserId]
      exact h.ids acc (Table.lookup_mem hreplaced.before)
    · exact h.ids a hold

omit [Amount M] in
theorem addUser {user : UserRec} (h : Dedicated t) (hwf : WellFormed t)
    (hid : user.userId = t.nextUserId) (hrole : user.role ≠ .customer) :
    Dedicated { t with users := Table.upsert UserRec.userId user t.users } := by
  refine ⟨?_, h.ids⟩
  rw [hwf.upsert_user hid, h.owners]
  simp [customers, hrole]

omit [Amount M] in
theorem addCustomer {user : UserRec} {acc : AccountRec M} (h : Dedicated t)
    (hwf : WellFormed t) (huser : user.userId = t.nextUserId)
    (hacc : acc.userId = t.nextUserId) (hrole : user.role = .customer)
    (haccountId : acc.accountId = acc.userId) :
    Dedicated { t with
      users := Table.upsert UserRec.userId user t.users
      accounts := Table.upsert AccountRec.userId acc t.accounts } := by
  rw [hwf.upsert_user huser, hwf.upsert_account hacc]
  refine ⟨?_, fun a ha => ?_⟩
  · simp [customers, hrole, huser, hacc, h.owners]
  · rcases List.mem_append.mp ha with hold | hnew
    · exact h.ids a hold
    · rw [List.mem_singleton.mp hnew]
      exact haccountId

private theorem staffRole_ne_customer {roleStr : Bytes} {role : Role}
    (h : staffRole roleStr = some role) : role ≠ .customer := by
  rintro rfl
  unfold staffRole at h
  repeat' split at h
  all_goals cases h

theorem step {request : Request M} {result : Bool}
    (hstep : Step env times t request result t') (hwf : WellFormed t) (h : Dedicated t) :
    Dedicated t' := by
  cases hstep with
  | deposited _ _ haccount | withdrew _ _ haccount =>
      exact ⟨(h.updated haccount).owners, (h.updated haccount).ids⟩
  | transferred _ _ _ hfrom hto =>
      exact ⟨((h.updated hfrom).updated hto).owners, ((h.updated hfrom).updated hto).ids⟩
  | loanApproved _ _ _ _ _ haccount =>
      exact ⟨(h.updated haccount).owners, (h.updated haccount).ids⟩
  | statusSet haccount => exact h.updated haccount
  | customerAdded => exact h.addCustomer hwf rfl rfl rfl rfl
  | employeeAdded _ hrole => exact h.addUser hwf rfl (staffRole_ne_customer hrole)
  | customerModified huser => exact h.withUser huser rfl Iff.rfl
  | userModified huser => exact h.withUser huser rfl Iff.rfl
  | roleChanged huser hcustomer _ hrole =>
      refine h.withUser huser rfl (iff_of_false ?_ hcustomer)
      rcases hrole with ⟨-, rfl⟩ | ⟨-, rfl⟩ <;> nofun
  | passwordChanged huser => exact h.withUser huser rfl Iff.rfl
  | _ => exact ⟨h.owners, h.ids⟩

omit [Amount M] in
private theorem account_of_customer {user : UserRec} (h : Dedicated t) (hwf : WellFormed t)
    (huser : user ∈ t.users) (hrole : user.role = .customer) :
    ∃ acc, t.accounts.filter (fun acc => acc.userId = user.userId) = [acc] ∧
      acc.accountId = user.userId := by
  have howner : user.userId ∈ t.accounts.map AccountRec.userId := by
    rw [h.owners]
    exact List.mem_map_of_mem (List.mem_filter.mpr ⟨huser, by simpa using hrole⟩)
  obtain ⟨acc, hacc, hid⟩ := List.mem_map.mp howner
  refine ⟨acc, ?_, (h.ids acc hacc).trans hid⟩
  rw [← hid]
  exact Table.filter_key_of_mem hwf.accounts_nodup hacc

omit [Amount M] in
private theorem customer_of_account {acc : AccountRec M} (h : Dedicated t)
    (hacc : acc ∈ t.accounts) :
    ∃ user ∈ t.users, user.userId = acc.userId ∧ user.role = .customer := by
  have howner : acc.userId ∈ (customers t.users).map UserRec.userId :=
    h.owners ▸ List.mem_map_of_mem hacc
  obtain ⟨user, huser, hid⟩ := List.mem_map.mp howner
  obtain ⟨hmem, hrole⟩ := List.mem_filter.mp huser
  exact ⟨user, hmem, hid, by simpa using hrole⟩

end Dedicated

theorem RolesKept.step [Amount M] {env : Env} {times : Set Time} {request : Request M}
    {result : Bool} (hstep : Step env times t request result t') (hwf : WellFormed t) :
    RolesKept t t' := by
  have husers := hstep.users_eq
  cases hstep with
  | refused | looked => exact .of_eq rfl
  | customerAdded => exact .of_append (hwf.upsert_user rfl)
  | employeeAdded => exact .of_append (hwf.upsert_user rfl)
  | customerModified huser => exact .withUser huser rfl (.inl rfl)
  | userModified huser => exact .withUser huser rfl (.inl rfl)
  | @roleChanged userId roleStr i user role huser hcustomer hadmin hrole =>
      refine .withUser huser rfl (.inr ⟨?_, ?_⟩)
      · cases hold : user.role <;> simp_all [Role.isStaff]
      · rcases hrole with ⟨-, rfl⟩ | ⟨-, rfl⟩ <;> rfl
  | passwordChanged huser => exact .withUser huser rfl (.inl rfl)
  | _ => exact .of_eq (husers rfl)

/--
Requests one at a time from empty files: every customer has exactly one account, with
the customer's id, every account belongs to a customer, and whatever is requested
later only changes roles between employee and manager.
-/
theorem customers_have_one_account [Amount M] (env : Env) (clock : Nat → Time)
    (requests later : List (Request M)) :
    let t := (Request.serve env requests (Database.empty clock)).tables
    let t' := (Request.serve env (requests ++ later) (Database.empty clock)).tables
    (∀ user ∈ t.users, user.role = .customer →
      ∃ acc, t.accounts.filter (fun acc => acc.userId = user.userId) = [acc] ∧
        acc.accountId = user.userId) ∧
    (∀ acc ∈ t.accounts,
      ∃ user ∈ t.users, user.userId = acc.userId ∧ user.role = .customer) ∧
    RolesKept t t' := by
  intro t t'
  have hticks : (Database.empty (M := M) clock).Ticks Set.univ := fun _ => trivial
  obtain ⟨hwf, hdedicated⟩ : WellFormed t ∧ Dedicated t :=
    Request.serve_tables (I := fun t => WellFormed t ∧ Dedicated t) env
      (fun t request result t' hstep h => ⟨h.1.step hstep, h.2.step hstep h.1⟩) requests
      hticks ⟨.empty clock, .empty clock⟩
  have hkept : WellFormed t' ∧ RolesKept t t' := by
    rw [show t' = _ from congrArg Database.tables (Request.serve_append env requests later _)]
    refine Request.serve_tables (I := fun t' => WellFormed t' ∧ RolesKept t t') env
      (fun t request result t' hstep h => ⟨h.1.step hstep, h.2.trans (.step hstep h.1)⟩)
      later (Request.serve_ticks env requests hticks) ⟨hwf, .of_eq rfl⟩
  exact ⟨fun user huser hrole => hdedicated.account_of_customer hwf huser hrole,
    fun acc hacc => hdedicated.customer_of_account hacc, hkept.2⟩

end BankingSystem
