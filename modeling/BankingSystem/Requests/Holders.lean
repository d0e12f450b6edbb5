import BankingSystem.Foundation.Run
import BankingSystem.Requests.WellFormed

/-!
# Who holds an assigned loan

`assign_loan_to_employee` looks at the role of the employee once.  The holder of an
assigned loan stays an employee until `change_user_role` makes a manager of them.
-/

namespace BankingSystem

open Foundation Tables

variable {M : Type} {t t' : Tables M} {userId : Nat}

def Tables.employs (t : Tables M) (userId : Nat) : Prop :=
  ∃ emp, Table.lookup UserRec.userId userId t.users = some emp ∧ emp.role = .employee

def Tables.HeldByEmployees (t : Tables M) : Prop :=
  ∀ loan ∈ t.loans, loan.status = .assigned → t.employs loan.assignedTo

def Tables.holdsLoan (t : Tables M) (userId : Nat) : Prop :=
  ∃ loan ∈ t.loans, loan.status = .assigned ∧ loan.assignedTo = userId

/-- The request makes no manager of a user who holds an assigned loan. -/
def KeepsHolders (t : Tables M) (request : Request M) : Prop :=
  ∀ userId, request = .changeRole userId (str "manager") → ¬ t.holdsLoan userId

/-! ## What one request does to an employee -/

theorem Tables.employs.congr (h : t.employs userId) (husers : t'.users = t.users) :
    t'.employs userId := by
  unfold Tables.employs
  rw [husers]
  exact h

private theorem lookup_withUser {i other : Nat} {user : UserRec} (huser : t.userAt other i user)
    (user' : UserRec) (hid : user'.userId = user.userId) :
    Table.lookup UserRec.userId userId (t.withUser i user').users =
      if userId = other then some user' else Table.lookup UserRec.userId userId t.users := by
  have hfound : Table.lookup UserRec.userId other t.users = some user := by
    rw [Table.lookup_of_locate huser.1, huser.2]
  have hkey : user'.userId = other := hid.trans (Table.lookup_key hfound)
  by_cases hother : userId = other
  · subst hother
    rw [if_pos rfl]
    exact Table.lookup_set_self huser.1 hkey
  · rw [if_neg hother]
    exact Table.lookup_set_ne huser.1 hkey hother

theorem Tables.employs.withUser {i other : Nat} {user user' : UserRec}
    (h : t.employs userId) (huser : t.userAt other i user) (hid : user'.userId = user.userId)
    (hrole : user.role = .employee → userId = other → user'.role = .employee) :
    (t.withUser i user').employs userId := by
  obtain ⟨emp, hemp, hemployee⟩ := h
  unfold Tables.employs
  rw [lookup_withUser huser user' hid]
  by_cases hother : userId = other
  · have hsame : emp = user := by
      rw [hother, Table.lookup_of_locate huser.1, huser.2] at hemp
      exact (Option.some.inj hemp).symm
    rw [if_pos hother]
    exact ⟨user', rfl, hrole (hsame ▸ hemployee) hother⟩
  · rw [if_neg hother]
    exact ⟨emp, hemp, hemployee⟩

theorem Tables.employs.addUser {user : UserRec} (h : t.employs userId)
    (hwf : WellFormed t) (hid : user.userId = t.nextUserId)
    (husers : t'.users = Table.upsert UserRec.userId user t.users) : t'.employs userId := by
  obtain ⟨emp, hemp, hemployee⟩ := h
  refine ⟨emp, ?_, hemployee⟩
  rw [husers, hwf.upsert_user hid, Table.lookup_append_singleton, hemp, Option.some_or]

section Steps

variable [Amount M] {env : Env} {times : Set Time} {request : Request M} {result : Bool}

private theorem Step.employs (h : Step env times t request result t') (hwf : WellFormed t)
    (hemp : t.employs userId)
    (hrequest : request ≠ .changeRole userId (str "manager")) : t'.employs userId := by
  have husers := h.users_eq
  cases h with
  | refused | looked => exact hemp
  | customerAdded | employeeAdded => exact hemp.addUser hwf rfl rfl
  | customerModified huser | userModified huser | passwordChanged huser =>
      exact hemp.withUser huser rfl fun hrole _ => hrole
  | roleChanged huser _ _ hrole =>
      refine hemp.withUser huser rfl fun _ hother => ?_
      rcases hrole with ⟨-, rfl⟩ | ⟨rfl, -⟩
      · rfl
      · exact absurd (hother ▸ rfl) hrequest
  | _ => exact hemp.congr (husers rfl)

theorem Step.assigned (h : Step env times t request result t') {loan : LoanRec M}
    (hmem : loan ∈ t'.loans) (hassigned : loan.status = .assigned) :
    loan ∈ t.loans ∨ t'.employs loan.assignedTo := by
  cases h with
  | deposited _ _ haccount | withdrew _ _ haccount | statusSet haccount =>
      exact .inl (updateAccount_loans haccount ▸ hmem)
  | transferred _ _ _ hfrom hto =>
      exact .inl ((updateAccount_loans hto).trans (updateAccount_loans hfrom) ▸ hmem)
  | loanApplied =>
      rcases List.mem_append.mp hmem with hold | hnew
      · exact .inl hold
      · rw [List.mem_singleton.mp hnew] at hassigned
        cases hassigned
  | loanAssigned _ _ hemp hrole =>
      rcases Table.mem_set hmem with rfl | hold
      · exact .inr ⟨_, hemp, hrole⟩
      · exact .inl hold
  | loanApproved _ _ _ _ _ haccount =>
      rcases Table.mem_set hmem with rfl | hold
      · cases hassigned
      · exact .inl (updateAccount_loans haccount ▸ hold)
  | loanRejected =>
      rcases Table.mem_set hmem with rfl | hold
      · cases hassigned
      · exact .inl hold
  | _ => exact .inl hmem

private theorem Step.heldByEmployees (h : Step env times t request result t') (hwf : WellFormed t)
    (hheld : t.HeldByEmployees) (hkeeps : KeepsHolders t request) : t'.HeldByEmployees := by
  intro loan hmem hassigned
  rcases h.assigned hmem hassigned with hold | hemp
  · refine h.employs hwf (hheld loan hold hassigned) fun hrequest => ?_
    exact hkeeps loan.assignedTo hrequest ⟨loan, hold, hassigned, rfl⟩
  · exact hemp

/-! ## The promotion of a holder -/

private theorem changeUserRole_manager {i : Nat} {user : UserRec} (huser : t.userAt userId i user)
    (hrole : user.role = .employee) :
    Yields times t (changeUserRole userId (str "manager") []) fun _ t' =>
      t' = t.withUser i { user with role := .manager } := by
  refine .bind (.atomicUpdateUser (fun hnone => ?_) fun j other hother => ?_)
  · rw [huser.1] at hnone
    cases hnone
  · obtain ⟨rfl, rfl⟩ := huser.unique hother
    have hne : str "manager" ≠ str "employee" := by decide
    simp only [changeRoleModifier, hrole, hne, reduceCtorEq, if_false, if_true]
    exact .ret (.ret rfl)

private theorem not_heldByEmployees_of_promotion {db : Database M} (env : Env)
    (hheld : db.tables.HeldByEmployees) (hholds : db.tables.holdsLoan userId) :
    ¬ ((Request.changeRole userId (str "manager")).handle env db).2.tables.HeldByEmployees := by
  obtain ⟨loan, hmem, hassigned, rfl⟩ := hholds
  obtain ⟨emp, hemp, hrole⟩ := hheld loan hmem hassigned
  obtain ⟨i, hi, hget⟩ := Table.locate_of_lookup hemp
  have hafter : ((Request.changeRole loan.assignedTo (str "manager")).handle env db).2.tables =
      db.tables.withUser i { emp with role := .manager } := by
    have hyields : Yields Set.univ db.tables (changeUserRole loan.assignedTo (str "manager") [])
        fun _ t' => t' = db.tables.withUser i { emp with role := .manager } :=
      changeUserRole_manager ⟨hi, hget⟩ hrole
    exact hyields db rfl fun _ => trivial
  rw [hafter]
  intro hheld'
  obtain ⟨emp', hemp', hrole'⟩ := hheld' loan hmem hassigned
  rw [lookup_withUser ⟨hi, hget⟩ { emp with role := .manager } rfl, if_pos rfl] at hemp'
  cases hemp'
  cases hrole'

end Steps

/-! ## Runs -/

variable [Amount M]

private theorem Request.serve_eq_foldl (env : Env) (requests : List (Request M)) (db : Database M) :
    serve env requests db = requests.foldl (fun db request => (request.handle env db).2) db := by
  induction requests generalizing db with
  | nil => rfl
  | cons request requests ih => exact ih _

/--
Every loan that is assigned in some state of a run from empty databases is held by an
employee, exactly when no request of the run promotes a user who holds one.
-/
theorem assigned_loans_held (env : Env) (clock : Nat → Time) (requests : List (Request M)) :
    (∀ first rest, requests = first ++ rest →
      (Request.serve env first (Database.empty clock)).tables.HeldByEmployees) ↔
    ∀ first request rest, requests = first ++ request :: rest →
      KeepsHolders (Request.serve env first (Database.empty clock)).tables request := by
  simp only [Request.serve_eq_foldl]
  have hticks : ∀ db : Database M, db.Ticks Set.univ := fun _ _ => trivial
  refine foldl_good_iff _ (fun db : Database M => WellFormed db.tables)
    (fun db => db.tables.HeldByEmployees) (fun db => KeepsHolders db.tables)
    (fun db request hwf => ?_)
    (fun db request hwf hheld => ⟨fun hheld' userId hrequest hholds => ?_, fun hkeeps => ?_⟩)
    (WellFormed.empty clock) (fun loan hmem => ?_) requests
  · exact hwf.step (request.handle_step env (hticks db))
  · subst hrequest
    exact not_heldByEmployees_of_promotion env hheld hholds hheld'
  · exact (request.handle_step env (hticks db)).heldByEmployees hwf hheld hkeeps
  · cases hmem

/-- The holder of loan 1 becomes a manager, who cannot decide it any more. -/
def promotedHolder : List (Request ℚ) :=
  [.addEmployee ⟨[], [], 30, [], str "e@bank", str "1"⟩ (str "employee") (str "eve") (str "pw"),
    .addCustomer .zero (str "ann") (str "pw"), .applyLoan 1002 5, .assignLoan 1 1001,
    .changeRole 1001 (str "manager")]

theorem promoted_holder_keeps_loan :
    ¬ ∀ requests : List (Request ℚ),
      (Request.serve .plain requests (Database.empty fun _ => 1)).tables.HeldByEmployees := by
  intro h
  have hrole : ((Table.lookup UserRec.userId 1001 (Request.serve .plain promotedHolder
      (Database.empty fun _ => 1)).tables.users).map UserRec.role) = some .manager := by
    decide +kernel
  have hloan : (Request.serve .plain promotedHolder (Database.empty fun _ => 1)).tables.loans =
      [⟨1, 1002, 5, .assigned, 1001, 1, 0⟩] := by
    decide +kernel
  have hheld := h promotedHolder ⟨1, 1002, 5, .assigned, 1001, 1, 0⟩
    (hloan ▸ List.mem_singleton_self _) rfl
  obtain ⟨emp, hemp, hemployee⟩ := hheld
  rw [hemp, Option.map_some, hemployee] at hrole
  cases hrole

end BankingSystem
