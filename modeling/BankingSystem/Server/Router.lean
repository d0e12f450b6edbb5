import Mathlib.Data.List.Nodup
import BankingSystem.Server.Dispatch

/-!
# The router as a table

Each operation has a name, the format that its branch scans the payload with, and the
branch itself; the router picks the branch by the name.
-/

namespace BankingSystem

open Foundation

/-! ## What a scan delivers -/

section Scan

variable {M : Type}

def Foundation.Conv.Delivers : Conv → Scanned M → Prop
  | .u, .unsigned _ | .llu, .unsigned _ | .d, .signed _ | .s, .text _ | .lf, .double _ => True
  | _, _ => False

variable [Strtod M] {format : List Conv} {conv : Conv} {text rest payload : Bytes}
  {value : Scanned M} {i : Nat}

private theorem scan_delivers (h : conv.scan text = some (value, rest)) : conv.Delivers value := by
  cases conv with
  | u | d | llu | lf =>
      simp only [Conv.scan, Option.map_eq_some_iff, Prod.mk.injEq] at h
      obtain ⟨-, -, rfl, -⟩ := h
      trivial
  | s =>
      simp only [Conv.scan] at h
      split at h
      · cases h
      · cases h
        trivial

private theorem sscanf_delivers (h : (sscanf format payload)[i]? = some value) :
    ∃ conv, format[i]? = some conv ∧ conv.Delivers value := by
  induction format generalizing payload i with
  | nil => cases h
  | cons conv format ih =>
      rw [sscanf] at h
      cases hscan : conv.scan (M := M) payload with
      | none => simp [hscan] at h
      | some scanned =>
          obtain ⟨first, rest⟩ := scanned
          simp only [hscan] at h
          cases i with
          | zero =>
              cases h
              exact ⟨conv, rfl, scan_delivers hscan⟩
          | succ i => exact ih h

private theorem exists_delivered (hi : i < (sscanf (M := M) format payload).length)
    (hconv : format[i]? = some conv) :
    ∃ value, (sscanf (M := M) format payload)[i]? = some value ∧ conv.Delivers value := by
  obtain ⟨conv', hconv', hdelivers⟩ := sscanf_delivers (List.getElem?_eq_getElem hi)
  rw [hconv] at hconv'
  cases hconv'
  exact ⟨_, List.getElem?_eq_getElem hi, hdelivers⟩

/-! A variable that was converted does not keep what it held. -/

theorem unsignedAt_converted (hi : i < (sscanf (M := M) format payload).length)
    (hconv : format[i]? = some .u ∨ format[i]? = some .llu) (before before' : Nat) :
    Scanned.unsignedAt (sscanf (M := M) format payload) i before =
      Scanned.unsignedAt (sscanf (M := M) format payload) i before' := by
  rcases hconv with hconv | hconv <;> obtain ⟨value, hvalue, hdelivers⟩ := exists_delivered hi hconv
  all_goals
    cases value with
    | unsigned n => simp [Scanned.unsignedAt, hvalue]
    | signed | text | double => exact hdelivers.elim

theorem signedAt_converted (hi : i < (sscanf (M := M) format payload).length)
    (hconv : format[i]? = some .d) (before before' : Int) :
    Scanned.signedAt (sscanf (M := M) format payload) i before =
      Scanned.signedAt (sscanf (M := M) format payload) i before' := by
  obtain ⟨value, hvalue, hdelivers⟩ := exists_delivered hi hconv
  cases value with
  | signed n => simp [Scanned.signedAt, hvalue]
  | unsigned | text | double => exact hdelivers.elim

theorem textAt_converted (hi : i < (sscanf (M := M) format payload).length)
    (hconv : format[i]? = some .s) (before before' : Bytes) :
    Scanned.textAt (sscanf (M := M) format payload) i before =
      Scanned.textAt (sscanf (M := M) format payload) i before' := by
  obtain ⟨value, hvalue, hdelivers⟩ := exists_delivered hi hconv
  cases value with
  | text bytes => simp [Scanned.textAt, hvalue]
  | unsigned | signed | double => exact hdelivers.elim

theorem doubleAt_converted (hi : i < (sscanf (M := M) format payload).length)
    (hconv : format[i]? = some .lf) (before before' : M) :
    Scanned.doubleAt (sscanf (M := M) format payload) i before =
      Scanned.doubleAt (sscanf (M := M) format payload) i before' := by
  obtain ⟨value, hvalue, hdelivers⟩ := exists_delivered hi hconv
  cases value with
  | double x => simp [Scanned.doubleAt, hvalue]
  | unsigned | signed | text => exact hdelivers.elim

/-! A variable that was not converted does. -/

omit [Strtod M] in
theorem unsignedAt_missing {values : List (Scanned M)} (hi : values.length ≤ i) (before : Nat) :
    Scanned.unsignedAt values i before = before := by
  simp [Scanned.unsignedAt, hi]

omit [Strtod M] in
theorem textAt_missing {values : List (Scanned M)} (hi : values.length ≤ i) (before : Bytes) :
    Scanned.textAt values i before = before := by
  simp [Scanned.textAt, hi]

omit [Strtod M] in
theorem doubleAt_missing {values : List (Scanned M)} (hi : values.length ≤ i) (before : M) :
    Scanned.doubleAt values i before = before := by
  simp [Scanned.doubleAt, hi]

theorem length_sscanf_le (format : List Conv) (payload : Bytes) :
    (sscanf (M := M) format payload).length ≤ format.length := by
  induction format generalizing payload with
  | nil => exact Nat.le_refl 0
  | cons conv format ih =>
      rw [sscanf]
      cases conv.scan (M := M) payload with
      | none => exact Nat.zero_le _
      | some scanned => exact Nat.succ_le_succ (ih scanned.2)

end Scan

/-! ## The operations -/

inductive Op where
  | login | logout | changePassword
  | viewBalance | deposit | withdraw | transfer | applyLoan | viewLoan | addFeedback
  | viewFeedback | viewTransactions | viewDetails
  | addCustomer | modifyCustomer | processLoans | approveRejectLoan | viewAssignedLoans
  | viewCustTransactions
  | setAccountStatus | viewNonAssignedLoans | assignLoan | reviewFeedback
  | addEmployee | modifyUser | listUsers | changeRole
  deriving DecidableEq

def Op.name : Op → Bytes
  | .login => str "LOGIN"
  | .logout => str "LOGOUT"
  | .changePassword => str "CHANGE_PASSWORD"
  | .viewBalance => str "VIEW_BALANCE"
  | .deposit => str "DEPOSIT"
  | .withdraw => str "WITHDRAW"
  | .transfer => str "TRANSFER"
  | .applyLoan => str "APPLY_LOAN"
  | .viewLoan => str "VIEW_LOAN"
  | .addFeedback => str "ADD_FEEDBACK"
  | .viewFeedback => str "VIEW_FEEDBACK"
  | .viewTransactions => str "VIEW_TRANSACTIONS"
  | .viewDetails => str "VIEW_DETAILS"
  | .addCustomer => str "ADD_CUSTOMER"
  | .modifyCustomer => str "MODIFY_CUSTOMER"
  | .processLoans => str "PROCESS_LOANS"
  | .approveRejectLoan => str "APPROVE_REJECT_LOAN"
  | .viewAssignedLoans => str "VIEW_ASSIGNED_LOANS"
  | .viewCustTransactions => str "VIEW_CUST_TRANSACTIONS"
  | .setAccountStatus => str "SET_ACCOUNT_STATUS"
  | .viewNonAssignedLoans => str "VIEW_NON_ASSIGNED_LOANS"
  | .assignLoan => str "ASSIGN_LOAN"
  | .reviewFeedback => str "REVIEW_FEEDBACK"
  | .addEmployee => str "ADD_EMPLOYEE"
  | .modifyUser => str "MODIFY_USER"
  | .listUsers => str "LIST_USERS"
  | .changeRole => str "CHANGE_ROLE"

def Op.format : Op → List Conv
  | .login => [.s, .s]
  | .changePassword | .changeRole => [.u, .s]
  | .viewBalance | .viewLoan | .viewFeedback | .viewTransactions | .viewDetails
  | .viewAssignedLoans | .viewCustTransactions | .addFeedback => [.u]
  | .deposit | .withdraw | .applyLoan => [.u, .lf]
  | .transfer => [.u, .u, .lf]
  | .addCustomer => [.s, .s, .d, .s, .s, .s, .s, .s]
  | .modifyCustomer | .modifyUser => [.u, .d, .s, .s, .s, .s, .s]
  | .approveRejectLoan => [.llu, .s, .u]
  | .setAccountStatus | .assignLoan => [.u, .u]
  | .addEmployee => [.s, .s, .d, .s, .s, .s, .s, .s, .s]
  | .logout | .processLoans | .viewNonAssignedLoans | .reviewFeedback | .listUsers => []

variable {M : Type} [Strtod M]

open Scanned in
def Op.branch (locals : Locals M) (op payload : Bytes) : Op → Command M
  | .login =>
      let values := sscanf (M := M) [.s, .s] payload
      .login (textAt values 0 locals.username) (textAt values 1 locals.password)
  | .logout => .logout
  | .changePassword =>
      let values := sscanf (M := M) [.u, .s] payload
      .call (.changePassword (unsignedAt values 0 locals.userId)
        (textAt values 1 locals.newpass))
  | .viewBalance => callWithId payload locals.userId .viewBalance
  | .deposit => callWithAmount payload locals .deposit
  | .withdraw => callWithAmount payload locals .withdraw
  | .transfer =>
      let values := sscanf [.u, .u, .lf] payload
      if values.length = 3 then
        .call (.transfer (unsignedAt values 0 0) (unsignedAt values 1 0)
          (doubleAt values 2 locals.amount))
      else .invalidPayload op
  | .applyLoan => callWithAmount payload locals .applyLoan
  | .viewLoan => callWithId payload locals.userId .viewLoan
  | .addFeedback =>
      let values := sscanf (M := M) [.u] payload
      if values.length = 1 then
        .call (.addFeedback (unsignedAt values 0 0) (afterBlank payload))
      else .invalidPayload op
  | .viewFeedback => callWithId payload locals.userId .viewFeedback
  | .viewTransactions => callWithId payload locals.userId .viewTransactions
  | .viewDetails => callWithId payload locals.userId .viewDetails
  | .addCustomer =>
      let values := sscanf (M := M) [.s, .s, .d, .s, .s, .s, .s, .s] payload
      if values.length = 8 then
        .call (.addCustomer (newUser values locals) (textAt values 6 []) (textAt values 7 []))
      else .invalidPayload op
  | .modifyCustomer =>
      let values := sscanf (M := M) [.u, .d, .s, .s, .s, .s, .s] payload
      if values.length = 7 then
        .call (.modifyCustomer (unsignedAt values 0 0) (detailsAt values locals))
      else .invalidPayload op
  | .processLoans => .call .processLoans
  | .approveRejectLoan =>
      let values := sscanf (M := M) [.llu, .s, .u] payload
      .call (.approveRejectLoan (unsignedAt values 0 locals.loanId)
        (textAt values 1 locals.action) (unsignedAt values 2 locals.empId))
  | .viewAssignedLoans => callWithId payload locals.empId .viewAssignedLoans
  | .viewCustTransactions => callWithId payload locals.custId .viewCustTransactions
  | .setAccountStatus =>
      let values := sscanf (M := M) [.u, .u] payload
      .call (.setAccountStatus (unsignedAt values 0 locals.custId)
        ((unsignedAt values 1 locals.status : Int).bmod (2 ^ 32)))
  | .viewNonAssignedLoans => .call .viewNonAssignedLoans
  | .assignLoan =>
      let values := sscanf (M := M) [.u, .u] payload
      .call (.assignLoan (unsignedAt values 0 locals.loanId)
        (unsignedAt values 1 locals.empId))
  | .reviewFeedback => .call .reviewFeedback
  | .addEmployee =>
      let values := sscanf (M := M) [.s, .s, .d, .s, .s, .s, .s, .s, .s] payload
      if values.length = 9 then
        .call (.addEmployee
          { firstName := textAt values 0 []
            lastName := textAt values 1 []
            age := signedAt values 2 locals.age
            address := textAt values 3 []
            email := textAt values 5 []
            phone := textAt values 6 [] }
          (textAt values 4 []) (textAt values 7 []) (textAt values 8 []))
      else .invalidPayload op
  | .modifyUser =>
      let values := sscanf (M := M) [.u, .d, .s, .s, .s, .s, .s] payload
      if values.length = 6 then
        .call (.modifyUser (unsignedAt values 0 0)
          { detailsAt values locals with phone := textAt values 6 locals.phone })
      else .invalidPayload op
  | .listUsers => .call .listUsers
  | .changeRole =>
      let values := sscanf (M := M) [.u, .s] payload
      .call (.changeRole (unsignedAt values 0 locals.userId) (textAt values 1 locals.role))

def Op.all : List Op :=
  [.login, .logout, .changePassword, .viewBalance, .deposit, .withdraw, .transfer, .applyLoan,
    .viewLoan, .addFeedback, .viewFeedback, .viewTransactions, .viewDetails, .addCustomer,
    .modifyCustomer, .processLoans, .approveRejectLoan, .viewAssignedLoans,
    .viewCustTransactions, .setAccountStatus, .viewNonAssignedLoans, .assignLoan,
    .reviewFeedback, .addEmployee, .modifyUser, .listUsers, .changeRole]

def route (locals : Locals M) (op payload : Bytes) : List Op → Command M
  | [] => .unknown
  | o :: ops => if op = o.name then o.branch locals op payload else route locals op payload ops

theorem dispatch_eq_route (locals : Locals M) (op payload : Bytes) :
    dispatch locals op payload = route locals op payload Op.all := rfl

private theorem route_of_mem {o : Op} {ops : List Op} (hnodup : (ops.map Op.name).Nodup)
    (h : o ∈ ops) (locals : Locals M) (payload : Bytes) :
    route locals o.name payload ops = o.branch locals o.name payload := by
  induction ops with
  | nil => cases h
  | cons first ops ih =>
      rw [List.map_cons, List.nodup_cons] at hnodup
      rw [route]
      rcases List.mem_cons.mp h with rfl | hmem
      · rw [if_pos rfl]
      · have hne : o.name ≠ first.name :=
          fun heq => hnodup.1 (heq ▸ List.mem_map_of_mem hmem)
        rw [if_neg hne, ih hnodup.2 hmem]

private theorem Op.mem_all (o : Op) : o ∈ Op.all := by cases o <;> decide

private theorem Op.names_nodup : (Op.all.map Op.name).Nodup := by decide +kernel

theorem Op.name_injective : Function.Injective Op.name :=
  fun o o' hname => List.inj_on_of_nodup_map Op.names_nodup o.mem_all o'.mem_all hname

theorem dispatch_op (o : Op) (locals : Locals M) (payload : Bytes) :
    dispatch locals o.name payload = o.branch locals o.name payload := by
  rw [dispatch_eq_route, route_of_mem Op.names_nodup o.mem_all]

theorem route_of_no_op {op : Bytes} (h : ∀ o : Op, o.name ≠ op) (locals : Locals M)
    (payload : Bytes) (ops : List Op) : route locals op payload ops = .unknown := by
  induction ops with
  | nil => rfl
  | cons o ops ih => rw [route, if_neg (h o).symm, ih]

end BankingSystem
