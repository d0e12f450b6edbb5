import BankingSystem.Requests.Request

/-!
# The bank as five tables

The abstract state is the contents of the five files.  `Step` says, once for
every request, everything that it can do to them: it is refused and changes
nothing, it only looks, or it takes effect under the conditions stated.
Invariants of whole runs are proved by cases on `Step`.
-/

namespace BankingSystem

open Foundation

structure Tables (M : Type) where
  users : List UserRec
  accounts : List (AccountRec M)
  transactions : List (TxnRec M)
  loans : List (LoanRec M)
  feedback : List FeedbackRec

variable {M : Type} [Amount M]

def Database.tables (db : Database M) : Tables M :=
  ⟨db.userTable, db.accountTable, db.txnTable, db.loanTable, db.feedbackTable⟩

namespace Tables

def nextUserId (t : Tables M) : Nat := 1001 + t.users.length

def log (t : Tables M) (fromAccount toAccount : Nat) (amount : M) (now : Time)
    (narration : Bytes) : Tables M :=
  { t with transactions := t.transactions ++
      [⟨t.transactions.length + 1, fromAccount, toAccount, amount, now, narration⟩] }

def withAccounts (t : Tables M) (accounts : List (AccountRec M)) : Tables M :=
  { t with accounts }

def withLoan (t : Tables M) (i : Nat) (loan : LoanRec M) : Tables M :=
  { t with loans := t.loans.set i loan }

def withUser (t : Tables M) (i : Nat) (user : UserRec) : Tables M :=
  { t with users := t.users.set i user }

def updateAccount (t : Tables M) (userId : Nat) (modifier : AccountModifier M) :
    Option (Tables M) :=
  (Table.modify AccountRec.userId userId modifier.apply t.accounts).map t.withAccounts

def loanAt (t : Tables M) (loanId i : Nat) (loan : LoanRec M) : Prop :=
  Table.locate LoanRec.loanId loanId t.loans = some i ∧ t.loans[i]? = some loan

def userAt (t : Tables M) (userId i : Nat) (user : UserRec) : Prop :=
  Table.locate UserRec.userId userId t.users = some i ∧ t.users[i]? = some user

omit [Amount M] in
theorem userAt.unique {t : Tables M} {userId i j : Nat} {user other : UserRec}
    (h : t.userAt userId i user) (h' : t.userAt userId j other) : i = j ∧ user = other := by
  obtain rfl : i = j := Option.some_inj.mp (h.1.symm.trans h'.1)
  exact ⟨rfl, Option.some_inj.mp (h.2.symm.trans h'.2)⟩

def unique (t : Tables M) (username email phone : Bytes) (currentUserId : Nat) : Prop :=
  firstClash username email phone currentUserId t.users = none

end Tables

/-! ## What an account update does -/

/-- `t'` is `t` with the account record `acc` of `userId` replaced by `acc'`. -/
structure Replaced (t : Tables M) (userId : Nat) (acc acc' : AccountRec M)
    (t' : Tables M) : Prop where
  before : Table.lookup AccountRec.userId userId t.accounts = some acc
  after : Table.lookup AccountRec.userId userId t'.accounts = some acc'
  others : ∀ u, u ≠ userId →
    Table.lookup AccountRec.userId u t'.accounts =
      Table.lookup AccountRec.userId u t.accounts
  mem : ∀ a ∈ t'.accounts, a = acc' ∨ a ∈ t.accounts
  keys : t'.accounts.map AccountRec.userId = t.accounts.map AccountRec.userId
  frame : t' = t.withAccounts t'.accounts

namespace Tables

variable {t t' : Tables M} {userId : Nat} {modifier : AccountModifier M}

theorem updateAccount_replaced (h : t.updateAccount userId modifier = some t') :
    ∃ acc acc', modifier.apply acc = some acc' ∧ Replaced t userId acc acc' t' := by
  obtain ⟨accounts, hmod, rfl⟩ := Option.map_eq_some_iff.mp h
  obtain ⟨i, acc, acc', hloc, hacc, happly, rfl⟩ := Table.modify_eq_some_iff.mp hmod
  have hkey : acc'.userId = acc.userId := AccountModifier.apply_userId happly
  have hlookup : Table.lookup AccountRec.userId userId t.accounts = some acc := by
    rw [Table.lookup_of_locate hloc, hacc]
  have huser : acc'.userId = userId := hkey.trans (Table.lookup_key hlookup)
  refine ⟨acc, acc', happly, hlookup, Table.lookup_set_self hloc huser, ?_,
    fun a => Table.mem_set, Table.map_key_set hacc hkey, rfl⟩
  exact fun u hne => Table.lookup_set_ne hloc huser hne

theorem updateAccount_getElem? {j : Nat} {acc : AccountRec M}
    (h : t.updateAccount userId modifier = some t') (hacc : t.accounts[j]? = some acc) :
    ∃ acc', t'.accounts[j]? = some acc' ∧
      (acc' = acc ∨ acc.userId = userId ∧ modifier.apply acc = some acc') := by
  obtain ⟨accounts, hmod, rfl⟩ := Option.map_eq_some_iff.mp h
  obtain ⟨i, old, new, hloc, hold, happly, rfl⟩ := Table.modify_eq_some_iff.mp hmod
  have hget := Table.getElem?_set_of_locate (j := j) (r := new) hloc
  by_cases hj : j = i
  · subst hj
    have hsame : old = acc := Option.some.inj (hold.symm.trans hacc)
    subst hsame
    obtain ⟨r, hr, hkey⟩ := Table.getElem?_of_locate hloc
    rw [hacc] at hr
    cases hr
    exact ⟨new, hget.trans (if_pos rfl), .inr ⟨hkey, happly⟩⟩
  · exact ⟨acc, hget.trans ((if_neg hj).trans hacc), .inl rfl⟩

theorem updateAccount_transactions (h : t.updateAccount userId modifier = some t') :
    t'.transactions = t.transactions := by
  obtain ⟨_, _, -, hreplaced⟩ := updateAccount_replaced h
  rw [hreplaced.frame]
  rfl

theorem updateAccount_loans (h : t.updateAccount userId modifier = some t') :
    t'.loans = t.loans := by
  obtain ⟨_, _, -, hreplaced⟩ := updateAccount_replaced h
  rw [hreplaced.frame]
  rfl

private theorem updateAccount_users (h : t.updateAccount userId modifier = some t') :
    t'.users = t.users := by
  obtain ⟨_, _, -, hreplaced⟩ := updateAccount_replaced h
  rw [hreplaced.frame]
  rfl

theorem updateAccount_eq_none_iff :
    t.updateAccount userId modifier = none ↔
      ∀ acc, Table.lookup AccountRec.userId userId t.accounts = some acc →
        modifier.apply acc = none := by
  rw [updateAccount, Option.map_eq_none_iff, Table.modify_eq_none_iff]

theorem updateAccount_eq_some_iff :
    t.updateAccount userId modifier = some t' ↔ ∃ i acc acc',
      Table.locate AccountRec.userId userId t.accounts = some i ∧
        t.accounts[i]? = some acc ∧ modifier.apply acc = some acc' ∧
        t' = t.withAccounts (t.accounts.set i acc') := by
  rw [updateAccount, Option.map_eq_some_iff]
  constructor
  · rintro ⟨accounts, hmodify, rfl⟩
    obtain ⟨i, acc, acc', hloc, hacc, happly, rfl⟩ := Table.modify_eq_some_iff.mp hmodify
    exact ⟨i, acc, acc', hloc, hacc, happly, rfl⟩
  · rintro ⟨i, acc, acc', hloc, hacc, happly, rfl⟩
    exact ⟨_, Table.modify_eq_some_iff.mpr ⟨i, acc, acc', hloc, hacc, happly, rfl⟩, rfl⟩

theorem updateAccount_length (h : t.updateAccount userId modifier = some t') :
    t'.accounts.length = t.accounts.length := by
  obtain ⟨acc, acc', -, hreplaced⟩ := updateAccount_replaced h
  simpa using congrArg List.length hreplaced.keys

omit [Amount M] in
theorem withBalance_eq_self_iff {i : Nat} {acc : AccountRec M} {balance : M}
    (hacc : t.accounts[i]? = some acc) :
    t.withAccounts (t.accounts.set i { acc with balance }) = t ↔ balance = acc.balance := by
  obtain ⟨hi, hget⟩ := List.getElem?_eq_some_iff.mp hacc
  constructor
  · intro h
    have hsame := congrArg (fun t : Tables M => t.accounts[i]?) h
    simp only [withAccounts, List.getElem?_set_self hi, hacc] at hsame
    exact congrArg AccountRec.balance (Option.some.inj hsame)
  · rintro rfl
    have hsame : t.accounts.set i acc = t.accounts := by
      rw [← hget, List.set_getElem_self]
    rw [hsame]
    rfl

/-! ### Active accounts -/

def hasActive (t : Tables M) (userId : Nat) : Prop :=
  ∃ acc, Table.lookup AccountRec.userId userId t.accounts = some acc ∧
    acc.active = .active

variable {amount : M}

theorem hasActive_of_deposit (h : t.updateAccount userId (.deposit amount) = some t') :
    t.hasActive userId := by
  obtain ⟨acc, acc', happly, hreplaced⟩ := updateAccount_replaced h
  exact ⟨acc, hreplaced.before, (depositModifier_eq_some_iff.mp happly).1⟩

theorem hasActive_of_withdraw (h : t.updateAccount userId (.withdraw amount) = some t') :
    t.hasActive userId := by
  obtain ⟨acc, acc', happly, hreplaced⟩ := updateAccount_replaced h
  exact ⟨acc, hreplaced.before, (withdrawModifier_eq_some_iff.mp happly).1⟩

theorem updateAccount_of_apply {acc acc' : AccountRec M}
    (hacc : Table.lookup AccountRec.userId userId t.accounts = some acc)
    (happly : modifier.apply acc = some acc') :
    ∃ t', t.updateAccount userId modifier = some t' := by
  cases h : t.updateAccount userId modifier with
  | some t' => exact ⟨t', rfl⟩
  | none =>
      rw [updateAccount_eq_none_iff.mp h acc hacc] at happly
      cases happly

theorem deposit_of_hasActive (amount : M) (h : t.hasActive userId) :
    ∃ t', t.updateAccount userId (.deposit amount) = some t' := by
  obtain ⟨acc, hacc, hactive⟩ := h
  exact updateAccount_of_apply hacc (depositModifier_eq_some_iff.mpr ⟨hactive, rfl⟩)

end Tables

def Request.readOnly : Request M → Bool
  | .login _ _ | .viewBalance _ | .viewLoan _ | .viewFeedback _
  | .viewTransactions _ | .viewDetails _ | .processLoans | .viewAssignedLoans _
  | .viewCustTransactions _ | .viewNonAssignedLoans | .listUsers => true
  | _ => false

open Tables

/--
`Step env times t request result t'`: serving `request` on the tables `t` can
return `result` and leave `t'`.  `times` are the values `time(NULL)` may return.
-/
inductive Step (env : Env) (times : Set Time) (t : Tables M) :
    Request M → Bool → Tables M → Prop
  | refused (request) : Step env times t request false t
  | looked {request} (hread : request.readOnly = true) :
      Step env times t request true t
  | deposited {userId amount now t'} (hpos : ¬ amount ≤ 0) (hnow : now ∈ times)
      (haccount : t.updateAccount userId (.deposit amount) = some t') :
      Step env times t (.deposit userId amount) true
        (t'.log 0 userId amount now (str "deposit"))
  | withdrew {userId amount now t'} (hpos : ¬ amount ≤ 0) (hnow : now ∈ times)
      (haccount : t.updateAccount userId (.withdraw amount) = some t') :
      Step env times t (.withdraw userId amount) true
        (t'.log userId 0 amount now (str "withdraw"))
  | transferred {fromId toId amount now t₁ t₂} (hne : fromId ≠ toId)
      (hpos : ¬ amount ≤ 0) (hnow : now ∈ times)
      (hfrom : t.updateAccount fromId (.withdraw amount) = some t₁)
      (hto : t₁.updateAccount toId (.deposit amount) = some t₂) :
      Step env times t (.transfer fromId toId amount) true
        ((t₂.log fromId toId amount now (str "transfer_out")).log fromId toId amount
          now (str "transfer_in"))
  | loanApplied {userId amount now} (hpos : ¬ amount ≤ 0) (hnow : now ∈ times) :
      Step env times t (.applyLoan userId amount) true
        { t with loans := t.loans ++
            [⟨t.loans.length + 1, userId, amount, .pending, 0, now, 0⟩] }
  | loanAssigned {loanId empId i loan emp} (hloan : t.loanAt loanId i loan)
      (hpending : loan.status = .pending)
      (hemp : Table.lookup UserRec.userId empId t.users = some emp)
      (hrole : emp.role = .employee) :
      Step env times t (.assignLoan loanId empId) true
        (t.withLoan i { loan with assignedTo := empId, status := .assigned })
  | loanApproved {loanId empId i loan logged now t'} (hloan : t.loanAt loanId i loan)
      (hassigned : loan.status = .assigned) (hemp : loan.assignedTo = empId)
      (hlogged : logged ∈ times) (hnow : now ∈ times)
      (haccount : t.updateAccount loan.userId (.deposit loan.amount) = some t') :
      Step env times t (.approveRejectLoan loanId (str "approve") empId) true
        ((t'.log 0 loan.userId loan.amount logged (str "loan_deposit")).withLoan i
          { loan with status := .approved, processedAt := now })
  | loanRejected {loanId empId i loan now} (hloan : t.loanAt loanId i loan)
      (hassigned : loan.status = .assigned) (hemp : loan.assignedTo = empId)
      (hnow : now ∈ times) :
      Step env times t (.approveRejectLoan loanId (str "reject") empId) true
        (t.withLoan i { loan with status := .rejected, processedAt := now })
  | statusSet {custId status t'}
      (haccount : t.updateAccount custId (.setStatus status) = some t') :
      Step env times t (.setAccountStatus custId status) true t'
  | feedbackAdded {userId msg now} (hnow : now ∈ times) :
      Step env times t (.addFeedback userId msg) true
        { t with feedback := t.feedback ++
            [⟨t.feedback.length + 1, userId, .ofText msg, 0, .zero _, now⟩] }
  | feedbackReviewed :
      Step env times t .reviewFeedback true
        { t with feedback := t.feedback.map FeedbackRec.markReviewed }
  | customerAdded {user username password now}
      (hunique : t.unique username user.email.text user.phone.text 0)
      (hnow : now ∈ times) :
      Step env times t (.addCustomer user username password) true
        { t with
          users := Table.upsert UserRec.userId
            (newCustomer env user t.nextUserId now username password) t.users
          accounts := Table.upsert AccountRec.userId
            ⟨t.nextUserId, t.nextUserId, 0, .active⟩ t.accounts }
  | employeeAdded {details roleStr role username password now}
      (hunique : t.unique username details.email details.phone 0)
      (hrole : staffRole roleStr = some role) (hnow : now ∈ times) :
      Step env times t (.addEmployee details roleStr username password) true
        { t with
          users := Table.upsert UserRec.userId
            (newEmployee env details role t.nextUserId now username password) t.users }
  | customerModified {userId details i user} (huser : t.userAt userId i user)
      (hrole : user.role = .customer)
      (hunique : t.unique user.username.text details.email details.phone user.userId) :
      Step env times t (.modifyCustomer userId details) true
        (t.withUser i (user.setDetails details))
  | userModified {userId details i user} (huser : t.userAt userId i user)
      (hunique : t.unique user.username.text details.email details.phone user.userId) :
      Step env times t (.modifyUser userId details) true
        (t.withUser i (user.setDetails details))
  | roleChanged {userId roleStr i user role} (huser : t.userAt userId i user)
      (hcustomer : user.role ≠ .customer) (hadmin : user.role ≠ .admin)
      (hrole : (roleStr = str "employee" ∧ role = .employee) ∨
        (roleStr = str "manager" ∧ role = .manager)) :
      Step env times t (.changeRole userId roleStr) true
        (t.withUser i { user with role })
  | passwordChanged {userId newpass i user} (huser : t.userAt userId i user) :
      Step env times t (.changePassword userId newpass) true
        (t.withUser i { user with
          passwordHash := generatePasswordHash env newpass user.passwordHash })

def Request.writesUsers : Request M → Bool
  | .addCustomer _ _ _ | .addEmployee _ _ _ _ | .modifyCustomer _ _ | .modifyUser _ _
  | .changeRole _ _ | .changePassword _ _ => true
  | _ => false

theorem Step.users_eq {env : Env} {times : Set Time} {t t' : Tables M} {request : Request M}
    {result : Bool} (h : Step env times t request result t')
    (hkeeps : request.writesUsers = false) : t'.users = t.users := by
  cases h with
  | deposited _ _ haccount | withdrew _ _ haccount | loanApproved _ _ _ _ _ haccount
  | statusSet haccount =>
      have husers := updateAccount_users haccount
      exact husers
  | transferred _ _ _ hfrom hto =>
      exact (updateAccount_users hto).trans (updateAccount_users hfrom)
  | customerAdded | employeeAdded | customerModified | userModified | roleChanged
  | passwordChanged => cases hkeeps
  | _ => rfl

end BankingSystem
