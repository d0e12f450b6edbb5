import BankingSystem.Clients.Interleaving
import Mathlib.Data.Fin.VecNotation
import Mathlib.Data.Fintype.Basic
import Mathlib.Tactic.FinCases

/-!
# Clients that create users at the same time

The id of a new user is drawn in one step and used in a later one, which updates
in place when the id exists already.  As long as every id is still fresh when its
record is written, no creation meets another.
-/

namespace BankingSystem

open Foundation

variable {ι : Type}

/-! ## What one request does -/

/-- How far a request has come: what it has written so far. -/
inductive Enrolment where
  | idle
  | enrolled (user : UserRec)
  | opened (user : UserRec)
  | paid (userId : Nat) (amount : ℚ)

def Enrolment.user? : Enrolment → Option UserRec
  | .enrolled user | .opened user => some user
  | .idle | .paid _ _ => none

def Enrolment.credit (userId : Nat) : Enrolment → ℚ
  | .paid payee amount => if payee = userId then amount else 0
  | _ => 0

def UserRec.account (user : UserRec) : AccountRec ℚ :=
  ⟨user.userId, user.userId, 0, .active⟩

def Enrolment.open : Enrolment → Enrolment
  | .enrolled user => .opened user
  | g => g

/--
A creation writes one user record and then at most the account of that user; a
deposit goes to one of the `existing` accounts.
-/
def creationProtocol (existing : Nat → Prop) : Protocol (Db ℚ) Enrolment where
  allows g
    | .writeUser _ => g = .idle
    | .writeAccount acc => ∃ user, g = .enrolled user ∧ acc = user.account
    | .updateAccount userId (.deposit _) => g = .idle ∧ existing userId
    | .checkUniqueness _ _ _ _ | .generateNewUserId | .time | .readAccount _
    | .appendTransaction _ => True
    | _ => False
  answers _
    | .writeUser _, success => success = true
    | .writeAccount _, success => success = true
    | _, _ => True
  next g
    | .writeUser user, _ => .enrolled user
    | .writeAccount _, _ => g.open
    | .updateAccount userId (.deposit amount), true => .paid userId amount
    | _, _ => g

def Request.paysTo (userId : Nat) : Request ℚ → ℚ
  | .deposit payee amount => if payee = userId then amount else 0
  | _ => 0

def Enrolment.Reached (env : Env) (reply : Reply) (g : Enrolment) : Request ℚ → Prop
  | .addCustomer user username password => ∃ userId now,
      g = .opened (newCustomer env user userId now username password) ∧
        reply = customerAdded (newCustomer env user userId now username password)
  | .addEmployee details roleStr username password => ∃ role userId now,
      staffRole roleStr = some role ∧
        g = .enrolled (newEmployee env details role userId now username password) ∧
        reply = BankingSystem.employeeAdded
          (newEmployee env details role userId now username password) roleStr
  | _ => True

structure Outcome (env : Env) (request : Request ℚ) (g : Enrolment) (reply : Reply) :
    Prop where
  credit : ∀ userId, g.credit userId = if reply.result then request.paysTo userId else 0
  reached : reply.result = true → g.Reached env reply request

section Follows

variable {existing : Nat → Prop} {env : Env}

private theorem outcome_refused {request : Request ℚ} {g : Enrolment} {reply : Reply}
    (hresult : reply.result = false) (hcredit : ∀ userId, g.credit userId = 0) :
    Outcome env request g reply :=
  ⟨fun userId => by rw [hcredit, hresult]; rfl, fun h => by rw [hresult] at h; cases h⟩

private theorem follows_addNewCustomer (user : UserRec) (username password : Bytes) :
    (creationProtocol existing).Follows (Outcome env (.addCustomer user username password))
      .idle (addNewCustomer env user username password) := by
  refine ⟨trivial, fun clash _ => ?_⟩
  cases clash with
  | some field => exact outcome_refused rfl fun _ => rfl
  | none =>
      refine Db.follows_bind trivial fun userId _ => ?_
      refine Db.follows_bind trivial fun now _ => ?_
      refine Db.follows_bind rfl fun success hsuccess => ?_
      cases hsuccess
      refine Db.follows_bind ⟨_, rfl, rfl⟩ fun success hsuccess => ?_
      cases hsuccess
      exact ⟨fun _ => rfl, fun _ => ⟨userId, now, rfl, rfl⟩⟩

private theorem follows_addEmployee (details : Details) (roleStr username password : Bytes) :
    (creationProtocol existing).Follows
      (Outcome env (.addEmployee details roleStr username password)) .idle
      (addEmployee env details roleStr username password) := by
  refine ⟨trivial, fun clash _ => ?_⟩
  cases clash with
  | some field => exact outcome_refused rfl fun _ => rfl
  | none =>
      refine Db.follows_bind trivial fun userId _ => ?_
      refine Db.follows_bind trivial fun now _ => ?_
      cases hrole : staffRole roleStr with
      | none => exact outcome_refused rfl fun _ => rfl
      | some role =>
          refine Db.follows_bind rfl fun success hsuccess => ?_
          cases hsuccess
          exact ⟨fun _ => rfl, fun _ => ⟨role, userId, now, hrole, rfl, rfl⟩⟩

private theorem follows_depositMoney_existing (userId : Nat) (amount : ℚ)
    (hexisting : existing userId) :
    (creationProtocol existing).Follows (Outcome env (.deposit userId amount)) .idle
      (depositMoney userId amount) := by
  unfold depositMoney
  by_cases hpos : amount ≤ 0
  · rw [if_pos hpos]
    exact outcome_refused rfl fun _ => rfl
  · rw [if_neg hpos]
    refine Db.follows_bind ⟨rfl, hexisting⟩ fun success _ => ?_
    cases success with
    | true =>
        refine Db.follows_bind trivial fun now _ => ?_
        exact Db.follows_bind trivial fun _ _ => ⟨fun _ => rfl, fun _ => trivial⟩
    | false =>
        refine Db.follows_bind trivial fun acc _ => ?_
        split
        · split <;> exact outcome_refused rfl fun _ => rfl
        · exact outcome_refused rfl fun _ => rfl

end Follows

/-! ## What the files hold meanwhile -/

/-- The state of the files: the records of `db₀`, and what the requests have written. -/
structure Registry [Fintype ι] (db₀ db : Database ℚ) (g : ι → Enrolment) : Prop where
  users : db₀.userTable <+: db.userTable
  written : ∀ i user, (g i).user? = some user →
    Table.lookup UserRec.userId user.userId db.userTable = some user
  distinct : ∀ i j user user', i ≠ j → (g i).user? = some user →
    (g j).user? = some user' → user.userId ≠ user'.userId
  kept : ∀ userId acc, Table.lookup AccountRec.userId userId db₀.accountTable = some acc →
    Table.lookup AccountRec.userId userId db.accountTable =
      some { acc with balance := acc.balance + ∑ i, (g i).credit userId }
  opened : ∀ i user, g i = .opened user →
    Table.lookup AccountRec.userId user.userId db.accountTable = some user.account ∧
      Table.lookup AccountRec.userId user.userId db₀.accountTable = none

namespace Registry

variable [Fintype ι] {db₀ db db' : Database ℚ} {g : ι → Enrolment} {i : ι}

theorem init (db₀ : Database ℚ) : Registry db₀ db₀ fun _ : ι => .idle where
  users := List.prefix_refl _
  written _ _ h := by cases h
  distinct _ _ _ _ _ h := by cases h
  kept userId acc hacc := by simp [hacc, Enrolment.credit]
  opened _ _ h := by cases h

theorem congr (h : Registry db₀ db g) (husers : db'.userTable = db.userTable)
    (haccounts : db'.accountTable = db.accountTable) : Registry db₀ db' g where
  users := husers ▸ h.users
  written := husers ▸ h.written
  distinct := h.distinct
  kept := haccounts ▸ h.kept
  opened := haccounts ▸ h.opened

variable [DecidableEq ι]

private theorem sum_credit {x : Enrolment} {userId : Nat} (hold : (g i).credit userId = 0)
    (hnew : x.credit userId = 0) :
    ∑ j, (Function.update g i x j).credit userId = ∑ j, (g j).credit userId := by
  rw [sum_comp_update, hold, hnew, sub_zero, add_zero]

theorem writeUser {user : UserRec} (h : Registry db₀ db g) (hidle : g i = .idle)
    (hfresh : ∀ old ∈ db.userTable, old.userId ≠ user.userId)
    (husers : db'.userTable = Table.upsert UserRec.userId user db.userTable)
    (haccounts : db'.accountTable = db.accountTable) :
    Registry db₀ db' (Function.update g i (.enrolled user)) := by
  have happend : db'.userTable = db.userTable ++ [user] := by
    rw [husers, Table.upsert_of_fresh hfresh]
  have hold : ∀ j user', (g j).user? = some user' → user'.userId ≠ user.userId :=
    fun j user' hj => hfresh _ (Table.lookup_mem (h.written j user' hj))
  constructor
  · exact happend ▸ h.users.trans (List.prefix_append _ _)
  · intro j user' hj
    by_cases hji : j = i
    · subst hji
      rw [Function.update_self] at hj
      cases hj
      exact husers ▸ Table.lookup_upsert_self
    · rw [Function.update_of_ne hji] at hj
      rw [happend, Table.lookup_append_singleton, h.written j user' hj, Option.some_or]
  · intro j k user₁ user₂ hjk hj hk
    by_cases hji : j = i
    · subst hji
      rw [Function.update_self] at hj
      rw [Function.update_of_ne (Ne.symm hjk)] at hk
      cases hj
      exact Ne.symm (hold k user₂ hk)
    · rw [Function.update_of_ne hji] at hj
      by_cases hki : k = i
      · subst hki
        rw [Function.update_self] at hk
        cases hk
        exact hold j user₁ hj
      · rw [Function.update_of_ne hki] at hk
        exact h.distinct j k user₁ user₂ hjk hj hk
  · intro userId acc hacc
    rw [haccounts, sum_credit (by rw [hidle]; rfl) rfl]
    exact h.kept userId acc hacc
  · intro j user' hj
    by_cases hji : j = i
    · subst hji
      rw [Function.update_self] at hj
      cases hj
    · rw [Function.update_of_ne hji] at hj
      exact haccounts ▸ h.opened j user' hj

theorem writeAccount {user : UserRec} (h : Registry db₀ db g) (henrolled : g i = .enrolled user)
    (hfresh : ∀ old ∈ db.accountTable, old.userId ≠ user.userId)
    (husers : db'.userTable = db.userTable)
    (haccounts : db'.accountTable =
      Table.upsert AccountRec.userId user.account db.accountTable) :
    Registry db₀ db' (Function.update g i (.opened user)) := by
  have huser : (g i).user? = some user := by rw [henrolled]; rfl
  have hnone : Table.lookup AccountRec.userId user.userId db₀.accountTable = none := by
    by_contra hsome
    obtain ⟨acc, hacc⟩ := Option.ne_none_iff_exists'.mp hsome
    have hkey : acc.userId = user.userId := Table.lookup_key hacc
    exact hfresh _ (Table.lookup_mem (h.kept user.userId acc hacc)) hkey
  have happend : db'.accountTable = db.accountTable ++ [user.account] := by
    rw [haccounts, Table.upsert_of_fresh hfresh]
  have huser? : ∀ j, (Function.update g i (.opened user) j).user? = (g j).user? := by
    intro j
    by_cases hji : j = i
    · subst hji
      rw [Function.update_self, huser]
      rfl
    · rw [Function.update_of_ne hji]
  constructor
  · exact husers ▸ h.users
  · intro j user' hj
    rw [huser?] at hj
    exact husers ▸ h.written j user' hj
  · intro j k user₁ user₂ hjk hj hk
    rw [huser?] at hj hk
    exact h.distinct j k user₁ user₂ hjk hj hk
  · intro userId acc hacc
    rw [happend, Table.lookup_append_singleton, sum_credit (by rw [henrolled]; rfl) rfl,
      h.kept userId acc hacc, Option.some_or]
  · intro j user' hj
    by_cases hji : j = i
    · subst hji
      rw [Function.update_self] at hj
      cases hj
      have hself : Table.lookup AccountRec.userId user.account.userId
          (Table.upsert AccountRec.userId user.account db.accountTable) =
          some user.account := Table.lookup_upsert_self
      exact ⟨haccounts ▸ hself, hnone⟩
    · rw [Function.update_of_ne hji] at hj
      obtain ⟨hlookup, hnew⟩ := h.opened j user' hj
      exact ⟨by rw [happend, Table.lookup_append_singleton, hlookup, Option.some_or], hnew⟩

theorem deposit {userId : Nat} {amount : ℚ} (h : Registry db₀ db g) (hidle : g i = .idle)
    (hexisting : userId ∈ db₀.accountTable.map AccountRec.userId)
    (husers : db'.userTable = db.userTable)
    (haccount : db.tables.updateAccount userId (.deposit amount) = some db'.tables) :
    Registry db₀ db' (Function.update g i (.paid userId amount)) := by
  obtain ⟨old, new, happly, hreplaced⟩ := Tables.updateAccount_replaced haccount
  obtain ⟨-, rfl⟩ := depositModifier_eq_some_iff.mp happly
  have huser? : ∀ j user, (Function.update g i (.paid userId amount) j).user? = some user →
      j ≠ i ∧ (g j).user? = some user := by
    intro j user hj
    by_cases hji : j = i
    · subst hji
      rw [Function.update_self] at hj
      cases hj
    · rw [Function.update_of_ne hji] at hj
      exact ⟨hji, hj⟩
  constructor
  · exact husers ▸ h.users
  · intro j user hj
    exact husers ▸ h.written j user (huser? j user hj).2
  · intro j k user₁ user₂ hjk hj hk
    exact h.distinct j k user₁ user₂ hjk (huser? j user₁ hj).2 (huser? k user₂ hk).2
  · intro payee acc hacc
    have hbefore := h.kept payee acc hacc
    rw [sum_comp_update, hidle]
    by_cases hpayee : payee = userId
    · subst hpayee
      have hold := hreplaced.before.symm.trans hbefore
      cases hold
      refine hreplaced.after.trans ?_
      simp [Enrolment.credit, add_assoc]
    · refine (hreplaced.others payee hpayee).trans (hbefore.trans ?_)
      simp [Enrolment.credit, Ne.symm hpayee]
  · intro j user hj
    have hji : j ≠ i := by
      rintro rfl
      rw [Function.update_self] at hj
      cases hj
    rw [Function.update_of_ne hji] at hj
    obtain ⟨hlookup, hnone⟩ := h.opened j user hj
    have hne : user.userId ≠ userId := by
      rintro rfl
      obtain ⟨acc, hacc, hid⟩ := List.mem_map.mp hexisting
      exact Table.lookup_eq_none_iff.mp hnone acc hacc hid
    exact ⟨(hreplaced.others user.userId hne).trans hlookup, hnone⟩

end Registry

private theorem creation_sound [Fintype ι] [DecidableEq ι] (db₀ : Database ℚ) :
    Protocol.Sound
      (fun _ : ι => creationProtocol (· ∈ db₀.accountTable.map AccountRec.userId))
      Db.shared (fun db g => Registry db₀ db g) FreshIds where
  step := by
    intro db db' g i cmd answer h hfresh hallow hexec
    obtain ⟨rfl, rfl⟩ := Db.shared_eq_some_iff.mp hexec
    have hsame : (Db.exec cmd db).2.userTable = db.userTable →
        (Db.exec cmd db).2.accountTable = db.accountTable →
        Registry db₀ (Db.exec cmd db).2 (Function.update g i (g i)) := by
      intro husers haccounts
      rw [Function.update_eq_self]
      exact h.congr husers haccounts
    cases cmd with
    | writeUser user => exact ⟨rfl, h.writeUser hallow (hfresh.1 user rfl) rfl rfl⟩
    | writeAccount acc =>
        obtain ⟨user, henrolled, rfl⟩ := hallow
        have hopen : (g i).open = .opened user := by rw [henrolled]; rfl
        have hregistry : Registry db₀ (Db.exec (.writeAccount user.account) db).2
            (Function.update g i (g i).open) := by
          rw [hopen]
          exact h.writeAccount henrolled (hfresh.2 user.account rfl) rfl rfl
        exact ⟨rfl, hregistry⟩
    | updateAccount userId modifier =>
        cases modifier with
        | deposit amount =>
            obtain ⟨hidle, hexisting⟩ := hallow
            rcases Db.exec_updateAccount userId (.deposit amount) db with
              ⟨hexec, -⟩ | ⟨db', hexec, haccount⟩
            · rw [hexec] at hsame ⊢
              exact ⟨trivial, hsame rfl rfl⟩
            · have husers : (Db.exec (.updateAccount userId (.deposit amount)) db).2.userTable =
                  db.userTable := Db.exec_userTable db nofun nofun
              rw [hexec] at husers ⊢
              exact ⟨trivial, h.deposit hidle hexisting husers haccount⟩
        | _ => exact hallow.elim
    | checkUniqueness | readAccount | generateNewUserId | time | appendTransaction =>
        exact ⟨trivial, hsame rfl rfl⟩
    | _ => exact hallow.elim

/-! ## In every interleaving -/

def Request.creates {M : Type} : Request M → Bool
  | .addCustomer _ _ _ | .addEmployee _ _ _ _ => true
  | _ => false

def Request.Created (env : Env) (reply : Reply) (userId : Nat) (db : Database ℚ) :
    Request ℚ → Prop
  | .addCustomer user username password => ∃ now,
      let record := newCustomer env user userId now username password
      reply = customerAdded record ∧
        Table.lookup UserRec.userId userId db.userTable = some record ∧
        Table.lookup AccountRec.userId userId db.accountTable =
          some ⟨userId, userId, 0, .active⟩
  | .addEmployee details roleStr username password => ∃ role now,
      let record := newEmployee env details role userId now username password
      staffRole roleStr = some role ∧
        reply = BankingSystem.employeeAdded record roleStr ∧
        Table.lookup UserRec.userId userId db.userTable = some record
  | _ => True

/--
Any number of creations and of deposits to existing accounts, interleaved in any
way, all of which have returned.  If every user and every account record was written
under an id that was still fresh, the creations that answered 1 got distinct ids and their
records are in the files, and every older record is still there, an account with
exactly the deposits that answered 1 added.
-/
theorem creations_do_not_collide {ι : Type} [Fintype ι] [DecidableEq ι] (env : Env)
    (requests : ι → Request ℚ) (db : Database ℚ) (schedule : List ι)
    (pool : Pool (Db ℚ) (Database ℚ) ι Reply) (replies : ι → Reply)
    (hrequests : ∀ i, (requests i).creates = true ∨ ∃ userId amount,
      requests i = .deposit userId amount ∧
        userId ∈ db.accountTable.map AccountRec.userId)
    (hfresh : Pool.Along Db.shared (Pool.Guard FreshIds) schedule
      ⟨db, fun i => (requests i).program env⟩)
    (hrun : Pool.run Db.shared schedule ⟨db, fun i => (requests i).program env⟩ =
      some pool)
    (hret : ∀ i, pool.Returned i (replies i)) :
    (∃ received : ι → Nat,
      (∀ i j, i ≠ j → (requests i).creates = true → (replies i).result = true →
        (requests j).creates = true → (replies j).result = true →
        received i ≠ received j) ∧
      ∀ i, (replies i).result = true →
        (requests i).Created env (replies i) (received i) pool.state) ∧
    db.userTable <+: pool.state.userTable ∧
    ∀ userId acc, Table.lookup AccountRec.userId userId db.accountTable = some acc →
      Table.lookup AccountRec.userId userId pool.state.accountTable =
        some { acc with balance := acc.balance +
          ∑ i, if (replies i).result then (requests i).paysTo userId else 0 } := by
  have hfollows : ∀ i, (creationProtocol (· ∈ db.accountTable.map AccountRec.userId)).Follows
      (Outcome env (requests i)) .idle ((requests i).program env) := by
    intro i
    rcases hrequests i with hcreates | ⟨userId, amount, hdeposit, hexisting⟩
    · cases hrequest : requests i with
      | addCustomer user username password => exact follows_addNewCustomer user username password
      | addEmployee details roleStr username password =>
          exact follows_addEmployee details roleStr username password
      | _ =>
          rw [hrequest] at hcreates
          cases hcreates
    · rw [hdeposit]
      exact follows_depositMoney_existing userId amount hexisting
  obtain ⟨g, hexplains⟩ := (creation_sound db).run
    ⟨Registry.init db, hfollows⟩ hfresh hrun
  have hregistry : Registry db pool.state g := hexplains.1
  have houtcome : ∀ i, Outcome env (requests i) (g i) (replies i) :=
    fun i => hexplains.returned (hret i)
  refine ⟨⟨fun i => (g i).user?.elim 0 UserRec.userId, ?_, ?_⟩, hregistry.users, ?_⟩
  · have hwritten : ∀ i, (requests i).creates = true → (replies i).result = true →
        ∃ user, (g i).user? = some user := by
      intro i hcreates hresult
      have hreached := (houtcome i).reached hresult
      cases hrequest : requests i with
      | addCustomer =>
          rw [hrequest] at hreached
          obtain ⟨userId, now, hg, -⟩ := hreached
          exact ⟨_, by rw [hg]; rfl⟩
      | addEmployee =>
          rw [hrequest] at hreached
          obtain ⟨role, userId, now, -, hg, -⟩ := hreached
          exact ⟨_, by rw [hg]; rfl⟩
      | _ =>
          rw [hrequest] at hcreates
          cases hcreates
    intro i j hij hi hiresult hj hjresult
    obtain ⟨user, huser⟩ := hwritten i hi hiresult
    obtain ⟨user', huser'⟩ := hwritten j hj hjresult
    dsimp only
    rw [huser, huser']
    exact hregistry.distinct i j user user' hij huser huser'
  · intro i hresult
    have hreached := (houtcome i).reached hresult
    dsimp only
    cases hrequest : requests i with
    | addCustomer user username password =>
        rw [hrequest] at hreached
        obtain ⟨userId, now, hg, hreply⟩ := hreached
        rw [hg]
        exact ⟨now, hreply, hregistry.written i _ (by rw [hg]; rfl),
          (hregistry.opened i _ hg).1⟩
    | addEmployee details roleStr username password =>
        rw [hrequest] at hreached
        obtain ⟨role, userId, now, hrole, hg, hreply⟩ := hreached
        rw [hg]
        exact ⟨role, now, hrole, hreply, hregistry.written i _ (by rw [hg]; rfl)⟩
    | _ => trivial
  · intro userId acc hacc
    rw [hregistry.kept userId acc hacc]
    simp only [(houtcome _).credit]

def twoCustomers : Fin 2 → Request ℚ :=
  ![.addCustomer { UserRec.zero with email := .ofText (str "a@x"), phone := .ofText (str "1") }
      (str "ann") (str "pw"),
    .addCustomer { UserRec.zero with email := .ofText (str "b@x"), phone := .ofText (str "2") }
      (str "bob") (str "pw")]

def twoCreations : Pool (Db ℚ) (Database ℚ) (Fin 2) Reply :=
  ⟨Database.empty fun _ => 1, fun i => (twoCustomers i).program .plain⟩

/-- One after the other they get the ids 1001 and 1002. -/
theorem creations_do_not_collide_in_turn :
    ∃ (pool : Pool (Db ℚ) (Database ℚ) (Fin 2) Reply) (received : Fin 2 → Nat),
      received 0 ≠ received 1 ∧ ∀ i, (twoCustomers i).Created .plain
        (![.say true (str "Customer Added (ID: 1001, Username: ann)"),
          .say true (str "Customer Added (ID: 1002, Username: bob)")] i)
        (received i) pool.state := by
  obtain ⟨pool, hrun, hret⟩ := Pool.exists_run Db.shared [0, 0, 0, 0, 0, 1, 1, 1, 1, 1]
    twoCreations (![.say true (str "Customer Added (ID: 1001, Username: ann)"),
      .say true (str "Customer Added (ID: 1002, Username: bob)")]) (by decide +kernel)
  obtain ⟨⟨received, hne, hcreated⟩, -⟩ := creations_do_not_collide .plain twoCustomers
    (Database.empty fun _ => 1) _ pool _ (fun i => .inl (by fin_cases i <;> rfl))
    (by decide +kernel) hrun hret
  exact ⟨pool, received, hne 0 1 (by decide) rfl rfl rfl rfl,
    fun i => hcreated i (by fin_cases i <;> rfl)⟩

/-- Both draw the id 1001, and the second record is written over the first. -/
theorem creations_collide :
    ¬ ∀ schedule pool (replies : Fin 2 → Reply),
      Pool.run Db.shared schedule twoCreations = some pool →
      (∀ i, pool.Returned i (replies i)) → (∀ i, (replies i).result = true) →
      ∃ user ∈ pool.state.userTable, user.username.text = str "ann" := by
  intro h
  obtain ⟨pool, hrun, hret⟩ := Pool.exists_run Db.shared [0, 0, 1, 1, 0, 0, 0, 1, 1, 1]
    twoCreations (![.say true (str "Customer Added (ID: 1001, Username: ann)"),
      .say true (str "Customer Added (ID: 1001, Username: bob)")]) (by decide +kernel)
  obtain ⟨user, huser, hann⟩ := h _ pool _ hrun hret (by decide)
  have hlost : ((Pool.run Db.shared [0, 0, 1, 1, 0, 0, 0, 1, 1, 1] twoCreations).map
      fun pool => pool.state.userTable.all fun user => user.username.text ≠ str "ann") =
      some true := by
    decide +kernel
  rw [hrun, Option.map_some, Option.some_inj, List.all_eq_true] at hlost
  simpa [hann] using hlost user huser

end BankingSystem
