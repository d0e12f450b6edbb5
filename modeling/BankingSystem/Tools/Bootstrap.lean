import BankingSystem.Requests.Acceptance
import BankingSystem.Requests.Passwords

/-!
# The first users

`bootstrap` creates four members of staff and two customers in files that may hold
anything already, and prints the passwords for testing when all six are new.
-/

namespace BankingSystem

open Foundation Tables

variable {M : Type}

/-! ## The program -/

inductive Stream where
  | stdout
  | stderr
  deriving DecidableEq

structure Seed where
  heading : Bytes
  details : Details
  /-- A customer has none. -/
  roleStr : Option Bytes
  username : Bytes
  password : Bytes
  deriving DecidableEq

/-- The record of a customer is cleared first and filled in with `strncpy`. -/
def Seed.request (seed : Seed) : Request M :=
  match seed.roleStr with
  | some roleStr => .addEmployee seed.details roleStr seed.username seed.password
  | none => .addCustomer (UserRec.zero.setDetails seed.details) seed.username seed.password

namespace Bootstrap

def seeds : List Seed :=
  [⟨str "\n--- Creating ADMIN (Siddhesh Abhang) ---\n",
      ⟨str "Siddhesh", str "Abhang", 35, str "Pune_HQ", str "siddhesh@bank.com",
        str "9876543210"⟩, some (str "admin"), str "siddhesh", str "adminpass"⟩,
    ⟨str "\n--- Creating MANAGER (Manasi Joshi) ---\n",
      ⟨str "Manasi", str "Joshi", 45, str "Mumbai_Office", str "manasi@bank.com",
        str "9876543211"⟩, some (str "manager"), str "manasi", str "managerpass"⟩,
    ⟨str "\n--- Creating EMPLOYEE (Prakash Kadam) ---\n",
      ⟨str "Prakash", str "Kadam", 28, str "Teller_Desk", str "prakash@bank.com",
        str "9876543212"⟩, some (str "employee"), str "prakash", str "employeepass"⟩,
    ⟨str "\n--- Creating EMPLOYEE (Smita Pawar) ---\n",
      ⟨str "Smita", str "Pawar", 31, str "Loan_Dept", str "smita@bank.com",
        str "9876543213"⟩, some (str "employee"), str "smita", str "employeepass"⟩,
    ⟨str "\n--- Creating CUSTOMER 1 (Priya Sawant) ---\n",
      ⟨str "Priya", str "Sawant", 30, str "1_Main_Street_Nagpur", str "priya@guest.com",
        str "9000000001"⟩, none, str "priya", str "priyapass"⟩,
    ⟨str "\n--- Creating CUSTOMER 2 (Rohan Deshmukh) ---\n",
      ⟨str "Rohan", str "Deshmukh", 25, str "2_Bank_Road_Pune", str "rohan@guest.com",
        str "9000000002"⟩, none, str "rohan", str "rohanpass"⟩]

/-- The table of the passwords for testing: the first columns, the name and the password. -/
def credentials : List (Bytes × Bytes × Bytes) :=
  [(str "Admin    | Siddhesh Abhang (1001)| ", str "siddhesh", str "adminpass"),
    (str "Manager  | Manasi Joshi (1002)   | ", str "manasi", str "managerpass"),
    (str "Employee | Prakash Kadam (1003)  | ", str "prakash", str "employeepass"),
    (str "Employee | Smita Pawar (1004)    | ", str "smita", str "employeepass"),
    (str "Customer1| Priya Sawant (1005)   | ", str "priya", str "customerpass"),
    (str "Customer2| Rohan Deshmukh (1006) | ", str "rohan", str "customerpass")]

structure Output where
  status : Nat
  successCount : Nat
  printed : List (Stream × Bytes)

def creationLines (seed : Seed) (reply : Reply) : List (Stream × Bytes) :=
  [(.stdout, seed.heading),
    if reply.result then (.stdout, str "SUCCESS: " ++ reply.message ++ str "\n")
    else (.stderr, str "FAILURE: " ++ reply.message ++ str "\n")]

def summary (successCount : Nat) : List (Stream × Bytes) :=
  [(.stdout, str "\n--- Bootstrapping Complete ---\n"),
    (.stdout, dec successCount ++ str " out of 6 initial users successfully created.\n")] ++
    if successCount = 6 then
      (.stdout, str "\nDefault Credentials for Testing:\n") ::
        (.stdout, str "Role     | Name (ID)             | Username  | Password\n") ::
        (.stdout, str "---------|-----------------------|-----------|-------------\n") ::
        credentials.map fun (columns, username, password) =>
          (.stdout, columns ++ padRight 10 username ++ str "| " ++ password ++ str "\n")
    else []

/-- What `mkdir` of the directory answers. -/
inductive Mkdir where
  | made
  | exists
  | failed (reason : Bytes)

def start : Stream × Bytes :=
  (.stdout, str "Bootstrapping system with initial staff and customers...\n")

variable [Amount M]

def main (env : Env) : Mkdir → Prog (Db M) Output
  | .failed reason => return ⟨1, 0, [start,
      (.stderr, str "Failed to create db directory: " ++ reason ++ str "\n")]⟩
  | .made | .exists => do
      let replies ← Request.session env (seeds.map Seed.request)
      let successCount := replies.countP Reply.result
      return ⟨0, successCount, [start, (.stdout, str "db directory ensured.\n")] ++
        (List.zipWith creationLines seeds replies).flatten ++ summary successCount⟩

/-! ## The users that it creates -/

def createdBy (env : Env) : List Seed → Database M → List Seed
  | [], _ => []
  | seed :: rest, db =>
      let (reply, db') := seed.request.handle env db
      if reply.result then seed :: createdBy env rest db' else createdBy env rest db'

def serve (env : Env) (seeds : List Seed) (db : Database M) : Database M :=
  Request.serve env (seeds.map Seed.request) db

private theorem session_replies (env : Env) (seeds : List Seed) (db : Database M) :
    ((Request.session env (seeds.map Seed.request)).run Db.exec db).1.countP Reply.result =
      (createdBy env seeds db).length := by
  induction seeds generalizing db with
  | nil => rfl
  | cons seed rest ih =>
      simp only [List.map_cons, Request.session, Prog.run_bind, Prog.pure_eq, Prog.run_ret,
        List.countP_cons, createdBy]
      have hrest := ih (seed.request.handle env db).2
      by_cases hresult : (seed.request.handle env db).1.result = true
      · rw [if_pos hresult, List.length_cons, ← hrest]
        simp only [Request.handle] at hresult ⊢
        rw [if_pos hresult]
      · rw [if_neg hresult, ← hrest]
        simp only [Request.handle] at hresult ⊢
        rw [if_neg hresult, Nat.add_zero]

private theorem main_run (env : Env) (mkdir : Mkdir) (hmkdir : ∀ reason, mkdir ≠ .failed reason)
    (db : Database M) :
    ((main env mkdir).run Db.exec db).1.successCount = (createdBy env seeds db).length ∧
      ((main env mkdir).run Db.exec db).2 = serve env seeds db := by
  cases mkdir with
  | failed reason => exact absurd rfl (hmkdir reason)
  | made | «exists» =>
      simp only [main, Prog.run_bind, Prog.pure_eq, Prog.run_ret]
      exact ⟨session_replies env seeds db, Request.session_run env _ db⟩

/-! ## Running it again -/

end Bootstrap

/-- The program's own calls: a role that exists, and strings that fit their fields. -/
structure Seed.Fits (seed : Seed) : Prop where
  details : seed.details.Fits
  username : (cstr seed.username).length < maxUsernameLen
  role : ∀ roleStr, seed.roleStr = some roleStr → staffRole roleStr ≠ none

def Seed.Taken (t : Tables M) (seed : Seed) : Prop :=
  ∃ old ∈ t.users, old.username.text = cstr seed.username ∨
    old.email.text = cstr seed.details.email ∨ old.phone.text = cstr seed.details.phone

def Tables.usernames (t : Tables M) : List Bytes :=
  t.users.map fun user => user.username.text

namespace Seed

variable {seed : Seed} {t t' : Tables M}

private theorem Taken.of_usernames (h : cstr seed.username ∈ t.usernames) : seed.Taken t := by
  obtain ⟨old, hold, hname⟩ := List.mem_map.mp h
  exact ⟨old, hold, .inl hname⟩

private theorem Taken.of_kept (h : seed.Taken t) (husers : t.users <+: t'.users) :
    seed.Taken t' := by
  obtain ⟨old, hold, hsame⟩ := h
  exact ⟨old, husers.subset hold, hsame⟩

private theorem unique_iff_not_taken (hwf : WellFormed t) :
    t.unique seed.username seed.details.email seed.details.phone 0 ↔ ¬ seed.Taken t := by
  rw [unique_iff, Taken]
  constructor
  · rintro hunique ⟨old, hold, hsame⟩
    have hpositive := (hwf.user_lt hold).1
    rcases hunique old hold with hzero | hne
    · omega
    · tauto
  · intro hfree old hold
    right
    by_contra hsame
    refine hfree ⟨old, hold, ?_⟩
    tauto

variable [Amount M] {env : Env}

private theorem accepted_iff (seed : Seed) (env : Env) (hfits : seed.Fits) {db : Database M}
    (hwf : WellFormed db.tables) :
    (seed.request.handle env db).1.result = true ↔ ¬ seed.Taken db.tables := by
  rw [Request.handle_result_iff, ← unique_iff_not_taken hwf, request]
  cases hrole : seed.roleStr with
  | some roleStr => exact and_iff_left (hfits.role roleStr hrole)
  | none =>
      obtain ⟨hemail, hphone⟩ := UserRec.terminated_zero.text_setDetails hfits.details
      refine Eq.to_iff (congrArg (· = none) (firstClash_congr rfl ?_ ?_ fun _ _ => Iff.rfl))
      · rw [hemail, cstr_cstr]
      · rw [hphone, cstr_cstr]

structure Adds (env : Env) (seed : Seed) (t t' : Tables M) (user : UserRec) : Prop where
  users : t'.users = t.users ++ [user]
  accounts : ∃ accounts, t'.accounts = t.accounts ++ accounts ∧
    ∀ acc ∈ accounts, acc.userId = user.userId ∧ acc.active = .active
  rest : t'.transactions = t.transactions ∧ t'.loans = t.loans ∧ t'.feedback = t.feedback
  userId : user.userId = t.nextUserId
  username : user.username.text = cstr seed.username
  firstName : user.firstName = (UserRec.zero.setDetails seed.details).firstName
  role : some user.role = seed.roleStr.elim (some .customer) staffRole
  active : user.active = .active
  passwordHash : ∃ hashOutput, user.passwordHash = generatePasswordHash env seed.password hashOutput

private theorem adds {times : Set Time} (hfits : seed.Fits) (hwf : WellFormed t)
    (hstep : Step env times t seed.request true t') : ∃ user, seed.Adds env t t' user := by
  have hzero := UserRec.terminated_zero.setDetails seed.details
  rw [request] at hstep
  cases hrole : seed.roleStr with
  | some roleStr =>
      rw [hrole] at hstep
      cases hstep with
      | looked hread => cases hread
      | employeeAdded hunique hstaff hnow =>
          refine ⟨_, ⟨hwf.upsert_user rfl,
            ⟨[], (List.append_nil _).symm, List.forall_mem_nil _⟩, ⟨rfl, rfl, rfl⟩, rfl,
            CharArray.text_strncpy hzero.username hfits.username, rfl, ?_, rfl, _, rfl⟩⟩
          rw [hrole]
          exact hstaff.symm
  | none =>
      rw [hrole] at hstep
      cases hstep with
      | looked hread => cases hread
      | customerAdded hunique hnow =>
          refine ⟨_, ⟨hwf.upsert_user rfl, ⟨_, hwf.upsert_account rfl, ?_⟩, ⟨rfl, rfl, rfl⟩,
            rfl, CharArray.text_strncpy hzero.username hfits.username, rfl, ?_, rfl, _, rfl⟩⟩
          · intro acc hacc
            rw [List.mem_singleton.mp hacc]
            exact ⟨rfl, rfl⟩
          · rw [hrole]
            rfl

end Seed

private theorem Tables.usernames_withUser {t : Tables M} {userId i : Nat} {user user' : UserRec}
    (huser : t.userAt userId i user) (hname : user'.username = user.username) :
    (t.withUser i user').usernames = t.usernames :=
  Table.map_key_set huser.2 (congrArg CharArray.text hname)

private theorem Step.usernames_kept [Amount M] {env : Env} {times : Set Time} {t t' : Tables M}
    {request : Request M} {result : Bool} (hstep : Step env times t request result t')
    (hwf : WellFormed t) : t.usernames <+: t'.usernames := by
  have husers := hstep.users_eq
  cases hstep with
  | refused | looked => exact List.prefix_rfl
  | customerAdded | employeeAdded =>
      rw [usernames, usernames, hwf.upsert_user rfl, List.map_append]
      exact List.prefix_append _ _
  | customerModified huser | userModified huser | roleChanged huser | passwordChanged huser =>
      refine ⟨[], ?_⟩
      rw [List.append_nil]
      exact .symm (usernames_withUser huser rfl)
  | _ =>
      refine ⟨[], ?_⟩
      rw [List.append_nil, usernames, usernames, husers rfl]

private theorem Request.serve_usernames [Amount M] (env : Env) (requests : List (Request M))
    {db : Database M} (hwf : WellFormed db.tables) :
    WellFormed (Request.serve env requests db).tables ∧
      db.tables.usernames <+: (Request.serve env requests db).tables.usernames := by
  have hticks : db.Ticks Set.univ := fun _ => trivial
  refine Request.serve_tables
    (I := fun t => WellFormed t ∧ db.tables.usernames <+: t.usernames) env ?_ requests hticks
    ⟨hwf, List.prefix_rfl⟩
  rintro t request result t' hstep ⟨hwf, hkept⟩
  exact ⟨hwf.step hstep, hkept.trans (hstep.usernames_kept hwf)⟩

namespace Bootstrap

private theorem seeds_fit : ∀ seed ∈ seeds, seed.Fits := by
  have hbounds : ∀ seed ∈ seeds, (cstr seed.details.email).length < maxEmailLen ∧
      (cstr seed.details.phone).length < maxPhoneLen ∧
      (cstr seed.username).length < maxUsernameLen ∧
      (seed.roleStr.all fun roleStr => (staffRole roleStr).isSome) = true := by decide +kernel
  intro seed hmem
  obtain ⟨hemail, hphone, husername, hrole⟩ := hbounds seed hmem
  refine ⟨⟨hemail, hphone⟩, husername, fun roleStr hsome => ?_⟩
  rw [hsome] at hrole
  exact Option.isSome_iff_ne_none.mp hrole

section Run

variable [Amount M] (env : Env)

private theorem handle_seed {seed : Seed} (hfits : seed.Fits) {db : Database M}
    (hwf : WellFormed db.tables) :
    WellFormed (seed.request.handle env db).2.tables ∧
      (seed.Taken db.tables ∧ (seed.request.handle env db).1.result = false ∧
          (seed.request.handle env db).2.tables = db.tables ∨
        ¬ seed.Taken db.tables ∧ (seed.request.handle env db).1.result = true ∧
          ∃ user, seed.Adds env db.tables (seed.request.handle env db).2.tables user) := by
  have hticks : db.Ticks Set.univ := fun _ => trivial
  have hstep := seed.request.handle_step env hticks
  refine ⟨hwf.step hstep, ?_⟩
  have haccepted := seed.accepted_iff env hfits hwf
  by_cases htaken : seed.Taken db.tables
  · have hresult : (seed.request.handle env db).1.result = false :=
      Bool.eq_false_iff.mpr fun h => haccepted.mp h htaken
    rw [hresult] at hstep
    exact .inl ⟨htaken, hresult, hstep.eq_of_refused⟩
  · have hresult := haccepted.mpr htaken
    rw [hresult] at hstep
    exact .inr ⟨htaken, hresult, seed.adds hfits hwf hstep⟩

/-- The files after some seeds: they have only grown, by one user for each that was created. -/
structure Grown (created : List Seed) (t t' : Tables M) : Prop where
  wellFormed : WellFormed t'
  users : ∃ users, t'.users = t.users ++ users ∧
    users.map (fun user => user.username.text) = created.map fun seed => cstr seed.username
  accounts : ∃ accounts, t'.accounts = t.accounts ++ accounts ∧
    ∀ acc ∈ accounts, t.nextUserId ≤ acc.userId ∧ acc.active = .active
  rest : t'.transactions = t.transactions ∧ t'.loans = t.loans ∧ t'.feedback = t.feedback

omit [Amount M] in
theorem Grown.refl {t : Tables M} (hwf : WellFormed t) : Grown [] t t where
  wellFormed := hwf
  users := ⟨[], (List.append_nil _).symm, rfl⟩
  accounts := ⟨[], (List.append_nil _).symm, List.forall_mem_nil _⟩
  rest := ⟨rfl, rfl, rfl⟩

omit [Amount M] in
private theorem Grown.of_adds {env : Env} {seed : Seed} {created : List Seed} {t t₁ t₂ : Tables M}
    {user : UserRec} (hfirst : seed.Adds env t t₁ user) (hrest : Grown created t₁ t₂) :
    Grown (seed :: created) t t₂ := by
  obtain ⟨users, husers, hnames⟩ := hrest.users
  obtain ⟨accounts, haccounts, howners⟩ := hfirst.accounts
  obtain ⟨others, hothers, hlater⟩ := hrest.accounts
  refine ⟨hrest.wellFormed, ⟨user :: users, ?_, ?_⟩, ⟨accounts ++ others, ?_, ?_⟩, ?_⟩
  · rw [husers, hfirst.users, List.append_assoc, List.singleton_append]
  · rw [List.map_cons, List.map_cons, hfirst.username, hnames]
  · rw [hothers, haccounts, List.append_assoc]
  · intro acc hacc
    rcases List.mem_append.mp hacc with hnew | hother
    · obtain ⟨howner, hactive⟩ := howners acc hnew
      exact ⟨Nat.le_of_eq (howner.trans hfirst.userId).symm, hactive⟩
    · obtain ⟨hid, hactive⟩ := hlater acc hother
      have hnext : t.nextUserId ≤ t₁.nextUserId := by
        simp [nextUserId, hfirst.users]
      exact ⟨hnext.trans hid, hactive⟩
  · obtain ⟨htransactions, hloans, hfeedback⟩ := hrest.rest
    exact ⟨htransactions.trans hfirst.rest.1, hloans.trans hfirst.rest.2.1,
      hfeedback.trans hfirst.rest.2.2⟩

theorem grown {seeds : List Seed} (hfits : ∀ seed ∈ seeds, seed.Fits) {db : Database M}
    (hwf : WellFormed db.tables) :
    Grown (createdBy env seeds db) db.tables (serve env seeds db).tables := by
  induction seeds generalizing db with
  | nil => exact .refl hwf
  | cons seed rest ih =>
      obtain ⟨hnext, hcases⟩ := handle_seed env (hfits seed List.mem_cons_self) hwf
      have hrest := ih (fun seed hmem => hfits seed (List.mem_cons_of_mem _ hmem)) hnext
      rw [createdBy]
      rcases hcases with ⟨-, hresult, htables⟩ | ⟨-, hresult, user, hadds⟩
      · simp only [hresult, Bool.false_eq_true, if_false]
        rw [htables] at hrest
        exact hrest
      · simp only [hresult, if_true]
        exact .of_adds hadds hrest

omit [Amount M] in
private theorem Grown.users_kept {created : List Seed} {t t' : Tables M} (h : Grown created t t') :
    t.users <+: t'.users := by
  obtain ⟨users, husers, -⟩ := h.users
  rw [husers]
  exact List.prefix_append _ _

omit [Amount M] in
private theorem Grown.mem_usernames {created : List Seed} {t t' : Tables M} (h : Grown created t t')
    {seed : Seed} (hmem : seed ∈ created) : cstr seed.username ∈ t'.usernames := by
  obtain ⟨users, husers, hnames⟩ := h.users
  rw [usernames, husers, List.map_append, hnames]
  exact List.mem_append_right _ (List.mem_map_of_mem hmem)

omit [Amount M] in
private theorem Grown.accounts_kept {created : List Seed} {t t' : Tables M}
    (h : Grown created t t') :
    t.accounts <+: t'.accounts := by
  obtain ⟨accounts, haccounts, -⟩ := h.accounts
  rw [haccounts]
  exact List.prefix_append _ _

private theorem createdBy_sublist (seeds : List Seed) (db : Database M) :
    (createdBy env seeds db).Sublist seeds := by
  induction seeds generalizing db with
  | nil => exact List.Sublist.refl []
  | cons first rest ih =>
      rw [createdBy]
      by_cases hresult : (first.request.handle env db).1.result = true
      · simp only [hresult, if_true]
        exact (ih _).cons_cons first
      · simp only [hresult]
        exact (ih _).cons first

private theorem not_createdBy_of_username {seeds : List Seed} (hfits : ∀ seed ∈ seeds, seed.Fits)
    {db : Database M} (hwf : WellFormed db.tables) {seed : Seed}
    (hname : cstr seed.username ∈ db.tables.usernames) : seed ∉ createdBy env seeds db := by
  induction seeds generalizing db with
  | nil => exact List.not_mem_nil
  | cons first rest ih =>
      have hfirst := hfits first List.mem_cons_self
      obtain ⟨hnext, hcases⟩ := handle_seed env hfirst hwf
      have hkept := (Request.serve_usernames env [first.request] hwf).2
      have hrest := ih (fun seed hmem => hfits seed (List.mem_cons_of_mem _ hmem)) hnext
        (hkept.subset hname)
      rw [createdBy]
      rcases hcases with ⟨-, hresult, -⟩ | ⟨hfree, hresult, -⟩
      · simp only [hresult, Bool.false_eq_true, if_false]
        exact hrest
      · simp only [hresult, if_true, List.mem_cons, not_or]
        refine ⟨?_, hrest⟩
        rintro rfl
        exact hfree (.of_usernames hname)

private theorem taken_of_serve {seeds : List Seed} (hfits : ∀ seed ∈ seeds, seed.Fits)
    {db : Database M} (hwf : WellFormed db.tables) {seed : Seed} (hmem : seed ∈ seeds) :
    seed.Taken (serve env seeds db).tables := by
  induction seeds generalizing db with
  | nil => cases hmem
  | cons first rest ih =>
      have hfirst := hfits first List.mem_cons_self
      have hrest : ∀ seed ∈ rest, seed.Fits :=
        fun seed hmem => hfits seed (List.mem_cons_of_mem _ hmem)
      obtain ⟨hnext, hcases⟩ := handle_seed env hfirst hwf
      rcases List.mem_cons.mp hmem with rfl | hmem
      · have hgrown := (grown env hrest hnext).users_kept
        refine Seed.Taken.of_kept ?_ hgrown
        rcases hcases with ⟨htaken, -, htables⟩ | ⟨-, -, user, hadds⟩
        · rw [htables]
          exact htaken
        · refine .of_usernames ?_
          rw [usernames, hadds.users, List.map_append, List.map_singleton, hadds.username]
          exact List.mem_append_right _ List.mem_cons_self
      · exact ih hrest hnext hmem

private theorem createdBy_of_taken {seeds : List Seed} (hfits : ∀ seed ∈ seeds, seed.Fits)
    {db : Database M} (hwf : WellFormed db.tables) (htaken : ∀ seed ∈ seeds, seed.Taken db.tables) :
    createdBy env seeds db = [] ∧ (serve env seeds db).tables = db.tables := by
  induction seeds generalizing db with
  | nil => exact ⟨rfl, rfl⟩
  | cons first rest ih =>
      obtain ⟨hnext, hcases⟩ := handle_seed env (hfits first List.mem_cons_self) hwf
      rcases hcases with ⟨-, hresult, htables⟩ | ⟨hfree, -⟩
      · obtain ⟨hnone, hsame⟩ := ih
          (fun seed hmem => hfits seed (List.mem_cons_of_mem _ hmem)) hnext
          fun seed hmem => htables ▸ htaken seed (List.mem_cons_of_mem _ hmem)
        refine ⟨?_, hsame.trans htables⟩
        simp only [createdBy, hresult, Bool.false_eq_true, if_false]
        exact hnone
      · exact absurd (htaken first List.mem_cons_self) hfree

end Run

end Bootstrap

/--
Any requests on a bank without files, then `bootstrap`.  It only adds users and accounts
behind those that there are, one user for each that it counts; run again at once it
creates nobody and changes nothing; and whatever has been served in between, it never
creates the same user twice.
-/
theorem bootstrap_adds_once [Amount M] (env : Env) (clock : Nat → Time)
    (before later : List (Request M)) (mkdir : Bootstrap.Mkdir)
    (hmkdir : ∀ reason, mkdir ≠ .failed reason) :
    let db := Request.serve env before (Database.empty clock)
    let first := (Bootstrap.main env mkdir).run Db.exec db
    let again := (Bootstrap.main env .exists).run Db.exec first.2
    let db' := Request.serve env later first.2
    (∃ users, first.2.tables.users = db.tables.users ++ users ∧
        users.length = first.1.successCount) ∧
      db.tables.accounts <+: first.2.tables.accounts ∧
      (first.2.tables.transactions = db.tables.transactions ∧
        first.2.tables.loans = db.tables.loans ∧
        first.2.tables.feedback = db.tables.feedback) ∧
      (again.1.successCount = 0 ∧ again.2.tables = first.2.tables) ∧
      ∀ seed ∈ Bootstrap.createdBy env Bootstrap.seeds db,
        seed ∉ Bootstrap.createdBy env Bootstrap.seeds db' := by
  intro db first again db'
  have hwf : WellFormed db.tables := (Request.serve_usernames env before (.empty clock)).1
  obtain ⟨hcount, hfirst⟩ := Bootstrap.main_run env mkdir hmkdir db
  obtain ⟨hagain, hsecond⟩ := Bootstrap.main_run env .exists (fun _ h => by cases h) first.2
  have hfits := Bootstrap.seeds_fit
  have hgrown := Bootstrap.grown env hfits hwf
  have htaken : ∀ seed ∈ Bootstrap.seeds, seed.Taken first.2.tables := by
    intro seed hmem
    rw [show first.2 = _ from hfirst]
    exact Bootstrap.taken_of_serve env hfits hwf hmem
  rw [← show first.2 = _ from hfirst] at hgrown
  obtain ⟨users, husers, hnames⟩ := hgrown.users
  obtain ⟨hnone, hsame⟩ := Bootstrap.createdBy_of_taken env hfits hgrown.wellFormed htaken
  refine ⟨⟨users, husers, ?_⟩, hgrown.accounts_kept, hgrown.rest, ⟨?_, ?_⟩, fun seed hmem => ?_⟩
  · simpa [show first.1.successCount = _ from hcount] using congrArg List.length hnames
  · exact hagain.trans (by rw [hnone, List.length_nil])
  · exact (congrArg Database.tables hsecond).trans hsame
  · obtain ⟨hwf', hkept⟩ := Request.serve_usernames env later hgrown.wellFormed
    exact Bootstrap.not_createdBy_of_username env hfits hwf'
      (hkept.subset (hgrown.mem_usernames hmem))

/-- Somebody has taken the name of one of the employees. -/
def takenSmita : List (Request ℚ) :=
  [.addEmployee ⟨str "Smita", str "Rao", 40, str "Home", str "smita@x", str "1"⟩
      (str "manager") (str "smita") (str "pw")]

/-- The administrator becomes an employee, and the manager gets another phone. -/
def afterwards : List (Request ℚ) :=
  [.changeRole 1002 (str "employee"),
    .modifyUser 1003 ⟨str "Manasi", str "Joshi", 46, str "Pune", str "manasi@bank.com", str "2"⟩]

theorem bootstrap_adds_once_twice :
    let db := Request.serve .plain takenSmita (Database.empty fun _ => 1)
    let first := (Bootstrap.main .plain .made).run Db.exec db
    first.1.successCount = 5 ∧
      ((Bootstrap.main .plain .exists).run Db.exec first.2).1.successCount = 0 ∧
      ∀ seed ∈ Bootstrap.createdBy .plain Bootstrap.seeds db,
        seed ∉ Bootstrap.createdBy .plain Bootstrap.seeds
          (Request.serve .plain afterwards first.2) := by
  have honce := bootstrap_adds_once .plain (fun _ => (1 : Nat)) takenSmita afterwards .made
    fun _ h => by cases h
  exact ⟨by decide +kernel, honce.2.2.2.1.1, honce.2.2.2.2⟩

/-! ## The passwords that it prints -/

structure Seed.User (env : Env) (seed : Seed) (t : Tables M) (user : UserRec) : Prop where
  mem : user ∈ t.users
  username : user.username.text = cstr seed.username
  firstName : user.firstName = (UserRec.zero.setDetails seed.details).firstName
  role : some user.role = seed.roleStr.elim (some .customer) staffRole
  active : user.active = .active
  passwordHash : ∃ hashOutput, user.passwordHash = generatePasswordHash env seed.password hashOutput
  accounts : ∀ acc ∈ t.accounts, acc.userId = user.userId → acc.active = .active

namespace Seed

variable {env : Env} {seed : Seed} {t t' : Tables M} {user : UserRec}

private theorem User.of_adds (h : seed.Adds env t t' user) (hwf : WellFormed t) :
    seed.User env t' user where
  mem := by
    rw [h.users]
    exact List.mem_append_right _ List.mem_cons_self
  username := h.username
  firstName := h.firstName
  role := h.role
  active := h.active
  passwordHash := h.passwordHash
  accounts acc hacc howner := by
    obtain ⟨accounts, haccounts, hactive⟩ := h.accounts
    rw [haccounts] at hacc
    rcases List.mem_append.mp hacc with hold | hnew
    · exact absurd (howner.trans h.userId) (hwf.account_fresh acc hold)
    · exact (hactive acc hnew).2

theorem User.grown (h : seed.User env t user) {created : List Seed}
    (hgrown : Bootstrap.Grown created t t') : seed.User env t' user :=
  { h with
    mem := hgrown.users_kept.subset h.mem
    accounts := by
      intro acc hacc howner
      obtain ⟨accounts, haccounts, hactive⟩ := hgrown.accounts
      rw [haccounts] at hacc
      rcases List.mem_append.mp hacc with hold | hnew
      · exact h.accounts acc hold howner
      · exact (hactive acc hnew).2 }

private theorem User.not_deactivated {db : Database M} (h : seed.User env db.tables user) :
    ¬ (user.active = .inactive ∨
      (Table.lookup AccountRec.userId user.userId db.accountTable).any
        (fun acc => acc.active = .inactive) = true) := by
  rintro (hoff | hoff)
  · rw [h.active] at hoff
    cases hoff
  · cases hlookup : Table.lookup AccountRec.userId user.userId db.accountTable with
    | none => simp [hlookup] at hoff
    | some acc =>
        have hactive := h.accounts acc (Table.lookup_mem hlookup) (Table.lookup_key hlookup)
        simp [hlookup, hactive] at hoff

theorem User.login [Amount M] (hcrypt : env.Hashes) {db : Database M}
    (h : seed.User env db.tables user) (hnames : db.tables.usernames.Nodup) (attempt : Bytes) :
    ((loginUser env seed.username attempt).run Db.exec db).1 =
      if env.crypt attempt salt = env.crypt seed.password salt then .success user.login
      else .failed := by
  have hfound : db.userTable.find? (fun user => user.username.text = cstr seed.username) =
      some user := by
    rw [← h.username]
    exact Table.lookup_of_mem hnames h.mem
  obtain ⟨hashOutput, hhash⟩ := h.passwordHash
  have hverify : verifyPassword env attempt user.passwordHash.text = true ↔
      env.crypt attempt salt = env.crypt seed.password salt := by
    rw [hhash]
    exact hcrypt.verify_iff (hcrypt.text_generate _ _) attempt
  rw [loginUser_of_found env hfound]
  by_cases hsame : env.crypt attempt salt = env.crypt seed.password salt
  · rw [if_pos (hverify.mpr hsame), if_neg h.not_deactivated, if_pos hsame]
    rfl
  · rw [if_neg (mt hverify.mp hsame), if_neg hsame]

end Seed

namespace Bootstrap

variable [Amount M] (env : Env)

private theorem user_of_createdBy {seeds : List Seed} (hfits : ∀ seed ∈ seeds, seed.Fits)
    {db : Database M} (hwf : WellFormed db.tables) {i : Nat} {seed : Seed}
    (hcreated : (createdBy env seeds db)[i]? = some seed) :
    ∃ user, seed.User env (serve env seeds db).tables user ∧
      user.userId = db.tables.nextUserId + i := by
  induction seeds generalizing db i with
  | nil => cases hcreated
  | cons first rest ih =>
      have hrest : ∀ seed ∈ rest, seed.Fits :=
        fun seed hmem => hfits seed (List.mem_cons_of_mem _ hmem)
      obtain ⟨hnext, hcases⟩ := handle_seed env (hfits first List.mem_cons_self) hwf
      rw [createdBy] at hcreated
      rcases hcases with ⟨-, hresult, htables⟩ | ⟨-, hresult, user, hadds⟩
      · simp only [hresult, Bool.false_eq_true, if_false] at hcreated
        obtain ⟨user, huser, hid⟩ := ih hrest hnext hcreated
        exact ⟨user, huser, htables ▸ hid⟩
      · simp only [hresult, if_true] at hcreated
        cases i with
        | zero =>
            cases hcreated
            have huser := Seed.User.of_adds hadds hwf
            exact ⟨user, huser.grown (grown env hrest hnext), hadds.userId⟩
        | succ i =>
            rw [List.getElem?_cons_succ] at hcreated
            obtain ⟨other, hother, hid⟩ := ih hrest hnext hcreated
            refine ⟨other, hother, hid.trans ?_⟩
            simp only [nextUserId, hadds.users, List.length_append, List.length_singleton]
            omega

omit [Amount M] in
private theorem request_nameFits {seed : Seed} (hfits : seed.Fits) :
    (seed.request : Request M).NameFits := by
  rw [Seed.request]
  cases seed.roleStr with
  | some roleStr => exact hfits.username
  | none =>
      have hzero := UserRec.terminated_zero.setDetails seed.details
      exact ⟨hfits.username, hzero.username.closes _⟩

private theorem credentials_rows : ∀ row ∈ credentials, ∃ seed ∈ seeds, seed.username = row.2.1 ∧
    (row.2.2 = seed.password ↔ seed.roleStr ≠ none) := by
  decide +kernel

end Bootstrap

/--
Any requests whose new names fit on a bank without files, then `bootstrap`.  Whom it
creates can log in, with the password of the call, under the next free id and the role
of the call.  Of the table that it prints the rows of the staff open; a row of a customer
opens only if `crypt` does not tell the printed password from the one that was set.
-/
theorem printed_credentials [Amount M] (env : Env) (hcrypt : env.Hashes) (clock : Nat → Time)
    (before : List (Request M)) (hfits : ∀ request ∈ before, request.NameFits)
    (mkdir : Bootstrap.Mkdir) (hmkdir : ∀ reason, mkdir ≠ .failed reason) :
    let db := Request.serve env before (Database.empty clock)
    let first := (Bootstrap.main env mkdir).run Db.exec db
    let login := fun username password =>
      ((loginUser env username password).run Db.exec first.2).1
    (∀ i seed, (Bootstrap.createdBy env Bootstrap.seeds db)[i]? = some seed →
      ∃ role, some role = seed.roleStr.elim (some .customer) staffRole ∧
        login seed.username seed.password = .success ⟨db.tables.nextUserId + i,
          roleString role, (UserRec.zero.setDetails seed.details).firstName.text⟩) ∧
      (first.1.successCount = 6 → ∀ row ∈ Bootstrap.credentials, ∃ seed ∈ Bootstrap.seeds,
        seed.username = row.2.1 ∧ (row.2.2 = seed.password ↔ seed.roleStr ≠ none) ∧
        (login row.2.1 row.2.2 ≠ .failed ↔
          env.crypt row.2.2 salt = env.crypt seed.password salt)) := by
  intro db first login
  have hwf : WellFormed db.tables := (Request.serve_usernames env before (.empty clock)).1
  have hseeds := Bootstrap.seeds_fit
  obtain ⟨hcount, hrun⟩ := Bootstrap.main_run env mkdir hmkdir db
  have hnames : (Bootstrap.serve env Bootstrap.seeds db).tables.usernames.Nodup := by
    have hinit : Opened env (Database.empty clock : Database M).tables fun _ => none :=
      ⟨.empty clock, List.nodup_nil, fun user hmem => by cases hmem⟩
    have hopened := (hinit.serve hcrypt before hfits).serve hcrypt
      (Bootstrap.seeds.map Seed.request) fun request hmem => by
        obtain ⟨seed, hseed, rfl⟩ := List.mem_map.mp hmem
        exact Bootstrap.request_nameFits (hseeds seed hseed)
    exact hopened.names
  refine ⟨fun i seed hcreated => ?_, fun hsix row hrow => ?_⟩
  · obtain ⟨user, huser, hid⟩ := Bootstrap.user_of_createdBy env hseeds hwf hcreated
    refine ⟨user.role, huser.role, ?_⟩
    simp only [login]
    rw [show first.2 = _ from hrun, huser.login hcrypt hnames, if_pos rfl, UserRec.login, hid,
      huser.firstName]
  · obtain ⟨seed, hseed, hname, hprinted⟩ := Bootstrap.credentials_rows row hrow
    have hall := (Bootstrap.createdBy_sublist env Bootstrap.seeds db).eq_of_length
      (hcount.symm.trans hsix)
    obtain ⟨i, hi⟩ := List.mem_iff_getElem?.mp hseed
    rw [← hall] at hi
    obtain ⟨user, huser, -⟩ := Bootstrap.user_of_createdBy env hseeds hwf hi
    refine ⟨seed, hseed, hname, hprinted, ?_⟩
    simp only [login]
    rw [show first.2 = _ from hrun, ← hname, huser.login hcrypt hnames]
    split_ifs with hsame <;> simp [hsame]

theorem printed_credentials_fresh :
    let first := (Bootstrap.main .cut .made).run Db.exec
      (Database.empty fun _ => 1 : Database ℚ)
    ∀ row ∈ Bootstrap.credentials, ∃ seed ∈ Bootstrap.seeds,
      seed.username = row.2.1 ∧ (row.2.2 = seed.password ↔ seed.roleStr ≠ none) ∧
      (((loginUser .cut row.2.1 row.2.2).run Db.exec first.2).1 ≠ .failed ↔
        Env.cut.crypt row.2.2 salt = Env.cut.crypt seed.password salt) :=
  (printed_credentials .cut Env.cut_hashes (fun _ => 1) [] (List.forall_mem_nil _) .made
    (fun _ h => by cases h)).2 (by decide +kernel)

end BankingSystem
