import BankingSystem.Requests.Credentials

/-!
# The latest password

Three operations write a hash and any of the others may rewrite the record that holds
it.  What a login compares with is still the hash of the password set last, in the
record that the name leads to.
-/

namespace BankingSystem

open Foundation Tables

/-! ## Hashes -/

/-- What the program relies on when it calls `crypt` with its salt. -/
structure Env.Hashes (env : Env) : Prop where
  total : ∀ password, ∃ hash, env.crypt password salt = some hash
  cstr_hash : ∀ {password hash}, env.crypt password salt = some hash → cstr hash = hash
  short : ∀ {password hash}, env.crypt password salt = some hash → hash.length < maxPasswordLen
  /-- The hash works as a setting with the salt that it starts with. -/
  setting : ∀ {password hash}, env.crypt password salt = some hash →
    ∀ other, env.crypt other hash = env.crypt other salt

namespace Foundation.CharArray

variable {size : Nat}

private theorem text_strncpy_terminate (array : CharArray size) {src : Bytes}
    (hshort : (cstr src).length < size) : (array.strncpy src).terminate.text = cstr src := by
  have hlength := strncpyPrefix_length src (size - 1)
  have hterminated : array.terminate.Terminated := by
    rw [Terminated, terminate, List.getElem?_set_self]
    rw [array.size_eq]
    omega
  have hcomm : (array.strncpy src).terminate = array.terminate.strncpy src := by
    simp only [terminate, strncpy, mk.injEq]
    rw [List.set_append_right _ _ (Nat.le_of_eq hlength), hlength, Nat.sub_self,
      List.drop_set, if_neg (Nat.lt_irrefl _), Nat.sub_self]
  rw [hcomm, text_strncpy hterminated hshort]

end Foundation.CharArray

theorem Env.Hashes.text_generate {env : Env} (h : env.Hashes) (password : Bytes)
    (hashOutput : CharArray maxPasswordLen) :
    env.crypt password salt =
      some (generatePasswordHash env password hashOutput).text := by
  obtain ⟨hash, hhash⟩ := h.total password
  have hshort : (cstr hash).length < maxPasswordLen := by
    rw [h.cstr_hash hhash]
    exact h.short hhash
  rw [generatePasswordHash, hhash, CharArray.text_strncpy_terminate _ hshort,
    h.cstr_hash hhash]

theorem Env.Hashes.verify_iff {env : Env} (h : env.Hashes) {password hash : Bytes}
    (hhash : env.crypt password salt = some hash) (other : Bytes) :
    verifyPassword env other hash = true ↔
      env.crypt other salt = env.crypt password salt := by
  obtain ⟨verified, hverified⟩ := h.total other
  rw [verifyPassword, h.setting hhash, hverified, hhash]
  simp

/-! ## Login -/

variable {M : Type}

def Tables.deactivated (t : Tables M) (user : UserRec) : Prop :=
  user.active = .inactive ∨
    ∃ acc ∈ t.accounts, acc.userId = user.userId ∧ acc.active = .inactive

theorem loginUser_of_found [Amount M] (env : Env) {username password : Bytes}
    {db : Database M} {user : UserRec}
    (hfound : db.userTable.find? (fun user => user.username.text = cstr username) =
      some user) :
    ((loginUser env username password).run Db.exec db).1 =
      if verifyPassword env password user.passwordHash.text then
        if user.active = .inactive ∨
            (Table.lookup AccountRec.userId user.userId db.accountTable).any
              (fun acc => acc.active = .inactive) then .deactivated
        else .success ⟨user.userId, roleString user.role, user.firstName.text⟩
      else .failed := by
  rw [loginUser_exec, hfound]
  rfl

/-! ## The passwords of a run -/

section Run

variable [Amount M]

/-- The user and the password that an accepted request sets. -/
def Request.setsPassword (t : Tables M) : Request M → Option (Nat × Bytes)
  | .addCustomer _ _ password | .addEmployee _ _ _ password =>
      some (t.nextUserId, password)
  | .changePassword userId newpass => some (userId, newpass)
  | _ => none

def Request.notePassword (t : Tables M) (request : Request M) (result : Bool)
    (latest : Nat → Option Bytes) : Nat → Option Bytes :=
  if result then
    (request.setsPassword t).elim latest fun set => Function.update latest set.1 (some set.2)
  else latest

def latestPasswords (env : Env) : List (Request M) → Database M → (Nat → Option Bytes) →
    Nat → Option Bytes
  | [], _, latest => latest
  | request :: requests, db, latest =>
      latestPasswords env requests (request.handle env db).2
        (request.notePassword db.tables (request.handle env db).1.result latest)

/-- A new user's name fits its field and leaves it terminated. -/
def Request.NameFits : Request M → Prop
  | .addCustomer user username _ =>
      (cstr username).length < maxUsernameLen ∧ user.username.Closes username
  | .addEmployee _ _ username _ => (cstr username).length < maxUsernameLen
  | _ => True

/-- Names are distinct, and each user's record holds the hash of the latest password. -/
structure Opened (env : Env) (t : Tables M) (latest : Nat → Option Bytes) : Prop where
  wellFormed : WellFormed t
  names : (t.users.map fun user => user.username.text).Nodup
  hashed : ∀ user ∈ t.users, ∃ password, latest user.userId = some password ∧
    env.crypt password salt = some user.passwordHash.text

namespace Opened

variable {env : Env} {times : Set Time} {t t' : Tables M} {latest : Nat → Option Bytes}

omit [Amount M] in
theorem of_users (h : Opened env t latest) (hwf : WellFormed t') (husers : t'.users = t.users) :
    Opened env t' latest :=
  ⟨hwf, husers ▸ h.names, husers ▸ h.hashed⟩

omit [Amount M] in
private theorem notePassword_of_none {request : Request M} {result : Bool}
    (hnone : request.setsPassword t = none) : request.notePassword t result latest = latest := by
  rw [Request.notePassword, hnone]
  cases result <;> rfl

omit [Amount M] in
theorem set {userId i : Nat} {user user' : UserRec} (h : Opened env t latest)
    (huser : t.userAt userId i user) (hid : user'.userId = user.userId)
    (hname : user'.username = user.username) {latest' : Nat → Option Bytes}
    (hothers : ∀ other ∈ t.users, other.userId ≠ user.userId →
      latest' other.userId = latest other.userId)
    (hhash : ∃ password, latest' user.userId = some password ∧
      env.crypt password salt = some user'.passwordHash.text) :
    Opened env (t.withUser i user') latest' where
  wellFormed := h.wellFormed.withUser huser hid
  names := by
    rw [Tables.withUser, Table.map_key_set huser.2 (congrArg CharArray.text hname)]
    exact h.names
  hashed other hother := by
    have hids : ((t.users.set i user').map UserRec.userId).Nodup := by
      rw [Table.map_key_set huser.2 hid, h.wellFormed.userIds]
      exact List.nodup_range'
    have hlt : i < t.users.length := (List.getElem?_eq_some_iff.mp huser.2).1
    by_cases hsame : other.userId = user.userId
    · have hfirst := Table.lookup_of_mem hids hother
      have hsecond := Table.lookup_of_mem hids (List.mem_set hlt user')
      rw [hsame, ← hid, hsecond, Option.some_inj] at hfirst
      rw [← hfirst, hid]
      exact hhash
    · rcases Table.mem_set hother with rfl | hold
      · exact absurd hid hsame
      · rw [hothers other hold hsame]
        exact h.hashed other hold

omit [Amount M] in
theorem set_same {userId i : Nat} {user user' : UserRec} (h : Opened env t latest)
    (huser : t.userAt userId i user) (hid : user'.userId = user.userId)
    (hname : user'.username = user.username)
    (hhash : user'.passwordHash = user.passwordHash) :
    Opened env (t.withUser i user') latest := by
  refine h.set huser hid hname (fun _ _ _ => rfl) ?_
  rw [hhash]
  exact h.hashed user (List.mem_of_getElem? huser.2)

omit [Amount M] in
theorem append {user : UserRec} {username email phone password : Bytes}
    (h : Opened env t latest) (hwf : WellFormed t') (husers : t'.users = t.users ++ [user])
    (hid : user.userId = t.nextUserId) (hname : user.username.text = cstr username)
    (hunique : t.unique username email phone 0)
    (hhash : env.crypt password salt = some user.passwordHash.text) :
    Opened env t' (Function.update latest t.nextUserId (some password)) where
  wellFormed := hwf
  names := by
    rw [husers, List.map_append, List.map_singleton, List.nodup_append]
    refine ⟨h.names, by simp, fun name hold name' hnew => ?_⟩
    obtain ⟨old, hmem, rfl⟩ := List.mem_map.mp hold
    rw [List.mem_singleton.mp hnew, hname]
    have hpositive := (h.wellFormed.user_lt hmem).1
    rcases unique_iff.mp hunique old hmem with hzero | hne
    · omega
    · exact hne.1
  hashed other hother := by
    rw [husers] at hother
    rcases List.mem_append.mp hother with hold | hnew
    · rw [Function.update_of_ne (h.wellFormed.user_lt hold).2.ne]
      exact h.hashed other hold
    · rw [List.mem_singleton.mp hnew, hid, Function.update_self]
      exact ⟨password, rfl, hhash⟩

theorem step {request : Request M} {result : Bool} (hcrypt : env.Hashes)
    (hstep : Step env times t request result t') (hfits : request.NameFits)
    (h : Opened env t latest) : Opened env t' (request.notePassword t result latest) := by
  have hwf := h.wellFormed.step hstep
  have husers := hstep.users_eq
  cases hstep with
  | refused => exact h
  | looked hread =>
      rw [notePassword_of_none (by cases request <;> first | rfl | cases hread)]
      exact h
  | customerAdded hunique =>
      refine h.append hwf (h.wellFormed.upsert_user rfl) rfl ?_ hunique
        (hcrypt.text_generate _ _)
      exact CharArray.text_strncpy_of_closes (by decide) (Nat.le_sub_one_of_lt hfits.1) hfits.2
  | employeeAdded hunique =>
      refine h.append hwf (h.wellFormed.upsert_user rfl) rfl ?_ hunique
        (hcrypt.text_generate _ _)
      exact CharArray.text_strncpy (UserRec.terminated_zero.setDetails _).username hfits
  | customerModified huser | userModified huser | roleChanged huser =>
      exact h.set_same huser rfl rfl rfl
  | passwordChanged huser =>
      obtain ⟨user', hget, hkey⟩ := Table.getElem?_of_locate huser.1
      rw [huser.2] at hget
      cases hget
      refine h.set huser ?_ ?_ (fun other _ hne => ?_) ?_
      · rfl
      · rfl
      · rw [hkey] at hne
        exact Function.update_of_ne hne ..
      · rw [hkey]
        exact ⟨_, Function.update_self .., hcrypt.text_generate _ _⟩
  | _ => exact h.of_users hwf (husers rfl)

end Opened

theorem Opened.serve {env : Env} (hcrypt : env.Hashes) (requests : List (Request M))
    (hfits : ∀ request ∈ requests, request.NameFits) {db : Database M}
    {latest : Nat → Option Bytes} (h : Opened env db.tables latest) :
    Opened env (Request.serve env requests db).tables
      (latestPasswords env requests db latest) := by
  induction requests generalizing db latest with
  | nil => exact h
  | cons request requests ih =>
      have hticks : db.Ticks Set.univ := fun _ => trivial
      have hnext := h.step hcrypt (request.handle_step env hticks)
        (hfits request List.mem_cons_self)
      exact ih (fun request hmem => hfits request (List.mem_cons_of_mem _ hmem)) hnext

end Run

theorem Opened.login [Amount M] {env : Env} (hcrypt : env.Hashes) {db : Database M}
    {latest : Nat → Option Bytes} (h : Opened env db.tables latest) {user : UserRec}
    (huser : user ∈ db.userTable) {password : Bytes}
    (hlatest : latest user.userId = some password) (attempt : Bytes) :
    (env.crypt attempt salt ≠ env.crypt password salt →
      ((loginUser env user.username.text attempt).run Db.exec db).1 = .failed) ∧
    (env.crypt attempt salt = env.crypt password salt →
      (db.tables.deactivated user →
        ((loginUser env user.username.text attempt).run Db.exec db).1 = .deactivated) ∧
      (¬ db.tables.deactivated user →
        ((loginUser env user.username.text attempt).run Db.exec db).1 =
          .success ⟨user.userId, roleString user.role, user.firstName.text⟩)) := by
  have hfound : db.userTable.find?
      (fun other => other.username.text = cstr user.username.text) = some user := by
    rw [CharArray.cstr_text]
    exact Table.lookup_of_mem h.names huser
  obtain ⟨password', hlatest', hhash⟩ := h.hashed user huser
  rw [hlatest, Option.some_inj] at hlatest'
  subst hlatest'
  have hverify := hcrypt.verify_iff hhash attempt
  have hinactive : (user.active = .inactive ∨
      (Table.lookup AccountRec.userId user.userId db.accountTable).any
        (fun acc => acc.active = .inactive) = true) ↔ db.tables.deactivated user := by
    refine or_congr_right ⟨fun hany => ?_, ?_⟩
    · cases hlookup : Table.lookup AccountRec.userId user.userId db.accountTable with
      | none => simp [hlookup] at hany
      | some acc =>
          simp only [hlookup, Option.any_some, decide_eq_true_eq] at hany
          exact ⟨acc, Table.lookup_mem hlookup, Table.lookup_key hlookup, hany⟩
    · rintro ⟨acc, hmem, hid, hany⟩
      have hlookup := h.wellFormed.lookup_account hmem
      rw [hid] at hlookup
      rw [show Table.lookup AccountRec.userId user.userId db.accountTable = some acc from hlookup]
      simpa using hany
  rw [loginUser_of_found env hfound]
  refine ⟨fun hne => ?_, fun hsame => ⟨fun hoff => ?_, fun hon => ?_⟩⟩
  · rw [if_neg (mt hverify.mp hne)]
  · rw [if_pos (hverify.mpr hsame), if_pos (hinactive.mpr hoff)]
  · rw [if_pos (hverify.mpr hsame), if_neg (mt hinactive.mp hon)]

/--
Any run of requests whose new names fit, one at a time on a bank without files.  A login
with the name of a user succeeds exactly with a password whose hash is that of the one
set last for this user.  It then returns 2 where the user or the account has been
deactivated, and otherwise 1 with the user's own id and present role.
-/
theorem latest_password_opens [Amount M] (env : Env) (hcrypt : env.Hashes)
    (clock : Nat → Time) (requests : List (Request M))
    (hfits : ∀ request ∈ requests, request.NameFits) :
    let db := Request.serve env requests (Database.empty clock)
    ∀ user ∈ db.userTable, ∃ password,
      latestPasswords env requests (Database.empty clock) (fun _ => none) user.userId =
        some password ∧
      ∀ attempt, let result := ((loginUser env user.username.text attempt).run Db.exec db).1
        (result ≠ .failed ↔ env.crypt attempt salt = env.crypt password salt) ∧
        (result ≠ .failed →
          (result = .deactivated ↔ db.tables.deactivated user) ∧
          (¬ db.tables.deactivated user → result =
            .success ⟨user.userId, roleString user.role, user.firstName.text⟩)) := by
  intro db user huser
  have hinit : Opened env (Database.empty clock : Database M).tables fun _ => none :=
    ⟨.empty clock, List.nodup_nil, fun user hmem => by cases hmem⟩
  have hopened := hinit.serve hcrypt requests hfits
  obtain ⟨password, hlatest, -⟩ := hopened.hashed user huser
  refine ⟨password, hlatest, fun attempt => ?_⟩
  obtain ⟨hwrong, hright⟩ := hopened.login hcrypt huser hlatest attempt
  intro result
  by_cases hsame : env.crypt attempt salt = env.crypt password salt
  · obtain ⟨hoff, hon⟩ := hright hsame
    by_cases hdeactivated : db.tables.deactivated user
    · have hresult : result = .deactivated := hoff hdeactivated
      simp [hresult, hsame, hdeactivated]
    · have hresult : result =
          .success ⟨user.userId, roleString user.role, user.firstName.text⟩ := hon hdeactivated
      simp [hresult, hsame, hdeactivated]
  · have hresult : result = .failed := hwrong hsame
    simp [hresult, hsame]

/-- A `crypt` with hashes of the real length that still hashes nothing. -/
def Env.cut : Env where
  crypt password setting := some (setting.take 9 ++ (cstr password).take 86)
  timeString _ := []

theorem Env.cut_hashes : Env.cut.Hashes := by
  have hsalt : ∀ text : Bytes, (salt.take 9 ++ text).take 9 = salt.take 9 := by
    intro text
    rw [List.take_left' (by decide)]
  have hsetting' : (salt.take 9).all (fun b => b ≠ 0) = true := by decide
  refine ⟨fun password => ⟨_, rfl⟩, ?_, ?_, ?_⟩
  · rintro password hash ⟨⟩
    have hall : ∀ b ∈ salt.take 9 ++ (cstr password).take 86, decide (b ≠ 0) = true := by
      intro b hb
      rcases List.mem_append.mp hb with hsetting | htext
      · exact List.all_eq_true.mp hsetting' b hsetting
      · exact List.mem_takeWhile_imp (p := fun b => decide (b ≠ 0)) (List.mem_of_mem_take htext)
    exact List.takeWhile_eq_self_iff.mpr hall
  · rintro password hash ⟨⟩
    rw [List.length_append, List.length_take, List.length_take, maxPasswordLen]
    omega
  · rintro password hash ⟨⟩ other
    simp only [Env.cut, hsalt]

def annChangesPassword : List (Request ℚ) :=
  [.addEmployee ⟨str "Ann", str "Lee", 30, str "Home", str "a@x", str "1"⟩
      (str "employee") (str "ann") (str "old"),
    .changePassword 1001 (str "new"), .changeRole 1001 (str "manager")]

theorem latest_password_opens_ann :
    let db := Request.serve .cut annChangesPassword (Database.empty fun _ => 1)
    ∃ user ∈ db.userTable,
      ((loginUser .cut user.username.text (str "old")).run Db.exec db).1 = .failed ∧
      ((loginUser .cut user.username.text (str "new")).run Db.exec db).1 =
        .success ⟨1001, str "manager", str "Ann"⟩ := by
  intro db
  have hfirst : db.userTable[0]?.map (fun user =>
      (user.userId, user.role, user.firstName.text, user.active)) =
      some (1001, .manager, str "Ann", .active) := by
    decide +kernel
  obtain ⟨user, hget, hproj⟩ := Option.map_eq_some_iff.mp hfirst
  simp only [Prod.mk.injEq] at hproj
  obtain ⟨hid, hrole, hname, hactive⟩ := hproj
  have hmem : user ∈ db.userTable := List.mem_of_getElem? hget
  obtain ⟨password, hlatest, hlogin⟩ := latest_password_opens .cut Env.cut_hashes (fun _ => 1)
    annChangesPassword (by
      intro request hrequest
      rw [annChangesPassword, List.mem_cons, List.mem_cons, List.mem_singleton] at hrequest
      rcases hrequest with rfl | rfl | rfl
      · exact (by decide : (cstr (str "ann")).length < maxUsernameLen)
      · trivial
      · trivial) user hmem
  have hnew : latestPasswords .cut annChangesPassword (Database.empty fun _ => 1)
      (fun _ => none) 1001 = some (str "new") := by
    decide +kernel
  rw [hid, hnew, Option.some_inj] at hlatest
  subst hlatest
  have hon : ¬ db.tables.deactivated user := by
    have haccounts : db.accountTable = [] := by decide +kernel
    rintro (hoff | ⟨acc, hacc, -⟩)
    · rw [hactive] at hoff
      cases hoff
    · rw [show db.tables.accounts = [] from haccounts] at hacc
      cases hacc
  refine ⟨user, hmem, ?_, ?_⟩
  · have hold := (hlogin (str "old")).1
    by_contra hopened
    exact absurd (hold.mp hopened) (by decide)
  · obtain ⟨hopens, hresult⟩ := hlogin (str "new")
    rw [(hresult (hopens.mpr rfl)).2 hon, hid, hrole, hname]
    rfl

end BankingSystem
