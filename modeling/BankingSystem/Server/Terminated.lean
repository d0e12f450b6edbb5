import BankingSystem.Foundation.Run
import BankingSystem.Requests.Refinement
import BankingSystem.Server.Malformed
import BankingSystem.Server.Overlong

/-!
# Strings that end in their arrays

`strncpy` of one less than the size keeps the last byte of an array, so a token of the
greatest length is followed by whatever was there: the dispatcher's record is not
cleared, and a stored record keeps the bytes of its earlier values.
-/

namespace BankingSystem

open Foundation Tables

/-! ## Copies into a record -/

structure UserRec.DetailsEnd (user : UserRec) : Prop where
  firstName : user.firstName.Ends
  lastName : user.lastName.Ends
  address : user.address.Ends
  email : user.email.Ends
  phone : user.phone.Ends

structure UserRec.StringsEnd (user : UserRec) : Prop extends user.DetailsEnd where
  username : user.username.Ends
  passwordHash : user.passwordHash.Ends

/-- The copies of the strings into the record are closed. -/
structure UserRec.Closes (user : UserRec) (d : Details) : Prop where
  firstName : user.firstName.Closes d.firstName
  lastName : user.lastName.Closes d.lastName
  address : user.address.Closes d.address
  email : user.email.Closes d.email
  phone : user.phone.Closes d.phone

structure Details.FitBuffers (d : Details) : Prop where
  firstName : d.firstName.length ≤ maxFnameLen - 1
  lastName : d.lastName.length ≤ maxLnameLen - 1
  address : d.address.length ≤ maxAddrLen - 1
  email : d.email.length ≤ maxEmailLen - 1
  phone : d.phone.length ≤ maxPhoneLen - 1

private theorem ends_copy_iff {size : Nat} (array : CharArray size) {token : Bytes}
    (hfits : token.length ≤ size - 1) : (array.strncpy token).Ends ↔ array.Closes token :=
  array.ends_strncpy_iff_closes ((List.takeWhile_prefix _).length_le.trans hfits)

private theorem UserRec.detailsEnd_setDetails_iff (user : UserRec) {d : Details}
    (hfits : d.FitBuffers) :
    (user.setDetails d).DetailsEnd ↔ user.Closes d := by
  constructor
  · intro h
    exact
      { firstName := (ends_copy_iff _ hfits.firstName).mp h.firstName
        lastName := (ends_copy_iff _ hfits.lastName).mp h.lastName
        address := (ends_copy_iff _ hfits.address).mp h.address
        email := (ends_copy_iff _ hfits.email).mp h.email
        phone := (ends_copy_iff _ hfits.phone).mp h.phone }
  · intro h
    exact
      { firstName := (ends_copy_iff _ hfits.firstName).mpr h.firstName
        lastName := (ends_copy_iff _ hfits.lastName).mpr h.lastName
        address := (ends_copy_iff _ hfits.address).mpr h.address
        email := (ends_copy_iff _ hfits.email).mpr h.email
        phone := (ends_copy_iff _ hfits.phone).mpr h.phone }

private theorem UserRec.closes_zero (d : Details) : UserRec.zero.Closes d where
  firstName := (CharArray.terminated_zero (by decide)).closes _
  lastName := (CharArray.terminated_zero (by decide)).closes _
  address := (CharArray.terminated_zero (by decide)).closes _
  email := (CharArray.terminated_zero (by decide)).closes _
  phone := (CharArray.terminated_zero (by decide)).closes _

/-- The hash is the one string that the code always terminates. -/
private theorem ends_generatePasswordHash (env : Env) (password : Bytes)
    (hashOutput : CharArray maxPasswordLen) :
    (generatePasswordHash env password hashOutput).Ends := by
  unfold generatePasswordHash
  cases env.crypt password salt with
  | some hashed =>
      have hlast : maxPasswordLen - 1 < (hashOutput.strncpy hashed).bytes.length := by
        rw [CharArray.size_eq]
        decide
      exact List.mem_set hlast 0
  | none => exact (CharArray.ends_strncpy_iff _ _).mpr (.inl (by decide))

/-! ## The four operations on one record -/

section Records

variable (env : Env) (userId : Nat) (now : Time) (password : Bytes) {d : Details} {username : Bytes}

private theorem stringsEnd_newCustomer_iff (user : UserRec) (hfits : d.FitBuffers)
    (hname : username.length ≤ maxUsernameLen - 1) :
    (newCustomer env (user.setDetails d) userId now username password).StringsEnd ↔
      user.Closes d ∧ user.username.Closes username := by
  rw [← user.detailsEnd_setDetails_iff hfits, ← ends_copy_iff _ hname]
  constructor
  · intro h
    exact ⟨⟨h.firstName, h.lastName, h.address, h.email, h.phone⟩, h.username⟩
  · rintro ⟨h, husername⟩
    exact ⟨⟨h.firstName, h.lastName, h.address, h.email, h.phone⟩, husername,
      ends_generatePasswordHash env password _⟩

private theorem stringsEnd_newEmployee (role : Role) (hfits : d.FitBuffers)
    (hname : username.length ≤ maxUsernameLen - 1) :
    (newEmployee env d role userId now username password).StringsEnd := by
  have h := (UserRec.zero.detailsEnd_setDetails_iff hfits).mpr (UserRec.closes_zero d)
  have husername := (ends_copy_iff (.zero maxUsernameLen) hname).mpr
    ((CharArray.terminated_zero (by decide)).closes username)
  exact ⟨⟨h.firstName, h.lastName, h.address, h.email, h.phone⟩, husername,
    ends_generatePasswordHash env password _⟩

private theorem stringsEnd_setDetails_iff {user : UserRec} (hfits : d.FitBuffers)
    (h : user.StringsEnd) :
    (user.setDetails d).StringsEnd ↔ user.Closes d := by
  rw [← user.detailsEnd_setDetails_iff hfits]
  constructor
  · exact fun h => h.toDetailsEnd
  · exact fun hdetails => ⟨hdetails, h.username, h.passwordHash⟩

private theorem stringsEnd_changePassword {user : UserRec} (h : user.StringsEnd) :
    { user with
      passwordHash := generatePasswordHash env password user.passwordHash }.StringsEnd :=
  ⟨⟨h.firstName, h.lastName, h.address, h.email, h.phone⟩, h.username,
    ends_generatePasswordHash env password _⟩

end Records

/-! ## The four operations on the file -/

def Tables.StringsEnd {M : Type} (t : Tables M) : Prop := ∀ user ∈ t.users, user.StringsEnd

section Requests

variable {M : Type} {env : Env} {times : Set Time} {t t' : Tables M}

private theorem Tables.StringsEnd.upsert_iff (h : t.StringsEnd) {user : UserRec}
    (husers : t'.users = Table.upsert UserRec.userId user t.users) :
    t'.StringsEnd ↔ user.StringsEnd := by
  rw [Tables.StringsEnd, husers]
  exact Table.forall_mem_upsert_iff h

private theorem Tables.StringsEnd.set_iff (h : t.StringsEnd) {userId i : Nat} {user user' : UserRec}
    (huser : t.userAt userId i user) (husers : t'.users = t.users.set i user') :
    t'.StringsEnd ↔ user'.StringsEnd := by
  obtain ⟨hi, -⟩ := List.getElem?_eq_some_iff.mp huser.2
  rw [Tables.StringsEnd, husers]
  exact Table.forall_mem_set_iff h hi

theorem Tables.StringsEnd.congr (h : t.StringsEnd) (husers : t'.users = t.users) :
    t'.StringsEnd := fun user hmem => h user (husers ▸ hmem)

variable [Amount M]

variable (env) in
private theorem users_addNewCustomer (user : UserRec) (username password : Bytes) :
    Yields times t (addNewCustomer env user username password) fun _ t' =>
      (¬ t.unique username user.email.text user.phone.text 0 ∧ t'.users = t.users) ∨
      t.unique username user.email.text user.phone.text 0 ∧ ∃ now,
        t'.users = Table.upsert UserRec.userId
          (newCustomer env user t.nextUserId now username password) t.users := by
  refine .checkUniqueness (fun hclash _ => .ret (.inl ⟨hclash, rfl⟩)) fun hunique => ?_
  refine .generateNewUserId (.time fun now _ => ?_)
  exact .writeUser (.writeAccount (.ret (.inr ⟨hunique, now, rfl⟩)))

def Tables.modifies (t : Tables M) (userId : Nat) (d : Details) (i : Nat) (user : UserRec) : Prop :=
  t.userAt userId i user ∧ user.role = .customer ∧
    t.unique user.username.text d.email d.phone user.userId

private theorem users_modifyCustomer (userId : Nat) (d : Details) :
    Yields times t (modifyCustomer userId d []) fun _ t' =>
      ((∀ i user, ¬ t.modifies userId d i user) ∧ t'.users = t.users) ∨
      ∃ i user, t.modifies userId d i user ∧ t'.users = t.users.set i (user.setDetails d) := by
  refine .bind (.atomicUpdateUser (fun hnone => ?_) fun i user huser => ?_)
  · refine .ret (.inl ⟨fun i user hmodifies => ?_, rfl⟩)
    rw [hmodifies.1.1] at hnone
    cases hnone
  unfold modifyCustomerModifier
  by_cases hrole : user.role = .customer
  · rw [if_neg (not_not_intro hrole)]
    refine .checkUniqueness (fun hclash _ => .ret (.ret (.inl ⟨?_, rfl⟩))) fun hunique => ?_
    · rintro j user' ⟨huser', -, hunique⟩
      obtain ⟨rfl, rfl⟩ := huser.unique huser'
      exact hclash hunique
    · exact .ret (.ret (.inr ⟨i, user, ⟨huser, hrole, hunique⟩, rfl⟩))
  · rw [if_pos hrole]
    refine .ret (.ret (.inl ⟨?_, rfl⟩))
    rintro j user' ⟨huser', hrole', -⟩
    obtain ⟨rfl, rfl⟩ := huser.unique huser'
    exact hrole hrole'

private theorem Step.stringsEnd_addEmployee {d : Details} {roleStr username password : Bytes}
    {result : Bool} (h : Step env times t (.addEmployee d roleStr username password) result t')
    (hgood : t.StringsEnd) (hfits : d.FitBuffers)
    (hname : username.length ≤ maxUsernameLen - 1) : t'.StringsEnd := by
  cases h with
  | refused => exact hgood
  | looked hread => cases hread
  | @employeeAdded _ _ role _ _ now =>
      exact (hgood.upsert_iff rfl).mpr
        (stringsEnd_newEmployee env t.nextUserId now password role hfits hname)

private theorem Step.stringsEnd_changePassword {userId : Nat} {newpass : Bytes} {result : Bool}
    (h : Step env times t (.changePassword userId newpass) result t')
    (hgood : t.StringsEnd) : t'.StringsEnd := by
  cases h with
  | refused => exact hgood
  | looked hread => cases hread
  | @passwordChanged _ _ i user huser =>
      have hold := hgood user (List.mem_of_getElem? huser.2)
      exact (hgood.set_iff huser rfl).mpr
        (BankingSystem.stringsEnd_changePassword env newpass hold)

end Requests

/-! ## Requests with tokens that fit -/

/-- A request that writes user records; the tokens fit the buffers of the router. -/
structure UserWrite (κ M : Type) where
  connection : κ
  raw : RawRequest
  locals : Locals M
  op : Op
  named : op.name = raw.op.text
  writes : op ∈ [Op.addCustomer, .modifyCustomer, .addEmployee, .changePassword]
  fits : raw.Fits []

namespace UserWrite

variable {κ M : Type} [DecidableEq κ] [Amount M] [Strtod M]

def serve (env : Env) (s : ServerState κ M) (w : UserWrite κ M) : ServerState κ M :=
  (handleRequest env w.locals w.connection w.raw s).2

def values (w : UserWrite κ M) : List (Scanned M) := sscanf w.op.format w.raw.payload.text

open Scanned in
/--
Every token of the greatest length that the request gets to store meets a NUL in the
last byte of its array: of the dispatcher's record, or of the stored one.
-/
def Closes (t : Tables M) (w : UserWrite κ M) : Prop :=
  match w.op with
  | .addCustomer =>
      let user := newUser w.values w.locals
      w.values.length = 8 →
      t.unique (textAt w.values 6 []) user.email.text user.phone.text 0 →
        w.locals.user.Closes (addedDetails w.values w.locals) ∧
          w.locals.user.username.Closes (textAt w.values 6 [])
  | .modifyCustomer =>
      let d := detailsAt w.values w.locals
      w.values.length = 7 → ∀ i user, t.modifies (unsignedAt w.values 0 0) d i user →
        user.Closes d
  | _ => True

omit [DecidableEq κ] [Amount M] in
private theorem token_le (w : UserWrite κ M) {i size : Nat}
    (hplace : w.op.places[i]? = some (.text size)) (hi : i ≤ w.values.length) :
    (Scanned.textAt w.values i []).length ≤ size - 1 := by
  have hscanned : w.raw.scanned [] = w.raw.payload.text := by
    rw [RawRequest.scanned, List.append_nil]
    rfl
  have hfits := w.fits w.op w.named
  rw [hscanned] at hfits
  rcases places_take w.op with htakes | ⟨hplaces, -⟩
  · exact ((storesFit_iff (M := M) htakes _).mpr hfits i size hplace hi).2
  · rw [hplaces] at hplace
    cases hplace

private theorem serve_db (env : Env) (s : ServerState κ M) (w : UserWrite κ M) {request : Request M}
    (h : w.op.branch w.locals w.raw.op.text w.raw.payload.text = .call request) :
    (w.serve env s).db = (request.handle env s.db).2 := by
  rw [serve, handleRequest_op w.named, h]
  rfl

private theorem serve_invalid (env : Env) (s : ServerState κ M) (w : UserWrite κ M)
    (hop : w.op ≠ .changePassword) (hall : w.values.length ≠ w.op.format.length) :
    (w.serve env s).db = s.db := by
  have hops := w.writes
  simp only [List.mem_cons, List.not_mem_nil, or_false, hop] at hops
  have hlogin : w.op ≠ .login := by
    rcases hops with hop | hop | hop <;> simp [hop]
  have hsettled : w.op.Settled M w.raw.payload.text := by
    rcases hops with hop | hop | hop <;> simp only [values, hop] at hall ⊢
    · exact hall
    · trivial
    · trivial
  rw [serve, handleRequest_op w.named, branch_of_not_converts hsettled hall]
  rfl

variable (env : Env) {s : ServerState κ M} {w : UserWrite κ M}

omit [DecidableEq κ] [Amount M] in
private theorem fits_addedDetails (hop : w.op = .addCustomer) (hall : w.values.length = 8) :
    (addedDetails w.values w.locals).FitBuffers := by
  have hplaces : w.op.places = Op.addCustomer.places := congrArg Op.places hop
  exact
    { firstName := w.token_le (i := 0) (hplaces ▸ rfl) (by omega)
      lastName := w.token_le (i := 1) (hplaces ▸ rfl) (by omega)
      address := w.token_le (i := 3) (hplaces ▸ rfl) (by omega)
      email := w.token_le (i := 4) (hplaces ▸ rfl) (by omega)
      phone := w.token_le (i := 5) (hplaces ▸ rfl) (by omega) }

omit [DecidableEq κ] [Amount M] in
private theorem fits_detailsAt (hop : w.op = .modifyCustomer) (hall : w.values.length = 7) :
    (detailsAt w.values w.locals).FitBuffers := by
  have hplaces : w.op.places = Op.modifyCustomer.places := congrArg Op.places hop
  exact
    { firstName := w.token_le (i := 2) (hplaces ▸ rfl) (by omega)
      lastName := w.token_le (i := 3) (hplaces ▸ rfl) (by omega)
      address := w.token_le (i := 4) (hplaces ▸ rfl) (by omega)
      email := w.token_le (i := 5) (hplaces ▸ rfl) (by omega)
      phone := w.token_le (i := 6) (hplaces ▸ rfl) (by omega) }

private theorem stringsEnd_addCustomer_iff (hop : w.op = .addCustomer)
    (hgood : s.db.tables.StringsEnd) :
    (w.serve env s).db.tables.StringsEnd ↔ w.Closes s.db.tables := by
  have hticks : s.db.Ticks Set.univ := fun _ => trivial
  by_cases hall : w.values.length = 8
  · have hbranch : w.op.branch w.locals w.raw.op.text w.raw.payload.text =
        .call (.addCustomer (newUser w.values w.locals) (Scanned.textAt w.values 6 [])
          (Scanned.textAt w.values 7 [])) := by
      rw [values, hop] at hall ⊢
      exact if_pos hall
    have hfits := fits_addedDetails hop hall
    have hname : (Scanned.textAt w.values 6 []).length ≤ maxUsernameLen - 1 :=
      w.token_le (i := 6) (hop ▸ rfl) (by omega)
    rw [w.serve_db env s hbranch]
    simp only [Closes, hop, hall, forall_const]
    rcases users_addNewCustomer env (newUser w.values w.locals)
        (Scanned.textAt w.values 6 []) (Scanned.textAt w.values 7 []) s.db rfl hticks with
      ⟨hclash, husers⟩ | ⟨hunique, now, husers⟩
    · exact iff_of_true (hgood.congr husers) fun hunique => absurd hunique hclash
    · have hnew := stringsEnd_newCustomer_iff env s.db.tables.nextUserId now
        (Scanned.textAt w.values 7 []) w.locals.user hfits hname
      refine ((hgood.upsert_iff husers).trans hnew).trans ?_
      exact ⟨fun h _ => h, fun h => h hunique⟩
  · rw [w.serve_invalid env s (by simp [hop]) (by rwa [hop])]
    simp only [Closes, hop]
    exact iff_of_true hgood fun hlength => absurd hlength hall

private theorem stringsEnd_modifyCustomer_iff (hop : w.op = .modifyCustomer)
    (hgood : s.db.tables.StringsEnd) :
    (w.serve env s).db.tables.StringsEnd ↔ w.Closes s.db.tables := by
  have hticks : s.db.Ticks Set.univ := fun _ => trivial
  by_cases hall : w.values.length = 7
  · have hbranch : w.op.branch w.locals w.raw.op.text w.raw.payload.text =
        .call (.modifyCustomer (Scanned.unsignedAt w.values 0 0)
          (detailsAt w.values w.locals)) := by
      rw [values, hop] at hall ⊢
      exact if_pos hall
    have hfits := fits_detailsAt hop hall
    rw [w.serve_db env s hbranch]
    simp only [Closes, hop, hall, forall_const]
    rcases users_modifyCustomer (Scanned.unsignedAt w.values 0 0) (detailsAt w.values w.locals)
        s.db rfl hticks with ⟨hnone, husers⟩ | ⟨i, user, hmodifies, husers⟩
    · exact iff_of_true (hgood.congr husers) fun i user h => absurd h (hnone i user)
    · have hold := hgood user (List.mem_of_getElem? hmodifies.1.2)
      have hset := stringsEnd_setDetails_iff hfits hold
      refine ((hgood.set_iff hmodifies.1 husers).trans hset).trans ?_
      refine ⟨fun h j user' hmodifies' => ?_, fun h => h i user hmodifies⟩
      obtain ⟨rfl, rfl⟩ := hmodifies.1.unique hmodifies'.1
      exact h
  · rw [w.serve_invalid env s (by simp [hop]) (by rwa [hop])]
    simp only [Closes, hop]
    exact iff_of_true hgood fun hlength => absurd hlength hall

private theorem stringsEnd_addEmployee (hop : w.op = .addEmployee)
    (hgood : s.db.tables.StringsEnd) :
    (w.serve env s).db.tables.StringsEnd := by
  have hticks : s.db.Ticks Set.univ := fun _ => trivial
  by_cases hall : w.values.length = 9
  · let d : Details :=
      { firstName := Scanned.textAt w.values 0 []
        lastName := Scanned.textAt w.values 1 []
        age := Scanned.signedAt w.values 2 w.locals.age
        address := Scanned.textAt w.values 3 []
        email := Scanned.textAt w.values 5 []
        phone := Scanned.textAt w.values 6 [] }
    have hbranch : w.op.branch w.locals w.raw.op.text w.raw.payload.text =
        .call (.addEmployee d (Scanned.textAt w.values 4 []) (Scanned.textAt w.values 7 [])
          (Scanned.textAt w.values 8 [])) := by
      simp only [d]
      rw [values, hop] at hall ⊢
      exact if_pos hall
    have hplaces : w.op.places = Op.addEmployee.places := congrArg Op.places hop
    have hfits : d.FitBuffers :=
      { firstName := w.token_le (i := 0) (hplaces ▸ rfl) (by omega)
        lastName := w.token_le (i := 1) (hplaces ▸ rfl) (by omega)
        address := w.token_le (i := 3) (hplaces ▸ rfl) (by omega)
        email := w.token_le (i := 5) (hplaces ▸ rfl) (by omega)
        phone := w.token_le (i := 6) (hplaces ▸ rfl) (by omega) }
    have hname : (Scanned.textAt w.values 7 []).length ≤ maxUsernameLen - 1 :=
      w.token_le (i := 7) (hplaces ▸ rfl) (by omega)
    rw [w.serve_db env s hbranch]
    exact (Request.handle_step env _ hticks).stringsEnd_addEmployee hgood hfits hname
  · rw [w.serve_invalid env s (by simp [hop]) (by rwa [hop])]
    exact hgood

private theorem stringsEnd_changePassword (hop : w.op = .changePassword)
    (hgood : s.db.tables.StringsEnd) : (w.serve env s).db.tables.StringsEnd := by
  have hticks : s.db.Ticks Set.univ := fun _ => trivial
  have hbranch : w.op.branch w.locals w.raw.op.text w.raw.payload.text =
      .call (.changePassword (Scanned.unsignedAt w.values 0 w.locals.userId)
        (Scanned.textAt w.values 1 w.locals.newpass)) := by
    rw [values, hop]
    rfl
  rw [w.serve_db env s hbranch]
  exact (Request.handle_step env _ hticks).stringsEnd_changePassword hgood

private theorem stringsEnd_iff (env : Env) (s : ServerState κ M) (w : UserWrite κ M)
    (hgood : s.db.tables.StringsEnd) :
    (w.serve env s).db.tables.StringsEnd ↔ w.Closes s.db.tables := by
  have hops := w.writes
  simp only [List.mem_cons, List.not_mem_nil, or_false] at hops
  rcases hops with hop | hop | hop | hop
  · exact stringsEnd_addCustomer_iff env hop hgood
  · exact stringsEnd_modifyCustomer_iff env hop hgood
  · refine iff_of_true (stringsEnd_addEmployee env hop hgood) ?_
    simp only [Closes, hop]
  · refine iff_of_true (stringsEnd_changePassword env hop hgood) ?_
    simp only [Closes, hop]

end UserWrite

/-! ## Runs -/

def longNameText : RawRequest :=
  .ofText (str "ADD_CUSTOMER") (str "Ann Lee 30 Home a@b 1 " ++ List.replicate 63 97 ++ str " pw")

private theorem longNameText_fits : longNameText.Fits [] := by
  intro o hname
  have hop : o = .addCustomer := by
    revert hname
    cases o <;> decide +kernel
  have hwords : words (longNameText.scanned []) =
      [str "Ann", str "Lee", str "30", str "Home", str "a@b", str "1", List.replicate 63 97,
        str "pw"] := by
    decide +kernel
  have hzero : 0 ∈ longNameText.payload.bytes := by decide +kernel
  have hnumber : numberEnd (str "30") = some [] := by decide +kernel
  rw [hop, hwords]
  refine ⟨hzero, by decide, hzero, by decide, fun left hleft => ?_⟩
  obtain rfl : left = [] := by simpa [hnumber] using hleft.symm
  exact ⟨hzero, by decide, hzero, by decide, hzero, by decide, hzero, by decide, hzero, by decide,
    trivial⟩

def longName (user : UserRec) : UserWrite Unit ℚ where
  connection := ()
  raw := longNameText
  locals := { (Locals.zero : Locals ℚ) with user }
  op := .addCustomer
  named := by decide +kernel
  writes := by decide
  fits := longNameText_fits

/--
In a run of such requests from files whose strings end, the strings of every state end
exactly when every token of the greatest length meets a NUL.
-/
theorem stored_strings_end_iff {κ M : Type} [DecidableEq κ] [Amount M] [Strtod M] (env : Env)
    (s : ServerState κ M) (requests : List (UserWrite κ M)) (hstart : s.db.tables.StringsEnd) :
    (∀ first rest, requests = first ++ rest →
      (first.foldl (UserWrite.serve env) s).db.tables.StringsEnd) ↔
    ∀ first w rest, requests = first ++ w :: rest →
      w.Closes (first.foldl (UserWrite.serve env) s).db.tables :=
  foldl_good_iff (UserWrite.serve env) (fun _ => True)
    (fun s : ServerState κ M => s.db.tables.StringsEnd) (fun s w => w.Closes s.db.tables)
    (fun _ _ _ => trivial) (fun s w _ hgood => w.stringsEnd_iff env s hgood) trivial hstart requests

theorem stored_strings_end_iff_cleared :
    ([longName .zero].foldl (UserWrite.serve .plain)
      (ServerState.init (Database.empty fun _ => 1))).db.tables.StringsEnd := by
  refine (stored_strings_end_iff .plain _ [longName .zero] fun user hmem => ?_).mpr
    (fun first w rest hsplit => ?_) [longName .zero] [] rfl
  · cases hmem
  · obtain ⟨rfl, hw, -⟩ : first = [] ∧ longName .zero = w ∧ rest = [] := by
      cases first <;> simp_all
    subst hw
    exact fun _ _ => ⟨UserRec.closes_zero _, (CharArray.terminated_zero (by decide)).closes _⟩

theorem long_name_runs_on :
    ¬ ∀ requests : List (UserWrite Unit ℚ),
      (requests.foldl (UserWrite.serve .plain)
        (ServerState.init (Database.empty fun _ => 1))).db.tables.StringsEnd := by
  intro h
  have hname : ¬ ∀ user ∈ ([longName dirtyUser].foldl (UserWrite.serve .plain)
      (ServerState.init (Database.empty fun _ => 1))).db.userTable, 0 ∈ user.username.bytes := by
    decide +kernel
  exact hname fun user hmem => (h [longName dirtyUser] user hmem).username

end BankingSystem
