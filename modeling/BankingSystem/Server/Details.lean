import BankingSystem.Requests.WellFormed
import BankingSystem.Server.Router
import BankingSystem.Server.Sessions

/-!
# Personal details between two requests

The details of a request are copied into the fields of a user record and are printed
from there later.  An `int` age goes into a field of eight bits.
-/

namespace BankingSystem

open Foundation Tables

variable {M : Type} [Amount M]

/-! ## The text of the details -/

/-- `view_personal_details`, with the details in place of the record's fields. -/
def detailsText (userId : Nat) (d : Details) : Bytes :=
  str "--- Personal Details for " ++ cstr d.firstName ++ str " ---\n" ++
    str "Account ID: AC" ++ dec userId ++ str "\n" ++
    str "Name:       " ++ cstr d.firstName ++ str " " ++ cstr d.lastName ++ str "\n" ++
    str "Age:        " ++ decInt d.age ++ str "\n" ++
    str "Address:    " ++ cstr d.address ++ str "\n" ++
    str "Email:      " ++ cstr d.email ++ str "\n" ++
    str "Phone:      " ++ cstr d.phone ++ str "\n"

/-- Each string is at most as long as its field minus one and leaves it terminated. -/
structure Details.FitsIn (d : Details) (user : UserRec) : Prop where
  firstName : (cstr d.firstName).length ≤ maxFnameLen - 1 ∧ user.firstName.Closes d.firstName
  lastName : (cstr d.lastName).length ≤ maxLnameLen - 1 ∧ user.lastName.Closes d.lastName
  address : (cstr d.address).length ≤ maxAddrLen - 1 ∧ user.address.Closes d.address
  email : (cstr d.email).length ≤ maxEmailLen - 1 ∧ user.email.Closes d.email
  phone : (cstr d.phone).length ≤ maxPhoneLen - 1 ∧ user.phone.Closes d.phone

/-- The two records agree in the fields of the details. -/
structure UserRec.SameDetails (user other : UserRec) : Prop where
  firstName : user.firstName = other.firstName
  lastName : user.lastName = other.lastName
  age : user.age = other.age
  address : user.address = other.address
  email : user.email = other.email
  phone : user.phone = other.phone

theorem UserRec.SameDetails.refl (user : UserRec) : user.SameDetails user :=
  ⟨rfl, rfl, rfl, rfl, rfl, rfl⟩

theorem UserRec.SameDetails.trans {user middle other : UserRec} (h : user.SameDetails middle)
    (h' : middle.SameDetails other) : user.SameDetails other where
  firstName := h.firstName.trans h'.firstName
  lastName := h.lastName.trans h'.lastName
  age := h.age.trans h'.age
  address := h.address.trans h'.address
  email := h.email.trans h'.email
  phone := h.phone.trans h'.phone

private theorem decInt_natCast (n : Nat) : decInt n = dec n := rfl

private theorem decInt_inj {m n : Int} (hm : 0 ≤ m) (h : decInt m = decInt n) : m = n := by
  obtain ⟨m, rfl⟩ := Int.eq_ofNat_of_zero_le hm
  cases n with
  | ofNat n =>
      have hsame : natOfDigits (dec m) = natOfDigits (dec n) := congrArg natOfDigits h
      rw [natOfDigits_dec, natOfDigits_dec] at hsame
      rw [hsame]
      rfl
  | negSucc n =>
      have hminus : (45 : UInt8) ∈ dec m := by
        rw [show dec m = 45 :: dec (n + 1) from h]
        exact List.mem_cons_self
      exact absurd (isDigit_of_mem_dec hminus) (by decide)

theorem Details.FitsIn.text {d : Details} {user : UserRec} (h : d.FitsIn user) :
    (user.setDetails d).firstName.text = cstr d.firstName ∧
    (user.setDetails d).lastName.text = cstr d.lastName ∧
    (user.setDetails d).address.text = cstr d.address ∧
    (user.setDetails d).email.text = cstr d.email ∧
    (user.setDetails d).phone.text = cstr d.phone :=
  ⟨CharArray.text_strncpy_of_closes (by decide) h.firstName.1 h.firstName.2,
    CharArray.text_strncpy_of_closes (by decide) h.lastName.1 h.lastName.2,
    CharArray.text_strncpy_of_closes (by decide) h.address.1 h.address.2,
    CharArray.text_strncpy_of_closes (by decide) h.email.1 h.email.2,
    CharArray.text_strncpy_of_closes (by decide) h.phone.1 h.phone.2⟩

private theorem detailsText_congr (userId : Nat) {d d' : Details}
    (hfirst : cstr d.firstName = cstr d'.firstName) (hlast : cstr d.lastName = cstr d'.lastName)
    (hage : d.age = d'.age) (haddress : cstr d.address = cstr d'.address)
    (hemail : cstr d.email = cstr d'.email) (hphone : cstr d.phone = cstr d'.phone) :
    detailsText userId d = detailsText userId d' := by
  unfold detailsText
  rw [hfirst, hlast, hage, haddress, hemail, hphone]

private theorem decInt_of_detailsText {userId : Nat} {d : Details} {age : Int}
    (h : detailsText userId { d with age } = detailsText userId d) : decInt age = decInt d.age := by
  unfold detailsText at h
  simp only [List.append_assoc, List.append_cancel_left_eq] at h
  exact List.append_cancel_right h

private theorem detailsText_of_sameDetails {userId : Nat} {d : Details} {base user : UserRec}
    (hfits : d.FitsIn base) (hsame : user.SameDetails (base.setDetails d)) :
    detailsText userId ⟨user.firstName.text, user.lastName.text, user.age.toNat,
        user.address.text, user.email.text, user.phone.text⟩ =
      detailsText userId { d with age := d.age % 256 } := by
  obtain ⟨hfirst, hlast, haddress, hemail, hphone⟩ := hfits.text
  have hage : ((base.setDetails d).age.toNat : Int) = d.age % 256 := toNat_ageOfInt d.age
  rw [hsame.firstName, hsame.lastName, hsame.age, hsame.address, hsame.email, hsame.phone,
    hfirst, hlast, haddress, hemail, hphone, hage]
  exact detailsText_congr userId (cstr_cstr _) (cstr_cstr _) rfl (cstr_cstr _) (cstr_cstr _)
    (cstr_cstr _)

private theorem length_detailsText_lt {userId : Nat} {d : Details} {base : UserRec}
    (hid : userId < 2 ^ 32) (hfits : d.FitsIn base) (hage : 0 ≤ d.age ∧ d.age < 2 ^ 31) :
    (detailsText userId d).length < maxMsgLen := by
  have hfirst := hfits.firstName.1
  have hlast := hfits.lastName.1
  have haddress := hfits.address.1
  have hemail := hfits.email.1
  have hphone := hfits.phone.1
  have hdec := length_dec_le hid
  obtain ⟨age, hnat⟩ := Int.eq_ofNat_of_zero_le hage.1
  have hage' := length_dec_le (n := age) (by omega)
  have htitle : (str "--- Personal Details for ").length = 25 := by simp [str]
  have hrule : (str " ---\n").length = 5 := by simp [str]
  have haccount : (str "Account ID: AC").length = 14 := by simp [str]
  have hname : (str "Name:       ").length = 12 := by simp [str]
  have hageLabel : (str "Age:        ").length = 12 := by simp [str]
  have haddressLabel : (str "Address:    ").length = 12 := by simp [str]
  have hemailLabel : (str "Email:      ").length = 12 := by simp [str]
  have hphoneLabel : (str "Phone:      ").length = 12 := by simp [str]
  have hblank : (str " ").length = 1 := by simp [str]
  have hline : (str "\n").length = 1 := by simp [str]
  have hdecInt : decInt d.age = dec age := by rw [hnat]; rfl
  unfold detailsText
  simp only [List.length_append, hdecInt, htitle, hrule, haccount, hname, hageLabel,
    haddressLabel, hemailLabel, hphoneLabel, hblank, hline]
  simp only [maxFnameLen, maxLnameLen, maxAddrLen, maxEmailLen, maxPhoneLen, maxMsgLen]
    at hfirst hlast haddress hemail hphone ⊢
  omega

private theorem viewDetails_of_found (env : Env) {userId : Nat} {db : Database M} {user : UserRec}
    (hfound : Table.lookup UserRec.userId userId db.userTable = some user) :
    ((Request.viewDetails userId).handle env db).1 = .say true (detailsText userId
      ⟨user.firstName.text, user.lastName.text, user.age.toNat, user.address.text,
        user.email.text, user.phone.text⟩) := by
  have hid := Table.lookup_key hfound
  simp only [Request.handle, Request.program, viewPersonalDetails, Db.readUser_bind,
    Prog.run_call, Db.exec, hfound, Prog.pure_eq, Prog.run_ret]
  unfold detailsText
  rw [CharArray.cstr_text, CharArray.cstr_text, CharArray.cstr_text, CharArray.cstr_text,
    CharArray.cstr_text, hid, decInt_natCast]

/-! ## Other requests -/

def Request.KeepsDetails (userId : Nat) : Request M → Prop
  | .modifyCustomer id _ | .modifyUser id _ => id ≠ userId
  | _ => True

structure Shows (userId : Nat) (shown : UserRec) (t : Tables M) : Prop where
  wellFormed : WellFormed t
  found : ∃ user, Table.lookup UserRec.userId userId t.users = some user ∧
    user.SameDetails shown

namespace Shows

variable {env : Env} {times : Set Time} {t t' : Tables M} {userId : Nat} {shown : UserRec}

omit [Amount M] in
theorem of_users (h : Shows userId shown t) (hwf : WellFormed t') (husers : t'.users = t.users) :
    Shows userId shown t' :=
  ⟨hwf, husers ▸ h.found⟩

omit [Amount M] in
theorem append {user : UserRec} (h : Shows userId shown t) (hwf : WellFormed t')
    (husers : t'.users = t.users ++ [user]) : Shows userId shown t' := by
  obtain ⟨old, hold, hsame⟩ := h.found
  refine ⟨hwf, old, ?_, hsame⟩
  rw [husers, Table.lookup_append_singleton, hold, Option.some_or]

omit [Amount M] in
theorem withUser {id i : Nat} {user user' : UserRec} (h : Shows userId shown t)
    (huser : t.userAt id i user) (hid : user'.userId = user.userId)
    (hkeeps : id = userId → user'.SameDetails user) : Shows userId shown (t.withUser i user') := by
  refine ⟨h.wellFormed.withUser huser hid, ?_⟩
  obtain ⟨old, hold, hsame⟩ := h.found
  have hlookup := (Table.lookup_of_locate huser.1).trans huser.2
  have hkey : user'.userId = id := hid.trans (Table.lookup_key hlookup)
  by_cases hsameId : id = userId
  · subst hsameId
    rw [hlookup, Option.some_inj] at hold
    subst hold
    exact ⟨user', Table.lookup_set_self huser.1 hkey, (hkeeps rfl).trans hsame⟩
  · refine ⟨old, ?_, hsame⟩
    rw [Tables.withUser, Table.lookup_set_ne huser.1 hkey (Ne.symm hsameId), hold]

theorem step {request : Request M} {result : Bool} (hstep : Step env times t request result t')
    (hkeeps : request.KeepsDetails userId) (h : Shows userId shown t) :
    Shows userId shown t' := by
  have hwf := h.wellFormed.step hstep
  have husers := hstep.users_eq
  cases hstep with
  | refused | looked => exact h
  | customerAdded | employeeAdded => exact h.append hwf (h.wellFormed.upsert_user rfl)
  | customerModified huser | userModified huser =>
      exact h.withUser huser rfl fun hid => absurd hid hkeeps
  | roleChanged huser | passwordChanged huser =>
      exact h.withUser huser rfl fun _ => ⟨rfl, rfl, rfl, rfl, rfl, rfl⟩
  | _ => exact h.of_users hwf (husers rfl)

private theorem of_added {user : UserRec} {username password : Bytes} (hwf : WellFormed t)
    (hstep : Step env times t (.addCustomer user username password) true t') :
    Shows t.nextUserId user t' := by
  refine ⟨hwf.step hstep, ?_⟩
  cases hstep with
  | looked hread => cases hread
  | @customerAdded _ _ _ now =>
      have hupsert : ∀ new : UserRec, Table.lookup UserRec.userId new.userId
          (Table.upsert UserRec.userId new t.users) = some new :=
        fun new => Table.lookup_upsert_self
      exact ⟨_, hupsert (newCustomer env user t.nextUserId now username password),
        ⟨rfl, rfl, rfl, rfl, rfl, rfl⟩⟩

private theorem of_modified {d : Details} {i : Nat} {user : UserRec} (hwf : WellFormed t)
    (huser : t.userAt userId i user) (hstep : Step env times t (.modifyCustomer userId d) true t') :
    Shows userId (user.setDetails d) t' := by
  refine ⟨hwf.step hstep, ?_⟩
  cases hstep with
  | looked hread => cases hread
  | customerModified huser' =>
      obtain ⟨rfl, rfl⟩ := huser.unique huser'
      have hlookup := (Table.lookup_of_locate huser.1).trans huser.2
      have hkey : user.userId = userId := Table.lookup_key hlookup
      exact ⟨user.setDetails d, Table.lookup_set_self huser.1 hkey, .refl _⟩

theorem serve {db : Database M} (requests : List (Request M))
    (hkeeps : ∀ request ∈ requests, request.KeepsDetails userId)
    (h : Shows userId shown db.tables) :
    Shows userId shown (Request.serve env requests db).tables := by
  have hticks : db.Ticks Set.univ := fun _ => trivial
  exact Request.serve_tables_of_mem (I := Shows userId shown) env requests
    (fun request hmem t result t' hstep h => h.step hstep (hkeeps request hmem)) hticks h

end Shows

/-! ## Requests that bring details -/

section Enters

variable [Strtod M]

open Scanned

/--
`Enters locals raw db request userId d base`: the router calls `request`, which copies the
details `d` over those of the record `base` and stores them for the user `userId`.
-/
inductive Enters (locals : Locals M) (raw : RawRequest) (db : Database M) :
    Request M → Nat → Details → UserRec → Prop
  | added {values} (hop : raw.op.text = Op.addCustomer.name)
      (hvalues : sscanf (M := M) Op.addCustomer.format raw.payload.text = values)
      (hcount : values.length = 8) :
      Enters locals raw db
        (.addCustomer (newUser values locals) (textAt values 6 []) (textAt values 7 []))
        db.tables.nextUserId (addedDetails values locals) locals.user
  | modified {values i user} (hop : raw.op.text = Op.modifyCustomer.name)
      (hvalues : sscanf (M := M) Op.modifyCustomer.format raw.payload.text = values)
      (hcount : values.length = 7) (huser : db.tables.userAt (unsignedAt values 0 0) i user) :
      Enters locals raw db
        (.modifyCustomer (unsignedAt values 0 0) (detailsAt values locals))
        (unsignedAt values 0 0) (detailsAt values locals) user

variable {locals : Locals M} {raw : RawRequest} {db : Database M} {request : Request M}
  {userId : Nat} {d : Details} {base : UserRec}

omit [Amount M] in
theorem Enters.dispatch (h : Enters locals raw db request userId d base) :
    dispatch locals raw.op.text raw.payload.text = .call request := by
  cases h with
  | added hop hvalues hcount =>
      rw [hop, dispatch_op]
      subst hvalues
      exact if_pos hcount
  | modified hop hvalues hcount =>
      rw [hop, dispatch_op]
      subst hvalues
      exact if_pos hcount

private theorem Enters.shows {env : Env} {times : Set Time} {t' : Tables M}
    (h : Enters locals raw db request userId d base) (hwf : WellFormed db.tables)
    (hstep : Step env times db.tables request true t') :
    Shows userId (base.setDetails d) t' := by
  cases h with
  | added => exact .of_added hwf hstep
  | modified _ _ _ huser => exact .of_modified hwf huser hstep

end Enters

/-- The record of a user whose details were entered is printed with the age modulo 256. -/
private theorem viewDetails_iff (env : Env) {userId : Nat} {d : Details} {base : UserRec}
    {db : Database M} (hshows : Shows userId (base.setDetails d) db.tables)
    (hfits : d.FitsIn base) (hid : userId < 2 ^ 32) :
    ((Request.viewDetails userId).handle env db).1 = ⟨true, detailsText userId d⟩ ↔
      0 ≤ d.age ∧ d.age ≤ 255 := by
  obtain ⟨user, hfound, hsame⟩ := hshows.found
  have hshort : (detailsText userId { d with age := d.age % 256 }).length < maxMsgLen := by
    refine length_detailsText_lt hid ⟨hfits.firstName, hfits.lastName, hfits.address,
      hfits.email, hfits.phone⟩ ?_
    change 0 ≤ d.age % 256 ∧ d.age % 256 < 2 ^ 31
    omega
  rw [viewDetails_of_found env hfound, detailsText_of_sameDetails hfits hsame, Reply.say, respond,
    snprintf, List.take_of_length_le (Nat.le_sub_one_of_lt hshort)]
  constructor
  · intro h
    rw [Reply.mk.injEq] at h
    have hage := decInt_inj (Int.emod_nonneg _ (by decide)) (decInt_of_detailsText h.2)
    omega
  · intro hage
    rw [Int.emod_eq_of_lt hage.1 (by omega)]

/--
A customer is added or modified by a request with any payload, after any run of requests
from empty databases; the strings are short enough to be stored with their NULs.  Whatever
requests follow, unless they modify the details of the same user, the view prints what was
entered if and only if the age is from 0 to 255.
-/
theorem details_read_back_iff {κ : Type} [DecidableEq κ] [Strtod M] (env : Env)
    (locals : Locals M) (clock : Nat → Time) (before after : List (Request M))
    (s : ServerState κ M) (c : κ) (raw : RawRequest) {request : Request M} {userId : Nat}
    {d : Details} {base : UserRec}
    (hstate : s.db = Request.serve env before (Database.empty clock))
    (henters : Enters locals raw s.db request userId d base)
    (haccepted : (request.handle env s.db).1.result = true)
    (hfits : d.FitsIn base) (hid : userId < 2 ^ 32)
    (hkeeps : ∀ request ∈ after, request.KeepsDetails userId) :
    let db := Request.serve env after (handleRequest env locals c raw s).2.db
    ((Request.viewDetails userId).handle env db).1 = ⟨true, detailsText userId d⟩ ↔
      0 ≤ d.age ∧ d.age ≤ 255 := by
  intro db
  have hticks : ∀ db : Database M, db.Ticks Set.univ := fun _ _ => trivial
  have hwf : WellFormed s.db.tables := by
    rw [hstate]
    exact Request.serve_tables env (fun t request result t' hstep hwf => hwf.step hstep) before
      (hticks _) (.empty clock)
  have hstep := request.handle_step env (hticks s.db)
  rw [haccepted] at hstep
  have hdb : (handleRequest env locals c raw s).2.db = (request.handle env s.db).2 := by
    rw [handleRequest, henters.dispatch]
    rfl
  refine viewDetails_iff env (Shows.serve after hkeeps ?_) hfits hid
  rw [hdb]
  exact henters.shows hwf hstep

def addAnn (age : Bytes) : RawRequest :=
  .ofText (str "ADD_CUSTOMER") (str "Ann Lee " ++ age ++ str " Home a@x 1 ann pw")

def annDetails (age : Int) : Details :=
  ⟨str "Ann", str "Lee", age, str "Home", str "a@x", str "1"⟩

private theorem annDetails_fitsIn (age : Int) : (annDetails age).FitsIn .zero where
  firstName := ⟨(by decide : (cstr (str "Ann")).length ≤ 63), fun h => by cases h⟩
  lastName := ⟨(by decide : (cstr (str "Lee")).length ≤ 63), fun h => by cases h⟩
  address := ⟨(by decide : (cstr (str "Home")).length ≤ 255), fun h => by cases h⟩
  email := ⟨(by decide : (cstr (str "a@x")).length ≤ 63), fun h => by cases h⟩
  phone := ⟨(by decide : (cstr (str "1")).length ≤ 15), fun h => by cases h⟩

def annRequest (age : Int) : Request ℚ :=
  .addCustomer (UserRec.zero.setDetails (annDetails age)) (str "ann") (str "pw")

theorem details_read_back_ann :
    let s : ServerState (Fin 1) ℚ := .init (Database.empty fun _ => 1)
    let db := Request.serve .plain [.changePassword 1001 (str "new"), .deposit 1001 5]
      (handleRequest .plain .zero 0 (addAnn (str "30")) s).2.db
    ((Request.viewDetails 1001).handle .plain db).1 =
      ⟨true, detailsText 1001 (annDetails 30)⟩ := by
  intro s
  have henters : Enters Locals.zero (addAnn (str "30")) s.db (annRequest 30) 1001
      (annDetails 30) .zero := .added (by decide +kernel) rfl (by decide +kernel)
  refine (details_read_back_iff .plain .zero (fun _ => 1) [] _ s 0 (addAnn (str "30")) rfl henters
    (by decide +kernel) (annDetails_fitsIn 30) (by decide) ?_).mpr (by decide)
  simp [Request.KeepsDetails]

/-- 300 is stored as 44. -/
theorem age_not_read_back :
    ¬ ∀ (raw : RawRequest) (request : Request ℚ) (userId : Nat) (d : Details) (base : UserRec),
      let s : ServerState (Fin 1) ℚ := .init (Database.empty fun _ => 1)
      Enters Locals.zero raw s.db request userId d base →
      (request.handle .plain s.db).1.result = true → d.FitsIn base →
      ((Request.viewDetails userId).handle .plain (handleRequest .plain .zero 0 raw s).2.db).1 =
        ⟨true, detailsText userId d⟩ := by
  intro h
  have hview := h (addAnn (str "300")) (annRequest 300) 1001 (annDetails 300) .zero
    (.added (by decide +kernel) rfl (by decide +kernel)) (by decide +kernel)
    (annDetails_fitsIn 300)
  revert hview
  decide +kernel

end BankingSystem
