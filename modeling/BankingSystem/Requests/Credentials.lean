import BankingSystem.Requests.WellFormed

/-!
# Usernames, emails and phones

`check_uniqueness` compares the arguments of a request, `strncpy` copies them over
what the fields held before.  As long as the strings fit their fields the two agree,
and served one at a time the requests keep all three columns free of duplicates.
-/

namespace BankingSystem

open Foundation Tables

/-! ## Distinct records -/

structure UserRec.Apart (user other : UserRec) : Prop where
  username : user.username.text ≠ other.username.text
  email : user.email.text ≠ other.email.text
  phone : user.phone.text ≠ other.phone.text

def DistinctUsers (users : List UserRec) : Prop :=
  ∀ (i j : Nat) user other, i ≠ j → users[i]? = some user → users[j]? = some other →
    user.Apart other

theorem UserRec.Apart.symm {user other : UserRec} (h : user.Apart other) :
    other.Apart user :=
  ⟨h.username.symm, h.email.symm, h.phone.symm⟩

private theorem firstClash_eq_none_iff {user : UserRec} {users : List UserRec} :
    firstClash user.username.text user.email.text user.phone.text user.userId users = none ↔
      ∀ old ∈ users, old.userId ≠ user.userId → old.Apart user := by
  rw [firstClash, List.findSome?_eq_none_iff]
  refine forall₂_congr fun old _ => ?_
  by_cases hid : old.userId = user.userId
  · simp [UserRec.clash, hid]
  · have hapart : old.Apart user ↔ old.username.text ≠ user.username.text ∧
        old.email.text ≠ user.email.text ∧ old.phone.text ≠ user.phone.text :=
      ⟨fun h => ⟨h.username, h.email, h.phone⟩, fun h => ⟨h.1, h.2.1, h.2.2⟩⟩
    simp only [UserRec.clash, hid, if_false, CharArray.cstr_text, hapart]
    by_cases husername : old.username.text = user.username.text
    · simp [hid, husername]
    by_cases hemail : old.email.text = user.email.text
    · simp [hid, husername, hemail]
    by_cases hphone : old.phone.text = user.phone.text <;>
      simp [hid, husername, hemail, hphone]

/--
Writing one record over another with its id, or where there was none: the table
stays pairwise distinct exactly when the check accepts the record.
-/
private theorem distinctUsers_write_iff {users users' : List UserRec} {user : UserRec} {p : Nat}
    (hdistinct : DistinctUsers users) (hp : users'[p]? = some user)
    (hothers : ∀ j, j ≠ p → users'[j]? = users[j]?)
    (hids : ∀ (j : Nat) old, users[j]? = some old → (old.userId = user.userId ↔ j = p)) :
    DistinctUsers users' ↔
      firstClash user.username.text user.email.text user.phone.text user.userId users =
        none := by
  rw [firstClash_eq_none_iff]
  constructor
  · intro hdistinct' old hmem hne
    obtain ⟨j, hj⟩ := List.mem_iff_getElem?.mp hmem
    have hjp : j ≠ p := fun h => hne ((hids j old hj).mpr h)
    exact hdistinct' j p old user hjp ((hothers j hjp).trans hj) hp
  · intro haccepted
    have happly : ∀ j old, j ≠ p → users'[j]? = some old → old.Apart user := by
      intro j old hjp hj
      rw [hothers j hjp] at hj
      exact haccepted old (List.mem_of_getElem? hj) fun h => hjp ((hids j old hj).mp h)
    intro i j first second hij hi hj
    by_cases hip : i = p
    · subst hip
      rw [hp] at hi
      cases hi
      exact (happly j second (Ne.symm hij) hj).symm
    · by_cases hjp : j = p
      · subst hjp
        rw [hp] at hj
        cases hj
        exact happly i first hip hi
      · rw [hothers i hip] at hi
        rw [hothers j hjp] at hj
        exact hdistinct i j first second hij hi hj

private theorem place_iff {users : List UserRec} {p userId : Nat}
    (hids : (users.map UserRec.userId).Nodup)
    (hp : (users.map UserRec.userId)[p]? = some userId) (j : Nat) (old : UserRec)
    (hj : users[j]? = some old) : old.userId = userId ↔ j = p := by
  have hold : (users.map UserRec.userId)[j]? = some old.userId := by simp [hj]
  constructor
  · intro hid
    rw [hid] at hold
    obtain ⟨hlt, -⟩ := List.getElem?_eq_some_iff.mp hold
    exact (List.getElem?_inj hlt hids).mp (hold.trans hp.symm)
  · rintro rfl
    exact Option.some_inj.mp (hold.symm.trans hp)

theorem distinctUsers_set_iff {users : List UserRec} {user : UserRec} {p : Nat}
    (hids : (users.map UserRec.userId).Nodup) (hdistinct : DistinctUsers users)
    (hp : (users.map UserRec.userId)[p]? = some user.userId) :
    DistinctUsers (users.set p user) ↔
      firstClash user.username.text user.email.text user.phone.text user.userId users =
        none := by
  obtain ⟨hlt, -⟩ := List.getElem?_eq_some_iff.mp hp
  rw [List.length_map] at hlt
  exact distinctUsers_write_iff hdistinct (List.getElem?_set_self hlt)
    (fun j hj => List.getElem?_set_ne hj.symm) (place_iff hids hp)

theorem distinctUsers_append_iff {users : List UserRec} {user : UserRec}
    (hdistinct : DistinctUsers users) (hfresh : ∀ old ∈ users, old.userId ≠ user.userId) :
    DistinctUsers (users ++ [user]) ↔
      firstClash user.username.text user.email.text user.phone.text user.userId users =
        none := by
  refine distinctUsers_write_iff (p := users.length) hdistinct (by simp) ?_ ?_
  · intro j hj
    by_cases hlt : j < users.length
    · rw [List.getElem?_append_left hlt]
    · rw [List.getElem?_eq_none (by simp; omega), List.getElem?_eq_none (by omega)]
  · intro j old hold
    have hne := hfresh old (List.mem_of_getElem? hold)
    obtain ⟨hlt, -⟩ := List.getElem?_eq_some_iff.mp hold
    simp [hne, hlt.ne]

/-! ## Arguments and stored strings -/

/-- The check sees its arguments as C strings, and does not see the record of the id. -/
theorem firstClash_congr {users : List UserRec} {username email phone : Bytes}
    {username' email' phone' : Bytes} {userId userId' : Nat}
    (husername : cstr username = cstr username') (hemail : cstr email = cstr email')
    (hphone : cstr phone = cstr phone')
    (hid : ∀ user ∈ users, user.userId = userId ↔ user.userId = userId') :
    firstClash username email phone userId users =
      firstClash username' email' phone' userId' users := by
  induction users with
  | nil => rfl
  | cons user users ih =>
      have hclash : user.clash username email phone userId =
          user.clash username' email' phone' userId' := by
        simp only [UserRec.clash, husername, hemail, hphone, hid user List.mem_cons_self]
      have hrest := ih fun user hmem => hid user (List.mem_cons_of_mem _ hmem)
      simp only [firstClash] at hrest ⊢
      rw [List.findSome?_cons, List.findSome?_cons, hclash, hrest]

structure Details.Fits (d : Details) : Prop where
  email : (cstr d.email).length < maxEmailLen
  phone : (cstr d.phone).length < maxPhoneLen

/-- The strings fit, and a new customer comes as a cleared record that was filled in. -/
def Request.Fits {M : Type} : Request M → Prop
  | .addCustomer user username _ =>
      (∃ d : Details, d.Fits ∧ user = UserRec.zero.setDetails d) ∧
        (cstr username).length < maxUsernameLen
  | .addEmployee d _ username _ => d.Fits ∧ (cstr username).length < maxUsernameLen
  | .modifyCustomer _ d | .modifyUser _ d => d.Fits
  | _ => True

structure UserRec.Terminated (user : UserRec) : Prop where
  username : user.username.Terminated
  email : user.email.Terminated
  phone : user.phone.Terminated

theorem UserRec.terminated_zero : UserRec.zero.Terminated where
  username := CharArray.terminated_zero (by decide)
  email := CharArray.terminated_zero (by decide)
  phone := CharArray.terminated_zero (by decide)

theorem UserRec.Terminated.setDetails {user : UserRec} (h : user.Terminated) (d : Details) :
    (user.setDetails d).Terminated :=
  ⟨h.username, h.email.strncpy d.email, h.phone.strncpy d.phone⟩

theorem UserRec.Terminated.text_setDetails {user : UserRec} (h : user.Terminated)
    {d : Details} (hfits : d.Fits) :
    (user.setDetails d).email.text = cstr d.email ∧
      (user.setDetails d).phone.text = cstr d.phone :=
  ⟨CharArray.text_strncpy h.email hfits.email, CharArray.text_strncpy h.phone hfits.phone⟩

/-! ## The invariant of the file -/

structure Credentials (users : List UserRec) : Prop where
  ids : users.map UserRec.userId = List.range' 1001 users.length
  distinct : DistinctUsers users
  terminated : ∀ user ∈ users, user.Terminated

namespace Credentials

variable {users : List UserRec} {user user' : UserRec} {i : Nat}

theorem nodup (h : Credentials users) : (users.map UserRec.userId).Nodup :=
  h.ids ▸ List.nodup_range'

private theorem id_bounds (h : Credentials users) (huser : user ∈ users) :
    1001 ≤ user.userId ∧ user.userId < 1001 + users.length := by
  have hmem : user.userId ∈ users.map UserRec.userId := List.mem_map_of_mem huser
  rw [h.ids, List.mem_range'_1] at hmem
  exact hmem

theorem append {username email phone : Bytes} (h : Credentials users)
    (hunique : firstClash username email phone 0 users = none)
    (hid : user.userId = 1001 + users.length) (hterminated : user.Terminated)
    (husername : user.username.text = cstr username) (hemail : user.email.text = cstr email)
    (hphone : user.phone.text = cstr phone) : Credentials (users ++ [user]) := by
  have hfresh : ∀ old ∈ users, old.userId ≠ user.userId :=
    fun old hold => hid ▸ (h.id_bounds hold).2.ne
  refine ⟨?_, ?_, fun u hu => ?_⟩
  · simp only [List.map_append, List.map_cons, List.map_nil, List.length_append,
      List.length_singleton, List.range'_concat, Nat.one_mul, h.ids, hid]
  · rw [distinctUsers_append_iff h.distinct hfresh, ← hunique]
    refine firstClash_congr ?_ ?_ ?_ fun old hold => ?_
    · rw [husername, cstr_cstr]
    · rw [hemail, cstr_cstr]
    · rw [hphone, cstr_cstr]
    · have hbounds := h.id_bounds hold
      exact iff_of_false (hfresh old hold) (by omega)
  · rcases List.mem_append.mp hu with hold | hnew
    · exact h.terminated u hold
    · rw [List.mem_singleton.mp hnew]
      exact hterminated

theorem set {username email phone : Bytes} (h : Credentials users)
    (huser : users[i]? = some user) (hid : user'.userId = user.userId)
    (hunique : firstClash username email phone user.userId users = none)
    (hterminated : user'.Terminated)
    (husername : user'.username.text = cstr username)
    (hemail : user'.email.text = cstr email) (hphone : user'.phone.text = cstr phone) :
    Credentials (users.set i user') := by
  refine ⟨?_, ?_, fun u hu => ?_⟩
  · rw [Table.map_key_set huser hid, List.length_set, h.ids]
  · have hplace : (users.map UserRec.userId)[i]? = some user'.userId := by
      simp [huser, hid]
    rw [distinctUsers_set_iff h.nodup h.distinct hplace, ← hunique]
    refine firstClash_congr ?_ ?_ ?_ fun old _ => by rw [hid]
    · rw [husername, cstr_cstr]
    · rw [hemail, cstr_cstr]
    · rw [hphone, cstr_cstr]
  · rcases Table.mem_set hu with rfl | hold
    · exact hterminated
    · exact h.terminated u hold

private theorem unique_self (h : Credentials users) (huser : users[i]? = some user) :
    firstClash user.username.text user.email.text user.phone.text user.userId users =
      none := by
  rw [firstClash_eq_none_iff]
  intro old hold hne
  obtain ⟨j, hj⟩ := List.mem_iff_getElem?.mp hold
  have hji : j ≠ i := by
    rintro rfl
    rw [hj] at huser
    cases huser
    exact hne rfl
  exact h.distinct j i old user hji hj huser

theorem set_same (h : Credentials users) (huser : users[i]? = some user)
    (hid : user'.userId = user.userId) (husername : user'.username = user.username)
    (hemail : user'.email = user.email) (hphone : user'.phone = user.phone) :
    Credentials (users.set i user') := by
  have hold := h.terminated user (List.mem_of_getElem? huser)
  refine h.set huser hid (h.unique_self huser) ⟨?_, ?_, ?_⟩ ?_ ?_ ?_
  · rw [husername]
    exact hold.username
  · rw [hemail]
    exact hold.email
  · rw [hphone]
    exact hold.phone
  · rw [husername, CharArray.cstr_text]
  · rw [hemail, CharArray.cstr_text]
  · rw [hphone, CharArray.cstr_text]

variable {M : Type} [Amount M] {env : Env} {times : Set Time} {t t' : Tables M}

omit [Amount M] in
theorem upsert (h : Credentials t.users) (hid : user.userId = t.nextUserId) :
    Table.upsert UserRec.userId user t.users = t.users ++ [user] :=
  Table.upsert_of_fresh fun _ hold => hid ▸ (h.id_bounds hold).2.ne

theorem step {request : Request M} {result : Bool}
    (hstep : Step env times t request result t') (hfits : request.Fits)
    (h : Credentials t.users) : Credentials t'.users := by
  have husers := hstep.users_eq
  cases hstep with
  | refused | looked => exact h
  | customerAdded hunique =>
      obtain ⟨⟨d, hd, rfl⟩, husername⟩ := hfits
      have hzero := UserRec.terminated_zero.setDetails d
      rw [h.upsert rfl]
      refine h.append hunique rfl ⟨hzero.username.strncpy _, hzero.email, hzero.phone⟩ ?_ ?_ ?_
      · exact CharArray.text_strncpy hzero.username husername
      · exact (cstr_cstr _).symm
      · exact (cstr_cstr _).symm
  | @employeeAdded d roleStr role username password now hunique =>
      obtain ⟨hd, husername⟩ := hfits
      have hzero := UserRec.terminated_zero.setDetails d
      obtain ⟨hemail, hphone⟩ := UserRec.terminated_zero.text_setDetails hd
      rw [h.upsert rfl]
      refine h.append hunique rfl ⟨hzero.username.strncpy _, hzero.email, hzero.phone⟩
        ?_ hemail hphone
      exact CharArray.text_strncpy hzero.username husername
  | customerModified huser _ hunique | userModified huser hunique =>
      have hold := h.terminated _ (List.mem_of_getElem? huser.2)
      obtain ⟨hemail, hphone⟩ := hold.text_setDetails hfits
      exact h.set huser.2 rfl hunique (hold.setDetails _) (cstr_cstr _).symm hemail hphone
  | roleChanged huser | passwordChanged huser => exact h.set_same huser.2 rfl rfl rfl rfl
  | _ =>
      rw [husers rfl]
      exact h

end Credentials

/-! ## Which requests the check refuses -/

section Check

variable {M : Type} [Amount M] {env : Env} {times : Set Time} {t : Tables M}

def Request.Collides (t : Tables M) : Request M → Prop
  | .addCustomer user username _ => ∃ old ∈ t.users, old.username.text = cstr username ∨
      old.email.text = user.email.text ∨ old.phone.text = user.phone.text
  | .addEmployee d _ username _ => ∃ old ∈ t.users, old.username.text = cstr username ∨
      old.email.text = cstr d.email ∨ old.phone.text = cstr d.phone
  | .modifyCustomer userId d | .modifyUser userId d => ∃ old ∈ t.users,
      old.userId ≠ userId ∧ (old.email.text = cstr d.email ∨ old.phone.text = cstr d.phone)
  | _ => False

omit [Amount M] in
theorem unique_iff {username email phone : Bytes} {currentUserId : Nat} :
    t.unique username email phone currentUserId ↔ ∀ old ∈ t.users,
      old.userId = currentUserId ∨ (old.username.text ≠ cstr username ∧
        old.email.text ≠ cstr email ∧ old.phone.text ≠ cstr phone) := by
  rw [Tables.unique, firstClash, List.findSome?_eq_none_iff]
  refine forall₂_congr fun old _ => ?_
  by_cases hid : old.userId = currentUserId
  · simp [UserRec.clash, hid]
  by_cases husername : old.username.text = cstr username
  · simp [UserRec.clash, hid, husername]
  by_cases hemail : old.email.text = cstr email
  · simp [UserRec.clash, hid, husername, hemail]
  by_cases hphone : old.phone.text = cstr phone <;>
    simp [UserRec.clash, hid, husername, hemail, hphone]

private theorem Step.refused_of_collides {request : Request M} {result : Bool} {t' : Tables M}
    (hstep : Step env times t request result t') (h : Credentials t.users)
    (hcollides : request.Collides t) : result = false := by
  have hzero : ∀ old ∈ t.users, old.userId ≠ 0 := fun old hold =>
    Nat.ne_of_gt (Nat.lt_of_lt_of_le (by decide) (h.id_bounds hold).1)
  cases hstep with
  | refused => rfl
  | customerAdded hunique =>
      obtain ⟨old, hold, hclash⟩ := hcollides
      rcases unique_iff.mp hunique old hold with hid | ⟨husername, hemail, hphone⟩
      · exact absurd hid (hzero old hold)
      · rcases hclash with hsame | hsame | hsame
        · exact absurd hsame husername
        · exact absurd (hsame.trans (cstr_cstr _).symm) hemail
        · exact absurd (hsame.trans (cstr_cstr _).symm) hphone
  | employeeAdded hunique =>
      obtain ⟨old, hold, hclash⟩ := hcollides
      rcases unique_iff.mp hunique old hold with hid | ⟨husername, hemail, hphone⟩
      · exact absurd hid (hzero old hold)
      · simp [husername, hemail, hphone] at hclash
  | customerModified huser _ hunique | userModified huser hunique =>
      obtain ⟨old, hold, hne, hclash⟩ := hcollides
      obtain ⟨user, hget, hkey⟩ := Table.getElem?_of_locate huser.1
      rw [huser.2] at hget
      cases hget
      rcases unique_iff.mp hunique old hold with hid | ⟨-, hemail, hphone⟩
      · exact absurd (hid.trans hkey) hne
      · simp [hemail, hphone] at hclash
  | looked hread => cases request <;> first | exact hcollides.elim | cases hread
  | _ => exact hcollides.elim

private theorem modifyUser_accepted {userId i : Nat} {user : UserRec} {d : Details}
    (huser : t.userAt userId i user)
    (hunique : t.unique user.username.text d.email d.phone user.userId) :
    Yields times t (modifyUser userId d) fun reply _ => reply.result = true := by
  refine .bind (.atomicUpdateUser (fun hnone => ?_) fun j user' huser' => ?_)
  · rw [huser.1] at hnone
    cases hnone
  · obtain ⟨rfl, rfl⟩ := huser.unique huser'
    refine .checkUniqueness (fun hclash => absurd hunique hclash) fun _ => ?_
    exact .ret (.ret rfl)

private theorem modifyCustomer_accepted {userId i : Nat} {user : UserRec} {d : Details}
    (huser : t.userAt userId i user) (hrole : user.role = .customer)
    (hunique : t.unique user.username.text d.email d.phone user.userId) :
    Yields times t (modifyCustomer userId d []) fun reply _ => reply.result = true := by
  refine .bind (.atomicUpdateUser (fun hnone => ?_) fun j user' huser' => ?_)
  · rw [huser.1] at hnone
    cases hnone
  · obtain ⟨rfl, rfl⟩ := huser.unique huser'
    unfold modifyCustomerModifier
    rw [if_neg (not_not_intro hrole)]
    refine .checkUniqueness (fun hclash => absurd hunique hclash) fun _ => ?_
    exact .ret (.ret rfl)

omit [Amount M] in
private theorem unique_of_not_collides {userId i : Nat} {user : UserRec} {d : Details}
    (h : Credentials t.users) (huser : t.userAt userId i user)
    (hcollides : ¬ (Request.modifyUser userId d : Request M).Collides t) :
    t.unique user.username.text d.email d.phone user.userId := by
  obtain ⟨user', hget, hkey⟩ := Table.getElem?_of_locate huser.1
  rw [huser.2] at hget
  cases hget
  rw [unique_iff]
  intro old hold
  by_cases hid : old.userId = user.userId
  · exact .inl hid
  -- the username that is checked is the user's own
  have hapart := firstClash_eq_none_iff.mp (h.unique_self huser.2) old hold hid
  refine .inr ⟨?_, fun hemail => ?_, fun hphone => ?_⟩
  · rw [CharArray.cstr_text]
    exact hapart.username
  · exact hcollides ⟨old, hold, hkey ▸ hid, .inl hemail⟩
  · exact hcollides ⟨old, hold, hkey ▸ hid, .inr hphone⟩

end Check

/--
Any run of requests whose strings fit, one at a time on a bank without users: no two
stored usernames, emails or phones are equal, a request that brings one which another
user has is refused, and a modification of a user who is there is refused for nothing
else.
-/
theorem credentials_stay_unique {M : Type} [Amount M] (env : Env) (db : Database M)
    (requests : List (Request M)) (hempty : db.userTable = [])
    (hfits : ∀ request ∈ requests, request.Fits) :
    let db' := Request.serve env requests db
    DistinctUsers db'.userTable ∧
    (∀ request : Request M, request.Collides db'.tables →
      (request.handle env db').1.result = false) ∧
    ∀ userId i user d, db'.tables.userAt userId i user →
      (((Request.modifyUser userId d).handle env db').1.result = true ↔
        ∀ old ∈ db'.userTable, old.userId ≠ userId →
          old.email.text ≠ cstr d.email ∧ old.phone.text ≠ cstr d.phone) ∧
      (user.role = .customer →
        (((Request.modifyCustomer userId d).handle env db').1.result = true ↔
          ∀ old ∈ db'.userTable, old.userId ≠ userId →
            old.email.text ≠ cstr d.email ∧ old.phone.text ≠ cstr d.phone)) := by
  intro db'
  have hticks : db.Ticks Set.univ := fun _ => trivial
  have hticks' : db'.Ticks Set.univ := fun _ => trivial
  have hinit : Credentials db.tables.users := by
    rw [show db.tables.users = [] from hempty]
    exact ⟨rfl, fun i j user other _ hi => by simp at hi, nofun⟩
  have hinv : Credentials db'.tables.users :=
    Request.serve_tables_of_mem (I := fun t => Credentials t.users) env requests
      (fun request hmem t result t' hstep h => h.step hstep (hfits request hmem))
      hticks hinit
  have hrefused : ∀ request : Request M, request.Collides db'.tables →
      (request.handle env db').1.result = false := fun request hcollides =>
    (request.handle_step env hticks').refused_of_collides hinv hcollides
  refine ⟨hinv.distinct, hrefused, ?_⟩
  intro userId i user d huser
  have happart : (∀ old ∈ db'.userTable, old.userId ≠ userId →
      old.email.text ≠ cstr d.email ∧ old.phone.text ≠ cstr d.phone) ↔
      ¬ (Request.modifyUser userId d : Request M).Collides db'.tables := by
    simp only [Request.Collides, not_exists, not_and, not_or]
    rfl
  have hunique := unique_of_not_collides (d := d) hinv huser
  have hiff : ∀ request : Request M, (¬ request.Collides db'.tables →
      (request.handle env db').1.result = true) →
      ((request.handle env db').1.result = true ↔ ¬ request.Collides db'.tables) := by
    refine fun request haccepted => ⟨fun hresult hcollides => ?_, haccepted⟩
    rw [hrefused request hcollides] at hresult
    cases hresult
  rw [happart]
  refine ⟨hiff (.modifyUser userId d) fun hfree => ?_, fun hrole =>
    hiff (.modifyCustomer userId d) fun hfree => ?_⟩
  · exact modifyUser_accepted huser (hunique hfree) db' rfl hticks'
  · exact modifyCustomer_accepted huser hrole (hunique hfree) db' rfl hticks'

def twoStaff : List (Request ℚ) :=
  [.addEmployee ⟨str "Ann", str "Lee", 30, str "Home", str "a@x", str "1"⟩
      (str "employee") (str "ann") (str "pw"),
    .addEmployee ⟨str "Bob", str "Ray", 40, str "Home", str "b@x", str "2"⟩
      (str "manager") (str "bob") (str "pw")]

def twoStaffBank : Database ℚ :=
  Request.serve .plain twoStaff (Database.empty fun _ => 1)

/-- The manager keeps the email and takes a phone that nobody has. -/
def newPhone : Details := ⟨str "Bob", str "Ray", 40, str "Home", str "b@x", str "3"⟩

theorem credentials_stay_unique_two_staff :
    DistinctUsers twoStaffBank.userTable ∧
    ((Request.modifyUser 1002 newPhone).handle .plain twoStaffBank).1.result = true := by
  have hunique := credentials_stay_unique .plain (Database.empty fun _ => (1 : Nat)) twoStaff
    rfl fun request hmem => by
      rw [twoStaff, List.mem_cons, List.mem_singleton] at hmem
      rcases hmem with rfl | rfl <;> exact ⟨⟨by decide, by decide⟩, by decide⟩
  obtain ⟨i, user, huser⟩ : ∃ i user, twoStaffBank.tables.userAt 1002 i user :=
    ⟨1, twoStaffBank.userTable.getD 1 UserRec.zero, by decide +kernel, by decide +kernel⟩
  exact ⟨hunique.1, (hunique.2.2 1002 i user newPhone huser).1.mpr (by decide +kernel)⟩

end BankingSystem
