import BankingSystem.Clients.Interleaving
import BankingSystem.Requests.Credentials
import Mathlib.Data.Fin.VecNotation
import Mathlib.Data.Fintype.Basic
import Mathlib.Tactic.FinCases

/-!
# Clients that edit user records at the same time

`check_uniqueness` and the write that it protects are separate steps.  The user
records stay pairwise distinct exactly as long as the check would still accept
every record at the moment it is written.
-/

namespace BankingSystem

open Foundation

/-! ## What one request does -/

section Editing

variable {M ι : Type}

def Request.editsUsers : Request M → Bool
  | .addEmployee _ _ _ _ | .addCustomer _ _ _ | .modifyCustomer _ _
  | .modifyUser _ _ => true
  | _ => false

def editProtocol : Protocol (Db M) (Option (Nat × Nat)) where
  allows held
    | .commitUser offset (some user) => held = some (offset, user.userId)
    | _ => True
  answers _ _ _ := True
  next held
    | .lockUser offset, some user => some (offset, user.userId)
    | _, _ => held

abbrev FollowsEdit (program : Prog (Db M) Reply) : Prop :=
  editProtocol.Follows (fun _ _ => True) none program

/-- A modifier that locks no other record and keeps the id of the one it is given. -/
def KeepsId (user : UserRec) (modifier : Prog (Db M) (Option UserRec × Bytes)) : Prop :=
  ∀ held, editProtocol.Follows (fun held' out => held' = held ∧
    ∀ user', out.1 = some user' → user'.userId = user.userId) held modifier

private theorem follows_atomicUpdateUser (userId : Nat) (respMsg : Bytes)
    (modifier : UserRec → Prog (Db M) (Option UserRec × Bytes))
    (hmodifier : ∀ user, KeepsId user (modifier user)) :
    FollowsEdit (Db.atomicUpdateUser userId modifier respMsg) := by
  rw [Db.atomicUpdateUser_eq]
  refine ⟨trivial, fun offset _ => ?_⟩
  cases offset with
  | none => trivial
  | some offset =>
      refine ⟨trivial, fun user _ => ?_⟩
      cases user with
      | none => trivial
      | some user =>
          refine (hmodifier user _).bind fun held out hout => ?_
          obtain ⟨rfl, hid⟩ := hout
          refine ⟨?_, fun success _ => trivial⟩
          rcases out with ⟨_ | user', respMsg⟩
          · trivial
          · have hsame := hid user' rfl
            exact congrArg (fun id => some (offset, id)) hsame.symm

private theorem keepsId_modifyUserModifier (details : Details) (user : UserRec) :
    KeepsId (M := M) user (modifyUserModifier details user) := by
  intro held
  refine Db.follows_bind trivial fun clash _ => ?_
  cases clash with
  | some field => exact ⟨rfl, nofun⟩
  | none =>
      refine ⟨rfl, ?_⟩
      rintro user' ⟨⟩
      rfl

private theorem keepsId_modifyCustomerModifier (details : Details) (user : UserRec) :
    KeepsId (M := M) user (modifyCustomerModifier details user) := by
  intro held
  unfold modifyCustomerModifier
  split
  · exact ⟨rfl, nofun⟩
  · refine Db.follows_bind trivial fun clash _ => ?_
    cases clash with
    | some field => exact ⟨rfl, nofun⟩
    | none =>
        refine ⟨rfl, ?_⟩
        rintro user' ⟨⟩
        rfl

variable [Amount M]

private theorem follows_editsUsers (env : Env) (request : Request M)
    (hedits : request.editsUsers = true) : FollowsEdit (request.program env) := by
  cases request with
  | addCustomer user username password =>
      refine Db.follows_bind (M := M) trivial fun clash _ => ?_
      cases clash with
      | some field => trivial
      | none =>
          refine Db.follows_bind (M := M) trivial fun userId _ => ?_
          refine Db.follows_bind (M := M) trivial fun now _ => ?_
          refine Db.follows_bind (M := M) trivial fun success _ => ?_
          cases success with
          | false => trivial
          | true =>
              refine Db.follows_bind (M := M) trivial fun success _ => ?_
              cases success <;> trivial
  | addEmployee details roleStr username password =>
      refine Db.follows_bind (M := M) trivial fun clash _ => ?_
      cases clash with
      | some field => trivial
      | none =>
          refine Db.follows_bind (M := M) trivial fun userId _ => ?_
          refine Db.follows_bind (M := M) trivial fun now _ => ?_
          split
          · trivial
          · refine Db.follows_bind (M := M) trivial fun success _ => ?_
            cases success <;> trivial
  | modifyCustomer userId details =>
      refine (follows_atomicUpdateUser userId [] _
        (keepsId_modifyCustomerModifier details)).bind fun _ reply _ => ?_
      split <;> trivial
  | modifyUser userId details =>
      refine (follows_atomicUpdateUser userId [] _
        (keepsId_modifyUserModifier details)).bind fun _ reply _ => ?_
      split <;> trivial
  | _ => cases hedits

end Editing

/-! ## What the file holds meanwhile -/

section Sound

variable {M ι : Type}

def Database.userIds (db : Database M) : List Nat :=
  db.userTable.map UserRec.userId

/-- The ids in the file are distinct, and a record that was read still has its place. -/
structure Held (db : Database M) (held : ι → Option (Nat × Nat)) : Prop where
  ids : db.userIds.Nodup
  places : ∀ i offset userId, held i = some (offset, userId) →
    db.userIds[offset]? = some userId

theorem Held.congr {db db' : Database M} {held : ι → Option (Nat × Nat)} (h : Held db held)
    (hids : db'.userIds = db.userIds) : Held db' held :=
  ⟨hids ▸ h.ids, hids ▸ h.places⟩

theorem Held.append {db db' : Database M} {held : ι → Option (Nat × Nat)} {userId : Nat}
    (h : Held db held) (hfresh : userId ∉ db.userIds)
    (hids : db'.userIds = db.userIds ++ [userId]) : Held db' held where
  ids := by
    rw [hids]
    exact h.ids.append (List.nodup_singleton userId) (by simpa using hfresh)
  places i offset userId hi := by
    have hplace := h.places i offset userId hi
    obtain ⟨hlt, -⟩ := List.getElem?_eq_some_iff.mp hplace
    rw [hids, List.getElem?_append_left hlt, hplace]

theorem Held.lock [DecidableEq ι] {db : Database M} {held : ι → Option (Nat × Nat)} {i : ι}
    {offset : Nat} {user : UserRec} (h : Held db held)
    (huser : db.userTable[offset]? = some user) :
    Held db (Function.update held i (some (offset, user.userId))) where
  ids := h.ids
  places j offset' userId hj := by
    by_cases hji : j = i
    · subst hji
      rw [Function.update_self] at hj
      cases hj
      simp [Database.userIds, huser]
    · rw [Function.update_of_ne hji] at hj
      exact h.places j offset' userId hj

private theorem map_userId_set {users : List UserRec} {p : Nat} {user : UserRec}
    (hp : (users.map UserRec.userId)[p]? = some user.userId) :
    (users.set p user).map UserRec.userId = users.map UserRec.userId := by
  obtain ⟨old, hold, hid⟩ : ∃ old, users[p]? = some old ∧ old.userId = user.userId := by
    simpa using hp
  exact Table.map_key_set hold hid.symm

variable [Amount M]

private theorem written_place {db : Database M} {held : ι → Option (Nat × Nat)} {i : ι}
    {cmd : Db.Cmd M} {user : UserRec} (h : Held db held)
    (hallow : editProtocol.allows (held i) cmd) (hwritten : cmd.writtenUser? = some user) :
    (∃ p, db.userIds[p]? = some user.userId ∧
      (Db.exec cmd db).2.userTable = db.userTable.set p user) ∨
    (∀ old ∈ db.userTable, old.userId ≠ user.userId) ∧
      (Db.exec cmd db).2.userTable = db.userTable ++ [user] := by
  cases cmd with
  | writeUser user' =>
      cases hwritten
      cases hloc : Table.locate UserRec.userId user.userId db.userTable with
      | some p =>
          obtain ⟨old, hold, hid⟩ := Table.getElem?_of_locate hloc
          exact .inl ⟨p, by simp [Database.userIds, hold, hid], Table.upsert_of_locate hloc⟩
      | none =>
          have hfresh := Table.locate_eq_none_iff.mp hloc
          exact .inr ⟨hfresh, Table.upsert_of_fresh hfresh⟩
  | commitUser offset user' =>
      cases hwritten
      have hplace := h.places i offset user.userId hallow
      have hlt : offset < db.userTable.length := by
        simpa [Database.userIds] using (List.getElem?_eq_some_iff.mp hplace).1
      exact .inl ⟨offset, hplace, Table.put_of_lt hlt⟩
  | _ => cases hwritten

private theorem unwritten_userTable {db : Database M} {cmd : Db.Cmd M}
    (hwritten : cmd.writtenUser? = none) :
    (Db.exec cmd db).2.userTable = db.userTable := by
  refine Db.exec_userTable db ?_ ?_
  · rintro user rfl
    cases hwritten
  · rintro offset user rfl
    cases hwritten

private theorem distinctUsers_step_iff {db : Database M} {held : ι → Option (Nat × Nat)} {i : ι}
    {cmd : Db.Cmd M} (h : Held db held) (hallow : editProtocol.allows (held i) cmd)
    (hdistinct : DistinctUsers db.userTable) :
    DistinctUsers (Db.exec cmd db).2.userTable ↔ StillUnique db i cmd := by
  cases hwritten : cmd.writtenUser? with
  | none => simp [unwritten_userTable hwritten, hdistinct, StillUnique, hwritten]
  | some user =>
      have hunique : StillUnique db i cmd ↔ firstClash user.username.text user.email.text
          user.phone.text user.userId db.userTable = none := by
        simp [StillUnique, hwritten]
      rw [hunique]
      rcases written_place h hallow hwritten with ⟨p, hp, htable⟩ | ⟨hfresh, htable⟩
      · rw [htable]
        exact distinctUsers_set_iff h.ids hdistinct hp
      · rw [htable]
        exact distinctUsers_append_iff hdistinct hfresh

theorem Held.exec {db : Database M} {held : ι → Option (Nat × Nat)} {i : ι}
    {cmd : Db.Cmd M} (h : Held db held) (hallow : editProtocol.allows (held i) cmd) :
    Held (Db.exec cmd db).2 held := by
  cases hwritten : cmd.writtenUser? with
  | none => exact h.congr (by rw [Database.userIds, unwritten_userTable hwritten]; rfl)
  | some user =>
      rcases written_place h hallow hwritten with ⟨p, hp, htable⟩ | ⟨hfresh, htable⟩
      · exact h.congr (by rw [Database.userIds, htable, map_userId_set hp]; rfl)
      · have hids : (Db.exec cmd db).2.userIds = db.userIds ++ [user.userId] := by
          simp [Database.userIds, htable]
        exact h.append (by simpa [Database.userIds] using hfresh) hids

private theorem edit_sound [DecidableEq ι] :
    Protocol.Sound (fun _ : ι => editProtocol (M := M)) Db.shared Held
      fun _ _ _ => True where
  step {db db' held i cmd answer} h _ hallow hexec := by
    obtain ⟨rfl, rfl⟩ := Db.shared_eq_some_iff.mp hexec
    have hstep : Held (Db.exec cmd db).2 (Function.update held i (held i)) := by
      rw [Function.update_eq_self]
      exact h.exec hallow
    cases cmd with
    | lockUser offset =>
        cases huser : db.userTable[offset]? with
        | none => simpa [editProtocol, Db.exec, huser] using hstep
        | some user => simpa [editProtocol, Db.exec, huser] using h.lock huser
    | _ => exact ⟨trivial, hstep⟩

end Sound

/-! ## In every interleaving -/

/--
Any number of requests that create or edit users, interleaved in any way, on a
file with distinct ids and with distinct usernames, emails and phones.  These stay
distinct in every state exactly when each record that is written would still be
accepted by `check_uniqueness` at the moment it is written.
-/
theorem users_stay_unique_iff {M ι : Type} [Amount M] [DecidableEq ι] (env : Env)
    (requests : ι → Request M) (db : Database M)
    (hedits : ∀ i, (requests i).editsUsers = true)
    (hids : (db.userTable.map UserRec.userId).Nodup)
    (hdistinct : DistinctUsers db.userTable) (schedule : List ι) :
    (∀ first second pool, schedule = first ++ second →
      Pool.run Db.shared first ⟨db, fun i => (requests i).program env⟩ = some pool →
      DistinctUsers pool.state.userTable) ↔
    Pool.Along Db.shared (Pool.Guard StillUnique) schedule
      ⟨db, fun i => (requests i).program env⟩ := by
  have hinit : Protocol.Explains (fun _ : ι => editProtocol) Held (fun _ _ _ => True)
      ⟨db, fun i => (requests i).program env⟩ fun _ => none :=
    ⟨⟨hids, nofun⟩, fun i => follows_editsUsers env (requests i) (hedits i)⟩
  refine Pool.always_iff_along
    (J := fun pool => ∃ held, Protocol.Explains (fun _ : ι => editProtocol) Held
      (fun _ _ _ => True) pool held)
    (I := fun pool => DistinctUsers pool.state.userTable) ?_ ?_ ?_ schedule
    ⟨_, hinit⟩ hdistinct
  · intro pool i hstuck
    cases hthread : pool.threads i with
    | ret value => exact Pool.guard_of_ret hthread
    | call cmd next => simp [Pool.step_of_call hthread, Db.shared] at hstuck
  · rintro pool i pool' ⟨held, hexplains⟩ hstep
    obtain ⟨cmd, answer, h'⟩ := hexplains.step edit_sound (fun _ _ _ => trivial) hstep
    exact ⟨_, h'⟩
  · rintro pool i pool' ⟨held, hheld, hfollows⟩ hI hstep
    obtain ⟨cmd, next, answer, db', hthread, hexec, rfl⟩ := Pool.step_eq_some_iff.mp hstep
    obtain ⟨rfl, rfl⟩ := Db.shared_eq_some_iff.mp hexec
    have hallow := hfollows i
    rw [hthread] at hallow
    rw [Pool.guard_of_call hthread]
    exact distinctUsers_step_iff hheld hallow.1 hI

def sameEmail : Fin 2 → Request ℚ :=
  ![.addEmployee ⟨str "Ann", str "Lee", 30, str "x", str "a@x", str "1"⟩ (str "employee")
      (str "ann") (str "pw"),
    .addEmployee ⟨str "Bob", str "Lee", 30, str "x", str "a@x", str "2"⟩ (str "employee")
      (str "bob") (str "pw")]

def sameEmailPool : Pool (Db ℚ) (Database ℚ) (Fin 2) Reply :=
  ⟨Database.empty fun _ => 1, fun i => (sameEmail i).program .plain⟩

/-- One after the other, the second employee is refused. -/
theorem users_stay_unique_iff_in_turn : ∃ pool,
    Pool.run Db.shared [0, 0, 0, 0, 1] sameEmailPool = some pool ∧
      DistinctUsers pool.state.userTable := by
  obtain ⟨pool, hrun⟩ := Option.isSome_iff_exists.mp
    (by decide +kernel : (Pool.run Db.shared [0, 0, 0, 0, 1] sameEmailPool).isSome)
  have hdistinct := (users_stay_unique_iff .plain sameEmail (Database.empty fun _ => 1)
    (fun i => by fin_cases i <;> rfl) List.nodup_nil nofun [0, 0, 0, 0, 1]).mpr
    (by decide +kernel)
  exact ⟨pool, hrun, hdistinct [0, 0, 0, 0, 1] [] pool rfl hrun⟩

/-- Both checks come first; the ids 1001 and 1002 are distinct, the emails are not. -/
theorem users_share_email :
    ¬ ∀ schedule pool,
      Pool.Along Db.shared (Pool.Guard FreshIds) schedule sameEmailPool →
      Pool.run Db.shared schedule sameEmailPool = some pool →
      DistinctUsers pool.state.userTable := by
  intro h
  have hshared : ((Pool.run Db.shared [0, 1, 0, 0, 0, 1, 1, 1] sameEmailPool).bind
      fun pool => do
        let user ← pool.state.userTable[0]?
        let other ← pool.state.userTable[1]?
        guard (user.email.text = other.email.text)) = some () := by
    decide +kernel
  obtain ⟨pool, hrun, hpool⟩ := Option.bind_eq_some_iff.mp hshared
  obtain ⟨user, huser, hpool⟩ := Option.bind_eq_some_iff.mp hpool
  obtain ⟨other, hother, hguard⟩ := Option.bind_eq_some_iff.mp hpool
  have hsame : user.email.text = other.email.text := by
    by_contra hne
    simp [guard, hne] at hguard
  exact (h _ pool (by decide +kernel) hrun 0 1 user other (by decide) huser hother).email hsame

end BankingSystem
