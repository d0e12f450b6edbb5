import BankingSystem.Foundation.Run
import BankingSystem.Server.Access

/-!
# The session table

`LOGIN`, `LOGOUT` and the end of a connection change the table and the
`current_userId` of their connection together.  `SessionMove` says once what an
event can do to the two; every statement about sessions is a case analysis of it.
-/

namespace BankingSystem

open Foundation

/-! ## Overwriting an entry -/

section Entries

variable {old new userId : Nat} {table table' : List Nat}

theorem replaceFirst_eq_none_iff : replaceFirst old new table = none ↔ old ∉ table := by
  induction table with
  | nil => simp [replaceFirst]
  | cons entry entries ih =>
      by_cases hentry : entry = old
      · simp [replaceFirst, hentry]
      · simp [replaceFirst, hentry, ih, Ne.symm hentry]

theorem replaceFirst_eq_some (h : replaceFirst old new table = some table') :
    ∃ before after, table = before ++ old :: after ∧ table' = before ++ new :: after := by
  induction table generalizing table' with
  | nil => cases h
  | cons entry entries ih =>
      rw [replaceFirst] at h
      split at h
      case isTrue hentry =>
        cases h
        exact ⟨[], entries, by rw [hentry]; rfl, rfl⟩
      case isFalse hentry =>
        obtain ⟨entries', hentries, rfl⟩ := Option.map_eq_some_iff.mp h
        obtain ⟨before, after, rfl, rfl⟩ := ih hentries
        exact ⟨entry :: before, after, rfl, rfl⟩

theorem exists_replaceFirst (h : old ∈ table) (new : Nat) :
    ∃ table', replaceFirst old new table = some table' := by
  cases hfound : replaceFirst old new table with
  | none => exact absurd h (replaceFirst_eq_none_iff.mp hfound)
  | some table' => exact ⟨table', rfl⟩

private theorem replaceFirst_self : replaceFirst old old table = none ∨
    replaceFirst old old table = some table := by
  cases hfound : replaceFirst old old table with
  | none => exact .inl rfl
  | some table' =>
      obtain ⟨before, after, rfl, rfl⟩ := replaceFirst_eq_some hfound
      exact .inr rfl

@[simp] theorem removeActiveSession_zero : removeActiveSession 0 table = table := by
  rw [removeActiveSession]
  have hself : replaceFirst 0 0 table = none ∨ replaceFirst 0 0 table = some table :=
    replaceFirst_self
  rcases hself with h | h <;> rw [h] <;> rfl

theorem length_replaceFirst (h : replaceFirst old new table = some table') :
    table'.length = table.length := by
  obtain ⟨before, after, rfl, rfl⟩ := replaceFirst_eq_some h
  simp

theorem length_removeActiveSession :
    (removeActiveSession userId table).length = table.length := by
  rw [removeActiveSession]
  cases hfound : replaceFirst userId 0 table with
  | none => rfl
  | some table' => exact length_replaceFirst hfound

private theorem count_claimed (h : replaceFirst 0 new table = some table') (hne : userId ≠ 0) :
    table'.count userId = table.count userId + if userId = new then 1 else 0 := by
  obtain ⟨before, after, rfl, rfl⟩ := replaceFirst_eq_some h
  by_cases hnew : userId = new
  · simp [List.count_cons, hnew, Nat.add_assoc]
    omega
  · simp [hnew, hne.symm, Ne.symm hnew]

private theorem count_removeActiveSession (hne : userId ≠ 0) :
    (removeActiveSession old table).count userId =
      table.count userId - if userId = old then 1 else 0 := by
  rw [removeActiveSession]
  cases hfound : replaceFirst old 0 table with
  | none =>
      have habsent := replaceFirst_eq_none_iff.mp hfound
      by_cases hold : userId = old
      · simp [hold, List.count_eq_zero_of_not_mem habsent]
      · simp [hold]
  | some table' =>
      obtain ⟨before, after, rfl, rfl⟩ := replaceFirst_eq_some hfound
      by_cases hold : userId = old
      · simp [hold, Ne.symm (hold ▸ hne)]
      · simp [hold, hne.symm, Ne.symm hold]

theorem mem_claimed (h : replaceFirst 0 new table = some table') (hne : userId ≠ 0) :
    userId ∈ table' ↔ userId = new ∨ userId ∈ table := by
  rw [← List.count_pos_iff, ← List.count_pos_iff, count_claimed h hne]
  split <;> simp [*]

private theorem mem_removeActiveSession (hne : userId ≠ 0) (hold : userId ≠ old) :
    userId ∈ removeActiveSession old table ↔ userId ∈ table := by
  rw [← List.count_pos_iff, ← List.count_pos_iff, count_removeActiveSession hne, if_neg hold,
    Nat.sub_zero]

end Entries

/-! ## Answers -/

/-- The text that the client takes for a login. -/
def Response.Succeeds (response : Response) : Prop := str "SUCCESS" <+: response.message

instance : DecidablePred Response.Succeeds := fun response =>
  inferInstanceAs (Decidable (str "SUCCESS" <+: response.message))

def loginResponse (login : Login) : Response :=
  .ok (str "SUCCESS " ++ dec login.userId ++ str " " ++ login.role ++ str "|" ++
    login.firstName)

theorem loginResponse_succeeds (login : Login) : (loginResponse login).Succeeds := by
  have hshort : (str "SUCCESS").length ≤ maxMsgLen - 1 := by decide
  have htext : str "SUCCESS" <+: str "SUCCESS " ++ dec login.userId ++ str " " ++
      login.role ++ str "|" ++ login.firstName := by
    simp only [List.append_assoc]
    exact List.prefix_append_of_prefix (by decide)
  exact List.prefix_take_iff.mpr ⟨htext, hshort⟩

variable {κ M : Type} [DecidableEq κ] {env : Env} {locals : Locals M} {c : κ}
  {raw : RawRequest} {s : ServerState κ M} {login : Login}

theorem enter_tracked {table : List Nat} (hnew : login.userId ∉ s.activeSessions)
    (hfree : replaceFirst 0 login.userId s.activeSessions = some table) :
    s.enter c login = (loginResponse login,
      { s with activeSessions := table }.setCurrent c (some login.userId)) := by
  simp [ServerState.enter, hnew, hfree, loginResponse]

theorem enter_untracked (hnew : login.userId ∉ s.activeSessions)
    (hfull : 0 ∉ s.activeSessions) : s.enter c login = (loginResponse login, s) := by
  have hnone : replaceFirst 0 login.userId s.activeSessions = none :=
    replaceFirst_eq_none_iff.mpr hfull
  simp [ServerState.enter, hnew, hnone, loginResponse]

theorem enter_refused (hold : login.userId ∈ s.activeSessions) :
    (s.enter c login).2 = s ∧ ¬ (s.enter c login).1.Succeeds := by
  have hanswer : ¬ (Response.ok (str "FAILURE User is already logged in elsewhere.")).Succeeds := by
    decide
  rw [ServerState.enter, if_pos hold]
  exact ⟨rfl, hanswer⟩

/-! ## One event -/

variable [Strtod M]

theorem dispatch_login (locals : Locals M) (hop : raw.op.text = str "LOGIN") :
    ∃ username password, dispatch locals raw.op.text raw.payload.text =
      .login username password := by
  rw [hop]
  exact ⟨_, _, if_pos rfl⟩

theorem dispatch_logout (hop : raw.op.text = str "LOGOUT") :
    dispatch locals raw.op.text raw.payload.text = .logout := by
  rw [hop]
  rfl

variable [Amount M]

/-- The user that `login_user` accepts for a request, if it is a `LOGIN`. -/
def loginOf (env : Env) (locals : Locals M) (raw : RawRequest) (db : Database M) :
    Option Login :=
  match dispatch locals raw.op.text raw.payload.text with
  | .login username password =>
      match ((loginUser env username password).run Db.exec db).1 with
      | .success login => some login
      | .failed | .deactivated => none
  | _ => none

private theorem loginOf_eq_some {db : Database M} (h : loginOf env locals raw db = some login) :
    ∃ username password,
      dispatch locals raw.op.text raw.payload.text = .login username password ∧
      ((loginUser env username password).run Db.exec db).1 = .success login := by
  rw [loginOf] at h
  cases hcommand : dispatch locals raw.op.text raw.payload.text with
  | logout | call | invalidPayload | unknown => simp [hcommand] at h
  | login username password =>
      refine ⟨username, password, rfl, ?_⟩
      simp only [hcommand] at h
      cases hresult : ((loginUser env username password).run Db.exec db).1 with
      | failed | deactivated => simp [hresult] at h
      | success accepted =>
          rw [hresult] at h
          rw [Option.some_inj.mp h]

theorem handleRequest_accepted (h : loginOf env locals raw s.db = some login) :
    handleRequest env locals c raw s = s.enter c login := by
  obtain ⟨username, password, hcommand, hresult⟩ := loginOf_eq_some h
  obtain ⟨hdb, -⟩ := loginUser_run env username password s.db
  rw [handleRequest, hcommand]
  simp only [Command.handle]
  rw [hdb, hresult]

theorem handleRequest_rejected (h : loginOf env locals raw s.db = none)
    (hop : raw.op.text = str "LOGIN") :
    (handleRequest env locals c raw s).2 = s ∧
      ¬ (handleRequest env locals c raw s).1.Succeeds := by
  obtain ⟨username, password, hcommand⟩ := dispatch_login locals hop
  obtain ⟨hdb, -⟩ := loginUser_run env username password s.db
  rw [loginOf, hcommand] at h
  rw [handleRequest, hcommand]
  simp only [Command.handle]
  rw [hdb]
  have hfailed : ¬ (Response.ok (str "FAILURE Invalid Credentials")).Succeeds := by decide
  have hdeactivated : ¬ (Response.ok
      (str "FAILURE! Account is deactivated. Please contact your bank.")).Succeeds := by decide
  cases hresult : ((loginUser env username password).run Db.exec s.db).1 with
  | success accepted => simp [hresult] at h
  | failed => exact ⟨rfl, hfailed⟩
  | deactivated => exact ⟨rfl, hdeactivated⟩

theorem handleRequest_logout (hop : raw.op.text = str "LOGOUT") :
    (handleRequest env locals c raw s).2 = s.logout c := by
  rw [handleRequest, dispatch_logout hop]
  rfl

theorem handleRequest_other (env : Env) (locals : Locals M) (c : κ) (s : ServerState κ M)
    (hlogin : raw.op.text ≠ str "LOGIN")
    (hlogout : raw.op.text ≠ str "LOGOUT") :
    (handleRequest env locals c raw s).2.activeSessions = s.activeSessions ∧
      (handleRequest env locals c raw s).2.currentUserId = s.currentUserId := by
  have hother : ¬ (dispatch locals raw.op.text raw.payload.text).IsSession := by
    rw [dispatch_isSession_iff]
    simp [hlogin, hlogout]
  obtain ⟨-, hsame, -⟩ := handle_of_not_session env hother s s c c rfl
  rw [handleRequest, hsame]
  exact ⟨rfl, rfl⟩

theorem loginOf_user {db : Database M} (h : loginOf env locals raw db = some login) :
    ∃ user ∈ db.userTable,
      login = ⟨user.userId, roleString user.role, user.firstName.text⟩ := by
  obtain ⟨username, password, -, hresult⟩ := loginOf_eq_some h
  obtain ⟨user, huser, hlogin⟩ := (loginUser_run env username password db).2 login hresult
  exact ⟨user, List.mem_of_find?_eq_some huser.found, hlogin⟩

private theorem loginOf_eq_none (hop : raw.op.text ≠ str "LOGIN") (db : Database M) :
    loginOf env locals raw db = none := by
  have hiff := dispatch_isSession_iff locals raw.op.text raw.payload.text
  rw [loginOf]
  cases hcommand : dispatch locals raw.op.text raw.payload.text with
  | logout | call | invalidPayload | unknown => rfl
  | login username password =>
      rw [hcommand] at hiff
      rcases hiff.mp trivial with hlogin | hlogout
      · exact absurd hlogin hop
      · rw [dispatch_logout hlogout] at hcommand
        cases hcommand

inductive SessionMove (env : Env) (s : ServerState κ M) :
    Event κ M → List Nat → (κ → Option Nat) → Prop where
  | stay (event : Event κ M) : SessionMove env s event s.activeSessions s.currentUserId
  | connect (c : κ) (hclosed : s.currentUserId c = none) :
      SessionMove env s (.connect c) s.activeSessions
        (Function.update s.currentUserId c (some 0))
  | enter (c : κ) (locals : Locals M) (raw : RawRequest) (login : Login) (table : List Nat)
      (hlogin : loginOf env locals raw s.db = some login)
      (hnew : login.userId ∉ s.activeSessions)
      (hfree : replaceFirst 0 login.userId s.activeSessions = some table) :
      SessionMove env s (.request c locals raw) table
        (Function.update s.currentUserId c (some login.userId))
  | logout (c : κ) (locals : Locals M) (raw : RawRequest) (userId : Nat)
      (hop : raw.op.text = str "LOGOUT") (hcurrent : s.currentUserId c = some userId) :
      SessionMove env s (.request c locals raw)
        (removeActiveSession userId s.activeSessions)
        (Function.update s.currentUserId c (some 0))
  | disconnect (c : κ) (userId : Nat) (hcurrent : s.currentUserId c = some userId) :
      SessionMove env s (.disconnect c) (removeActiveSession userId s.activeSessions)
        (Function.update s.currentUserId c none)

theorem step_sessions (env : Env) (s : ServerState κ M) (event : Event κ M) :
    SessionMove env s event (s.step env event).activeSessions
      (s.step env event).currentUserId := by
  cases event with
  | connect c =>
      rw [ServerState.step]
      cases hcurrent : s.currentUserId c with
      | none => exact .connect c hcurrent
      | some userId => exact .stay _
  | disconnect c =>
      rw [ServerState.step]
      cases hcurrent : s.currentUserId c with
      | none => exact .stay _
      | some userId =>
          by_cases hzero : userId = 0
          · subst hzero
            have hmove : SessionMove env s _ _ _ := .disconnect c 0 hcurrent
            simpa [ServerState.setCurrent] using hmove
          · have hmove : SessionMove env s _ _ _ := .disconnect c userId hcurrent
            simpa [hzero, ServerState.setCurrent] using hmove
  | request c locals raw =>
      rw [ServerState.step]
      cases hcurrent : s.currentUserId c with
      | none => exact .stay _
      | some userId =>
          change SessionMove env s _ (handleRequest env locals c raw s).2.activeSessions
            (handleRequest env locals c raw s).2.currentUserId
          cases hlogin : loginOf env locals raw s.db with
          | some login =>
              rw [handleRequest_accepted hlogin]
              by_cases hold : login.userId ∈ s.activeSessions
              · rw [(enter_refused hold).1]
                exact .stay _
              · cases hfree : replaceFirst 0 login.userId s.activeSessions with
                | none =>
                    rw [enter_untracked hold (replaceFirst_eq_none_iff.mp hfree)]
                    exact .stay _
                | some table =>
                    rw [enter_tracked hold hfree]
                    exact .enter c locals raw login table hlogin hold hfree
          | none =>
              by_cases hop : raw.op.text = str "LOGIN"
              · rw [(handleRequest_rejected hlogin hop).1]
                exact .stay _
              by_cases hlogout : raw.op.text = str "LOGOUT"
              · rw [handleRequest_logout hlogout]
                have hmove : SessionMove env s _ _ _ :=
                  .logout c locals raw userId hlogout hcurrent
                simpa [ServerState.logout, ServerState.setCurrent, hcurrent] using hmove
              · obtain ⟨htable, hconnections⟩ := handleRequest_other env locals c s hop hlogout
                rw [htable, hconnections]
                exact .stay _

/-! ## Session exclusion -/

/-- The table and the connections agree on who is logged in, and where. -/
structure Exclusive (table : List Nat) (current : κ → Option Nat) : Prop where
  once : ∀ userId, userId ≠ 0 → table.count userId ≤ 1
  listed : ∀ c userId, userId ≠ 0 → current c = some userId → userId ∈ table
  distinct : ∀ c c' userId, userId ≠ 0 → current c = some userId →
    current c' = some userId → c = c'

omit [DecidableEq κ] in
private theorem exclusive_init : Exclusive (List.replicate maxClients 0) fun _ : κ => none where
  once userId hne := by simp [List.count_replicate, hne.symm]
  listed c userId hne hcurrent := by cases hcurrent
  distinct c c' userId hne hcurrent := by cases hcurrent

omit [Strtod M] [Amount M] in
theorem update_eq_some {current : κ → Option Nat} {c' : κ} {next : Option Nat} {userId : Nat}
    (h : Function.update current c next c' = some userId) :
    c' = c ∧ next = some userId ∨ c' ≠ c ∧ current c' = some userId := by
  by_cases hc : c' = c
  · subst hc
    rw [Function.update_self] at h
    exact .inl ⟨rfl, h⟩
  · rw [Function.update_of_ne hc] at h
    exact .inr ⟨hc, h⟩

theorem Exclusive.leave {table : List Nat} {current : κ → Option Nat}
    (h : Exclusive table current) {c : κ} {userId : Nat} (hcurrent : current c = some userId)
    {next : Option Nat} (hnext : ∀ userId, next = some userId → userId = 0) :
    Exclusive (removeActiveSession userId table) (Function.update current c next) := by
  have hother : ∀ c' user, user ≠ 0 → Function.update current c next c' = some user →
      c' ≠ c ∧ current c' = some user := by
    intro c' user hne hc'
    rcases update_eq_some hc' with ⟨-, huser⟩ | hbefore
    · exact absurd (hnext user huser) hne
    · exact hbefore
  constructor
  · intro user hne
    rw [count_removeActiveSession hne]
    exact Nat.le_trans (Nat.sub_le ..) (h.once user hne)
  · intro c' user hne hc'
    obtain ⟨hc, hbefore⟩ := hother c' user hne hc'
    have hkeeps : user ≠ userId := by
      rintro rfl
      exact hc (h.distinct c' c user hne hbefore hcurrent)
    exact (mem_removeActiveSession hne hkeeps).mpr (h.listed c' user hne hbefore)
  · intro c₁ c₂ user hne h₁ h₂
    exact h.distinct c₁ c₂ user hne (hother c₁ user hne h₁).2 (hother c₂ user hne h₂).2

theorem Exclusive.enter {table table' : List Nat} {current : κ → Option Nat}
    (h : Exclusive table current) {c : κ} {new : Nat} (hnew : new ∉ table)
    (hfree : replaceFirst 0 new table = some table') :
    Exclusive table' (Function.update current c (some new)) := by
  have hother : ∀ c' user, user ≠ 0 → Function.update current c (some new) c' = some user →
      c' = c ∧ user = new ∨ user ≠ new ∧ current c' = some user := by
    intro c' user hne hc'
    rcases update_eq_some hc' with ⟨hc, huser⟩ | ⟨-, hbefore⟩
    · exact .inl ⟨hc, (Option.some_inj.mp huser).symm⟩
    · refine .inr ⟨?_, hbefore⟩
      rintro rfl
      exact hnew (h.listed c' user hne hbefore)
  constructor
  · intro user hne
    rw [count_claimed hfree hne]
    by_cases huser : user = new
    · rw [huser, List.count_eq_zero_of_not_mem hnew]
      simp
    · simpa [huser] using h.once user hne
  · intro c' user hne hc'
    rw [mem_claimed hfree hne]
    rcases hother c' user hne hc' with ⟨-, huser⟩ | ⟨-, hbefore⟩
    · exact .inl huser
    · exact .inr (h.listed c' user hne hbefore)
  · intro c₁ c₂ user hne h₁ h₂
    rcases hother c₁ user hne h₁ with ⟨rfl, rfl⟩ | ⟨huser, hbefore₁⟩
    · rcases hother c₂ user hne h₂ with ⟨rfl, -⟩ | ⟨huser, -⟩
      · rfl
      · exact absurd rfl huser
    · rcases hother c₂ user hne h₂ with ⟨-, hsame⟩ | ⟨-, hbefore₂⟩
      · exact absurd hsame huser
      · exact h.distinct c₁ c₂ user hne hbefore₁ hbefore₂

theorem Exclusive.connect {table : List Nat} {current : κ → Option Nat}
    (h : Exclusive table current) {c : κ} :
    Exclusive table (Function.update current c (some 0)) := by
  have hother : ∀ c' user, user ≠ 0 → Function.update current c (some 0) c' = some user →
      current c' = some user := by
    intro c' user hne hc'
    rcases update_eq_some hc' with ⟨-, huser⟩ | ⟨-, hbefore⟩
    · exact absurd (Option.some_inj.mp huser).symm hne
    · exact hbefore
  exact ⟨h.once, fun c' user hne hc' => h.listed c' user hne (hother c' user hne hc'),
    fun c₁ c₂ user hne h₁ h₂ =>
      h.distinct c₁ c₂ user hne (hother c₁ user hne h₁) (hother c₂ user hne h₂)⟩

theorem Exclusive.move {event : Event κ M} {table : List Nat} {current : κ → Option Nat}
    (h : Exclusive s.activeSessions s.currentUserId)
    (hmove : SessionMove env s event table current) : Exclusive table current := by
  cases hmove with
  | stay event => exact h
  | connect c hclosed => exact h.connect
  | enter c locals raw login table hlogin hnew hfree => exact h.enter hnew hfree
  | logout c locals raw userId hop hcurrent =>
      exact h.leave hcurrent fun userId hnext => (Option.some_inj.mp hnext).symm
  | disconnect c userId hcurrent => exact h.leave hcurrent nofun

private theorem run_exclusive (env : Env) (db : Database M) (events : List (Event κ M)) :
    Exclusive ((ServerState.init db).run env events).activeSessions
      ((ServerState.init db).run env events).currentUserId :=
  foldl_invariant (I := fun s => Exclusive s.activeSessions s.currentUserId)
    (fun s event h => h.move (step_sessions env s event)) exclusive_init events

/--
In every state that any events on any connections lead to, no user is twice in the
table, whoever a connection is logged in as is in the table, and no two connections
are logged in as the same user.
-/
theorem sessions_exclude (env : Env) (db : Database M) (events : List (Event κ M)) :
    let s := (ServerState.init db).run env events
    (∀ userId, userId ≠ 0 → s.activeSessions.count userId ≤ 1) ∧
    (∀ c userId, userId ≠ 0 → s.currentUserId c = some userId →
      userId ∈ s.activeSessions) ∧
    ∀ c c' userId, userId ≠ 0 → s.currentUserId c = some userId →
      s.currentUserId c' = some userId → c = c' :=
  have h := run_exclusive env db events
  ⟨h.once, h.listed, h.distinct⟩

/-! ## Orphaned sessions -/

/-- Whoever is in the table is logged in on a connection that is open. -/
def Connected (table : List Nat) (current : κ → Option Nat) : Prop :=
  ∀ userId ∈ table, userId ≠ 0 → ∃ c, current c = some userId

omit [DecidableEq κ] [Strtod M] [Amount M] in
private theorem connected_init : Connected (List.replicate maxClients 0) fun _ : κ => none :=
  fun _ huser hne => absurd (List.eq_of_mem_replicate huser) hne

/-- A connection that is logged in is not given another user. -/
def OneLogin (env : Env) (s : ServerState κ M) : Event κ M → Prop
  | .request c locals raw =>
      ∀ login ∈ loginOf env locals raw s.db, login.userId ∉ s.activeSessions →
        0 ∈ s.activeSessions → ∀ userId, s.currentUserId c = some userId → userId = 0
  | .connect _ | .disconnect _ => True

theorem Connected.leave {table : List Nat} {current : κ → Option Nat} (h : Connected table current)
    (hexclusive : Exclusive table current) {c : κ} {userId : Nat}
    (hcurrent : current c = some userId) (next : Option Nat) :
    Connected (removeActiveSession userId table) (Function.update current c next) := by
  intro user huser hne
  have hkeeps : user ≠ userId := by
    rintro rfl
    have hcount : (removeActiveSession user table).count user = table.count user - 1 :=
      (count_removeActiveSession hne).trans (by rw [if_pos rfl])
    have honce := hexclusive.once user hne
    have hpos := List.count_pos_iff.mpr huser
    omega
  obtain ⟨c', hc'⟩ := h user ((mem_removeActiveSession hne hkeeps).mp huser) hne
  refine ⟨c', ?_⟩
  rw [Function.update_of_ne, hc']
  rintro rfl
  rw [hcurrent] at hc'
  exact hkeeps (Option.some_inj.mp hc').symm

theorem Connected.move {event : Event κ M} {table : List Nat} {current : κ → Option Nat}
    (h : Connected s.activeSessions s.currentUserId)
    (hexclusive : Exclusive s.activeSessions s.currentUserId) (hone : OneLogin env s event)
    (hmove : SessionMove env s event table current) : Connected table current := by
  cases hmove with
  | stay event => exact h
  | logout c locals raw userId hop hcurrent => exact h.leave hexclusive hcurrent _
  | disconnect c userId hcurrent => exact h.leave hexclusive hcurrent _
  | connect c hclosed =>
      intro user huser hne
      obtain ⟨c', hc'⟩ := h user huser hne
      refine ⟨c', ?_⟩
      rw [Function.update_of_ne, hc']
      rintro rfl
      rw [hclosed] at hc'
      cases hc'
  | enter c locals raw login table hlogin hnew hfree =>
      intro user huser hne
      have hzero : 0 ∈ s.activeSessions := by
        by_contra hfull
        rw [replaceFirst_eq_none_iff.mpr hfull] at hfree
        cases hfree
      rcases (mem_claimed hfree hne).mp huser with rfl | hbefore
      · exact ⟨c, Function.update_self ..⟩
      · obtain ⟨c', hc'⟩ := h user hbefore hne
        refine ⟨c', ?_⟩
        rw [Function.update_of_ne, hc']
        rintro rfl
        exact hne (hone login hlogin hnew hzero user hc')

theorem step_request (hopen : s.currentUserId c ≠ none) (locals : Locals M)
    (raw : RawRequest) :
    s.step env (.request c locals raw) = (handleRequest env locals c raw s).2 := by
  rw [ServerState.step]
  cases hcurrent : s.currentUserId c with
  | none => exact absurd hcurrent hopen
  | some userId => rfl

/-- The entry of the first user stays behind when a second one logs in. -/
private theorem oneLogin_of_connected {event : Event κ M}
    (hexclusive : Exclusive s.activeSessions s.currentUserId)
    (h : Connected (s.step env event).activeSessions (s.step env event).currentUserId) :
    OneLogin env s event := by
  cases event with
  | connect c => trivial
  | disconnect c => trivial
  | request c locals raw =>
      intro login hlogin hnew hzero userId hcurrent
      by_contra hne
      obtain ⟨table, hfree⟩ := exists_replaceFirst hzero login.userId
      have hlisted := hexclusive.listed c userId hne hcurrent
      rw [step_request (by rw [hcurrent]; nofun), handleRequest_accepted hlogin,
        enter_tracked hnew hfree] at h
      obtain ⟨c', hc'⟩ := h userId ((mem_claimed hfree hne).mpr (.inr hlisted)) hne
      rcases update_eq_some hc' with ⟨-, huser⟩ | ⟨hc, hbefore⟩
      · rw [Option.some_inj.mp huser] at hnew
        exact hnew hlisted
      · exact hc (hexclusive.distinct c' c userId hne hbefore hcurrent)

theorem SessionMove.length {event : Event κ M} {table : List Nat} {current : κ → Option Nat}
    (h : SessionMove env s event table current) : table.length = s.activeSessions.length := by
  cases h with
  | stay event => rfl
  | connect c hclosed => rfl
  | enter c locals raw login table hlogin hnew hfree => exact length_replaceFirst hfree
  | logout c locals raw userId hop hcurrent => exact length_removeActiveSession
  | disconnect c userId hcurrent => exact length_removeActiveSession

private theorem run_length (env : Env) (db : Database M) (events : List (Event κ M)) :
    ((ServerState.init db).run env events).activeSessions.length = maxClients :=
  foldl_invariant (I := fun s : ServerState κ M => s.activeSessions.length = maxClients)
    (fun s event hlength => (step_sessions env s event).length.trans hlength)
    List.length_replicate events

theorem step_connect (env : Env) (s : ServerState κ M) (c : κ) :
    (s.step env (.connect c)).activeSessions = s.activeSessions ∧
    (s.step env (.connect c)).db = s.db ∧
    (s.step env (.connect c)).currentUserId c ≠ none := by
  rw [ServerState.step]
  cases hcurrent : s.currentUserId c with
  | none => exact ⟨rfl, rfl, by simp [ServerState.setCurrent]⟩
  | some userId => exact ⟨rfl, rfl, by simp [hcurrent]⟩

theorem handleRequest_tracked (hopen : s.currentUserId c ≠ none)
    (hlogin : loginOf env locals raw s.db = some login)
    (hnew : login.userId ∉ s.activeSessions) (hzero : 0 ∈ s.activeSessions) :
    (handleRequest env locals c raw s).1 = loginResponse login ∧
    login.userId ∈ (s.step env (.request c locals raw)).activeSessions ∧
    (s.step env (.request c locals raw)).currentUserId c = some login.userId := by
  obtain ⟨table, hfree⟩ := exists_replaceFirst hzero login.userId
  have hne : login.userId ≠ 0 := fun h => hnew (h ▸ hzero)
  rw [step_request hopen, handleRequest_accepted hlogin, enter_tracked hnew hfree]
  exact ⟨rfl, (mem_claimed hfree hne).mpr (.inl rfl), Function.update_self ..⟩

structure NoOrphans (env : Env) (s : ServerState κ M) : Prop where
  connected : Connected s.activeSessions s.currentUserId
  closed : (∀ c, s.currentUserId c = none) →
    s.activeSessions = List.replicate maxClients 0 ∧
    ∀ c locals raw login, loginOf env locals raw s.db = some login → login.userId ≠ 0 →
      let opened := s.step env (.connect c)
      let loggedIn := opened.step env (.request c locals raw)
      (handleRequest env locals c raw opened).1 = loginResponse login ∧
      login.userId ∈ loggedIn.activeSessions ∧
      loggedIn.currentUserId c = some login.userId

private theorem Connected.noOrphans (h : Connected s.activeSessions s.currentUserId)
    (hlength : s.activeSessions.length = maxClients) : NoOrphans env s := by
  refine ⟨h, fun hclosed => ?_⟩
  have hempty : s.activeSessions = List.replicate maxClients 0 := by
    refine List.eq_replicate_iff.mpr ⟨hlength, fun userId huser => ?_⟩
    by_contra hne
    obtain ⟨c, hc⟩ := h userId huser hne
    rw [hclosed c] at hc
    cases hc
  refine ⟨hempty, fun c locals raw login hlogin hne => ?_⟩
  obtain ⟨htable, hdb, hopen⟩ := step_connect env s c
  rw [hempty] at htable
  refine handleRequest_tracked hopen (by rw [hdb]; exact hlogin) ?_ ?_
  · rw [htable, List.mem_replicate]
    exact fun h => hne h.2
  · rw [htable]
    decide

/--
In a run from the start of the server every state is without orphaned sessions
exactly when no connection that is logged in as one user is given another.
-/
theorem no_orphans_iff (env : Env) (db : Database M) (events : List (Event κ M)) :
    (∀ first rest, events = first ++ rest →
      NoOrphans env ((ServerState.init db).run env first)) ↔
    ∀ first event rest, events = first ++ event :: rest →
      OneLogin env ((ServerState.init db).run env first) event := by
  have hconnected := foldl_good_iff (ServerState.step env)
    (fun s : ServerState κ M => Exclusive s.activeSessions s.currentUserId)
    (fun s => Connected s.activeSessions s.currentUserId) (OneLogin env)
    (fun s event h => h.move (step_sessions env s event))
    (fun s event hexclusive h => ⟨oneLogin_of_connected hexclusive,
      fun hone => h.move hexclusive hone (step_sessions env s event)⟩)
    (s := ServerState.init db) exclusive_init connected_init events
  refine Iff.trans ?_ hconnected
  constructor
  · exact fun h first rest hsplit => (h first rest hsplit).connected
  · exact fun h first rest hsplit => (h first rest hsplit).noOrphans (run_length env db first)

def secondLogin : List (Event (Fin 1) ℚ) :=
  [.connect 0,
    .request 0 .zero (.ofText (str "ADD_EMPLOYEE") (str "Ann Lee 30 Home manager a@x 1 ann pw")),
    .request 0 .zero (.ofText (str "ADD_EMPLOYEE") (str "Bob Lee 30 Home manager b@x 2 bob pw")),
    .request 0 .zero (.ofText (str "LOGIN") (str "ann pw")),
    .request 0 .zero (.ofText (str "LOGIN") (str "bob pw")),
    .disconnect 0]

/-- The first of them stays in the table. -/
theorem first_user_orphaned :
    ¬ ∀ (events first rest : List (Event (Fin 1) ℚ)), events = first ++ rest →
      NoOrphans .plain ((ServerState.init (Database.empty fun _ => 1)).run .plain first) := by
  intro h
  have horphan := (h secondLogin secondLogin [] (by simp)).connected
  have hafter : 1001 ∈ ((ServerState.init (Database.empty fun _ => 1)).run .plain
      secondLogin).activeSessions ∧
      ((ServerState.init (Database.empty fun _ => 1)).run .plain
        secondLogin).currentUserId 0 = none := by
    decide +kernel
  obtain ⟨hmem, hclosed⟩ := hafter
  obtain ⟨c, hc⟩ := horphan 1001 hmem (by decide)
  rw [Subsingleton.elim c 0, hclosed] at hc
  cases hc

/-! ## A login that is not in the table -/

/-- The connection gives its user up: it logs out, gets another user or closes. -/
def Releases (env : Env) (c : κ) (s : ServerState κ M) : Event κ M → Prop
  | .connect _ => False
  | .disconnect c' => c' = c
  | .request c' locals raw => c' = c ∧ (raw.op.text = str "LOGOUT" ∨
      raw.op.text = str "LOGIN" ∧ (handleRequest env locals c raw s).1.Succeeds)

/--
If the server answers a `LOGIN` with success, the user is in the table and on the
connection, and no other connection gets the user before this one gives it up.
-/
structure Tracks (env : Env) (locals : Locals M) (c : κ) (raw : RawRequest)
    (s : ServerState κ M) : Prop where
  entered : raw.op.text = str "LOGIN" → (handleRequest env locals c raw s).1.Succeeds →
    ∃ login, loginOf env locals raw s.db = some login ∧
      (handleRequest env locals c raw s).1 = loginResponse login ∧
      login.userId ∈ (handleRequest env locals c raw s).2.activeSessions ∧
      (handleRequest env locals c raw s).2.currentUserId c = some login.userId
  kept : ∀ login ∈ loginOf env locals raw s.db,
    (handleRequest env locals c raw s).1.Succeeds → ∀ later : List (Event κ M),
    let after := (handleRequest env locals c raw s).2
    (∀ first event rest, later = first ++ event :: rest →
      ¬ Releases env c (after.run env first) event) →
    ∀ c' locals' raw', c' ≠ c →
      ∀ login' ∈ loginOf env locals' raw' (after.run env later).db,
        login'.userId = login.userId →
        ¬ (handleRequest env locals' c' raw' (after.run env later)).1.Succeeds

def HasRoom (env : Env) (locals : Locals M) (raw : RawRequest) (s : ServerState κ M) : Prop :=
  ∀ login ∈ loginOf env locals raw s.db,
    login.userId ∈ s.activeSessions ∨ 0 ∈ s.activeSessions

theorem SessionMove.keeps {event : Event κ M} {table : List Nat} {current : κ → Option Nat}
    (h : SessionMove env s event table current) (hkeeps : ¬ Releases env c s event)
    {userId : Nat} (hcurrent : s.currentUserId c = some userId) : current c = some userId := by
  cases h with
  | stay event => exact hcurrent
  | connect c' hclosed =>
      rw [Function.update_of_ne, hcurrent]
      rintro rfl
      rw [hclosed] at hcurrent
      cases hcurrent
  | disconnect c' userId' hbefore =>
      rw [Function.update_of_ne, hcurrent]
      rintro rfl
      exact hkeeps rfl
  | logout c' locals raw userId' hop hbefore =>
      rw [Function.update_of_ne, hcurrent]
      rintro rfl
      exact hkeeps ⟨rfl, .inl hop⟩
  | enter c' locals raw login table hlogin hnew hfree =>
      rw [Function.update_of_ne, hcurrent]
      rintro rfl
      have hop : raw.op.text = str "LOGIN" := by
        by_contra hop
        rw [loginOf_eq_none hop] at hlogin
        cases hlogin
      refine hkeeps ⟨rfl, .inr ⟨hop, ?_⟩⟩
      rw [handleRequest_accepted hlogin, enter_tracked hnew hfree]
      exact loginResponse_succeeds login

private theorem HasRoom.claims (h : HasRoom env locals raw s)
    (hlogin : loginOf env locals raw s.db = some login)
    (hsucceeds : (handleRequest env locals c raw s).1.Succeeds) :
    login.userId ≠ 0 ∧ login.userId ∉ s.activeSessions ∧
      ∃ table, replaceFirst 0 login.userId s.activeSessions = some table := by
  rw [handleRequest_accepted hlogin] at hsucceeds
  have hnew : login.userId ∉ s.activeSessions := fun hold => (enter_refused hold).2 hsucceeds
  have hzero := (h login hlogin).resolve_left hnew
  exact ⟨fun hid => hnew (hid ▸ hzero), hnew, exists_replaceFirst hzero login.userId⟩

private theorem HasRoom.tracks (h : HasRoom env locals raw s)
    (hexclusive : Exclusive s.activeSessions s.currentUserId) :
    Tracks env locals c raw s := by
  constructor
  · intro hop hsucceeds
    cases hlogin : loginOf env locals raw s.db with
    | none => exact absurd hsucceeds (handleRequest_rejected hlogin hop).2
    | some login =>
        obtain ⟨hne, hnew, table, hfree⟩ := h.claims hlogin hsucceeds
        refine ⟨login, rfl, ?_⟩
        rw [handleRequest_accepted hlogin, enter_tracked hnew hfree]
        exact ⟨rfl, (mem_claimed hfree hne).mpr (.inl rfl), Function.update_self ..⟩
  · intro login hlogin hsucceeds later after hkeeps c' locals' raw' hc' login' hlogin' hsame
    obtain ⟨hne, hnew, table, hfree⟩ := h.claims hlogin hsucceeds
    have hafter : after = { s with activeSessions := table }.setCurrent c (some login.userId) := by
      have hhandled := handleRequest_accepted (c := c) hlogin
      rw [enter_tracked hnew hfree] at hhandled
      exact congrArg Prod.snd hhandled
    have hinv : ∀ s : ServerState κ M, ∀ event, ¬ Releases env c s event →
        Exclusive s.activeSessions s.currentUserId ∧ s.currentUserId c = some login.userId →
        Exclusive (s.step env event).activeSessions (s.step env event).currentUserId ∧
          (s.step env event).currentUserId c = some login.userId := by
      intro s event hkeeps hs
      have hmove := step_sessions env s event
      exact ⟨hs.1.move hmove, hmove.keeps hkeeps hs.2⟩
    obtain ⟨hlater, hcurrent⟩ := foldl_invariant_of_allowed
      (I := fun s : ServerState κ M => Exclusive s.activeSessions s.currentUserId ∧
        s.currentUserId c = some login.userId) hinv (s := after)
      (by rw [hafter]; exact ⟨hexclusive.enter hnew hfree, Function.update_self ..⟩) hkeeps
    rw [handleRequest_accepted hlogin']
    refine (enter_refused ?_).2
    rw [hsame]
    exact hlater.listed c login.userId hne hcurrent

/--
At any time after the start of the server a `LOGIN` that is answered with success is
tracked exactly when the table has room for the user.
-/
theorem login_tracked_iff (env : Env) (db : Database M) (events : List (Event κ M)) (c : κ)
    (locals : Locals M) (raw : RawRequest) :
    Tracks env locals c raw ((ServerState.init db).run env events) ↔
      HasRoom env locals raw ((ServerState.init db).run env events) := by
  refine ⟨fun h login hlogin => ?_, fun h => h.tracks (run_exclusive env db events)⟩
  by_contra hfull
  obtain ⟨hnew, hzero⟩ := not_or.mp hfull
  have hop : raw.op.text = str "LOGIN" := by
    by_contra hop
    rw [loginOf_eq_none hop] at hlogin
    cases hlogin
  have hhandled := handleRequest_accepted (c := c) hlogin
  rw [enter_untracked hnew hzero] at hhandled
  obtain ⟨login', hlogin', -, hlisted, -⟩ := h.entered hop (by
    rw [hhandled]
    exact loginResponse_succeeds login)
  rw [hlogin] at hlogin'
  cases hlogin'
  rw [hhandled] at hlisted
  exact hnew hlisted

def member (n : Nat) : UserRec :=
  { UserRec.zero with
    userId := 1001 + n
    username := .ofText [UInt8.ofNat (33 + n)]
    passwordHash := .ofText (salt ++ str "p")
    role := .employee
    active := .active }

def memberLogin (n : Nat) : RawRequest :=
  .ofText (str "LOGIN") ([UInt8.ofNat (33 + n)] ++ str " p")

/-- As many employees as the table has entries log in, each on a connection of its own. -/
def crowd : List (Event Nat ℚ) :=
  .connect maxClients :: (List.range maxClients).flatMap fun n =>
    [.connect n, .request n .zero (memberLogin n)]

def staffed : Database ℚ :=
  { Database.empty fun _ => 1 with users := some ((List.range (maxClients + 1)).map member) }

def crowded : ServerState Nat ℚ := (ServerState.init staffed).run .plain crowd

/-- The next one is told `SUCCESS` and is in no entry. -/
theorem login_of_full_table :
    ¬ ∀ (db : Database ℚ) (events : List (Event Nat ℚ)) (c : Nat) (raw : RawRequest),
      Tracks .plain .zero c raw ((ServerState.init db).run .plain events) := by
  intro h
  have hanswer :
      (handleRequest .plain .zero maxClients (memberLogin maxClients) crowded).1.Succeeds ∧
      (handleRequest .plain .zero maxClients (memberLogin maxClients)
        crowded).2.currentUserId maxClients = some 0 ∧
      0 ∉ (handleRequest .plain .zero maxClients (memberLogin maxClients)
        crowded).2.activeSessions := by
    decide +kernel
  have hop : (memberLogin maxClients).op.text = str "LOGIN" := by decide +kernel
  obtain ⟨login, -, -, hlisted, hcurrent⟩ :=
    (h staffed crowd maxClients (memberLogin maxClients)).entered hop hanswer.1
  rw [← crowded] at hlisted hcurrent
  rw [hanswer.2.1] at hcurrent
  rw [← Option.some_inj.mp hcurrent] at hlisted
  exact hanswer.2.2 hlisted

end BankingSystem
