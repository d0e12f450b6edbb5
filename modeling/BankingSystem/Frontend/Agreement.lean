import BankingSystem.Frontend.Fields
import BankingSystem.Server.SessionTable

/-!
# Client and server agree on who is logged in

One client runs its login loop and its menus against the server's handler of its
connection.  Each side keeps its own copy of who is logged in: the client in the
screen it is at, the server in `current_userId`.
-/

namespace BankingSystem

open Foundation

/-! ## The login loop -/

/-- `sscanf(message, "SUCCESS %d %[^|]|%[^\n]", &userId, role, name) == 3`. -/
def parseReply (message : Bytes) : Option (Int × Bytes × Bytes) :=
  if str "SUCCESS" <+: message then
    match scanInteger (message.drop 7) with
    | none => none
    | some (negative, n, rest) =>
        let text := skipSpace rest
        let role := text.takeWhile (· ≠ 124)
        let name := ((text.dropWhile (· ≠ 124)).drop 1).takeWhile (· ≠ 10)
        if role = [] ∨ name = [] then none
        else some ((signedLong negative n).bmod (2 ^ 32), role, name)
  else none

def validRole (choice : Int) (role : Bytes) : Prop :=
  choice = 1 ∧ role = str "customer" ∨ choice = 2 ∧ role = str "employee" ∨
  choice = 3 ∧ role = str "manager" ∨ choice = 4 ∧ role = str "admin"

instance (choice : Int) (role : Bytes) : Decidable (validRole choice role) :=
  inferInstanceAs (Decidable (_ ∨ _))

def menuFor (role : Bytes) : Option Role :=
  if role = str "customer" then some .customer
  else if role = str "employee" then some .employee
  else if role = str "manager" then some .manager
  else if role = str "admin" then some .admin
  else none

inductive Screen where
  | roles
  | menu (role : Role) (userId : Int) (name : Bytes)
  | exited
  deriving DecidableEq

def Screen.welcome (choice : Int) (message : Bytes) : Screen :=
  match parseReply message with
  | none => .roles
  | some (userId, role, name) =>
      if validRole choice role ∧ userId ≠ 0 then
        match menuFor role with
        | some found => .menu found userId name
        | none => .roles
      else .roles

inductive Typed (M : Type) [Amount M] where
  | login (choice : Int) (username : Answer maxUsernameLen validateCredential)
      (password : Answer maxPasswordLen validateCredential)
  | menu (choice : Int) (form : Form M)

/-- One turn: what is typed, and what the variables of the server's handler hold. -/
structure Input (M : Type) [Amount M] where
  typed : Typed M
  locals : Locals M
  listLocals : Locals M

structure Joint (κ M : Type) where
  server : ServerState κ M
  screen : Screen

def loginRequest (username password : Bytes) : RawRequest :=
  .ofText (str "LOGIN") (spaced [username, password])

variable {κ M : Type} [DecidableEq κ] [Amount M] [Strtod M]

section Turns

variable [Printf M]

/-- A turn of the client on connection `c`; a whole reply follows each whole request. -/
def Joint.step (env : Env) (c : κ) (s : Joint κ M) (input : Input M) : Joint κ M :=
  match s.screen, input.typed with
  | .roles, .login choice username password =>
      if choice = 5 then ⟨s.server.step env (.disconnect c), .exited⟩
      else
        let (response, server) := handleRequest env input.locals c
          (loginRequest username.text password.text) s.server
        ⟨server, .welcome choice response.message⟩
  | .menu role userId _, .menu choice form =>
      let send (locals : Locals M) (op payload : Bytes) (server : ServerState κ M) :=
        handleRequest env locals c (.ofText op payload) server
      match menu role userId form choice with
      | .again => s
      | .send op payload => { s with server := (send input.locals op payload s.server).2 }
      | .listAndSend op payload =>
          let (response, server) := send input.listLocals (str "LIST_USERS") [] s.server
          if response.statusCode ≠ 0 then { s with server }
          else { s with server := (send input.locals op payload server).2 }
      | .logout => ⟨(send input.locals (str "LOGOUT") [] s.server).2, .roles⟩
  | _, _ => s

def Joint.run (env : Env) (c : κ) (s : Joint κ M) (inputs : List (Input M)) : Joint κ M :=
  inputs.foldl (Joint.step env c) s

def Joint.init (env : Env) (db : Database M) (c : κ) : Joint κ M where
  server := (ServerState.init db).step env (.connect c)
  screen := .roles

end Turns

/-! ## What the client reads in a reply -/

def Named (login : Login) : Prop := ∃ b ∈ login.firstName.head?, b ≠ 10

def IsWord (role : Bytes) : Prop :=
  role ≠ [] ∧ role.length ≤ 8 ∧ ∀ b ∈ role, b ≠ 124 ∧ isSpace b = false

theorem roleString_isWord (role : Role) : IsWord (roleString role) := by
  cases role <;> exact ⟨by decide, by decide, by decide +kernel⟩

private theorem scanInteger_blank (text : Bytes) :
    scanInteger (32 :: text) = scanInteger text := rfl

def greeting (login : Login) : Bytes :=
  str "SUCCESS" ++ 32 :: (dec login.userId ++ 32 :: (login.role ++ [124]))

private theorem loginResponse_message (login : Login) :
    (loginResponse login).message = (greeting login ++ login.firstName).take 1023 := by
  simp only [loginResponse, Response.ok, respond, snprintf, greeting]
  congr 1
  simp [str]

def replyStart (n : Int) (role : Bytes) : Bytes :=
  str "SUCCESS" ++ 32 :: (decInt n ++ 32 :: (role ++ [124]))

theorem parseReply_start {role : Bytes} (hrole : IsWord role) (n : Int) (name : Bytes) :
    parseReply (replyStart n role ++ name) =
      if name.takeWhile (· ≠ 10) = [] then none
      else some (scannedInt n, role, name.takeWhile (· ≠ 10)) := by
  obtain ⟨hnonempty, -, hword⟩ := hrole
  have hblank : isSpace 32 = true := rfl
  have hprefix : str "SUCCESS" <+: replyStart n role ++ name := by
    rw [replyStart, List.append_assoc]
    exact List.prefix_append ..
  have hdrop : (replyStart n role ++ name).drop 7 =
      32 :: (decInt n ++ 32 :: (role ++ 124 :: name)) := by
    simp [replyStart, str]
  have hread : scanInteger ((replyStart n role ++ name).drop 7) =
      some (decide (n < 0), n.natAbs, 32 :: (role ++ 124 :: name)) := by
    rw [hdrop, scanInteger_blank]
    exact scanInteger_decInt n (by simp [hblank])
  have hskip : skipSpace (32 :: (role ++ 124 :: name)) = role ++ 124 :: name := by
    rw [skipSpace, List.dropWhile_cons_of_pos hblank]
    exact skipSpace_field hnonempty (fun b hb => (hword b hb).2) (124 :: name)
  have hbar : ∀ b ∈ role, decide (b ≠ 124) = true := fun b hb => by simpa using (hword b hb).1
  have hstop : ∀ b ∈ (124 :: name).head?, decide (b ≠ 124) = false := by simp
  obtain ⟨htake, hrest⟩ := span_field (fun b => decide (b ≠ 124)) hbar hstop
  rw [parseReply, if_pos hprefix, hread]
  simp only [hskip, htake, hrest, List.drop_one, List.tail_cons]
  simp [hnonempty, scannedInt]

private theorem parseReply_greeting {login : Login} (hrole : IsWord login.role)
    (hid : login.userId < 2 ^ 32) (name : Bytes) :
    parseReply (greeting login ++ name) =
      if name.takeWhile (· ≠ 10) = [] then none
      else some ((login.userId : Int).bmod (2 ^ 32), login.role, name.takeWhile (· ≠ 10)) := by
  have hstart : greeting login = replyStart login.userId login.role := rfl
  have hlong : signedLong false login.userId = login.userId := by
    simp only [signedLong, Bool.false_eq_true, if_false]
    omega
  have hscanned : scannedInt login.userId = (login.userId : Int).bmod (2 ^ 32) :=
    congrArg (Int.bmod · (2 ^ 32)) hlong
  rw [hstart, parseReply_start hrole, hscanned]

private theorem welcome_loginResponse {login : Login} (hrole : IsWord login.role)
    (hid : login.userId < 2 ^ 32) (hne : login.userId ≠ 0) (choice : Int) :
    (validRole choice login.role ∧ Named login →
      ∃ role userId name, Screen.welcome choice (loginResponse login).message =
        .menu role userId name) ∧
    (¬ (validRole choice login.role ∧ Named login) →
      Screen.welcome choice (loginResponse login).message = .roles) := by
  have hlength := length_dec_le hid
  have hgreeting : (greeting login).length ≤ 1022 := by
    have := hrole.2.1
    simp [greeting, str]
    omega
  obtain ⟨k, hk⟩ : ∃ k, 1023 - (greeting login).length = k + 1 :=
    ⟨1022 - (greeting login).length, by omega⟩
  have hmessage : (loginResponse login).message =
      greeting login ++ login.firstName.take (k + 1) := by
    rw [loginResponse_message, List.take_append, List.take_of_length_le (by omega), hk]
  have hnamed : (login.firstName.take (k + 1)).takeWhile (· ≠ 10) = [] ↔ ¬ Named login := by
    rw [Named]
    cases login.firstName with
    | nil => simp
    | cons b name => by_cases hb : b = 10 <;> simp [hb]
  have hint : (login.userId : Int).bmod (2 ^ 32) ≠ 0 := by
    rw [Int.bmod_def]
    omega
  rw [Screen.welcome, hmessage, parseReply_greeting hrole hid]
  generalize (login.firstName.take (k + 1)).takeWhile (· ≠ 10) = name at hnamed ⊢
  generalize (login.userId : Int).bmod (2 ^ 32) = userId at hint ⊢
  by_cases hname : Named login
  · rw [if_neg fun hnil => hnamed.mp hnil hname]
    by_cases hchoice : validRole choice login.role
    · obtain ⟨role, hmenu⟩ : ∃ role, menuFor login.role = some role := by
        rcases hchoice with ⟨-, h⟩ | ⟨-, h⟩ | ⟨-, h⟩ | ⟨-, h⟩ <;> rw [h] <;> exact ⟨_, rfl⟩
      simp [hchoice, hname, hint, hmenu]
    · simp [hchoice]
  · rw [if_pos (hnamed.mpr hname)]
    simp [hname]

/-! ## The joint state -/

/-- Nobody is logged in and the client's connection is the only one. -/
def Idle (c : κ) (s : ServerState κ M) : Prop :=
  s.activeSessions = List.replicate maxClients 0 ∧
    s.currentUserId = Function.update (fun _ => none) c (some 0)

def Busy (c : κ) (userId : Nat) (s : ServerState κ M) : Prop :=
  userId ≠ 0 ∧ s.activeSessions = userId :: List.replicate (maxClients - 1) 0 ∧
    s.currentUserId = Function.update (fun _ => none) c (some userId)

def InStep (c : κ) (s : Joint κ M) : Prop :=
  match s.screen with
  | .roles => Idle c s.server
  | .menu _ _ _ => ∃ userId, Busy c userId s.server
  | .exited => True

/-- Whom the server lets in is whom the client asked for, by a name it can read. -/
def Welcomed (env : Env) (s : Joint κ M) (input : Input M) : Prop :=
  match s.screen, input.typed with
  | .roles, .login choice username password => choice ≠ 5 →
      ∀ login ∈ loginOf env input.locals (loginRequest username.text password.text) s.server.db,
        login.userId ≠ 0 →
          login.userId < 2 ^ 32 ∧ validRole choice login.role ∧ Named login
  | _, _ => True

/-- At the prompt nobody is logged in and every user can log in from any connection. -/
structure Agrees (env : Env) (c : κ) (s : ServerState κ M) : Prop where
  nobody : s.currentUserId c = some 0
  canLogIn : ∀ c' locals raw, ∀ login ∈ loginOf env locals raw s.db, login.userId ≠ 0 →
    let opened := s.step env (.connect c')
    (handleRequest env locals c' raw opened).1 = loginResponse login ∧
    login.userId ∈ (opened.step env (.request c' locals raw)).activeSessions ∧
    (opened.step env (.request c' locals raw)).currentUserId c' = some login.userId

variable {env : Env} {c : κ} {s : ServerState κ M} {locals : Locals M} {raw : RawRequest}
  {login : Login}

theorem Idle.agrees (h : Idle c s) : Agrees env c s := by
  obtain ⟨htable, hcurrent⟩ := h
  refine ⟨by rw [hcurrent, Function.update_self], fun c' locals raw login hlogin hne => ?_⟩
  obtain ⟨htable', hdb, hopen⟩ := step_connect env s c'
  rw [htable] at htable'
  refine handleRequest_tracked hopen (by rw [hdb]; exact hlogin) ?_ ?_
  · rw [htable', List.mem_replicate]
    exact fun h => hne h.2
  · rw [htable']
    decide

theorem Idle.handleLogin (h : Idle c s) (env : Env) (locals : Locals M)
    (hop : raw.op.text = str "LOGIN") :
    ((∃ login ∈ loginOf env locals raw s.db, login.userId ≠ 0 ∧
      (handleRequest env locals c raw s).1 = loginResponse login ∧
      Busy c login.userId (handleRequest env locals c raw s).2) ∨
    ((∀ login ∈ loginOf env locals raw s.db, login.userId = 0) ∧
      ¬ (handleRequest env locals c raw s).1.Succeeds ∧
      Idle c (handleRequest env locals c raw s).2)) := by
  cases hlogin : loginOf env locals raw s.db with
  | none =>
      obtain ⟨hsame, hanswer⟩ := handleRequest_rejected (c := c) hlogin hop
      exact .inr ⟨nofun, hanswer, by rwa [hsame]⟩
  | some login =>
      rw [handleRequest_accepted hlogin]
      by_cases hzero : login.userId = 0
      · have hold : login.userId ∈ s.activeSessions := by
          rw [h.1, hzero]
          decide
        obtain ⟨hsame, hanswer⟩ := enter_refused (c := c) hold
        refine .inr ⟨?_, hanswer, by rwa [hsame]⟩
        rintro login' ⟨⟩
        exact hzero
      · have hnew : login.userId ∉ s.activeSessions := by
          rw [h.1, List.mem_replicate]
          exact fun h => hzero h.2
        have hfree : replaceFirst 0 login.userId s.activeSessions =
            some (login.userId :: List.replicate (maxClients - 1) 0) := by
          rw [h.1]
          rfl
        rw [enter_tracked hnew hfree]
        refine .inl ⟨login, rfl, hzero, rfl, hzero, rfl, ?_⟩
        simp [ServerState.setCurrent, h.2]

theorem Busy.logout {userId : Nat} (h : Busy c userId s) (hop : raw.op.text = str "LOGOUT") :
    Idle c (handleRequest env locals c raw s).2 := by
  obtain ⟨hne, htable, hcurrent⟩ := h
  rw [handleRequest_logout hop]
  constructor
  · simp [ServerState.logout, ServerState.setCurrent, htable, hcurrent, removeActiveSession,
      replaceFirst]
    rfl
  · simp [ServerState.logout, ServerState.setCurrent, hcurrent]

theorem Busy.other {userId : Nat} (h : Busy c userId s) (hlogin : raw.op.text ≠ str "LOGIN")
    (hlogout : raw.op.text ≠ str "LOGOUT") :
    Busy c userId (handleRequest env locals c raw s).2 := by
  obtain ⟨htable, hcurrent⟩ := handleRequest_other env locals c s hlogin hlogout
  exact ⟨h.1, htable.trans h.2.1, hcurrent.trans h.2.2⟩

/-! ## Turns -/

/-- The server takes this operation neither for a login nor for a logout. -/
def LeavesSession (op : Bytes) : Prop :=
  (CharArray.ofText op : CharArray 64).text ≠ str "LOGIN" ∧
    (CharArray.ofText op : CharArray 64).text ≠ str "LOGOUT"

instance : DecidablePred LeavesSession := fun _ => inferInstanceAs (Decidable (_ ∧ _))

def Turn.LeavesSession : Turn → Prop
  | .send op _ | .listAndSend op _ => BankingSystem.LeavesSession op
  | .again | .logout => True

private theorem LeavesSession.busy {op : Bytes} (hop : LeavesSession op) {userId : Nat}
    (h : Busy c userId s) (env : Env) (locals : Locals M) (payload : Bytes) :
    Busy c userId (handleRequest env locals c (.ofText op payload) s).2 :=
  h.other hop.1 hop.2

private theorem loginRequest_op (username password : Bytes) :
    (loginRequest username password).op.text = str "LOGIN" := by
  have hop : (CharArray.ofText (str "LOGIN") : CharArray 64).text = str "LOGIN" := by
    decide +kernel
  exact hop

private theorem welcome_of_not_succeeds {response : Response} (h : ¬ response.Succeeds)
    (choice : Int) : Screen.welcome choice response.message = .roles := by
  have hword : ¬ str "SUCCESS" <+: response.message := h
  rw [Screen.welcome, parseReply, if_neg hword]

variable [Printf M]

omit [Strtod M] in
private theorem menu_leavesSession (role : Role) (userId : Int) (form : Form M) (choice : Int) :
    (menu role userId form choice).LeavesSession := by
  cases role with
  | customer =>
      change (customerMenu userId form choice).LeavesSession
      unfold customerMenu
      split <;> trivial
  | employee =>
      change (employeeMenu userId form choice).LeavesSession
      unfold employeeMenu
      split <;> (try split) <;> (try split) <;> trivial
  | manager =>
      change (managerMenu userId form choice).LeavesSession
      unfold managerMenu
      split <;> trivial
  | admin =>
      change (adminMenu userId form choice).LeavesSession
      unfold adminMenu
      split <;> (try split) <;> trivial

theorem InStep.step {s : Joint κ M} (h : InStep c s) {input : Input M}
    (hwelcomed : Welcomed env s input) : InStep c (s.step env c input) := by
  obtain ⟨server, screen⟩ := s
  obtain ⟨typed, locals, listLocals⟩ := input
  cases screen with
  | exited => cases typed <;> exact h
  | roles =>
      cases typed with
      | menu choice form => exact h
      | login choice username password =>
          by_cases hexit : choice = 5
          · simp [Joint.step, hexit, InStep]
          · simp only [Joint.step, if_neg hexit]
            have hidle : Idle c server := h
            have hop := loginRequest_op username.text password.text
            rcases hidle.handleLogin env locals hop with
              ⟨login, hlogin, hne, hanswer, hbusy⟩ | ⟨-, hanswer, hidle'⟩
            · obtain ⟨hid, hrole, hname⟩ := hwelcomed hexit login hlogin hne
              obtain ⟨user, -, huser⟩ := loginOf_user hlogin
              have hword : IsWord login.role := by
                rw [huser]
                exact roleString_isWord user.role
              obtain ⟨role, userId, name, hscreen⟩ :=
                (welcome_loginResponse hword hid hne choice).1 ⟨hrole, hname⟩
              rw [hanswer, hscreen]
              exact ⟨login.userId, hbusy⟩
            · rw [welcome_of_not_succeeds hanswer]
              exact hidle'
  | menu role userId name =>
      cases typed with
      | login choice username password => exact h
      | menu choice form =>
          obtain ⟨user, hbusy⟩ : ∃ user, Busy c user server := h
          have hturn := menu_leavesSession role userId form choice
          simp only [Joint.step]
          cases hmenu : menu role userId form choice with
          | again => exact ⟨user, hbusy⟩
          | logout => exact hbusy.logout (by decide +kernel)
          | send op payload =>
              rw [hmenu] at hturn
              exact ⟨user, hturn.busy hbusy env locals payload⟩
          | listAndSend op payload =>
              rw [hmenu] at hturn
              have hlist : LeavesSession (str "LIST_USERS") := by decide +kernel
              have hlisted := hlist.busy hbusy env listLocals []
              simp only
              split
              · exact ⟨user, hlisted⟩
              · exact ⟨user, hturn.busy hlisted env locals payload⟩

omit [Printf M] in
private theorem init_inStep (env : Env) (db : Database M) (c : κ) :
    InStep c (Joint.init env db c) := by
  change Idle c (Joint.init env db c).server
  exact ⟨rfl, rfl⟩

private theorem run_inStep (env : Env) (db : Database M) (c : κ) {inputs : List (Input M)}
    (hwelcomed : ∀ first input rest, inputs = first ++ input :: rest →
      Welcomed env ((Joint.init env db c).run env c first) input) :
    InStep c ((Joint.init env db c).run env c inputs) :=
  foldl_invariant_of_allowed (I := InStep c) (fun _ _ hwelcomed h => h.step hwelcomed)
    (init_inStep env db c) hwelcomed

private theorem Idle.dropped (h : Idle c s) {choice : Int}
    {username : Answer maxUsernameLen validateCredential}
    {password : Answer maxPasswordLen validateCredential} (listLocals : Locals M)
    (hchoice : choice ≠ 5)
    (hlogin : loginOf env locals (loginRequest username.text password.text) s.db = some login)
    (hne : login.userId ≠ 0) (hid : login.userId < 2 ^ 32)
    (hunwelcome : ¬ (validRole choice login.role ∧ Named login)) :
    let s' := Joint.step env c ⟨s, .roles⟩ ⟨.login choice username password, locals, listLocals⟩
    s'.screen = .roles ∧ s'.server.currentUserId c = some login.userId := by
  obtain ⟨user, -, huser⟩ := loginOf_user hlogin
  have hword : IsWord login.role := by
    rw [huser]
    exact roleString_isWord user.role
  rcases h.handleLogin env locals (loginRequest_op username.text password.text) with
    ⟨login', hlogin', -, hanswer, hbusy⟩ | ⟨hzero, -⟩
  · rw [hlogin] at hlogin'
    cases hlogin'
    simp only [Joint.step, if_neg hchoice, hanswer]
    refine ⟨(welcome_loginResponse hword hid hne choice).2 hunwelcome, ?_⟩
    rw [hbusy.2.2, Function.update_self]
  · exact absurd (hzero login hlogin) hne

/--
As long as every login that the server accepts is for the role that was chosen and by
a user whose name the client can read, nobody is logged in when the client is at its
prompt, and everybody can log in.  The first other login leaves the client at its
prompt with the user logged in on the server.
-/
theorem client_agrees (env : Env) (db : Database M) (c : κ) (inputs : List (Input M))
    (hwelcomed : ∀ first input rest, inputs = first ++ input :: rest →
      Welcomed env ((Joint.init env db c).run env c first) input) :
    let s := (Joint.init env db c).run env c inputs
    s.screen = .roles →
      Agrees env c s.server ∧
      ∀ choice username password locals listLocals, choice ≠ 5 →
        ∀ login ∈ loginOf env locals (loginRequest username.text password.text) s.server.db,
          login.userId ≠ 0 → login.userId < 2 ^ 32 →
            ¬ (validRole choice login.role ∧ Named login) →
            let s' := s.step env c ⟨.login choice username password, locals, listLocals⟩
            s'.screen = .roles ∧ ¬ Agrees env c s'.server := by
  intro s hroles
  have hinStep := run_inStep env db c hwelcomed
  have hidle : Idle c s.server := by
    change InStep c s at hinStep
    rwa [InStep, hroles] at hinStep
  refine ⟨hidle.agrees, ?_⟩
  intro choice username password locals listLocals hchoice login hlogin hne hid hunwelcome
  have hs : s = ⟨s.server, .roles⟩ := by rw [← hroles]
  have hdropped := hidle.dropped listLocals hchoice hlogin hne hid hunwelcome
  rw [← hs] at hdropped
  refine ⟨hdropped.1, fun hagrees => hne ?_⟩
  exact Option.some_inj.mp (hdropped.2.symm.trans hagrees.nobody)

/-! ## One employee -/

def ann : UserRec :=
  { UserRec.zero with
    userId := 1001
    username := .ofText (str "ann")
    passwordHash := .ofText (salt ++ str "pw")
    firstName := .ofText (str "Ann")
    role := .employee
    active := .active }

def withAnn : Database ℚ := { Database.empty fun _ => 1 with users := some [ann] }

def annLogin (choice : Int) : Input ℚ where
  typed := .login choice ⟨str "ann", by decide +kernel, by decide, rfl⟩
    ⟨str "pw", by decide +kernel, by decide, rfl⟩
  locals := .zero
  listLocals := .zero

def annForm : Form ℚ where
  firstName := ⟨str "Ann", by decide +kernel, by decide, rfl⟩
  lastName := ⟨str "Lee", by decide +kernel, by decide, rfl⟩
  age := 30
  address := ⟨str "Home", by decide +kernel, by decide, rfl⟩
  email := ⟨str "a@b.c", by decide +kernel, by decide, rfl⟩
  phone := ⟨str "1234567890", by decide +kernel, by decide, rfl⟩
  username := ⟨str "ann", by decide +kernel, by decide, rfl⟩
  password := ⟨str "pw", by decide +kernel, by decide, rfl⟩
  role := ⟨str "manager", by decide +kernel, by decide, rfl⟩
  acctStr := ⟨str "AC1001", by decide +kernel, by decide, rfl⟩
  feedback := ⟨str "None", by decide +kernel, by decide, rfl⟩
  amount := ⟨1, by decide⟩
  loanId := 0
  loanNumber := 0
  empId := 0
  targetId := 0
  actionCode := 0
  status := 0

def annLogout : Input ℚ := ⟨.menu 8 annForm, .zero, .zero⟩

/-- She logs in as an employee and logs out. -/
theorem client_agrees_ann :
    Agrees .plain (0 : Fin 1)
      ((Joint.init .plain withAnn 0).run .plain 0 [annLogin 2, annLogout]).server := by
  have hlogin : loginOf .plain .zero (loginRequest (str "ann") (str "pw")) withAnn =
      some ⟨1001, str "employee", str "Ann"⟩ := by
    decide +kernel
  refine (client_agrees .plain withAnn 0 [annLogin 2, annLogout] ?_ (by decide +kernel)).1
  intro first input rest hsplit
  rcases first with _ | ⟨input₁, _ | ⟨input₂, first⟩⟩
  · cases hsplit
    intro hchoice login haccepted hne
    cases hlogin.symm.trans haccepted
    exact ⟨by decide, by decide, 65, rfl, by decide⟩
  · cases hsplit
    unfold Welcomed
    split
    · next heq => cases heq
    · trivial
  · simp at hsplit

/-- She chooses to log in as a manager and is still logged in at the prompt. -/
theorem dropped_login_stays :
    ¬ ∀ (inputs : List (Input ℚ)) (c : Fin 1),
      let s := (Joint.init .plain withAnn c).run .plain c inputs
      s.screen = .roles → Agrees .plain c s.server := by
  intro h
  have hscreen : ((Joint.init .plain withAnn (0 : Fin 1)).run .plain 0 [annLogin 3]).screen =
      .roles := by
    decide +kernel
  have hcurrent : ((Joint.init .plain withAnn (0 : Fin 1)).run .plain 0
      [annLogin 3]).server.currentUserId 0 = some 1001 := by
    decide +kernel
  have hagrees := (h [annLogin 3] 0 hscreen).nobody
  rw [hcurrent] at hagrees
  cases hagrees

end BankingSystem
