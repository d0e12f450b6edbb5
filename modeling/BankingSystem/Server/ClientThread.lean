import BankingSystem.Foundation.Mutex
import BankingSystem.Foundation.Trace
import BankingSystem.Clients.Interleaving
import BankingSystem.Server.SessionTable

/-!
# The thread of a client

`client_thread_main` as a program.  It makes the calls of the modules as they are;
`active_sessions` it reads and writes in two critical sections, the one of `LOGIN`
and `remove_active_session`.  What a client sends may depend on the answers it got.
-/

namespace BankingSystem

open Foundation

/-! ## The critical sections -/

namespace Entries

inductive Cmd where
  | get (i : Nat)
  | set (i userId : Nat)

abbrev Ans : Cmd → Type
  | .get _ => Nat
  | .set _ _ => Unit

end Entries

abbrev Entries : Signature := ⟨Entries.Cmd, Entries.Ans⟩

def Entries.exec : (cmd : Entries.Cmd) → List Nat → Entries.Ans cmd × List Nat
  | .get i, table => (table.getD i 0, table)
  | .set i userId, table => ((), table.set i userId)

namespace Sessions

inductive Entered where
  | alreadyLoggedIn
  | added
  | full
  deriving DecidableEq

inductive Cmd where
  | enter (userId : Nat)
  | remove (userId : Nat)

abbrev Ans : Cmd → Type
  | .enter _ => Entered
  | .remove _ => Unit

end Sessions

abbrev Sessions : Signature := ⟨Sessions.Cmd, Sessions.Ans⟩

/-- The loops over `active_sessions`, from entry `i` on with `left` entries to go. -/
def findEntry (userId : Nat) : Nat → Nat → Prog Entries (Option Nat)
  | _, 0 => .ret none
  | i, left + 1 =>
      .call (S := Entries) (.get i) fun entry =>
        if entry = userId then .ret (some i) else findEntry userId (i + 1) left

def setEntry (i userId : Nat) : Prog Entries Unit := Prog.perform (S := Entries) (.set i userId)

def Sessions.body : (op : Sessions.Cmd) → Prog Entries (Sessions.Ans op)
  | .enter userId => do
      match ← findEntry userId 0 maxClients with
      | some _ => return .alreadyLoggedIn
      | none =>
          match ← findEntry 0 0 maxClients with
          | some i =>
              setEntry i userId
              return .added
          | none => return .full
  | .remove userId => do
      match ← findEntry userId 0 maxClients with
      | some i => setEntry i 0
      | none => return ()

private theorem findEntry_run (userId new : Nat) (before table : List Nat) :
    ∃ found, (findEntry userId before.length table.length).run Entries.exec (before ++ table) =
        (found, before ++ table) ∧
      (replaceFirst userId new table).map (before ++ ·) =
        found.map fun i => (before ++ table).set i new := by
  induction table generalizing before with
  | nil => exact ⟨none, rfl, rfl⟩
  | cons entry entries ih =>
      have hget : (before ++ entry :: entries).getD before.length 0 = entry := by
        simp [List.getD_eq_getElem?_getD]
      rw [List.length_cons, findEntry, Prog.run_call, Entries.exec, hget, replaceFirst]
      by_cases hentry : entry = userId
      · refine ⟨some before.length, ?_, ?_⟩
        · rw [if_pos hentry]
          rfl
        · rw [if_pos hentry]
          simp
      · obtain ⟨found, hrun, hreplace⟩ := ih (before ++ [entry])
        rw [List.append_assoc, List.singleton_append, List.length_append,
          List.length_singleton] at hrun
        refine ⟨found, ?_, ?_⟩
        · rw [if_neg hentry]
          exact hrun
        · rw [if_neg hentry, Option.map_map]
          rw [List.append_assoc, List.singleton_append] at hreplace
          rw [← hreplace]
          refine congrArg (Option.map · _) (funext fun entries' => ?_)
          simp

section

variable {table : List Nat} {userId : Nat}

private theorem findEntry_table (userId new : Nat) (hlength : table.length = maxClients) :
    ∃ found, (findEntry userId 0 maxClients).run Entries.exec table = (found, table) ∧
      replaceFirst userId new table = found.map fun i => table.set i new := by
  obtain ⟨found, hrun, hreplace⟩ := findEntry_run userId new [] table
  rw [hlength] at hrun
  refine ⟨found, hrun, ?_⟩
  simpa using hreplace

private theorem enter_run (userId : Nat) (hlength : table.length = maxClients) :
    (Sessions.body (.enter userId)).run Entries.exec table =
      if userId ∈ table then (.alreadyLoggedIn, table)
      else match replaceFirst 0 userId table with
        | some table' => (.added, table')
        | none => (.full, table) := by
  obtain ⟨found, hrun, hreplace⟩ := findEntry_table userId 0 hlength
  rw [Sessions.body, Prog.run_bind, hrun]
  cases found with
  | some i =>
      have hmem : userId ∈ table := by
        by_contra hnew
        rw [replaceFirst_eq_none_iff.mpr hnew] at hreplace
        cases hreplace
      rw [if_pos hmem]
      rfl
  | none =>
      rw [if_neg (replaceFirst_eq_none_iff.mp hreplace)]
      obtain ⟨free, hrun', hreplace'⟩ := findEntry_table 0 userId hlength
      dsimp only
      rw [Prog.run_bind, hrun', hreplace']
      cases free <;> rfl

private theorem remove_run (userId : Nat) (hlength : table.length = maxClients) :
    (Sessions.body (.remove userId)).run Entries.exec table =
      ((), removeActiveSession userId table) := by
  obtain ⟨found, hrun, hreplace⟩ := findEntry_table userId 0 hlength
  rw [Sessions.body, Prog.run_bind, hrun, removeActiveSession, hreplace]
  cases found <;> rfl

end

/-! ## The loop of a client -/

/-- What a client sends, up to where it hangs up. -/
inductive Dialogue (M : Type) where
  | hangUp
  | send (locals : Locals M) (raw : RawRequest) (next : Response → Dialogue M)

/-- `login_user` and the functions of the modules, which a thread calls. -/
structure Services (T : Signature) (M : Type) where
  loginUser : Bytes → Bytes → Prog T LoginResult
  serve : Request M → Prog T Reply

section

variable {T : Signature} {M : Type}

def enterSession (T : Signature) (userId : Nat) : Prog (Atomic Sessions T) Sessions.Entered :=
  Prog.perform (S := Atomic Sessions T) (.critical (.enter userId))

def removeSession (T : Signature) (userId : Nat) : Prog (Atomic Sessions T) Unit :=
  Prog.perform (S := Atomic Sessions T) (.critical (.remove userId))

/-- One turn of the loop: the response and the new `current_userId`. -/
def Command.thread (services : Services T M) (current : Nat) :
    Command M → Prog (Atomic Sessions T) (Response × Nat)
  | .login username password => do
      match ← (services.loginUser username password).beside Sessions with
      | .deactivated =>
          return (.ok (str "FAILURE! Account is deactivated. Please contact your bank."), current)
      | .success accepted =>
          match ← enterSession T accepted.userId with
          | .alreadyLoggedIn =>
              return (.ok (str "FAILURE User is already logged in elsewhere."), current)
          | .added => return (loginResponse accepted, accepted.userId)
          | .full => return (loginResponse accepted, current)
      | .failed => return (.ok (str "FAILURE Invalid Credentials"), current)
  | .logout => do
      removeSession T current
      return (.ok (str "Logged out successfully"), 0)
  | .call request => do
      let reply ← (services.serve request).beside Sessions
      return (⟨0, reply.message⟩, current)
  | .invalidPayload op => return (⟨1, respond (op ++ str ": Invalid payload format.")⟩, current)
  | .unknown => return (.ok (str "Unknown command"), current)

variable [Amount M] [Strtod M]

def clientThread (services : Services T M) :
    Nat → Dialogue M → Prog (Atomic Sessions T) (List Response)
  | current, .hangUp => do
      if current ≠ 0 then removeSession T current
      return []
  | current, .send locals raw next => do
      let (response, current) ←
        (dispatch locals raw.op.text raw.payload.text).thread services current
      let responses ← clientThread services current (next response)
      return response :: responses

/-- Every helper of `utils.c` is one command. -/
def Services.ofHelpers (env : Env) : Services (Db M) M :=
  ⟨BankingSystem.loginUser env, Request.program env⟩

/-! ## A client served alone -/

variable {κ ι : Type} [DecidableEq κ]

/-- The client is served as the event model serves it, with no other one in between. -/
def Dialogue.serve (env : Env) (c : κ) :
    Dialogue M → ServerState κ M → List Response × ServerState κ M
  | .hangUp, s => ([], s.step env (.disconnect c))
  | .send locals raw next, s =>
      let (response, s) := handleRequest env locals c raw s
      let (responses, s) := (next response).serve env c s
      (response :: responses, s)

abbrev Sessions.exec : Semantics (Atomic Sessions (Db M)) (List Nat × Database M) ι :=
  Atomic.exec Entries.exec Db.shared Sessions.body

omit [DecidableEq κ] [Strtod M] in
private theorem beside_run {α : Type} {i : ι} (program : Prog (Db M) α) (table : List Nat)
    (db : Database M) :
    Prog.Ends (Sessions.exec i) (program.beside Sessions) (table, db)
      (program.run Db.exec db).1 (table, (program.run Db.exec db).2) :=
  Prog.beside_ends (Prog.ends_run program db)

omit [Strtod M] in
/-- A turn of the loop without interruption is one event of the model of sessions. -/
private theorem thread_handle (env : Env) (command : Command M) {s : ServerState κ M} {c : κ}
    {userId : Nat} (hopen : s.currentUserId c = some userId)
    (hlength : s.activeSessions.length = maxClients) (i : ι) :
    ∃ current, (command.handle env c s).2.currentUserId c = some current ∧
      Prog.Ends (Sessions.exec i) (command.thread (.ofHelpers env) userId) (s.activeSessions, s.db)
        ((command.handle env c s).1, current)
        ((command.handle env c s).2.activeSessions, (command.handle env c s).2.db) := by
  cases command with
  | login username password =>
      have hlogin := beside_run (i := i) (loginUser env username password) s.activeSessions s.db
      simp only [Command.handle, Command.thread, Services.ofHelpers]
      cases hresult : ((loginUser env username password).run Db.exec s.db).1 with
      | failed | deactivated =>
          rw [hresult] at hlogin
          exact ⟨userId, hopen, hlogin.bind .ret⟩
      | success accepted =>
          rw [hresult] at hlogin
          have hsection := enter_run accepted.userId hlength
          simp only [ServerState.enter]
          by_cases hold : accepted.userId ∈ s.activeSessions
          · rw [if_pos hold] at hsection ⊢
            refine ⟨userId, hopen, hlogin.bind (.call rfl ?_)⟩
            dsimp only
            rw [hsection]
            exact .ret
          · rw [if_neg hold] at hsection ⊢
            cases hfree : replaceFirst 0 accepted.userId s.activeSessions with
            | none =>
                rw [hfree] at hsection
                refine ⟨userId, hopen, hlogin.bind (.call rfl ?_)⟩
                dsimp only
                rw [hsection]
                exact .ret
            | some table =>
                rw [hfree] at hsection
                refine ⟨accepted.userId, Function.update_self .., hlogin.bind (.call rfl ?_)⟩
                dsimp only
                rw [hsection]
                exact .ret
  | logout =>
      refine ⟨0, Function.update_self .., .call rfl ?_⟩
      dsimp only
      rw [remove_run userId hlength]
      simp only [Command.handle, ServerState.logout, ServerState.setCurrent, hopen,
        Option.getD_some]
      exact .ret
  | call request => exact ⟨userId, hopen, (beside_run (request.program env) _ _).bind .ret⟩
  | invalidPayload op => exact ⟨userId, hopen, .ret⟩
  | unknown => exact ⟨userId, hopen, .ret⟩

theorem clientThread_alone (env : Env) (dialogue : Dialogue M) {s : ServerState κ M} {c : κ}
    {userId : Nat} (hopen : s.currentUserId c = some userId)
    (hlength : s.activeSessions.length = maxClients) (i : ι) :
    Prog.Ends (Sessions.exec i) (clientThread (.ofHelpers env) userId dialogue)
      (s.activeSessions, s.db) (dialogue.serve env c s).1
      ((dialogue.serve env c s).2.activeSessions, (dialogue.serve env c s).2.db) := by
  induction dialogue generalizing s userId with
  | hangUp =>
      simp only [Dialogue.serve, ServerState.step, hopen]
      by_cases huser : userId = 0
      · rw [clientThread, if_neg (not_not_intro huser), if_pos huser]
        exact .ret
      · rw [clientThread, if_pos huser, if_neg huser]
        refine .call rfl ?_
        dsimp only
        rw [remove_run userId hlength]
        exact .ret
  | send locals raw next ih =>
      obtain ⟨current, hcurrent, hturn⟩ :=
        thread_handle env (dispatch locals raw.op.text raw.payload.text) hopen hlength i
      have hlength' : (handleRequest env locals c raw s).2.activeSessions.length =
          maxClients := by
        have hmove := step_sessions env s (.request c locals raw)
        rw [step_request (by rw [hopen]; exact Option.some_ne_none userId)] at hmove
        exact hmove.length.trans hlength
      exact hturn.bind ((ih _ hcurrent hlength').bind .ret)

/-! ## Who is logged in -/

namespace Sessions

variable {T : Signature}

def note (current : Nat) : (cmd : (Atomic Sessions T).Cmd) → (Atomic Sessions T).Ans cmd → Nat
  | .critical (.enter userId), answer => if answer = .added then userId else current
  | .critical (.remove _), _ => 0
  | .outside _, _ => current

/--
A thread gives up no entry but its own.  With `once` it logs in only when it is
not logged in.
-/
def protocol (T : Signature) (once : Prop) : Protocol (Atomic Sessions T) Nat where
  allows current
    | .critical (.enter _) => once → current = 0
    | .critical (.remove userId) => userId = current
    | .outside _ => True
  answers _ _ _ := True
  next := note

end Sessions

/-- After this answer the client takes itself to be logged in. -/
def RawRequest.loggedIn (raw : RawRequest) (response : Response) (before : Bool) : Bool :=
  if raw.op.text = str "LOGIN" then before || response.Succeeds
  else if raw.op.text = str "LOGOUT" then false
  else before

/-- The client sends no `LOGIN` while it takes itself to be logged in. -/
def Dialogue.LogsInOnce : Bool → Dialogue M → Prop
  | _, .hangUp => True
  | before, .send _ raw next =>
      (raw.op.text = str "LOGIN" → before = false) ∧
      ∀ response, (next response).LogsInOnce (raw.loggedIn response before)

def Command.Leaves (current : Nat) (out : Response × Nat) : Command M → Prop
  | .login _ _ => out.2 = current ∨ out.1.Succeeds
  | .logout => out.2 = 0
  | .call _ | .invalidPayload _ | .unknown => out.2 = current

section

variable {T : Signature} {once : Prop} {α : Type}

omit [Amount M] [Strtod M] in
private theorem Sessions.beside_follows (program : Prog T α) (current : Nat) :
    (Sessions.protocol T once).Follows (fun g _ => g = current) current
      (program.beside Sessions) := by
  induction program with
  | ret value => rfl
  | call cmd next ih => exact ⟨trivial, fun answer _ => ih answer⟩

omit [Amount M] [Strtod M] in
private theorem Command.thread_follows (services : Services T M) (command : Command M)
    {current : Nat}
    (honce : once → ∀ username password, command = .login username password → current = 0) :
    (Sessions.protocol T once).Follows
      (fun g out => g = out.2 ∧ command.Leaves current out) current
      (command.thread services current) := by
  cases command with
  | login username password =>
      refine (Sessions.beside_follows _ current).bind ?_
      rintro g result rfl
      cases result with
      | failed | deactivated => exact ⟨rfl, .inl rfl⟩
      | success accepted =>
          refine ⟨fun h => honce h username password rfl, fun answer _ => ?_⟩
          cases answer with
          | alreadyLoggedIn => exact ⟨rfl, .inl rfl⟩
          | full => exact ⟨rfl, .inl rfl⟩
          | added => exact ⟨rfl, .inr (loginResponse_succeeds accepted)⟩
  | logout => exact ⟨rfl, fun _ _ => ⟨rfl, rfl⟩⟩
  | call request =>
      refine (Sessions.beside_follows _ current).bind ?_
      rintro g reply rfl
      exact ⟨rfl, rfl⟩
  | invalidPayload op => exact ⟨rfl, rfl⟩
  | unknown => exact ⟨rfl, rfl⟩

omit [Amount M] in
theorem clientThread_follows (services : Services T M) (dialogue : Dialogue M) {current : Nat}
    {before : Bool} (hdialogue : once → dialogue.LogsInOnce before)
    (hbefore : once → current ≠ 0 → before = true) :
    (Sessions.protocol T once).Follows (fun g _ => g = 0) current
      (clientThread services current dialogue) := by
  induction dialogue generalizing current before with
  | hangUp =>
      rw [clientThread]
      by_cases huser : current = 0
      · rw [if_neg (not_not_intro huser)]
        exact huser
      · rw [if_pos huser]
        exact ⟨rfl, fun _ _ => rfl⟩
  | send locals raw next ih =>
      have hloggedOut : once → raw.op.text = str "LOGIN" → current = 0 := by
        intro honce hop
        by_contra huser
        have hfalse := (hdialogue honce).1 hop
        rw [hbefore honce huser] at hfalse
        cases hfalse
      have hop : ∀ username password, dispatch locals raw.op.text raw.payload.text =
          .login username password → raw.op.text = str "LOGIN" := by
        intro username password hcommand
        have hsession := (dispatch_isSession_iff locals raw.op.text raw.payload.text).mp
          (by rw [hcommand]; trivial)
        rcases hsession with hlogin | hlogout
        · exact hlogin
        · rw [dispatch_logout hlogout] at hcommand
          cases hcommand
      refine (Command.thread_follows services _ fun honce username password hcommand =>
        hloggedOut honce (hop username password hcommand)).bind ?_
      rintro g ⟨response, current'⟩ ⟨rfl, hleaves⟩
      refine (ih response (fun honce => (hdialogue honce).2 response) ?_).bind fun g' _ hend => hend
      intro honce huser
      rw [RawRequest.loggedIn]
      cases hcommand : dispatch locals raw.op.text raw.payload.text with
      | login username password =>
          rw [hcommand] at hleaves
          rw [if_pos (hop username password hcommand), Bool.or_eq_true]
          rcases hleaves with hsame | hsucceeds
          · exact absurd (hsame.trans (hloggedOut honce (hop username password hcommand))) huser
          · exact .inr (decide_eq_true hsucceeds)
      | logout =>
          rw [hcommand] at hleaves
          exact absurd hleaves huser
      | call | invalidPayload | unknown =>
          rw [hcommand] at hleaves
          have hother : ¬ (raw.op.text = str "LOGIN" ∨ raw.op.text = str "LOGOUT") := by
            rw [← dispatch_isSession_iff locals raw.op.text raw.payload.text, hcommand]
            exact id
          rw [not_or] at hother
          rw [if_neg hother.1, if_neg hother.2]
          exact hbefore honce fun hzero => huser (Eq.trans hleaves hzero)

end

end

section

variable {T : Signature} {once : Prop} {α ι τ : Type}

/-! ## The table under every interleaving -/

variable [DecidableEq ι]

/-- The table and the users of the threads. -/
structure Sessions.Kept (once : Prop) (table : List Nat) (current : ι → Nat) : Prop where
  length : table.length = maxClients
  exclusive : Exclusive table fun i => some (current i)
  connected : once → Connected table fun i => some (current i)

omit [DecidableEq ι] in
theorem Sessions.kept_init (once : Prop) :
    Sessions.Kept once (List.replicate maxClients 0) fun _ : ι => 0 where
  length := List.length_replicate
  exclusive :=
    { once := fun userId hne => by simp [List.count_replicate, hne.symm]
      listed := fun i userId hne hcurrent => absurd (Option.some_inj.mp hcurrent).symm hne
      distinct := fun i j userId hne hcurrent => absurd (Option.some_inj.mp hcurrent).symm hne }
  connected _ _ huser hne := absurd (List.eq_of_mem_replicate huser) hne

private theorem connected_enter {κ : Type} [DecidableEq κ] {table table' : List Nat}
    {current : κ → Option Nat} (h : Connected table current) {c : κ} {new : Nat}
    (hcurrent : current c = some 0) (hfree : replaceFirst 0 new table = some table') :
    Connected table' (Function.update current c (some new)) := by
  intro user huser hne
  rcases (mem_claimed hfree hne).mp huser with rfl | hbefore
  · exact ⟨c, Function.update_self ..⟩
  · obtain ⟨c', hc'⟩ := h user hbefore hne
    refine ⟨c', ?_⟩
    rw [Function.update_of_ne, hc']
    rintro rfl
    rw [hcurrent] at hc'
    exact hne (Option.some_inj.mp hc').symm

theorem Sessions.sound (outside : Semantics T τ ι) (once : Prop) :
    Protocol.Sound (fun _ => Sessions.protocol T once)
      (Atomic.exec Entries.exec outside Sessions.body)
      (fun (s : List Nat × τ) g => Sessions.Kept once s.1 g) (fun _ _ _ => True) where
  step {s s' g i cmd answer} h _ hallow hexec := by
    refine ⟨trivial, ?_⟩
    have hsome : ∀ userId, (fun j => some (Function.update g i userId j)) =
        Function.update (fun j => some (g j)) i (some userId) := fun userId =>
      Function.comp_update some g i userId
    cases cmd with
    | outside cmd =>
        obtain ⟨result, -, hresult⟩ := Option.map_eq_some_iff.mp hexec
        cases hresult
        have hsame : Function.update g i (g i) = g := Function.update_eq_self i g
        exact hsame.symm ▸ h
    | critical op =>
        cases op with
        | remove userId =>
            obtain rfl : userId = g i := hallow
            simp only [Atomic.exec, remove_run (g i) h.length] at hexec
            cases hexec
            refine ⟨length_removeActiveSession.trans h.length, ?_, fun honce => ?_⟩
            · exact hsome 0 ▸ h.exclusive.leave rfl fun userId huser =>
                (Option.some_inj.mp huser).symm
            · exact hsome 0 ▸ (h.connected honce).leave h.exclusive rfl _
        | enter userId =>
            simp only [Atomic.exec, enter_run userId h.length] at hexec
            have hsame : answer ≠ .added → Sessions.Kept once s.1 (Function.update g i
                ((Sessions.protocol T once).next (g i) (.critical (.enter userId)) answer)) := by
              intro hanswer
              have hnote : (Sessions.protocol T once).next (g i) (.critical (.enter userId))
                  answer = g i := if_neg hanswer
              rw [hnote, Function.update_eq_self]
              exact h
            by_cases hold : userId ∈ s.1
            · rw [if_pos hold] at hexec
              cases hexec
              exact hsame nofun
            · rw [if_neg hold] at hexec
              cases hfree : replaceFirst 0 userId s.1 with
              | none =>
                  rw [hfree] at hexec
                  cases hexec
                  exact hsame nofun
              | some table =>
                  rw [hfree] at hexec
                  cases hexec
                  refine ⟨(length_replaceFirst hfree).trans h.length, ?_, fun honce => ?_⟩
                  · exact hsome userId ▸ h.exclusive.enter hold hfree
                  · exact hsome userId ▸ connected_enter (h.connected honce)
                      (congrArg some (hallow honce)) hfree

end

end BankingSystem
