import BankingSystem.Server.Dispatch

/-!
# Connections and sessions

The state of the server is the databases, the table of active sessions and the
`current_userId` of each connection.  One event is a connection that is opened or
closed, or one handled request.
-/

namespace BankingSystem

open Foundation

structure Response where
  statusCode : Nat
  message : Bytes
  deriving DecidableEq

def Response.ok (text : Bytes) : Response := ⟨0, respond text⟩

/-- The connections are named by `κ`; `none` is one that is not open. -/
structure ServerState (κ M : Type) where
  db : Database M
  activeSessions : List Nat
  currentUserId : κ → Option Nat

variable {κ M : Type}

def ServerState.init (db : Database M) : ServerState κ M where
  db := db
  activeSessions := List.replicate maxClients 0
  currentUserId _ := none

def replaceFirst (old new : Nat) : List Nat → Option (List Nat)
  | [] => none
  | entry :: entries =>
      if entry = old then some (new :: entries)
      else (replaceFirst old new entries).map (entry :: ·)

def removeActiveSession (userId : Nat) (activeSessions : List Nat) : List Nat :=
  (replaceFirst userId 0 activeSessions).getD activeSessions

namespace ServerState

variable [DecidableEq κ]

def setCurrent (s : ServerState κ M) (c : κ) (userId : Option Nat) : ServerState κ M :=
  { s with currentUserId := Function.update s.currentUserId c userId }

/-- The body of `LOGIN` once the password is verified. -/
def enter (s : ServerState κ M) (c : κ) (login : Login) : Response × ServerState κ M :=
  if login.userId ∈ s.activeSessions then
    (.ok (str "FAILURE User is already logged in elsewhere."), s)
  else
    -- the answer does not depend on whether there was a free entry
    let s := match replaceFirst 0 login.userId s.activeSessions with
      | some activeSessions => { s with activeSessions }.setCurrent c (some login.userId)
      | none => s
    (.ok (str "SUCCESS " ++ dec login.userId ++ str " " ++ login.role ++ str "|" ++
      login.firstName), s)

def logout (s : ServerState κ M) (c : κ) : ServerState κ M :=
  { s with
    activeSessions := removeActiveSession ((s.currentUserId c).getD 0) s.activeSessions
  }.setCurrent c (some 0)

end ServerState

variable [DecidableEq κ] [Amount M] [Strtod M]

def Command.handle (env : Env) (c : κ) (s : ServerState κ M) :
    Command M → Response × ServerState κ M
  | .login username password =>
      let (result, db) := (loginUser env username password).run Db.exec s.db
      let s := { s with db }
      match result with
      | .deactivated =>
          (.ok (str "FAILURE! Account is deactivated. Please contact your bank."), s)
      | .success accepted => s.enter c accepted
      | .failed => (.ok (str "FAILURE Invalid Credentials"), s)
  | .logout => (.ok (str "Logged out successfully"), s.logout c)
  | .call request =>
      let (reply, db) := request.handle env s.db
      (⟨0, reply.message⟩, { s with db })
  | .invalidPayload op => (⟨1, respond (op ++ str ": Invalid payload format.")⟩, s)
  | .unknown => (.ok (str "Unknown command"), s)

/-- One turn of the loop of `client_thread_main`. -/
def handleRequest (env : Env) (locals : Locals M) (c : κ) (raw : RawRequest)
    (s : ServerState κ M) : Response × ServerState κ M :=
  (dispatch locals raw.op.text raw.payload.text).handle env c s

inductive Event (κ M : Type) where
  | connect (c : κ)
  | request (c : κ) (locals : Locals M) (raw : RawRequest)
  | disconnect (c : κ)

/-- An event of a connection that is not in the right state has no effect. -/
def ServerState.step (env : Env) (s : ServerState κ M) : Event κ M → ServerState κ M
  | .connect c =>
      match s.currentUserId c with
      | none => s.setCurrent c (some 0)
      | some _ => s
  | .request c locals raw =>
      match s.currentUserId c with
      | none => s
      | some _ => (handleRequest env locals c raw s).2
  | .disconnect c =>
      match s.currentUserId c with
      | none => s
      | some userId =>
          let activeSessions := if userId = 0 then s.activeSessions
            else removeActiveSession userId s.activeSessions
          { s with activeSessions }.setCurrent c none

def ServerState.run (env : Env) (s : ServerState κ M) (events : List (Event κ M)) :
    ServerState κ M :=
  events.foldl (ServerState.step env) s

end BankingSystem
