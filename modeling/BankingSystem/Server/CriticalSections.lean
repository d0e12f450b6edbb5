import BankingSystem.Clients.FileLocks
import BankingSystem.Server.ClientThread
import BankingSystem.Store.Unrolled

/-!
# The threads of the server

All client threads at once.  One step is one system call of a helper, one access to
`active_sessions`, or a call that takes `db_lock` or gives it back.
-/

namespace BankingSystem

open Foundation Posix

variable {M ι : Type}

def Machine.boot (db : Database M) : Machine M := ⟨db.file, [], db.clock⟩

private theorem Machine.boot_ownedBy (db : Database M) (p : Nat) : (Machine.boot db).OwnedBy p := by
  intro lock hlock
  cases hlock

variable [Amount M] [Strtod M] (env : Env) (fuel : Nat)

/-- The same calls, one system call at a time. -/
def Services.spelledOut : Services (Sys M) M where
  loginUser := Sys.loginUser env fuel
  serve request := Sys.expand fuel (request.program env)

def serverThread (dialogue : Dialogue M) : Prog (Atomic Sessions (Sys M)) (List Response) :=
  clientThread (.spelledOut env fuel) 0 dialogue

/-- The server as it runs, with one thread for each dialogue. -/
def Server.running (db : Database M) (dialogues : ι → Dialogue M) :
    Pool (Locked Entries (Sys M)) (WithMutex ι (List Nat) (Machine M)) ι (List Response) :=
  ⟨⟨none, List.replicate maxClients 0, .boot db⟩,
    fun i => (serverThread env fuel (dialogues i)).locked Sessions.body⟩

/-- The same server with each critical section as one step. -/
def Server.atomic (db : Database M) (dialogues : ι → Dialogue M) :
    Pool (Atomic Sessions (Sys M)) (List Nat × Machine M) ι (List Response) :=
  ⟨(List.replicate maxClients 0, .boot db), fun i => serverThread env fuel (dialogues i)⟩

variable [DecidableEq ι]

abbrev Server.exec (p : Nat) : Semantics (Locked Entries (Sys M))
    (WithMutex ι (List Nat) (Machine M)) ι :=
  Locked.exec Entries.exec (Posix.semantics fun _ => p)

omit [DecidableEq ι] [Amount M] [Strtod M] in
abbrev Server.atomicExec (p : Nat) : Semantics (Atomic Sessions (Sys M))
    (List Nat × Machine M) ι :=
  Atomic.exec Entries.exec (Posix.semantics fun _ => p) Sessions.body

variable {env fuel}

private theorem Server.refined (db : Database M) (dialogues : ι → Dialogue M) :
    Refined Entries.exec Sessions.body (Server.running env fuel db dialogues)
      (Server.atomic env fuel db dialogues) :=
  .start _ _ _

/--
Whenever `db_lock` is free, the table, the files and the answers of the threads that
have ended are ones that the server reaches in which `LOGIN` checks and claims an
entry in one step and `remove_active_session` is one step; and the other way round.
-/
theorem sections_are_atomic (env : Env) (fuel p : Nat) (db : Database M)
    (dialogues : ι → Dialogue M) (table : List Nat) (machine : Machine M)
    (answers : ι → Option (List Response)) :
    (∃ schedule pool, Pool.run (Server.exec p) schedule
        (Server.running env fuel db dialogues) = some pool ∧
      pool.state = ⟨none, table, machine⟩ ∧ pool.result = answers) ↔
    ∃ schedule pool, Pool.run (Server.atomicExec p) schedule
        (Server.atomic env fuel db dialogues) = some pool ∧
      pool.state = (table, machine) ∧ pool.result = answers :=
  (Server.refined db dialogues).reaches_iff rfl table machine answers

/-! ## No deadlock -/

omit [DecidableEq ι] [Amount M] [Strtod M] in
private theorem Machine.ownedBy_exec {p : Nat} {m m' : Machine M} {c : Call DbFile (DbFile.Rec M)}
    {result : Result (DbFile.Rec M) c} (h : m.OwnedBy p)
    (hexec : Posix.exec p c m = some (result, m')) : m'.OwnedBy p := by
  intro lock hlock
  rcases mem_locks_exec hexec hlock with hold | ⟨howner, -⟩
  · exact h lock hold
  · exact howner

/-- The process asks the kernel for no lock that another one holds. -/
private theorem Server.run_ownedBy {p : Nat} {db : Database M} {dialogues : ι → Dialogue M}
    {schedule : List ι}
    {pool : Pool (Locked Entries (Sys M)) (WithMutex ι (List Nat) (Machine M)) ι (List Response)}
    (hrun : Pool.run (Server.exec p) schedule (Server.running env fuel db dialogues) =
      some pool) : pool.state.rest.OwnedBy p :=
  Locked.run_rest (fun h hexec => Machine.ownedBy_exec h hexec) (Machine.boot_ownedBy db p) hrun

/-! ### Fuel -/

namespace Sys

variable {username password : Bytes}

omit [Amount M] [Strtod M] in
private theorem loginUser_unrolled :
    Unrolled (M := M) fuel (loginUser env fuel username password) := by
  refine unrolled_call id fun fd => ?_
  cases fd with
  | none => exact .ret
  | some fd =>
      refine unrolled_call id fun _ => (readUntil_unrolled _ fuel fd).bind fun user => ?_
      have hcheck : Unrolled (M := M) fuel (checkLogin env fuel password user) := by
        cases user with
        | none => exact .ret
        | some found =>
            dsimp only [checkLogin]
            split
            · refine (readRecord_unrolled _ _).bind fun acc => ?_
              split <;> exact .ret
            · exact .ret
      exact hcheck.bind fun found => unrolled_call id fun _ => unrolled_call id fun _ => .ret

omit [Strtod M] in
private theorem expand_unrolled {α : Type} (program : Prog (Db M) α) :
    Unrolled fuel (expand fuel program) :=
  .expand program helper_unrolled

end Sys

def Server.Stalls : (Atomic Sessions (Sys M)).Cmd → Prop
  | .outside c => Sys.Stalls c
  | .critical _ => False

omit [Amount M] [Strtod M] in
private theorem beside_unrolled {α : Type} {program : Prog (Sys M) α}
    (h : Sys.Unrolled fuel program) :
    (program.beside Sessions).Avoids Server.Stalls fuel := by
  induction fuel generalizing program with
  | zero => trivial
  | succ fuel ih =>
      cases program with
      | ret value => trivial
      | call c next => exact ⟨h.1, fun result => ih (h.2 result)⟩

omit [Strtod M] in
private theorem Command.thread_unrolled (command : Command M) (current : Nat) :
    (command.thread (.spelledOut env fuel) current).Avoids Server.Stalls fuel := by
  cases command with
  | login username password =>
      refine (beside_unrolled Sys.loginUser_unrolled).bind fun result => ?_
      cases result with
      | failed | deactivated => exact .ret
      | success accepted =>
          refine .call id fun entered => ?_
          cases entered <;> exact .ret
  | logout => exact .call id fun _ => .ret
  | call request =>
      exact (beside_unrolled (Sys.expand_unrolled (request.program env))).bind fun _ => .ret
  | invalidPayload | unknown => exact .ret

private theorem serverThread_unrolled (dialogue : Dialogue M) (current : Nat) :
    (clientThread (.spelledOut env fuel) current dialogue).Avoids Server.Stalls fuel := by
  induction dialogue generalizing current with
  | hangUp =>
      rw [clientThread]
      split
      · exact .call id fun _ => .ret
      · exact .ret
  | send locals raw next ih =>
      refine (Command.thread_unrolled _ current).bind fun out => ?_
      exact (ih out.1 out.2).bind fun responses => .ret

/-- The thread's next step is one of a loop that would need more fuel. -/
def Server.OutOfFuel
    (pool : Pool (Locked Entries (Sys M)) (WithMutex ι (List Nat) (Machine M)) ι (List Response))
    (i : ι) : Prop :=
  ∃ next, pool.threads i = .call (S := Locked Entries (Sys M)) (.outside .stall) next

/-- A run has at least as many steps as a loop that runs out of fuel. -/
private theorem Server.fuel_le {p : Nat} {db : Database M} {dialogues : ι → Dialogue M}
    {schedule : List ι}
    {pool : Pool (Locked Entries (Sys M)) (WithMutex ι (List Nat) (Machine M)) ι (List Response)}
    (hrun : Pool.run (Server.exec p) schedule (Server.running env fuel db dialogues) =
      some pool) {i : ι} (hstalls : Server.OutOfFuel pool i) : fuel ≤ schedule.length := by
  obtain ⟨order, coarse, hsublist, hcoarse, hrefined⟩ := (Server.refined db dialogues).run hrun
  obtain ⟨next, hthread⟩ := hstalls
  have hstalled : ∃ rest, coarse.threads i =
      .call (S := Atomic Sessions (Sys M)) (.outside .stall) rest := by
    by_cases howner : pool.state.owner = some i
    · obtain ⟨op, left, rest, hleft, -⟩ := hrefined.held i howner
      rw [hthread] at hleft
      cases left <;> cases hleft
    · have hidle := hrefined.idle i howner
      rw [hthread] at hidle
      cases hcall : coarse.threads i with
      | ret value =>
          rw [hcall] at hidle
          cases hidle
      | call cmd rest =>
          rw [hcall] at hidle
          cases cmd with
          | critical op => cases hidle
          | outside c =>
              cases hidle
              exact ⟨rest, rfl⟩
  obtain ⟨rest, hrest⟩ := hstalled
  have havoids := Pool.run_avoids hcoarse (fun j => serverThread_unrolled (dialogues j) 0) i
  rw [hrest] at havoids
  have hle : fuel ≤ order.length := by
    by_contra hlt
    obtain ⟨n, hn⟩ := Nat.exists_eq_succ_of_ne_zero (Nat.sub_ne_zero_of_lt (Nat.lt_of_not_le hlt))
    rw [hn] at havoids
    exact havoids.1 trivial
  exact Nat.le_trans hle hsublist.length_le

/--
The thread is at an access to `active_sessions` only with `db_lock` held.  If it has
not ended it can go on, or it waits for `db_lock`, which the thread that holds it gives
back by itself; loops are unrolled, and a run with fewer steps than `fuel` does not come
to the end of one.
-/
structure Server.GoesOn (fuel p : Nat) (schedule : List ι)
    (pool : Pool (Locked Entries (Sys M)) (WithMutex ι (List Nat) (Machine M)) ι (List Response))
    (i : ι) : Prop where
  guarded : ∀ cmd next, pool.threads i = .call (S := Locked Entries (Sys M)) (.inside cmd) next →
    pool.state.owner = some i
  waits : pool.step (Server.exec p) i = none →
    (∃ responses, pool.Returned i responses) ∨
    fuel ≤ schedule.length ∧ Server.OutOfFuel pool i ∨
    ∃ j, j ≠ i ∧ pool.state.owner = some j ∧
      ∃ steps later last, Pool.run (Server.exec p) (List.replicate steps j) pool = some later ∧
        later.step (Server.exec p) i = some last

/-- In no state of any run is the server in a deadlock. -/
theorem no_deadlock (env : Env) (fuel p : Nat) (db : Database M) (dialogues : ι → Dialogue M)
    (schedule : List ι)
    (pool : Pool (Locked Entries (Sys M)) (WithMutex ι (List Nat) (Machine M)) ι (List Response))
    (hrun : Pool.run (Server.exec p) schedule (Server.running env fuel db dialogues) = some pool)
    (i : ι) : Server.GoesOn fuel p schedule pool i := by
  obtain ⟨schedule', coarse, -, -, hrefined⟩ := (Server.refined db dialogues).run hrun
  have howned := Server.run_ownedBy hrun
  refine ⟨fun cmd next hthread => hrefined.owner_of_inside hthread, fun hstuck => ?_⟩
  have hnot : pool.state.owner ≠ some i := by
    intro howner
    obtain ⟨pool', hstep, -⟩ := hrefined.step_held (Posix.semantics fun _ => p) howner
    rw [hstuck] at hstep
    cases hstep
  have hidle := hrefined.idle i hnot
  cases hthread : coarse.threads i with
  | ret value =>
      rw [hthread] at hidle
      exact .inl ⟨value, hidle⟩
  | call op next =>
      rw [hthread] at hidle
      cases op with
      | outside c =>
          rw [locked_outside] at hidle
          rw [Pool.step_of_call hidle, Option.map_eq_none_iff] at hstuck
          rcases exec_eq_none (Option.map_eq_none_iff.mp hstuck) with rfl | hwaits
          · exact .inr (.inl ⟨Server.fuel_le hrun ⟨_, hidle⟩, _, hidle⟩)
          · obtain ⟨f, fd, range, -, hconflicts⟩ := hwaits
            rw [howned.conflicts] at hconflicts
            cases hconflicts
      | critical op =>
          rw [locked_critical] at hidle
          by_cases hfree : pool.state.owner = none
          · have hstep : pool.step (Server.exec p) i = some _ :=
              Pool.step_eq_some_iff.mpr ⟨.lock, _, (), _, hidle, if_pos hfree, rfl⟩
            rw [hstuck] at hstep
            cases hstep
          · obtain ⟨j, howner⟩ := Option.ne_none_iff_exists'.mp hfree
            refine .inr (.inr ⟨j, fun hji => hnot (hji ▸ howner), howner, ?_⟩)
            obtain ⟨steps, later, hlater, hfree, hrefined'⟩ :=
              hrefined.exists_release (Posix.semantics fun _ => p) howner
            have hsame := hrefined'.idle i (by rw [hfree]; nofun)
            rw [hthread, locked_critical] at hsame
            exact ⟨steps, later, _, hlater,
              Pool.step_eq_some_iff.mpr ⟨.lock, _, (), _, hsame, if_pos hfree, rfl⟩⟩

/-! ## Sessions -/

def Server.current (p : Nat) (schedule : List ι)
    (pool : Pool (Atomic Sessions (Sys M)) (List Nat × Machine M) ι (List Response)) (i : ι) :
    Nat :=
  (Pool.own (Server.atomicExec p) i schedule pool).foldl
    (fun current action => Sessions.note current action.cmd action.answer) 0

private theorem Server.run_kept (once : Prop) {p : Nat} {db : Database M}
    {dialogues : ι → Dialogue M}
    (hdialogues : once → ∀ i, (dialogues i).LogsInOnce false) {schedule : List ι}
    {pool : Pool (Atomic Sessions (Sys M)) (List Nat × Machine M) ι (List Response)}
    (hrun : Pool.run (Server.atomicExec p) schedule (Server.atomic env fuel db dialogues) =
      some pool) :
    Protocol.Explains (fun _ => Sessions.protocol (Sys M) once)
      (fun (s : List Nat × Machine M) g => Sessions.Kept once s.1 g) (fun _ g _ => g = 0) pool
      (Server.current p schedule (Server.atomic env fuel db dialogues)) := by
  refine (Sessions.sound (Posix.semantics fun _ => p) once).run_own
    (g := fun _ => 0) ⟨Sessions.kept_init once, fun i => ?_⟩
    (Pool.along_of_always (fun _ _ _ _ _ => trivial) _ _) hrun
  exact clientThread_follows (.spelledOut env fuel) (dialogues i)
    (fun honce => hdialogues honce i) fun _ huser => absurd rfl huser

/--
The steps of the run, with each critical section as one of them and in the order in
which they began, lead to the same table, files and answers and leave every thread at
the same point; after them no user is in the table twice, the user of every connection
is in the table, and no two connections have the same user.
-/
def Server.OneSessionAUser (env : Env) (fuel p : Nat) (db : Database M)
    (dialogues : ι → Dialogue M) (schedule : List ι)
    (pool : Pool (Locked Entries (Sys M)) (WithMutex ι (List Nat) (Machine M)) ι (List Response)) :
    Prop :=
  ∃ order coarse, order.Sublist schedule ∧
    Pool.run (Server.atomicExec p) order (Server.atomic env fuel db dialogues) = some coarse ∧
    coarse.state = (pool.state.data, pool.state.rest) ∧ coarse.result = pool.result ∧
    (∀ i, pool.threads i = (coarse.threads i).locked Sessions.body) ∧
    Exclusive pool.state.data fun i =>
      some (Server.current p order (Server.atomic env fuel db dialogues) i)

/-- Whatever the clients send and however the steps of their threads interleave. -/
theorem one_session_a_user (env : Env) (fuel p : Nat) (db : Database M)
    (dialogues : ι → Dialogue M) (schedule : List ι)
    (pool : Pool (Locked Entries (Sys M)) (WithMutex ι (List Nat) (Machine M)) ι (List Response))
    (hrun : Pool.run (Server.exec p) schedule (Server.running env fuel db dialogues) = some pool)
    (hfree : pool.state.owner = none) :
    Server.OneSessionAUser env fuel p db dialogues schedule pool := by
  obtain ⟨order, coarse, hsublist, hcoarse, hrefined⟩ := (Server.refined db dialogues).run hrun
  refine ⟨order, coarse, hsublist, hcoarse, ?_, ?_, fun i => ?_, ?_⟩
  · exact Prod.ext (hrefined.free hfree).symm hrefined.rest.symm
  · exact funext fun i => (hrefined.result_eq hfree i).symm
  · exact hrefined.idle i (by rw [hfree]; exact fun h => by cases h)
  · rw [hrefined.free hfree]
    exact (Server.run_kept False False.elim hcoarse).1.exclusive

def loginAndLeave : Dialogue ℚ := .send .zero (memberLogin 0) fun _ => .hangUp

def oneMember : Database ℚ := { Database.empty fun _ => 1 with users := some [member 0] }

def twoClients : Pool (Locked Entries (Sys ℚ)) (WithMutex Bool (List Nat) (Machine ℚ)) Bool
    (List Response) :=
  Server.running .plain 200 oneMember fun _ => loginAndLeave

/-- The second one has to wait for the section of the first. -/
theorem no_deadlock_of_two : ∃ pool, Pool.run (Server.exec 0)
    (List.replicate 50 false ++ List.replicate 6 true) twoClients = some pool ∧
    pool.step (Server.exec 0) true = none ∧ Server.GoesOn 200 0
      (List.replicate 50 false ++ List.replicate 6 true) pool true := by
  have hruns : (Pool.run (Server.exec 0) (List.replicate 50 false ++ List.replicate 6 true)
      twoClients).any (fun pool => (pool.step (Server.exec 0) true).isNone) = true := by
    decide +kernel
  obtain ⟨pool, hrun, hstuck⟩ := (Option.any_eq_true _ _).mp hruns
  exact ⟨pool, hrun, Option.isNone_iff_eq_none.mp hstuck,
    no_deadlock .plain 200 0 oneMember (fun _ => loginAndLeave) _ pool hrun true⟩

/-- The second client asks while the first one is logged in. -/
def twoLogins : List Bool :=
  List.replicate 50 false ++ List.replicate 6 true ++
    List.replicate 60 false ++ List.replicate 3 true

theorem one_session_of_two : ∃ pool, Pool.run (Server.exec 0) twoLogins twoClients = some pool ∧
    pool.state.data.head? = some 1001 ∧
    Server.OneSessionAUser .plain 200 0 oneMember (fun _ : Bool => loginAndLeave) twoLogins
      pool := by
  have hruns : (Pool.run (Server.exec 0) twoLogins twoClients).any (fun pool =>
      pool.state.owner = none ∧ pool.state.data.head? = some 1001) = true := by
    decide +kernel
  obtain ⟨pool, hrun, hstate⟩ := (Option.any_eq_true _ _).mp hruns
  obtain ⟨hfree, hhead⟩ := of_decide_eq_true hstate
  exact ⟨pool, hrun, hhead,
    one_session_a_user .plain 200 0 oneMember (fun _ => loginAndLeave) twoLogins pool hrun hfree⟩

private theorem Server.free_of_returned {schedule : List ι} {p : Nat} {db : Database M}
    {dialogues : ι → Dialogue M}
    {pool : Pool (Locked Entries (Sys M)) (WithMutex ι (List Nat) (Machine M)) ι (List Response)}
    (hrun : Pool.run (Server.exec p) schedule (Server.running env fuel db dialogues) = some pool)
    (hall : pool.AllReturned) : pool.state.owner = none := by
  obtain ⟨schedule', coarse, -, -, hrefined⟩ := (Server.refined db dialogues).run hrun
  cases howner : pool.state.owner with
  | none => rfl
  | some i =>
      obtain ⟨pool', hstep, -⟩ := hrefined.step_held (Posix.semantics fun _ => p) howner
      obtain ⟨responses, hreturned⟩ := hall i
      rw [Pool.step_of_ret hreturned] at hstep
      cases hstep

/--
Once all clients have hung up the table is as it was at the start, if no client
sends `LOGIN` between a login that succeeded and the next `LOGOUT`.
-/
theorem sessions_cleared (env : Env) (fuel p : Nat) (db : Database M)
    (dialogues : ι → Dialogue M) (hdialogues : ∀ i, (dialogues i).LogsInOnce false)
    (schedule : List ι)
    (pool : Pool (Locked Entries (Sys M)) (WithMutex ι (List Nat) (Machine M)) ι (List Response))
    (hrun : Pool.run (Server.exec p) schedule (Server.running env fuel db dialogues) = some pool)
    (hall : pool.AllReturned) :
    pool.state.owner = none ∧ pool.state.data = List.replicate maxClients 0 := by
  have hfree := Server.free_of_returned hrun hall
  obtain ⟨schedule', coarse, -, hcoarse, hrefined⟩ := (Server.refined db dialogues).run hrun
  have hexplains := Server.run_kept True (fun _ => hdialogues) hcoarse
  refine ⟨hfree, ?_⟩
  rw [hrefined.free hfree]
  refine List.eq_replicate_iff.mpr ⟨hexplains.1.length, fun userId huser => ?_⟩
  by_contra hne
  obtain ⟨i, hi⟩ := hexplains.1.connected trivial userId huser hne
  obtain ⟨responses, hreturned⟩ := hall i
  have hsame := hrefined.result_eq hfree i
  rw [Pool.result, hreturned] at hsame
  have hzero := hexplains.returned (Pool.returned_of_result hsame.symm)
  exact hne ((Option.some_inj.mp hi).symm.trans hzero)

def told (i : Bool) : List Response :=
  if i then [.ok (str "FAILURE User is already logged in elsewhere.")]
  else [.ok (str "SUCCESS 1001 employee|")]

theorem sessions_cleared_of_two : ∃ pool, Pool.run (Server.exec 0)
    (twoLogins ++ List.replicate 4 false) twoClients = some pool ∧
    (∀ i, pool.Returned i (told i)) ∧ pool.state.data = List.replicate maxClients 0 := by
  obtain ⟨pool, hrun, hreturned⟩ := Pool.exists_run (Server.exec 0)
    (twoLogins ++ List.replicate 4 false) twoClients told (by decide +kernel)
  exact ⟨pool, hrun, hreturned, (sessions_cleared .plain 200 0 oneMember (fun _ => loginAndLeave)
    (fun _ => ⟨fun _ => rfl, fun _ => trivial⟩) _ pool hrun fun i => ⟨told i, hreturned i⟩).2⟩

end BankingSystem
