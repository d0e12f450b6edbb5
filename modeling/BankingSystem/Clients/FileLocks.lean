import BankingSystem.Clients.SystemCalls
import BankingSystem.Foundation.Trace
import BankingSystem.Requests.Alone
import Mathlib.Data.Fin.VecNotation
import Mathlib.Data.Fintype.Basic

/-!
# The file lock of the scans

The scans of `utils.c` ask for a write lock on the whole file through a descriptor that
they have opened for reading.  `fcntl` refuses it and nobody looks at the result.
-/

namespace BankingSystem

open Foundation Posix

variable {M : Type}

namespace Sys

/-- What `login_user` makes of the record with the user name, inside its loop. -/
def checkLogin (env : Env) (fuel : Nat) (password : Bytes) :
    Option (Nat × UserRec) → Prog (Sys M) LoginResult
  | none => return .failed
  | some (_, user) =>
      if verifyPassword env password user.passwordHash.text then do
        let acc ← readAccount fuel user.userId
        if user.active = .inactive ∨ acc.any (fun acc => acc.active = .inactive) then
          return .deactivated
        else return .success ⟨user.userId, roleString user.role, user.firstName.text⟩
      else return .failed

def loginUser (env : Env) (fuel : Nat) (username password : Bytes) :
    Prog (Sys M) LoginResult := do
  match ← openFile .users .readOnly false false with
  | none => return .failed
  | some fd =>
      let _ ← lockFile fd
      let user ← readUntil (f := .users) (fun user => user.username.text = cstr username) fuel fd
      let found ← checkLogin env fuel password user
      let _ ← unlockFile fd
      close fd
      return found

private theorem checkLogin_ends [Amount M] (env : Env) (password : Bytes) (user : UserRec)
    (pos : Nat) (db : Database M) {fuel : Nat} (hfuel : (db.disk.content .accounts).length < fuel) :
    Ends (checkLogin env fuel password (some (pos, user))) db.disk
      (user.loginResult env password (Table.lookup AccountRec.userId user.userId
        db.accountTable)) db.disk := by
  unfold UserRec.loginResult
  by_cases hverify : verifyPassword env password user.passwordHash.text
  · simp only [checkLogin, hverify, if_true]
    refine .bind (readRecord_ends (f := .accounts) (fun tmp => tmp.userId = user.userId) hfuel) ?_
    change Ends (if user.active = .inactive ∨ (Table.lookup AccountRec.userId user.userId
      db.accountTable).any (fun acc => acc.active = .inactive) then _ else _) _ _ _
    split <;> exact .ret
  · simp only [checkLogin, hverify]
    exact .ret

theorem loginUser_ends [Amount M] (env : Env) (username password : Bytes) (db : Database M)
    {fuel : Nat} (hfuel : db.fuel ≤ fuel) :
    Ends (loginUser env fuel username password) db.disk
      ((BankingSystem.loginUser env username password).run Db.exec db).1 db.disk := by
  have hlt : ∀ f, (db.disk.content f).length < fuel :=
    fun f => Nat.lt_of_lt_of_le (db.length_content_lt f) hfuel
  rw [loginUser_exec, Database.userTable]
  cases husers : db.users with
  | none =>
      have hmissing : db.disk.files .users = none := husers
      exact ends_call (Disk.exec_openFile_of_missing hmissing .readOnly false) .ret
  | some users =>
      have hfile : db.disk.files .users = some users := husers
      have hsnd := firstFrom_snd (fun user : UserRec => user.username.text = cstr username) 0 users
      refine ends_call (Disk.exec_openFile_of_files hfile ⟨.readOnly, false, false⟩) ?_
      refine ends_call rfl ?_
      refine .bind (readUntil_ends (f := .users) (fun user => user.username.text = cstr username)
        (List.nil_append _).symm rfl (by simp) (hlt .users)) ?_
      rw [Disk.content_of_files hfile, Option.getD_some, ← hsnd]
      have hclose : ∀ result : LoginResult, Ends (do
          let _ ← unlockFile (⟨.readOnly, false, 0⟩ : Fd DbFile.users)
          close (⟨.readOnly, false, 0⟩ : Fd DbFile.users)
          return result) db.disk result db.disk :=
        fun result => ends_call rfl (ends_call rfl .ret)
      cases firstFrom (fun user : UserRec => user.username.text = cstr username) 0 users with
      | none => exact .bind .ret (hclose .failed)
      | some found =>
          obtain ⟨pos, user⟩ := found
          have hcheck := checkLogin_ends env password user pos db (hlt .accounts)
          exact .bind hcheck (hclose _)

end Sys

/-! ## The ten scans -/

inductive Scan where
  | loginUser (username password : Bytes)
  | findUserOffset (userId : Nat)
  | findAccountOffset (userId : Nat)
  | findLoanOffset (loanId : Nat)
  | readAccount (userId : Nat)
  | readUser (userId : Nat)
  | readLoan (loanId : Nat)
  | readFeedback (fbId : Nat)
  | checkUniqueness (username email phone : Bytes) (currentUserId : Nat)
  | generateNewUserId

namespace Scan

def file : Scan → DbFile
  | .loginUser _ _ | .findUserOffset _ | .readUser _ | .checkUniqueness _ _ _ _
  | .generateNewUserId => .users
  | .findAccountOffset _ | .readAccount _ => .accounts
  | .findLoanOffset _ | .readLoan _ => .loans
  | .readFeedback _ => .feedback

def program (env : Env) (fuel : Nat) : Scan → Prog (Sys M) Unit
  | .loginUser username password => do
      let _ ← Sys.loginUser env fuel username password
  | .findUserOffset userId => do
      let _ ← Sys.findUserOffset fuel userId
  | .findAccountOffset userId => do
      let _ ← Sys.findAccountOffset fuel userId
  | .findLoanOffset loanId => do
      let _ ← Sys.findLoanOffset fuel loanId
  | .readAccount userId => do
      let _ ← Sys.readAccount fuel userId
  | .readUser userId => do
      let _ ← Sys.readUser fuel userId
  | .readLoan loanId => do
      let _ ← Sys.readLoan fuel loanId
  | .readFeedback fbId => do
      let _ ← Sys.readFeedback fuel fbId
  | .checkUniqueness username email phone currentUserId => do
      let _ ← Sys.checkUniqueness fuel username email phone currentUserId
  | .generateNewUserId => do
      let _ ← Sys.generateNewUserId

/-- `generate_new_userId` opens its file with `O_CREAT`. -/
def creates : Scan → Bool
  | .generateNewUserId => true
  | _ => false

theorem program_eq (scan : Scan) (env : Env) (fuel : Nat) :
    ∃ next : Option (Fd scan.file) → Prog (Sys M) Unit,
      scan.program env fuel =
        .call (S := Sys M) (.openFile scan.file ⟨.readOnly, false, scan.creates⟩) next ∧
      next none = .ret () ∧ ∀ fd, ∃ rest, next (some fd) =
        .call (S := Sys M) (.setLockWait scan.file fd .writeLock .all) rest := by
  cases scan <;> exact ⟨_, rfl, rfl, fun fd => ⟨_, rfl⟩⟩

end Scan

/-! ## What a scan asks of the kernel -/

/-- A thread whose descriptors are open for reading only, and which unlocks whole files. -/
def readingProtocol (M : Type) : Protocol (Sys M) Unit where
  allows _
    | .openFile _ flags => flags.access = .readOnly
    | .setLockWait _ fd kind range => fd.access = .readOnly ∧ (kind = .unlock → range = .all)
    | _ => True
  answers _
    | .openFile _ flags, fd => ∀ opened ∈ fd, opened.access = flags.access
    | _, _ => True
  next _ _ _ := ()

abbrev Reads {α : Type} (program : Prog (Sys M) α) : Prop :=
  (readingProtocol M).Follows (fun _ _ => True) () program

section Reads

variable {f : DbFile} {α : Type}

private theorem reads_answers {p : Nat} {k k' : Machine M} {call : Call DbFile (DbFile.Rec M)}
    {result : Result (DbFile.Rec M) call} (h : Posix.exec p call k = some (result, k')) :
    (readingProtocol M).answers () call result := by
  cases call with
  | openFile f flags =>
      rintro opened ⟨⟩
      rcases openFile_result h with hopened | ⟨hnone, -⟩
      · cases hopened
        rfl
      · cases hnone
  | _ => trivial

theorem reads_bind {β : Type} {program : Prog (Sys M) α} {next : α → Prog (Sys M) β}
    (h : Reads program) (hnext : ∀ value, Reads (next value)) : Reads (program >>= next) :=
  h.bind fun _ value _ => hnext value

private theorem reads_readUntil (found : f.Rec M → Bool) (fuel : Nat) (fd : Fd f) :
    Reads (Sys.readUntil found fuel fd) := by
  induction fuel generalizing fd with
  | zero => exact ⟨trivial, nofun⟩
  | succ fuel ih =>
      refine Sys.follows_bind trivial fun tmp _ => ?_
      cases tmp with
      | none => trivial
      | some tmp =>
          dsimp only
          split
          · trivial
          · exact ih _

private theorem reads_open {access : Access} {append create : Bool} (haccess : access = .readOnly)
    {next : Option (Fd f) → Prog (Sys M) α} (hnone : Reads (next none))
    (hsome : ∀ fd : Fd f, fd.access = .readOnly → Reads (next (some fd))) :
    Reads (Sys.openFile f access append create >>= next) := by
  refine Sys.follows_bind haccess fun fd hfd => ?_
  cases fd with
  | none => exact hnone
  | some fd => exact hsome fd ((hfd fd rfl).trans haccess)

private theorem reads_locked {fd : Fd f} (haccess : fd.access = .readOnly)
    {next : Bool → Prog (Sys M) α} (hnext : ∀ locked, Reads (next locked)) :
    Reads (Sys.lockFile fd >>= next) :=
  Sys.follows_bind (M := M) ⟨haccess, nofun⟩ fun locked _ => hnext locked

private theorem reads_release {fd : Fd f} (haccess : fd.access = .readOnly) (result : α) :
    Reads (M := M) (do
      let _ ← Sys.unlockFile fd
      Sys.close fd
      return result) := by
  refine Sys.follows_bind (M := M) ⟨haccess, fun _ => rfl⟩ fun _ _ => ?_
  exact Sys.follows_bind trivial fun _ _ => trivial

theorem reads_search (fuel : Nat) (found : f.Rec M → Bool) :
    Reads (Sys.search fuel f found) := by
  refine reads_open rfl trivial fun fd haccess => reads_locked haccess fun _ => ?_
  exact reads_bind (reads_readUntil found fuel fd) fun result => reads_release haccess result

private theorem reads_checkLogin (env : Env) (fuel : Nat) (password : Bytes)
    (found : Option (Nat × UserRec)) :
    Reads (M := M) (Sys.checkLogin env fuel password found) := by
  rcases found with _ | ⟨pos, user⟩
  · trivial
  · unfold Sys.checkLogin
    dsimp only
    split
    · refine reads_bind (reads_bind (reads_search fuel _) fun _ => trivial) fun acc => ?_
      split <;> trivial
    · trivial

private theorem reads_program (scan : Scan) (env : Env) (fuel : Nat) :
    Reads (M := M) (scan.program env fuel) := by
  cases scan with
  | loginUser username password =>
      refine reads_bind ?_ fun _ => trivial
      refine reads_open rfl trivial fun fd haccess => reads_locked haccess fun _ => ?_
      refine reads_bind (reads_readUntil _ fuel fd) fun user => ?_
      exact reads_bind (reads_checkLogin env fuel password user) fun result =>
        reads_release haccess result
  | generateNewUserId =>
      refine reads_bind ?_ fun _ => trivial
      refine reads_open rfl trivial fun fd haccess => reads_locked haccess fun _ => ?_
      exact Sys.follows_bind trivial fun count _ => reads_release haccess _
  | findUserOffset | findAccountOffset | findLoanOffset | readAccount | readUser | readLoan
  | readFeedback | checkUniqueness =>
      exact reads_bind (reads_bind (reads_search fuel _) fun _ => trivial) fun _ => trivial

theorem reads_ends {p : Nat} {program : Prog (Sys M) α} {k : Machine M} {value : α}
    {d : Disk DbFile (DbFile.Rec M)} (hreads : Reads program)
    (hends : Sys.Ends program k.disk value d) :
    ∃ k', Prog.Ends (Posix.exec p) program k value k' ∧ k'.disk = d ∧
      k'.foreign p = k.foreign p := by
  induction program generalizing k with
  | ret value =>
      cases hends
      exact ⟨k, .ret, rfl, rfl⟩
  | call call next ih =>
      rw [Sys.Ends, Prog.Ends, Prog.run?_call, Option.bind_eq_some_iff] at hends
      obtain ⟨⟨result, d₁⟩, hcall, hrest⟩ := hends
      have hfree : ∀ f fd range, call = .setLockWait f fd .writeLock range →
          fd.access = .readOnly ∨ k.conflicts p f range = false := by
        rintro f fd range rfl
        exact .inl hreads.1.1
      obtain ⟨k₁, hexec, rfl, hforeign⟩ := Kernel.exec_of_disk (p := p) hfree hcall
      have hnext := hreads.2 result (reads_answers hexec)
      obtain ⟨k', hends', hdisk, hforeign'⟩ := ih result hnext hrest
      exact ⟨k', .call hexec hends', hdisk, hforeign'.trans hforeign⟩

end Reads

/-! ## The lock that is not there -/

def asksForLock (f : DbFile) (action : Action (Sys M) (Machine M)) : Bool :=
  match action.cmd with
  | .setLockWait f' _ .writeLock range => f' = f ∧ range = .all
  | _ => false

def releasesLock (f : DbFile) (action : Action (Sys M) (Machine M)) : Bool :=
  match action.cmd with
  | .setLockWait f' _ .unlock range => f' = f ∧ range = .all
  | _ => false

/-- The thread has asked for the lock on the whole file and not yet for its release. -/
def scanning (f : DbFile) (actions : List (Action (Sys M) (Machine M))) : Bool :=
  actions.any (asksForLock f) && !actions.any (releasesLock f)

def Scan.Misses (scan : Scan) (opened : Action (Sys M) (Machine M)) : Prop :=
  scan.creates = false ∧ opened.before.files scan.file = none

private theorem Scan.path_cases {scan : Scan} {env : Env} {fuel p : Nat}
    {actions : List (Action (Sys M) (Machine M))}
    (hpath : (scan.program env fuel).Path (Posix.exec p) actions) :
    actions.any (asksForLock scan.file) = false ∧ actions.length < 2 ∨
    ∃ opened locked rest, actions = opened :: locked :: rest ∧ ¬ scan.Misses opened ∧
      scanning scan.file [opened, locked] = true := by
  obtain ⟨next, hprogram, hnone, hsome⟩ := scan.program_eq (M := M) env fuel
  rw [hprogram] at hpath
  cases actions with
  | nil => exact .inl ⟨rfl, Nat.zero_lt_two⟩
  | cons opened actions =>
      obtain ⟨before, answer, after, rfl, hexec, hrest⟩ := hpath
      cases actions with
      | nil => exact .inl ⟨rfl, Nat.one_lt_two⟩
      | cons locked rest =>
          cases answer with
          | none =>
              rw [hnone] at hrest
              exact hrest.elim
          | some fd =>
              obtain ⟨rest', hnext⟩ := hsome fd
              rw [hnext] at hrest
              obtain ⟨before', answer', after', rfl, -, -⟩ := hrest
              refine .inr ⟨_, _, rest, rfl, ?_, by simp [scanning, asksForLock, releasesLock]⟩
              rintro ⟨hcreate, hmissing⟩
              rw [Posix.exec, hmissing] at hexec
              simp [hcreate] at hexec

private theorem Scan.misses_of_traces {scan : Scan} {env : Env} {fuel p : Nat}
    {actions : List (Action (Sys M) (Machine M))}
    (htraces : (scan.program env fuel).Traces (Posix.exec p) actions ())
    (hshort : actions.length < 2) :
    ∃ opened rest, actions = opened :: rest ∧ scan.Misses opened := by
  obtain ⟨next, hprogram, -, hsome⟩ := scan.program_eq (M := M) env fuel
  rw [hprogram] at htraces
  obtain ⟨before, answer, after, rest, rfl, hexec, hrest⟩ := htraces
  refine ⟨_, rest, rfl, ?_⟩
  cases answer with
  | some fd =>
      obtain ⟨rest', hnext⟩ := hsome fd
      rw [hnext] at hrest
      obtain ⟨_, _, _, last, rfl, -⟩ := hrest
      simp only [List.length_cons] at hshort
      omega
  | none =>
      rw [Posix.exec] at hexec
      cases hfile : before.files scan.file with
      | some records =>
          rw [hfile] at hexec
          simp at hexec
      | none =>
          rw [hfile] at hexec
          refine ⟨?_, hfile⟩
          by_contra hcreate
          rw [if_pos (by simpa using hcreate)] at hexec
          simp at hexec

section Runs

variable {ι : Type} [DecidableEq ι] {proc : ι → Nat} {t : ι}
  {pool pool' : Pool (Sys M) (Machine M) ι Unit} {schedule : List ι}

/-- In every state of the run in which the thread scans, its process has the file locked. -/
def HoldsFileLock (proc : ι → Nat) (t : ι) (f : DbFile) (schedule : List ι)
    (pool : Pool (Sys M) (Machine M) ι Unit) : Prop :=
  ∀ first second middle, schedule = first ++ second →
    Pool.run (Posix.semantics proc) first pool = some middle →
    scanning f (Pool.own (Posix.semantics proc) t first pool) = true →
    (⟨proc t, f, .all⟩ : Lock DbFile Nat) ∈ middle.state.locks

/-- A process whose only thread opens files for reading never gets a lock. -/
private theorem reads_run (hreads : Reads (pool.threads t)) (hproc : ∀ i, i ≠ t → proc i ≠ proc t)
    (hrun : Pool.run (Posix.semantics proc) schedule pool = some pool') :
    ∀ lock ∈ pool'.state.locks, lock.owner = proc t → lock ∈ pool.state.locks := by
  have hboth : Reads (pool'.threads t) ∧
      ∀ lock ∈ pool'.state.locks, lock.owner = proc t → lock ∈ pool.state.locks := by
    refine Pool.run_invariant (Q := fun _ _ => True) (I := fun pool' =>
      Reads (pool'.threads t) ∧
        ∀ lock ∈ pool'.state.locks, lock.owner = proc t → lock ∈ pool.state.locks)
      ?_ ⟨hreads, fun lock hmem _ => hmem⟩
      (Pool.along_of_always (fun _ _ => trivial) schedule pool) hrun
    rintro middle i pool' ⟨hreads, hlocks⟩ - hstep
    obtain ⟨call, next, result, k, hthread, hexec, rfl⟩ := Pool.step_eq_some_iff.mp hstep
    by_cases hi : i = t
    · subst hi
      rw [hthread] at hreads
      refine ⟨?_, fun lock hmem howner => ?_⟩
      · show Reads (Function.update middle.threads i (next result) i)
        rw [Function.update_self]
        exact hreads.2 result (reads_answers hexec)
      · rcases mem_locks_exec hexec hmem with
          hold | ⟨-, f, fd, range, ⟨rfl, haccess⟩ | ⟨rfl, old, -, hrest⟩⟩
        · exact hlocks lock hold howner
        · exact absurd hreads.1.1 haccess
        · rw [hreads.1.2 rfl, Range.minus_all] at hrest
          cases hrest
    · refine ⟨?_, fun lock hmem howner => ?_⟩
      · show Reads (Function.update middle.threads i (next result) t)
        rwa [Function.update_of_ne (Ne.symm hi)]
      · rcases mem_locks_exec hexec hmem with hold | ⟨hother, -⟩
        · exact hlocks lock hold howner
        · exact absurd (hother.symm.trans howner) (hproc i hi)
  exact hboth.2

/--
The scan of a single-threaded process, interleaved with any other processes.  It runs
under the lock that it asks for only where it does not come to ask: its file is missing
when it opens it, or the run ends before its second system call.
-/
theorem scans_unlocked (env : Env) (fuel : Nat) (scan : Scan) (proc : ι → Nat) (t : ι)
    (schedule : List ι) (pool pool' : Pool (Sys M) (Machine M) ι Unit)
    (hthread : pool.threads t = scan.program env fuel)
    (hproc : ∀ i, i ≠ t → proc i ≠ proc t)
    (hunlocked : (⟨proc t, scan.file, .all⟩ : Lock DbFile Nat) ∉ pool.state.locks)
    (hrun : Pool.run (Posix.semantics proc) schedule pool = some pool') :
    HoldsFileLock proc t scan.file schedule pool ↔
      (∃ opened rest, Pool.own (Posix.semantics proc) t schedule pool = opened :: rest ∧
        scan.Misses opened) ∨
      ¬ pool'.Returned t () ∧ (Pool.own (Posix.semantics proc) t schedule pool).length < 2 := by
  have hpath := Pool.own_path (t := t) hrun
  rw [hthread] at hpath
  rcases Scan.path_cases hpath with ⟨hnever, hshort⟩ | ⟨opened, locked, rest, hown, hfound, hscan⟩
  · refine iff_of_true ?_ ?_
    · rintro first second middle rfl hfirst hscan
      rw [Pool.own_append hfirst, List.any_append, Bool.or_eq_false_iff] at hnever
      rw [scanning, hnever.1] at hscan
      cases hscan
    · by_cases hret : pool'.Returned t ()
      · have htraces := Pool.own_traces hrun hret
        rw [hthread] at htraces
        exact .inl (Scan.misses_of_traces htraces hshort)
      · exact .inr ⟨hret, hshort⟩
  · refine iff_of_false (fun hholds => ?_) ?_
    · -- at the lock request itself: it is refused
      obtain ⟨first, second, middle, rfl, hfirst, hactions⟩ :=
        Pool.exists_own_prefix hrun (show _ = [opened, locked] ++ rest from hown)
      have hlocked := hholds first second middle rfl hfirst (hactions ▸ hscan)
      have hreads : Reads (pool.threads t) := by
        rw [hthread]
        exact reads_program scan env fuel
      exact hunlocked (reads_run hreads hproc hfirst _ hlocked rfl)
    · rw [hown]
      rintro (⟨opened', rest', heq, hmisses⟩ | ⟨-, hshort⟩)
      · cases heq
        exact hfound hmisses
      · simp only [List.length_cons] at hshort
        omega

end Runs

/-- A deposit looks for its account; another process deposits into it. -/
def scanBesideDeposit (accounts : Option (List (AccountRec ℚ))) :
    Pool (Sys ℚ) (Machine ℚ) (Fin 2) Unit where
  state.files
    | .accounts => accounts
    | _ => none
  state.locks := []
  state.clock _ := 1
  threads := ![(Scan.findAccountOffset 1001).program .plain 2, do
    let _ ← Sys.atomicUpdateAccount 2 1001 (depositModifier 5)]

theorem scans_unlocked_missing :
    HoldsFileLock ![7, 8] 0 .accounts [0, 1] (scanBesideDeposit none) := by
  obtain ⟨pool, hrun, -⟩ := Pool.exists_run (Posix.semantics ![7, 8]) [0, 1]
    (scanBesideDeposit none) (fun _ => ()) (by decide +kernel)
  exact (scans_unlocked .plain 2 (.findAccountOffset 1001) ![7, 8] 0 [0, 1]
    (scanBesideDeposit none) pool rfl (by decide) nofun hrun).mpr
    (.inl ⟨_, _, rfl, rfl, rfl⟩)

/-- The other process has locked the record, and the scan reads it all the same. -/
theorem scan_without_lock :
    ¬ ∀ schedule pool, Pool.run (Posix.semantics ![7, 8]) schedule
        (scanBesideDeposit (some [⟨1001, 1001, 0, .active⟩])) = some pool →
      HoldsFileLock ![7, 8] 0 .accounts schedule
        (scanBesideDeposit (some [⟨1001, 1001, 0, .active⟩])) := by
  intro h
  have hunlocked : (Pool.run (Posix.semantics ![7, 8]) (List.replicate 8 1 ++ [0, 0, 0])
      (scanBesideDeposit (some [⟨1001, 1001, 0, .active⟩]))).map (fun pool =>
        pool.state.locks) = some [⟨8, .accounts, .record 0⟩] := by
    decide +kernel
  obtain ⟨pool, hrun, hlocks⟩ := Option.map_eq_some_iff.mp hunlocked
  have hheld := h _ pool hrun _ [] pool (List.append_nil _).symm hrun (by decide +kernel)
  rw [hlocks] at hheld
  exact absurd hheld (by decide)

end BankingSystem
