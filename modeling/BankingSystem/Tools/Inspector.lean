import BankingSystem.Clients.Snapshots
import BankingSystem.Tools.Bootstrap

/-!
# The database inspector

`db_inspector` is a process of its own that dumps the five files while the server may
be running.  It asks for no lock, so the server's threads go on as if it were not there,
and it shows the records as it comes across them.
-/

namespace BankingSystem

open Foundation Posix Prog

variable {M : Type}

namespace Inspector

/-! ## What it prints -/

/-- The text of `ctime` without its newline; 63 bytes of it fit the buffer. -/
def timeBuf (ctime : Time → Bytes) (t : Time) : Bytes :=
  ((cstr (ctime t)).take 63).takeWhile fun b => b ≠ 10

def printTimestamp (ctime : Time → Bytes) (t : Time) (label : Bytes) : Bytes :=
  if t = 0 then label ++ str ": (not set)\n"
  else label ++ str ": " ++ timeBuf ctime t ++ str "\n"

def getRoleStr : Role → Bytes
  | .customer => str "CUSTOMER"
  | .employee => str "EMPLOYEE"
  | .manager => str "MANAGER"
  | .admin => str "ADMIN"

def roleNumber : Role → Nat
  | .customer => 0
  | .employee => 1
  | .manager => 2
  | .admin => 3

def getLoanStatusStr : LoanStatus → Bytes
  | .pending => str "PENDING"
  | .assigned => str "ASSIGNED"
  | .approved => str "APPROVED"
  | .rejected => str "REJECTED"

def loanStatusNumber : LoanStatus → Nat
  | .pending => 0
  | .assigned => 1
  | .approved => 2
  | .rejected => 3

def statusStr (status : Status) : Bytes :=
  if status = .active then str "ACTIVE" else str "INACTIVE"

/-- One of the five dump functions: its heading, the file, and the lines of a record. -/
structure Dump (M : Type) (f : DbFile) where
  title : Bytes
  file : Bytes
  kind : Bytes
  lines : f.Rec M → Bytes

def Dump.heading {f : DbFile} (d : Dump M f) : Bytes :=
  str "\n==========================================\n" ++
    str "  DUMPING " ++ d.title ++ str " (from ./db/" ++ d.file ++ str ")\n" ++
    str "==========================================\n"

def Dump.record {f : DbFile} (d : Dump M f) (count : Nat) (r : f.Rec M) : Bytes :=
  str "\n--- " ++ d.kind ++ str " Record " ++ dec count ++ str " ---\n" ++ d.lines r

def Dump.output {f : DbFile} (d : Dump M f) : Option (List (f.Rec M)) → List (Stream × Bytes)
  | none => [(.stdout, d.heading),
      (.stderr, str "Could not open " ++ d.file ++ str ": No such file or directory\n")]
  | some records =>
      [(.stdout, d.heading ++ ((records.zipIdx 1).map fun (r, count) => d.record count r).flatten)]

section Tables

variable (ctime : Time → Bytes)

def usersDump : Dump M .users where
  title := str "USERS"
  file := str "users.db"
  kind := str "User"
  lines (user : UserRec) :=
    str "  User ID:      " ++ dec user.userId ++ str "\n" ++
    str "  Username:     " ++ user.username.text ++ str "\n" ++
    str "  Password Hash:" ++ user.passwordHash.text ++ str "\n" ++
    str "  Role:         " ++ getRoleStr user.role ++ str " (" ++ dec (roleNumber user.role) ++
      str ")\n" ++
    str "  Name:         " ++ user.firstName.text ++ str " " ++ user.lastName.text ++ str "\n" ++
    str "  Age:          " ++ dec user.age.toNat ++ str "\n" ++
    str "  Address:      " ++ user.address.text ++ str "\n" ++
    str "  Email:        " ++ user.email.text ++ str "\n" ++
    str "  Phone:        " ++ user.phone.text ++ str "\n" ++
    str "  User Status:  " ++ statusStr user.active ++ str "\n" ++
    printTimestamp ctime user.createdAt (str "  Created At")

def accountsDump [Amount M] : Dump M .accounts where
  title := str "ACCOUNTS"
  file := str "accounts.db"
  kind := str "Account"
  lines (acc : AccountRec M) :=
    str "  Account ID:   " ++ dec acc.accountId ++ str "\n" ++
    str "  User ID:      " ++ dec acc.userId ++ str "\n" ++
    str "  Balance:      " ++ Amount.fixed2 acc.balance ++ str "\n" ++
    str "  Acct Status:  " ++ statusStr acc.active ++ str "\n"

def transactionsDump [Amount M] : Dump M .transactions where
  title := str "TRANSACTIONS"
  file := str "transactions.db"
  kind := str "Transaction"
  lines (tx : TxnRec M) :=
    str "  Txn ID:       " ++ dec tx.txnId ++ str "\n" ++
    str "  From Acct:    " ++ dec tx.fromAccount ++ str "\n" ++
    str "  To Acct:      " ++ dec tx.toAccount ++ str "\n" ++
    str "  Amount:       " ++ Amount.fixed2 tx.amount ++ str "\n" ++
    str "  Narration:    " ++ tx.narration ++ str "\n" ++
    printTimestamp ctime tx.timestamp (str "  Timestamp")

/-- `apply_loan` clears the remarks of a loan, and nothing sets them. -/
def loansDump [Amount M] : Dump M .loans where
  title := str "LOANS"
  file := str "loans.db"
  kind := str "Loan"
  lines (loan : LoanRec M) :=
    str "  Loan ID:      " ++ dec loan.loanId ++ str "\n" ++
    str "  User ID:      " ++ dec loan.userId ++ str "\n" ++
    str "  Amount:       " ++ Amount.fixed2 loan.amount ++ str "\n" ++
    str "  Status:       " ++ getLoanStatusStr loan.status ++ str " (" ++
      dec (loanStatusNumber loan.status) ++ str ")\n" ++
    str "  Assigned To:  " ++ dec loan.assignedTo ++ str "\n" ++
    str "  Remarks:      \n" ++
    printTimestamp ctime loan.appliedAt (str "  Applied At") ++
    printTimestamp ctime loan.processedAt (str "  Processed At")

def feedbackDump : Dump M .feedback where
  title := str "FEEDBACK"
  file := str "feedback.db"
  kind := str "Feedback"
  lines (fb : FeedbackRec) :=
    str "  Feedback ID:  " ++ dec fb.fbId ++ str "\n" ++
    str "  User ID:      " ++ dec fb.userId ++ str "\n" ++
    str "  Reviewed:     " ++ (if fb.reviewed ≠ 0 then str "YES" else str "NO") ++ str "\n" ++
    str "  Message:      " ++ fb.message.text ++ str "\n" ++
    str "  Action Taken: " ++ fb.actionTaken.text ++ str "\n" ++
    printTimestamp ctime fb.submittedAt (str "  Submitted At")

end Tables

structure Output where
  status : Nat
  printed : List (Stream × Bytes)

def report [Amount M] (ctime : Time → Bytes) (seen : (f : DbFile) → Option (List (f.Rec M))) :
    Output where
  status := 0
  printed :=
    [(.stdout, str "--- [Database Inspector Utility] ---\n")] ++
    (usersDump ctime).output (seen .users) ++ accountsDump.output (seen .accounts) ++
    (transactionsDump ctime).output (seen .transactions) ++
    (loansDump ctime).output (seen .loans) ++ (feedbackDump ctime).output (seen .feedback) ++
    [(.stdout, str "\n--- [Inspection Complete] ---\n")]

/-! ## The program -/

/-- Open, read to the end, close; nothing is locked. -/
def readTable (fuel : Nat) (f : DbFile) : Prog (Sys M) (Option (List (f.Rec M))) := do
  match ← Sys.openFile f .readOnly false false with
  | none => return none
  | some fd =>
      let records ← Sys.readAll fuel fd
      Sys.close fd
      return some records

def printTable {f : DbFile} (fuel : Nat) (d : Dump M f) :
    Prog (Sys M) (List (Stream × Bytes)) := do
  let records ← readTable fuel f
  return d.output records

section Program

variable [Amount M] (ctime : Time → Bytes) (fuel : Nat)

def printUsers : Prog (Sys M) (List (Stream × Bytes)) := printTable fuel (usersDump ctime)

def printAccounts : Prog (Sys M) (List (Stream × Bytes)) := printTable fuel accountsDump

def printTransactions : Prog (Sys M) (List (Stream × Bytes)) :=
  printTable fuel (transactionsDump ctime)

def printLoans : Prog (Sys M) (List (Stream × Bytes)) := printTable fuel (loansDump ctime)

def printFeedback : Prog (Sys M) (List (Stream × Bytes)) := printTable fuel (feedbackDump ctime)

/-- `dirExists` is what `access` finds. -/
def main (dirExists : Bool) : Prog (Sys M) Output := do
  let title : Stream × Bytes := (.stdout, str "--- [Database Inspector Utility] ---\n")
  if dirExists = false then
    return ⟨1, [title,
      (.stderr, str "Error: DB directory './db' not found.\n"),
      (.stderr, str "Are you running this from your project's root directory?\n")]⟩
  let users ← printUsers ctime fuel
  let accounts ← printAccounts fuel
  let transactions ← printTransactions ctime fuel
  let loans ← printLoans ctime fuel
  let feedback ← printFeedback ctime fuel
  return ⟨0, [title] ++ users ++ accounts ++ transactions ++ loans ++ feedback ++
    [(.stdout, str "\n--- [Inspection Complete] ---\n")]⟩

end Program

/-! ## It changes nothing -/

/-- The calls of the program: it creates no file and asks for no lock. -/
def Inspects : Call DbFile (DbFile.Rec M) → Prop
  | .openFile _ flags => flags.create = false
  | .read _ _ | .close _ _ | .stall => True
  | _ => False

private theorem inspects_readAll {f : DbFile} (fuel : Nat) (fd : Fd f) :
    (Sys.readAll fuel fd : Prog (Sys M) _).Only (S := Sys M) Inspects := by
  induction fuel generalizing fd with
  | zero => exact ⟨trivial, fun answer => Empty.elim answer⟩
  | succ fuel ih =>
      refine ⟨trivial, fun tmp => ?_⟩
      cases tmp with
      | none => trivial
      | some tmp => exact (ih _).bind fun _ => trivial

private theorem inspects_printTable {f : DbFile} (fuel : Nat) (d : Dump M f) :
    (printTable fuel d).Only (S := Sys M) Inspects := by
  refine Only.bind ⟨rfl, fun fd => ?_⟩ fun _ => trivial
  cases fd with
  | none => trivial
  | some fd => exact (inspects_readAll fuel fd).bind fun _ => ⟨trivial, fun _ => trivial⟩

private theorem inspects_main [Amount M] (ctime : Time → Bytes) (fuel : Nat) (dirExists : Bool) :
    (main ctime fuel dirExists : Prog (Sys M) Output).Only (S := Sys M) Inspects := by
  cases dirExists with
  | false => trivial
  | true =>
      refine (inspects_printTable fuel _).bind fun _ => ?_
      refine (inspects_printTable fuel _).bind fun _ => ?_
      refine (inspects_printTable fuel _).bind fun _ => ?_
      refine (inspects_printTable fuel _).bind fun _ => ?_
      exact (inspects_printTable fuel _).bind fun _ => trivial

section Calls

variable {k k' : Machine M} {p inspector : Nat} {call : Call DbFile (DbFile.Rec M)}
  {result : Result (DbFile.Rec M) call}

def NoLocks (inspector : Nat) (k : Machine M) : Prop :=
  ∀ lock ∈ k.locks, lock.owner ≠ inspector

private theorem inspects_quiet (hcall : Inspects call) (hlocks : NoLocks inspector k)
    (h : Posix.exec inspector call k = some (result, k')) : k' = k := by
  cases call with
  | openFile f flags =>
      simp only [Inspects] at hcall
      simp only [Posix.exec] at h
      split at h
      · simp only [Option.some_inj, Prod.mk.injEq] at h
        exact h.2.symm
      · simp only [hcall, Bool.false_eq_true, if_false, Option.some_inj, Prod.mk.injEq] at h
        exact h.2.symm
  | read f fd =>
      simp only [Posix.exec] at h
      split at h <;>
        · simp only [Option.some_inj, Prod.mk.injEq] at h
          exact h.2.symm
  | close f fd =>
      simp only [Posix.exec, Option.some_inj, Prod.mk.injEq] at h
      have hkept : k.locks.filter (fun lock => ¬(lock.file = f ∧ lock.owner = inspector)) =
          k.locks := by
        refine List.filter_eq_self.mpr fun lock hmem => ?_
        simp [hlocks lock hmem]
      rw [← h.2, Kernel.dropLocks, hkept]
  | stall => cases h
  | setLockWait | write | seekEnd | time => exact hcall.elim

private theorem noLocks_exec (hp : p ≠ inspector) (hlocks : NoLocks inspector k)
    (h : Posix.exec p call k = some (result, k')) : NoLocks inspector k' := by
  intro lock hmem
  rcases mem_locks_exec h hmem with hold | ⟨howner, -⟩
  · exact hlocks lock hold
  · rwa [howner]

private theorem inspects_answered (hcall : Inspects call) (hstall : call ≠ .stall) :
    Posix.exec p call k ≠ none := by
  intro hnone
  rcases exec_eq_none hnone with rfl | ⟨f, fd, range, rfl, -⟩
  · exact hstall rfl
  · exact hcall

end Calls

end Inspector

def processes {ι : Type} (proc : ι → Nat) (inspector : Nat) : Option ι → Nat
  | none => inspector
  | some i => proc i

/--
Any threads of other processes and the inspector, interleaved system call by system call.
Without the inspector's steps the schedule is a run of those threads alone, which ends with
the same files, locks and clock and with every thread at the same point; and the
inspector never waits for them.
-/
theorem inspector_invisible {ι α : Type} [DecidableEq ι] [Amount M] (ctime : Time → Bytes)
    (fuel : Nat) (dirExists : Bool) (proc : ι → Nat) (inspector : Nat)
    (hproc : ∀ i, proc i ≠ inspector) (pool : Pool (Sys M) (Machine M) ι α)
    (hlocks : ∀ lock ∈ pool.state.locks, lock.owner ≠ inspector)
    (schedule : List (Option ι))
    (after : Pool (Sys M) (Machine M) (Option ι) (α ⊕ Inspector.Output))
    (hrun : Pool.run (Posix.semantics (processes proc inspector)) schedule
      (pool.beside (Inspector.main ctime fuel dirExists)) = some after) :
    (∃ pool', Pool.run (Posix.semantics proc) schedule.reduceOption pool = some pool' ∧
      after.state = pool'.state ∧ ∀ i, after.threads (some i) = .inl <$> pool'.threads i) ∧
    ∀ call next, after.threads none = .call call next → call ≠ .stall →
      after.step (Posix.semantics (processes proc inspector)) none ≠ none := by
  obtain ⟨pool', extra, hrun', rfl, hextra, hlocks'⟩ := Pool.run_beside
    (P := Inspector.Inspects) (I := Inspector.NoLocks inspector)
    (fun hcall hlocks h => Inspector.inspects_quiet hcall hlocks h)
    (fun {i} _ _ _ _ hlocks h => Inspector.noLocks_exec (hproc i) hlocks h)
    (Inspector.inspects_main ctime fuel dirExists) hlocks hrun
  refine ⟨⟨pool', hrun', rfl, fun i => rfl⟩, fun call next hthread hstall => ?_⟩
  obtain ⟨next', rfl, rfl⟩ := Prog.map_eq_call hthread
  rw [Pool.step_of_call hthread, ne_eq, Option.map_eq_none_iff]
  exact Inspector.inspects_answered hextra.1 hstall

def depositAlone : Pool (Sys ℚ) (Machine ℚ) Unit (List Reply) where
  state.files
    | .accounts => some [(⟨1001, 1001, 3, .active⟩ : AccountRec ℚ)]
    | .transactions => some []
    | _ => none
  state.locks := []
  state.clock _ := 1
  threads _ := Sys.expand 2 (Request.session .plain [.deposit 1001 5])

/-- The deposit comes when the inspector has opened the log. -/
def amidInspection : List (Option Unit) :=
  List.replicate 6 none ++ List.replicate 18 (some ()) ++ List.replicate 5 none

theorem inspector_invisible_deposit :
    ∃ after pool', Pool.run (Posix.semantics (processes (fun _ => 7) 8)) amidInspection
        (depositAlone.beside (Inspector.main (fun _ => []) 3 true)) = some after ∧
      Pool.run (Posix.semantics fun _ => 7) (List.replicate 18 ()) depositAlone = some pool' ∧
      after.state = pool'.state := by
  have hruns : (Pool.run (Posix.semantics (processes (fun _ => 7) 8)) amidInspection
      (depositAlone.beside (Inspector.main (fun _ => []) 3 true))).isSome = true := by
    decide +kernel
  obtain ⟨after, hrun⟩ := Option.isSome_iff_exists.mp hruns
  obtain ⟨⟨pool', hrun', hstate, -⟩, -⟩ := inspector_invisible (fun _ => []) 3 true (fun _ => 7) 8
    (fun _ => by decide) depositAlone (List.forall_mem_nil _) amidInspection after hrun
  exact ⟨after, pool', hrun, hrun', hstate⟩

/-! ## What it shows -/

def Opens (f : DbFile) (action : Action (Sys M) (Machine M)) : Prop :=
  action.cmd = .openFile f ⟨.readOnly, false, false⟩

/--
The calls of one dump and its list.  The file was missing when it was opened, or every
record was at its place when it was read and the file had no more when the reading ended.
-/
inductive Shown (f : DbFile) : Calls M → Option (List (f.Rec M)) → Prop
  | missing {opened} (hopened : Opens f opened) (hmissing : opened.before.files f = none) :
      Shown f [opened] none
  | read {opened reads last closed records} (hopened : Opens f opened)
      (hfound : opened.before.files f ≠ none) (hreading : Sys.Reading f 0 reads records)
      (hlast : reads.getLast? = some last)
      (hlength : (last.before.content f).length = records.length) :
      Shown f (opened :: (reads ++ [closed])) (some records)

namespace Inspector

variable {f : DbFile} {p fuel : Nat} {actions : Calls M}

private theorem content_of_grows {r : List (f.Rec M) → List (f.Rec M) → Prop}
    (hnil : ∀ new, r [] new)
    {k k' : Machine M} (h : k.Grows f r k') : r (k.content f) (k'.content f) := by
  cases hfile : k.files f with
  | none =>
      rw [show k.content f = [] by simp [Kernel.content, hfile]]
      exact hnil _
  | some records =>
      obtain ⟨records', hfile', hr⟩ := h records hfile
      simpa [Kernel.content, hfile, hfile'] using hr

/-- A file that cannot be opened is missing; the others are read to their end. -/
private theorem readTable_cases {result : Option (List (f.Rec M))}
    (h : (readTable fuel f).Traces (Posix.exec p) actions result) :
    ∃ opened rest, actions = opened :: rest ∧ Opens f opened ∧
      (rest = [] ∧ result = none ∧ opened.before.files f = none ∨
      ∃ found records reads closed, result = some records ∧
        opened.before.files f = some found ∧ rest = reads ++ [closed] ∧
        Sys.Reading f 0 reads records) := by
  obtain ⟨before, fd, after, rest, rfl, hopen, hrest⟩ := h
  refine ⟨_, rest, rfl, rfl, ?_⟩
  simp only [Posix.exec] at hopen
  cases hfile : before.files f with
  | none =>
      simp only [hfile, Bool.false_eq_true, if_false, Option.some_inj, Prod.mk.injEq] at hopen
      obtain ⟨rfl, -⟩ := hopen
      obtain ⟨rfl, rfl⟩ := hrest
      exact .inl ⟨rfl, rfl, rfl⟩
  | some found =>
      simp only [hfile, Option.some_inj, Prod.mk.injEq] at hopen
      obtain ⟨rfl, -⟩ := hopen
      change (Sys.readAll fuel _ >>= _).Traces _ _ _ at hrest
      obtain ⟨reads, last, records, rfl, hreads, hlast⟩ := hrest.of_bind
      obtain ⟨_, _, _, _, rfl, -, rfl, rfl⟩ := hlast
      exact .inr ⟨found, records, reads, _, rfl, rfl, rfl,
        Sys.reading_of_readAll ⟨.readOnly, false, 0⟩ readOnly_reads hreads⟩

private theorem shown_of_readTable {result : Option (List (f.Rec M))}
    (hordered : actions.Pairwise fun first second =>
      (first.before.content f).length ≤ (second.before.content f).length)
    (h : (readTable fuel f).Traces (Posix.exec p) actions result) : Shown f actions result := by
  obtain ⟨opened, rest, rfl, hopened, ⟨rfl, rfl, hfile⟩ |
    ⟨found, records, reads, closed, rfl, hfound, rfl, hreading⟩⟩ := readTable_cases h
  · exact .missing hopened hfile
  · obtain ⟨-, hrest⟩ := List.pairwise_cons.mp hordered
    obtain ⟨last, hlast, hlength⟩ := hreading.length
      (List.pairwise_append.mp hrest).1 fun _ _ => Nat.zero_le _
    rw [Nat.zero_add] at hlength
    exact .read hopened (hfound ▸ Option.some_ne_none found) hreading hlast hlength

private theorem snapshot_of_readTable {result : Option (List (TxnRec M))}
    (hordered : Sys.LogOrdered actions)
    (h : (readTable fuel .transactions).Traces (Posix.exec p) actions result) :
    ∃ action ∈ actions, result = action.before.files .transactions := by
  obtain ⟨opened, rest, rfl, -, ⟨-, rfl, hfile⟩ |
    ⟨found, records, reads, closed, rfl, hfound, rfl, hreading⟩⟩ := readTable_cases h
  · exact ⟨opened, List.mem_cons_self, hfile.symm⟩
  · obtain ⟨hopened, hrest⟩ := List.pairwise_cons.mp hordered
    have hkept := (List.pairwise_append.mp hrest).1.imp
      (content_of_grows (f := .transactions) fun _ => List.nil_prefix)
    obtain ⟨action, haction, hrecords⟩ := hreading.snapshot hkept
    have hmem : action ∈ reads ++ [closed] := List.mem_append_left _ haction
    obtain ⟨log, hlog, -⟩ := hopened action hmem found hfound
    refine ⟨action, List.mem_cons_of_mem _ hmem, ?_⟩
    rw [hlog, hrecords, List.drop_zero]
    simp [Kernel.content, hlog]

/-- The calls find files that do not shrink and a log that is only appended to. -/
structure Ordered (actions : Calls M) : Prop where
  lengths : ∀ f : DbFile, actions.Pairwise fun first second =>
    (first.before.content f).length ≤ (second.before.content f).length
  log : Sys.LogOrdered actions

theorem Ordered.left {first second : Calls M} (h : Ordered (first ++ second)) :
    Ordered first :=
  ⟨fun f => (List.pairwise_append.mp (h.lengths f)).1, (List.pairwise_append.mp h.log).1⟩

theorem Ordered.right {first second : Calls M} (h : Ordered (first ++ second)) :
    Ordered second :=
  ⟨fun f => (List.pairwise_append.mp (h.lengths f)).2.1, (List.pairwise_append.mp h.log).2.1⟩

private theorem printTable_traces {d : Dump M f} {printed : List (Stream × Bytes)}
    (h : (printTable fuel d).Traces (Posix.exec p) actions printed) :
    ∃ result, (readTable fuel f).Traces (Posix.exec p) actions result ∧
      printed = d.output result := by
  obtain ⟨first, second, result, rfl, hfirst, rfl, rfl⟩ := h.of_bind
  rw [List.append_nil]
  exact ⟨result, hfirst, rfl⟩

/-- The calls of a run of the program, one dump after the other, and what it prints. -/
structure Reports [Amount M] (ctime : Time → Bytes) (output : Output) (actions : Calls M)
    (parts : DbFile → Calls M) (seen : (f : DbFile) → Option (List (f.Rec M))) : Prop where
  output : output = report ctime seen
  calls : actions = parts .users ++ (parts .accounts ++ (parts .transactions ++
    (parts .loans ++ parts .feedback)))
  shown : ∀ f, Shown f (parts f) (seen f)
  log : ∃ action ∈ parts .transactions, seen .transactions = action.before.files .transactions

private theorem report_of_main [Amount M] {ctime : Time → Bytes} {output : Output}
    (hordered : Ordered actions) (h : (main ctime fuel true).Traces (Posix.exec p) actions output) :
    ∃ parts seen, Reports ctime output actions parts seen := by
  change (printUsers ctime fuel >>= _).Traces _ _ _ at h
  obtain ⟨first, rest, _, rfl, hfirst, h⟩ := h.of_bind
  obtain ⟨second, rest, _, rfl, hsecond, h⟩ := h.of_bind
  obtain ⟨third, rest, _, rfl, hthird, h⟩ := h.of_bind
  obtain ⟨fourth, rest, _, rfl, hfourth, h⟩ := h.of_bind
  obtain ⟨fifth, rest, _, rfl, hfifth, rfl, rfl⟩ := h.of_bind
  obtain ⟨users, husers, rfl⟩ := printTable_traces hfirst
  obtain ⟨accounts, haccounts, rfl⟩ := printTable_traces hsecond
  obtain ⟨transactions, htransactions, rfl⟩ := printTable_traces hthird
  obtain ⟨loans, hloans, rfl⟩ := printTable_traces hfourth
  obtain ⟨feedback, hfeedback, rfl⟩ := printTable_traces hfifth
  rw [List.append_nil] at hordered ⊢
  have hrest := hordered.right
  have hrest₂ := hrest.right
  have hrest₃ := hrest₂.right
  refine ⟨DbFile.rec (motive := fun _ => Calls M) first second third fourth fifth,
    DbFile.rec (motive := fun f => Option (List (f.Rec M))) users accounts transactions
      loans feedback, rfl, rfl, fun f => ?_, snapshot_of_readTable hrest₂.left.log htransactions⟩
  cases f with
  | users => exact shown_of_readTable (hordered.left.lengths _) husers
  | accounts => exact shown_of_readTable (hrest.left.lengths _) haccounts
  | transactions => exact shown_of_readTable (hrest₂.left.lengths _) htransactions
  | loans => exact shown_of_readTable (hrest₃.left.lengths _) hloans
  | feedback => exact shown_of_readTable (hrest₃.right.lengths _) hfeedback

private theorem keepsLog_main [Amount M] (ctime : Time → Bytes) (dirExists : Bool) :
    KeepsLog (main ctime fuel dirExists : Prog (Sys M) Output) := by
  have htable : ∀ {f : DbFile} (d : Dump M f), KeepsLog (printTable fuel d) := by
    intro f d
    refine KeepsLog.bind (Sys.follows_bind trivial fun fd hfd => ?_) fun _ => trivial
    obtain rfl | ⟨rfl, -⟩ := hfd
    · exact KeepsLog.bind (KeepsLog.readAll fuel _ readOnly_reads) fun _ =>
        KeepsLog.quiet trivial fun _ => trivial
    · trivial
  cases dirExists with
  | false => trivial
  | true =>
      exact (htable _).bind fun _ => (htable _).bind fun _ => (htable _).bind fun _ =>
        (htable _).bind fun _ => (htable _).bind fun _ => trivial

end Inspector

/--
Any sessions of any requests and the inspector, interleaved system call by system call.
If it returns, its calls are five dumps, and what it prints are their lists: a file was
missing when it was opened, or each record was at its place when it was read and there were
no more when the reading ended.  Of the transactions it shows what the log held at one
moment.
-/
theorem inspector_reports {ι : Type} [DecidableEq ι] [Amount M] (env : Env)
    (ctime : Time → Bytes) (fuel : Nat) (proc fuels : ι → Nat) (inspector : Nat)
    (requests : ι → List (Request M)) (k : Machine M) (schedule : List (Option ι))
    (after : Pool (Sys M) (Machine M) (Option ι) (List Reply ⊕ Inspector.Output))
    (hrun : Pool.run (Posix.semantics (processes proc inspector)) schedule
      ((⟨k, fun i => Sys.expand (fuels i) (Request.session env (requests i))⟩ :
        Pool (Sys M) (Machine M) ι (List Reply)).beside (Inspector.main ctime fuel true)) =
      some after)
    (output : Inspector.Output) (hret : after.Returned none (.inr output)) :
    let actions := Pool.own (Posix.semantics (processes proc inspector)) none schedule
      ((⟨k, fun i => Sys.expand (fuels i) (Request.session env (requests i))⟩ :
        Pool (Sys M) (Machine M) ι (List Reply)).beside (Inspector.main ctime fuel true))
    ∃ parts seen, Inspector.Reports ctime output actions parts seen := by
  intro actions
  have hthreads : ∀ i, KeepsLog (((⟨k, fun i => Sys.expand (fuels i)
      (Request.session env (requests i))⟩ : Pool (Sys M) (Machine M) ι (List Reply)).beside
        (Inspector.main ctime fuel true)).threads i) := by
    rintro (_ | i)
    · exact (Inspector.keepsLog_main ctime true).bind fun _ => trivial
    · exact (KeepsLog.expand (fuels i) _).bind fun _ => trivial
  have hlengths : ∀ f : DbFile, actions.Pairwise fun first second =>
      (first.before.content f).length ≤ (second.before.content f).length := by
    intro f
    refine (Pool.own_ordered (J := fun _ => True)
      (R := Kernel.Grows f fun old new => old.length ≤ new.length) (fun k => ?_)
      (fun h h' => ?_) (fun _ hstep => ?_) trivial).2.imp fun hgrows =>
        Inspector.content_of_grows (fun _ => Nat.zero_le _) hgrows
    · exact Kernel.Grows.refl (fun _ => Nat.le_refl _) k
    · exact Kernel.Grows.trans (r := fun old new => old.length ≤ new.length)
        (fun hfirst hsecond => hfirst.trans hsecond) h h'
    · obtain ⟨_, _, _, _, -, hexec, rfl⟩ := Pool.step_eq_some_iff.mp hstep
      exact ⟨trivial, length_exec hexec⟩
  have htraces := Pool.own_traces hrun hret
  obtain ⟨result, hmain, hresult⟩ := Prog.Traces.of_map htraces
  cases hresult
  exact Inspector.report_of_main ⟨hlengths, own_logOrdered hthreads none schedule⟩ hmain

theorem inspector_reports_deposit :
    ∃ after output, Pool.run (Posix.semantics (processes (fun _ => 7) 8)) amidInspection
        (depositAlone.beside (Inspector.main (fun _ => []) 3 true)) = some after ∧
      after.Returned none (.inr output) ∧
      ∃ parts seen, Inspector.Reports (fun _ => []) output
        (Pool.own (Posix.semantics (processes (fun _ => 7) 8)) none amidInspection
          (depositAlone.beside (Inspector.main (fun _ => []) 3 true))) parts seen := by
  have hreturns : ((Pool.run (Posix.semantics (processes (fun _ => 7) 8)) amidInspection
      (depositAlone.beside (Inspector.main (fun _ => []) 3 true))).bind fun after =>
        (after.result none).bind Sum.getRight?).isSome = true := by
    decide +kernel
  obtain ⟨output, houtput⟩ := Option.isSome_iff_exists.mp hreturns
  obtain ⟨after, hrun, hresult⟩ := Option.bind_eq_some_iff.mp houtput
  obtain ⟨value, hvalue, hright⟩ := Option.bind_eq_some_iff.mp hresult
  have hret : after.Returned none (.inr output) := by
    rw [← Sum.getRight?_eq_some_iff.mp hright]
    exact Pool.returned_of_result hvalue
  exact ⟨after, output, hrun, hret, inspector_reports .plain (fun _ => []) 3 (fun _ => 7)
    (fun _ => 2) 8 (fun _ => [.deposit 1001 5]) depositAlone.state amidInspection after hrun
    output hret⟩

end BankingSystem
