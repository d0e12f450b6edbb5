import BankingSystem.Failures.Helpers
import BankingSystem.Requests.Refinement

/-!
# Customer creation when system calls fail

The user record is written before the account record, and neither function reports a
write that fails.  A customer whose account file cannot be opened is stored without an
account; one whose write fails is announced and not stored.
-/

namespace BankingSystem

open Foundation Posix Sys

variable {M : Type} [Amount M] {env : Env} {user : UserRec} {username password : Bytes}
  {fuel : Nat} {d : Disk DbFile (DbFile.Rec M)}

/-! ## The new records -/

/-- `users.db` is opened for the check first, and then to number the user. -/
def createdId (t : Tables M) (trace : Trace M) : Nat :=
  if (opens .users trace)[1]? = some false then 1001 else t.nextUserId

def createdUser (env : Env) (user : UserRec) (username password : Bytes)
    (d : Disk DbFile (DbFile.Rec M)) (trace : Trace M) : UserRec :=
  newCustomer env user (createdId d.tables trace) (d.clock 0) username password

def createdAccount (t : Tables M) (trace : Trace M) : AccountRec M :=
  ⟨createdId t trace, createdId t trace, 0, .active⟩

namespace Sys

omit [Amount M] in
private theorem generateNewUserId_tables_surely :
    Surely false generateNewUserId d fun userId d' trace =>
      Within .users trace ∧ writes .users trace = [] ∧ d'.tables = d.tables ∧
        d'.clock = d.clock ∧ ∃ ok, opens .users trace = [ok] ∧
          userId = if ok = false then 1001 else d.tables.nextUserId := by
  refine generateNewUserId_surely.imp ?_
  rintro userId d' trace ⟨hwithin, hwrites, ⟨hopens, rfl, rfl⟩ | ⟨hopens, rfl, rfl⟩⟩
  · exact ⟨hwithin, hwrites, rfl, rfl, false, hopens, rfl⟩
  · exact ⟨hwithin, hwrites, tables_setFile_same d _, rfl, true, hopens, rfl⟩

end Sys

/-! ## What a creation leaves -/

/--
What `add_new_customer` returns and leaves: nothing, a user record that may have failed,
or both records, each of which may have failed.
-/
inductive Creation (user' : UserRec) (acc : AccountRec M) (t : Tables M) (trace : Trace M) :
    Bool → Tables M → Prop
  | refused (hopens : opens .accounts trace = []) : Creation user' acc t trace false t
  | halfway {users} (hopens : opens .accounts trace = [false])
      (hstored : Stored UserRec.userId user' t.users (writes .users trace) users) :
      Creation user' acc t trace false { t with users }
  | finished {users accounts} (hopens : opens .accounts trace = [true])
      (hstored : Stored UserRec.userId user' t.users (writes .users trace) users)
      (hstored' : Stored AccountRec.userId acc t.accounts (writes .accounts trace) accounts) :
      Creation user' acc t trace true { t with users, accounts }

omit [Amount M] in
private theorem Creation.prepend {user' : UserRec} {acc : AccountRec M} {t t' : Tables M}
    {before trace : Trace M} {result : Bool} (h : Creation user' acc t trace result t')
    (hopens : opens .accounts before = []) (husers : writes .users before = [])
    (haccounts : writes .accounts before = []) :
    Creation user' acc t (before ++ trace) result t' := by
  cases h with
  | refused hunopened => exact .refused (by simp [hopens, hunopened])
  | halfway hfailed hstored =>
      exact .halfway (by simp [hopens, hfailed]) (by simpa [husers] using hstored)
  | finished hopened hstored hstored' =>
      exact .finished (by simp [hopens, hopened]) (by simpa [husers] using hstored)
        (by simpa [haccounts] using hstored')

private theorem storing_surely (user' : UserRec) (acc : AccountRec M) {added failed : Reply}
    (hadded : added.result = true) (hfailed : failed.result = false)
    (husers : d.tables.users.length < fuel) (haccounts : d.tables.accounts.length < fuel) :
    Surely false (expand fuel (do
      if ← Db.writeUser user' then
        if ← Db.writeAccount acc then return added else return failed
      else return failed)) d fun reply d' trace =>
        Creation user' acc d.tables trace reply.result d'.tables := by
  refine expand_call_surely (writeRecord_surely (f := .users) UserRec.userId user' husers) ?_
  rintro result d₁ first ⟨hwithin, -, houtcome⟩
  have hunopened := hwithin.opens (g := .accounts) nofun
  have hunwritten := hwithin.writes (g := .accounts) nofun
  cases result with
  | false =>
      obtain rfl : d₁ = d := houtcome
      show Creation user' acc d₁.tables _ failed.result d₁.tables
      rw [hfailed]
      exact .refused (by simp [hunopened])
  | true =>
      obtain ⟨users, hstored, rfl⟩ := houtcome
      have htables := tables_setUsers d users
      have husers' : Stored UserRec.userId user' d.tables.users (writes .users first) users :=
        hstored
      have hfuel : (d.setFile .users users).tables.accounts.length < fuel := by rwa [htables]
      refine expand_call_surely
        (writeRecord_surely (f := .accounts) AccountRec.userId acc hfuel) ?_
      rintro result d₂ second ⟨hwithin', hopens, houtcome⟩
      have hunwritten' := hwithin'.writes (g := .users) nofun
      cases result with
      | false =>
          obtain rfl : d₂ = d.setFile .users users := houtcome
          show Creation user' acc d.tables _ failed.result (d.setFile .users users).tables
          rw [hfailed, htables]
          exact .halfway (by simp [hunopened, hopens]) (by simpa [hunwritten'] using husers')
      | true =>
          obtain ⟨accounts, hstored', rfl⟩ := houtcome
          have haccounts' : Stored AccountRec.userId acc (d.setFile .users users).tables.accounts
              (writes .accounts second) accounts := hstored'
          rw [htables] at haccounts'
          show Creation user' acc d.tables _ added.result
            ((d.setFile .users users).setFile .accounts accounts).tables
          rw [hadded, tables_setAccounts, htables]
          exact .finished (by simp [hunopened, hopens]) (by simpa [hunwritten'] using husers')
            (by simpa [hunwritten] using haccounts')

private theorem addNewCustomer_surely (env : Env) (user : UserRec) (username password : Bytes)
    (husers : d.tables.users.length < fuel) (haccounts : d.tables.accounts.length < fuel) :
    Surely false (expand fuel (addNewCustomer env user username password)) d
      fun reply d' trace => Creation (createdUser env user username password d trace)
        (createdAccount d.tables trace) d.tables trace reply.result d'.tables := by
  rw [addNewCustomer, Db.checkUniqueness_bind]
  refine expand_call_surely (checkUniqueness_surely _ _ _ _ husers) ?_
  rintro clash d₁ first ⟨⟨rfl, hwithin, hwrites⟩, ⟨ok, hopens⟩, -⟩
  have hunopened := hwithin.opens (g := .accounts) nofun
  have hunwritten := hwithin.writes (g := .accounts) nofun
  cases clash with
  | some clash => exact .refused (by simpa using hunopened)
  | none =>
      refine expand_call_surely generateNewUserId_tables_surely ?_
      rintro userId d₂ second ⟨hwithin₂, hwrites₂, htables₂, hclock, ok₂, hopens₂, hid⟩
      have hunopened₂ := hwithin₂.opens (g := .accounts) nofun
      have hunwritten₂ := hwithin₂.writes (g := .accounts) nofun
      refine expand_call_surely time_surely ?_
      rintro now d₃ third ⟨rfl, hfiles, rfl⟩
      have htables₃ := (tables_of_files hfiles).trans htables₂
      refine (storing_surely _ _ rfl rfl (by rwa [htables₃]) (by rwa [htables₃])).imp ?_
      rintro reply d' rest hcreation
      have hnumber : createdId d₁.tables
          (first ++ (second ++ ([⟨.time, true⟩] ++ rest))) = userId := by
        simp [createdId, hopens, hopens₂, hid]
      rw [createdUser, createdAccount, hnumber, ← hclock, ← htables₃]
      have htime : Creation _ _ _ ([⟨.time, true⟩] ++ rest) _ _ := hcreation.prepend rfl rfl rfl
      exact (htime.prepend hunopened₂ hwrites₂ hunwritten₂).prepend hunopened hwrites hunwritten

/-! ## The condition -/

/-- Both records are in the files, or both files are as before. -/
def BothOrNeither (result : Bool) (user' : UserRec) (acc : AccountRec M) (t t' : Tables M) :
    Prop :=
  (result = true ∧ user' ∈ t'.users ∧ acc ∈ t'.accounts) ∨
    (result = false ∧ t'.users = t.users ∧ t'.accounts = t.accounts)

/--
If the account file is not opened, the write of the user record has failed as well; if
it is opened, no write fails.  A record that is there already need not be written.
-/
def CreationCompletes (user' : UserRec) (acc : AccountRec M) (t : Tables M) (trace : Trace M) :
    Prop :=
  (false ∈ opens .accounts trace →
    false ∈ writes .users trace ∨
      Table.lookup UserRec.userId user'.userId t.users = some user') ∧
  (true ∈ opens .accounts trace →
    (true ∈ writes .users trace ∨ user' ∈ t.users) ∧
      (true ∈ writes .accounts trace ∨ acc ∈ t.accounts))

omit [Amount M] in
private theorem Creation.bothOrNeither_iff {user' : UserRec} {acc : AccountRec M} {t t' : Tables M}
    {trace : Trace M} {result : Bool} (h : Creation user' acc t trace result t') :
    BothOrNeither result user' acc t t' ↔ CreationCompletes user' acc t trace := by
  cases h with
  | refused hopens => simp [BothOrNeither, CreationCompletes, hopens]
  | halfway hopens hstored => simp [BothOrNeither, CreationCompletes, hopens, hstored.eq_self_iff]
  | finished hopens hstored hstored' =>
      simp [BothOrNeither, CreationCompletes, hopens, hstored.mem_iff, hstored'.mem_iff]

/--
Whatever fails, the creation of a customer ends, and is all or nothing exactly under the
condition.
-/
theorem creation_both_or_neither_iff (env : Env) (d : Disk DbFile (DbFile.Rec M))
    (fails : Nat → Bool) (user : UserRec) (username password : Bytes)
    (husers : d.tables.users.length < fuel) (haccounts : d.tables.accounts.length < fuel) :
    ∃ reply s', Prog.Ends (Faulty.step (ioErrors false) Disk.exec)
        (expand fuel (addNewCustomer env user username password)) ⟨d, fails, []⟩ reply s' ∧
      (BothOrNeither reply.result (createdUser env user username password d s'.trace)
          (createdAccount d.tables s'.trace) d.tables s'.state.tables ↔
        CreationCompletes (createdUser env user username password d s'.trace)
          (createdAccount d.tables s'.trace) d.tables s'.trace) := by
  obtain ⟨reply, d', later, trace, hends, hcreation⟩ :=
    (addNewCustomer_surely env user username password husers haccounts).ends fails []
  exact ⟨reply, _, hends, hcreation.bothOrNeither_iff⟩

def emptyBank : Database ℚ := .empty fun _ => 1

def bob : UserRec :=
  { UserRec.zero with
    userId := 1001, active := .active, username := .ofText (str "bob"), phone := .ofText (str "1")
    email := .ofText (str "b@x") }

def bankOfBob : Database ℚ :=
  { emptyBank with users := some [bob], accounts := some [⟨1001, 1001, 50, .active⟩] }

/-- The twenty-sixth call writes the account record. -/
theorem creation_both_or_neither_iff_unwritten :
    ∃ reply s', Prog.Ends (Faulty.step (ioErrors false) Disk.exec)
        (expand 2 (addNewCustomer .plain .zero (str "ann") (str "pw")))
        ⟨bankOfBob.disk, fun n => n = 25, []⟩ reply s' ∧
      (BothOrNeither reply.result
          (createdUser .plain .zero (str "ann") (str "pw") bankOfBob.disk s'.trace)
          (createdAccount bankOfBob.disk.tables s'.trace) bankOfBob.disk.tables s'.state.tables ↔
        CreationCompletes
          (createdUser .plain .zero (str "ann") (str "pw") bankOfBob.disk s'.trace)
          (createdAccount bankOfBob.disk.tables s'.trace) bankOfBob.disk.tables s'.trace) :=
  creation_both_or_neither_iff .plain bankOfBob.disk (fun n => n = 25) .zero (str "ann")
    (str "pw") (by decide) (by decide)

/-- The fifteenth call opens the account file. -/
theorem half_a_customer :
    ¬ ∀ fails : Nat → Bool, ∃ reply s',
      Prog.Ends (Faulty.step (ioErrors false) Disk.exec)
        (expand 1 (addNewCustomer .plain .zero (str "ann") (str "pw")))
        ⟨emptyBank.disk, fails, []⟩ reply s' ∧
      BothOrNeither reply.result
        (createdUser .plain .zero (str "ann") (str "pw") emptyBank.disk s'.trace)
        (createdAccount emptyBank.disk.tables s'.trace) emptyBank.disk.tables s'.state.tables := by
  intro h
  obtain ⟨reply, s', hends, hatomic⟩ := h fun n => n = 14
  have hrun : (Prog.run? (Faulty.step (ioErrors false) Disk.exec)
      (expand 1 (addNewCustomer .plain .zero (str "ann") (str "pw")))
      ⟨emptyBank.disk, fun n => n = 14, []⟩).map
        (fun result => (result.1.result, result.2.state.tables.users.length)) =
      some (false, 1) := by
    decide +kernel
  rw [hends] at hrun
  simp only [Option.map_some, Option.some.injEq, Prod.mk.injEq] at hrun
  obtain ⟨hresult, hlength⟩ := hrun
  rcases hatomic with ⟨hadded, -⟩ | ⟨-, husers, -⟩
  · rw [hresult] at hadded
    cases hadded
  · rw [husers] at hlength
    cases hlength

end BankingSystem
