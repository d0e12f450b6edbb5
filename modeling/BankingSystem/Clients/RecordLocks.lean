import BankingSystem.Clients.FileLocks
import BankingSystem.Modules.Admin
import BankingSystem.Modules.Manager

/-!
# The record locks of the updates

An update in place locks a record, reads it, lets its modifier change it and writes
it back.  The modifiers of `modify_customer` and `modify_user` call `check_uniqueness`
in between, and when that closes its own descriptor the lock is gone.
-/

namespace BankingSystem

open Foundation Posix

variable {M : Type}

/-! ## What a record lock has to cover -/

def LocksRecord (f : DbFile) (n : Nat) (action : Action (Sys M) (Machine M)) : Prop :=
  ∃ before fd after,
    action = ⟨before, .setLockWait f fd .writeLock (.record n), true, after⟩

def WritesRecord (f : DbFile) (n : Nat) (action : Action (Sys M) (Machine M)) : Prop :=
  ∃ before fd r success after, action = ⟨before, .write f fd r, success, after⟩ ∧ fd.pos = n

/-- The process has the record locked up to each write to the file, which goes to it. -/
def HeldUntilWrite (p : Nat) (f : DbFile) (n : Nat)
    (actions : List (Action (Sys M) (Machine M))) : Prop :=
  ∀ middle written last m, actions = middle ++ written :: last → WritesRecord f m written →
    m = n ∧ ∀ action ∈ middle ++ [written],
      (⟨p, f, .record n⟩ : Lock DbFile Nat) ∈ action.before.locks

/-- Every record lock is held until the record is written. -/
def LockCoversWrites (p : Nat) (actions : List (Action (Sys M) (Machine M))) : Prop :=
  ∀ first locked rest f n, actions = first ++ locked :: rest → LocksRecord f n locked →
    HeldUntilWrite p f n rest

section Covers

variable {p : Nat} {f : DbFile} {n : Nat} {action : Action (Sys M) (Machine M)}
  {first second : List (Action (Sys M) (Machine M))}

private theorem heldUntilWrite_of_no_write (h : ∀ action ∈ first, ∀ m, ¬ WritesRecord f m action) :
    HeldUntilWrite p f n first := by
  rintro middle written last m rfl hwrites
  exact absurd hwrites (h written (by simp) m)

private theorem HeldUntilWrite.append_of_no_write (hfirst : HeldUntilWrite p f n first)
    (hsecond : ∀ action ∈ second, ∀ m, ¬ WritesRecord f m action) :
    HeldUntilWrite p f n (first ++ second) := by
  intro middle written last m heq hwrites
  rcases List.append_eq_append_iff.mp heq with ⟨between, rfl, hrest⟩ | ⟨between, hsplit, hrest⟩
  · refine absurd hwrites (hsecond written ?_ m)
    rw [hrest]
    simp
  · cases between with
    | nil =>
        refine absurd hwrites (hsecond written ?_ m)
        rw [List.nil_append] at hrest
        rw [← hrest]
        simp
    | cons action between =>
        obtain ⟨rfl, -⟩ := List.cons.inj hrest
        exact hfirst middle written between m hsplit hwrites

private theorem heldUntilWrite_append
    (hlocked : ∀ action ∈ first, (⟨p, f, .record n⟩ : Lock DbFile Nat) ∈ action.before.locks)
    (hfirst : ∀ action ∈ first, ∀ m, ¬ WritesRecord f m action)
    (hsecond : HeldUntilWrite p f n second) : HeldUntilWrite p f n (first ++ second) := by
  intro middle written last m heq hwrites
  rcases List.append_eq_append_iff.mp heq with ⟨between, rfl, hrest⟩ | ⟨between, hsplit, hrest⟩
  · obtain ⟨hm, hheld⟩ := hsecond between written last m hrest hwrites
    refine ⟨hm, fun action hmem => ?_⟩
    rw [List.append_assoc] at hmem
    rcases List.mem_append.mp hmem with hmem | hmem
    · exact hlocked action hmem
    · exact hheld action hmem
  · cases between with
    | nil =>
        obtain ⟨hm, hheld⟩ := hsecond [] written last m hrest.symm hwrites
        refine ⟨hm, fun action hmem => ?_⟩
        rw [List.append_nil] at hsplit
        rw [← hsplit] at hmem
        rcases List.mem_append.mp hmem with hmem | hmem
        · exact hlocked action hmem
        · exact hheld action hmem
    | cons action between =>
        obtain ⟨rfl, -⟩ := List.cons.inj hrest
        refine absurd hwrites (hfirst written ?_ m)
        rw [hsplit]
        simp

private theorem heldUntilWrite_cons
    (hlocked : (⟨p, f, .record n⟩ : Lock DbFile Nat) ∈ action.before.locks)
    (hwrites : ∀ m, WritesRecord f m action → m = n)
    (hfirst : ∀ action ∈ first, ∀ m, ¬ WritesRecord f m action) :
    HeldUntilWrite p f n (action :: first) := by
  intro middle written last m heq hwritten
  cases middle with
  | nil =>
      obtain ⟨rfl, rfl⟩ := List.cons.inj heq
      refine ⟨hwrites m hwritten, fun action hmem => ?_⟩
      rw [List.mem_singleton.mp hmem]
      exact hlocked
  | cons head middle =>
      refine absurd hwritten (hfirst written ?_ m)
      rw [(List.cons.inj heq).2]
      simp

private theorem lockCoversWrites_of_no_lock
    (h : ∀ action ∈ first, ∀ f n, ¬ LocksRecord f n action) :
    LockCoversWrites p first := by
  rintro before locked rest f n rfl hlocks
  exact absurd hlocks (h locked (by simp) f n)

theorem LockCoversWrites.cons
    (haction : ∀ f n, LocksRecord f n action → HeldUntilWrite p f n first)
    (h : LockCoversWrites p first) : LockCoversWrites p (action :: first) := by
  intro before locked rest f n heq hlocks
  cases before with
  | nil =>
      obtain ⟨rfl, rfl⟩ := List.cons.inj heq
      exact haction f n hlocks
  | cons head before => exact h before locked rest f n (List.cons.inj heq).2 hlocks

theorem LockCoversWrites.append (hfirst : LockCoversWrites p first)
    (hsecond : LockCoversWrites p second)
    (hapart : ∀ locked ∈ first, ∀ written ∈ second, ∀ f n m,
      LocksRecord f n locked → ¬ WritesRecord f m written) :
    LockCoversWrites p (first ++ second) := by
  induction first with
  | nil => exact hsecond
  | cons action first ih =>
      have hrest : LockCoversWrites p first :=
        fun before locked rest f n heq =>
          hfirst (action :: before) locked rest f n (congrArg (action :: ·) heq)
      refine .cons (fun f n hlocks => ?_) (ih hrest fun locked hmem =>
        hapart locked (List.mem_cons_of_mem _ hmem))
      exact (hfirst [] action first f n rfl hlocks).append_of_no_write fun written hmem m =>
        hapart action (List.mem_cons_self ..) written hmem f n m hlocks

end Covers

/-! ## The updates of the program -/

section Updates

variable [Amount M]

inductive UserModifier where
  | changePass (newpass : Bytes)
  | modifyCustomer (d : Details)
  | modifyUser (d : Details)
  | changeRole (roleStr : Bytes)

def UserModifier.program (env : Env) :
    UserModifier → UserRec → Prog (Db M) (Option UserRec × Bytes)
  | .changePass newpass => changePassModifier env newpass
  | .modifyCustomer d => modifyCustomerModifier d
  | .modifyUser d => modifyUserModifier d
  | .changeRole roleStr => changeRoleModifier roleStr

inductive LoanModifier where
  | approveReject (action : Bytes) (empId : Nat)
  | assign (empId : Nat)

def LoanModifier.program : LoanModifier → LoanRec M → Prog (Db M) (Option (LoanRec M) × Bytes)
  | .approveReject action empId => approveRejectLoanModifier action empId
  | .assign empId => assignLoanModifier empId

/-- A call of one of the three `atomic_update` functions. -/
inductive RecordUpdate (M : Type) where
  | user (userId : Nat) (modifier : UserModifier) (respMsg : Bytes)
  | account (userId : Nat) (modifier : AccountModifier M)
  | loan (loanId : Nat) (modifier : LoanModifier) (respMsg : Bytes)

def RecordUpdate.program (env : Env) (fuel : Nat) : RecordUpdate M → Prog (Sys M) Bool
  | .user userId modifier respMsg => do
      let reply ← Sys.expand fuel (Db.atomicUpdateUser userId (modifier.program env) respMsg)
      return reply.result
  | .account userId modifier => Sys.atomicUpdateAccount fuel userId modifier.apply
  | .loan loanId modifier respMsg => do
      let reply ← Sys.expand fuel (Db.atomicUpdateLoan loanId modifier.program respMsg)
      return reply.result

def lockedUpdate (f : DbFile) (find : Prog (Sys M) (Option Nat))
    (modifier : f.Rec M → Prog (Sys M) (Option (f.Rec M))) : Prog (Sys M) Bool := do
  match ← find with
  | none => return false
  | some offset =>
      match ← Sys.beginUpdate f offset with
      | none => return false
      | some tmp =>
          let updated ← modifier tmp
          Sys.endUpdate f offset updated

private theorem expand_atomicUpdate {f : DbFile} {fuel : Nat} {find : Prog (Db M) (Option Nat)}
    {lock : Nat → Prog (Db M) (Option (f.Rec M))}
    {commit : Nat → Option (f.Rec M) → Prog (Db M) Bool}
    (hlock : ∀ offset, Sys.expand fuel (lock offset) = Sys.beginUpdate f offset)
    (hcommit : ∀ offset updated, Sys.expand fuel (commit offset updated) =
      Sys.endUpdate f offset updated)
    (modifier : f.Rec M → Prog (Db M) (Option (f.Rec M) × Bytes)) (respMsg : Bytes) :
    (do
      let reply ← Sys.expand fuel (Db.atomicUpdate find lock commit modifier respMsg)
      return reply.result) =
    lockedUpdate f (Sys.expand fuel find) fun tmp => do
      let out ← Sys.expand fuel (modifier tmp)
      return out.1 := by
  rw [Db.atomicUpdate, Sys.expand, Prog.expand_bind, bind_assoc]
  refine congrArg (Sys.expand fuel find >>= ·) (funext fun offset => ?_)
  cases offset with
  | none => rfl
  | some offset =>
      rw [Prog.expand_bind, bind_assoc]
      refine (congrArg (· >>= _) (hlock offset)).trans
        (congrArg (Sys.beginUpdate f offset >>= ·) (funext fun tmp => ?_))
      cases tmp with
      | none => rfl
      | some tmp =>
          dsimp only
          rw [Prog.expand_bind, bind_assoc, bind_assoc]
          refine congrArg (Sys.expand fuel (modifier tmp) >>= ·) (funext fun out => ?_)
          rw [Prog.expand_bind, bind_assoc]
          refine (congrArg (· >>= _) (hcommit offset out.1)).trans ?_
          exact bind_pure _

end Updates

/-! ## One update after the other steps -/

section Actions

variable {p : Nat} {f : DbFile} {k k' : Machine M}

def LocksNoRecord : Call DbFile (DbFile.Rec M) → Prop
  | .setLockWait _ _ .writeLock range => range = .all
  | _ => True

def WritesNothing (f : DbFile) : Call DbFile (DbFile.Rec M) → Prop
  | .write f' _ _ => f' ≠ f
  | _ => True

private theorem LocksNoRecord.not_locksRecord {action : Action (Sys M) (Machine M)}
    (h : LocksNoRecord action.cmd) (f : DbFile) (n : Nat) : ¬ LocksRecord f n action := by
  rintro ⟨before, fd, after, rfl⟩
  cases h

private theorem WritesNothing.not_writesRecord {action : Action (Sys M) (Machine M)}
    (h : WritesNothing f action.cmd) (m : Nat) : ¬ WritesRecord f m action := by
  rintro ⟨before, fd, r, success, after, rfl, -⟩
  exact h rfl

theorem actions_call {α : Type} {call : Call DbFile (DbFile.Rec M)}
    {result : Result (DbFile.Rec M) call} {next : Result (DbFile.Rec M) call → Prog (Sys M) α}
    (h : Posix.exec p call k = some (result, k')) :
    (Sys.call call >>= next).actions (Posix.exec p) k =
      ⟨k, call, result, k'⟩ :: (next result).actions (Posix.exec p) k' :=
  Prog.actions_call (S := Sys M) h

private theorem lockCoversWrites_of_only {α : Type} {program : Prog (Sys M) α}
    (h : program.Only (S := Sys M) LocksNoRecord) :
    LockCoversWrites p (program.actions (Posix.exec p) k) :=
  lockCoversWrites_of_no_lock fun action hmem =>
    LocksNoRecord.not_locksRecord (h.actions action hmem)

private theorem lockCoversWrites_ret {α : Type} (value : α) :
    LockCoversWrites p ((Prog.ret value : Prog (Sys M) α).actions (Posix.exec p) k) := by
  refine lockCoversWrites_of_no_lock ?_
  rw [Prog.actions_ret]
  exact fun action hmem => absurd hmem List.not_mem_nil

private theorem lockCoversWrites_call {α : Type} {call : Call DbFile (DbFile.Rec M)}
    {result : Result (DbFile.Rec M) call} {next : Result (DbFile.Rec M) call → Prog (Sys M) α}
    (hcall : LocksNoRecord call) (h : Posix.exec p call k = some (result, k'))
    (hrest : LockCoversWrites p ((next result).actions (Posix.exec p) k')) :
    LockCoversWrites p ((Sys.call call >>= next).actions (Posix.exec p) k) := by
  rw [actions_call h]
  exact hrest.cons fun f n hlocks => absurd hlocks (LocksNoRecord.not_locksRecord hcall f n)

private theorem lockCoversWrites_wait {α : Type} {call : Call DbFile (DbFile.Rec M)}
    {next : Result (DbFile.Rec M) call → Prog (Sys M) α} (h : Posix.exec p call k = none) :
    LockCoversWrites p ((Sys.call call >>= next).actions (Posix.exec p) k) := by
  refine lockCoversWrites_of_no_lock ?_
  rw [Sys.call, Prog.perform_bind, Prog.actions_call_of_none h]
  exact fun action hmem => absurd hmem List.not_mem_nil

/-- What follows the lock on the record: it lasts, and so do the locks inside. -/
def Guarded (p : Nat) (f : DbFile) (n : Nat) (actions : List (Action (Sys M) (Machine M))) :
    Prop :=
  HeldUntilWrite p f n actions ∧ LockCoversWrites p actions

private theorem guarded_of_quiet {n : Nat} {actions : List (Action (Sys M) (Machine M))}
    (h : ∀ action ∈ actions, LocksNoRecord action.cmd ∧ WritesNothing f action.cmd) :
    Guarded p f n actions :=
  ⟨heldUntilWrite_of_no_write fun action hmem => WritesNothing.not_writesRecord (h action hmem).2,
    lockCoversWrites_of_no_lock fun action hmem =>
      LocksNoRecord.not_locksRecord (h action hmem).1⟩

private theorem guarded_call {α : Type} {n : Nat} {call : Call DbFile (DbFile.Rec M)}
    {result : Result (DbFile.Rec M) call} {next : Result (DbFile.Rec M) call → Prog (Sys M) α}
    (hcall : LocksNoRecord call) (hwrites : WritesNothing f call)
    (hlock : (⟨p, f, .record n⟩ : Lock DbFile Nat) ∈ k.locks)
    (h : Posix.exec p call k = some (result, k'))
    (hrest : Guarded p f n ((next result).actions (Posix.exec p) k')) :
    Guarded p f n ((Sys.call call >>= next).actions (Posix.exec p) k) := by
  refine ⟨?_, lockCoversWrites_call hcall h hrest.2⟩
  rw [actions_call h, ← List.singleton_append]
  refine heldUntilWrite_append ?_ ?_ hrest.1
  · intro action hmem
    rw [List.mem_singleton.mp hmem]
    exact hlock
  · intro action hmem
    rw [List.mem_singleton.mp hmem]
    exact WritesNothing.not_writesRecord hwrites

private theorem lockCoversWrites_locked {α : Type} {n : Nat} {fd : Fd f}
    {next : Bool → Prog (Sys M) α}
    (h : Posix.exec p (.setLockWait f fd .writeLock (.record n)) k = some (true, k'))
    (hrest : Guarded p f n ((next true).actions (Posix.exec p) k')) :
    LockCoversWrites p ((Sys.lockRecord fd n >>= next).actions (Posix.exec p) k) := by
  rw [Sys.lockRecord, actions_call h]
  refine hrest.2.cons fun f' n' hlocks => ?_
  obtain ⟨before, fd', after, heq⟩ := hlocks
  cases heq
  exact hrest.1

/-- It is enough to look at what follows the record lock. -/
private theorem lockCoversWrites_lockedUpdate {find : Prog (Sys M) (Option Nat)}
    {modifier : f.Rec M → Prog (Sys M) (Option (f.Rec M))}
    (hfind : find.Only (S := Sys M) LocksNoRecord)
    (h : ∀ n k₁ tmp, Prog.Ends (Posix.exec p) find k (some n) k₁ →
      (k₁.content f)[n]? = some tmp → k₁.conflicts p f (.record n) = false →
      Guarded p f n ((modifier tmp >>= Sys.endUpdate f n).actions (Posix.exec p)
        (k₁.acquire p f (.record n)))) :
    LockCoversWrites p ((lockedUpdate f find modifier).actions (Posix.exec p) k) := by
  cases hrun : find.run? (Posix.exec p) k with
  | none =>
      rw [lockedUpdate, Prog.actions_bind_of_none hrun]
      exact lockCoversWrites_of_only hfind
  | some result =>
      obtain ⟨offset, k₁⟩ := result
      rw [lockedUpdate, Prog.actions_bind hrun]
      refine (lockCoversWrites_of_only hfind).append ?_ fun locked hmem written _ f n m hlocks =>
        absurd hlocks (LocksNoRecord.not_locksRecord (hfind.actions locked hmem) f n)
      cases offset with
      | none => exact lockCoversWrites_ret false
      | some n =>
          dsimp only
          rw [Sys.beginUpdate, bind_assoc]
          cases hfile : k₁.files f with
          | none =>
              have hopen : Posix.exec p (.openFile f ⟨.readWrite, false, false⟩) k₁ =
                  some (none, k₁) := by simp [Posix.exec, hfile]
              exact lockCoversWrites_call trivial hopen (lockCoversWrites_ret false)
          | some records =>
              have hopen : Posix.exec p (.openFile f ⟨.readWrite, false, false⟩) k₁ =
                  some (some ⟨.readWrite, false, 0⟩, k₁) := by simp [Posix.exec, hfile]
              refine lockCoversWrites_call trivial hopen ?_
              dsimp only
              rw [bind_assoc]
              cases hconflict : k₁.conflicts p f (.record n) with
              | true => exact lockCoversWrites_wait (by simp [Posix.exec, hconflict])
              | false =>
                  have hlock : Posix.exec p (.setLockWait f ⟨.readWrite, false, 0⟩ .writeLock
                      (.record n)) k₁ = some (true, k₁.acquire p f (.record n)) := by
                    simp [Posix.exec, hconflict]
                  refine lockCoversWrites_locked hlock ?_
                  rw [if_pos rfl, bind_assoc]
                  have hheld : (⟨p, f, .record n⟩ : Lock DbFile Nat) ∈
                      (k₁.acquire p f (.record n)).locks := List.mem_cons_self ..
                  have hread : Posix.exec p (.read f (⟨.readWrite, false, n⟩ : Fd f))
                      (k₁.acquire p f (.record n)) =
                      some ((k₁.content f)[n]?, k₁.acquire p f (.record n)) := rfl
                  refine guarded_call trivial trivial hheld hread ?_
                  cases htmp : (k₁.content f)[n]? with
                  | none =>
                      have hquiet : (do
                          let _ ← Sys.unlockRecord (⟨.readWrite, false, 0⟩ : Fd f) n
                          Sys.close (⟨.readWrite, false, 0⟩ : Fd f)
                          return false : Prog (Sys M) Bool).Only (S := Sys M) fun call =>
                            LocksNoRecord call ∧ WritesNothing f call :=
                        ⟨⟨trivial, trivial⟩, fun _ => ⟨⟨trivial, trivial⟩, fun _ => trivial⟩⟩
                      exact guarded_of_quiet hquiet.actions
                  | some tmp => exact h n k₁ tmp hrun htmp hconflict

end Actions

/-! ## The modifiers -/

section Modifiers

variable {p n : Nat} {f : DbFile} {k : Machine M}

def Looks (f : DbFile) (call : Call DbFile (DbFile.Rec M)) : Prop :=
  LocksNoRecord call ∧ call.Within (· = f) ∧ ∀ f', WritesNothing f' call

private theorem only_readUntil (found : f.Rec M → Bool) (fuel : Nat) (fd : Fd f) :
    (Sys.readUntil found fuel fd).Only (S := Sys M) (Looks f) := by
  induction fuel generalizing fd with
  | zero => exact ⟨⟨trivial, nofun, fun _ => trivial⟩, nofun⟩
  | succ fuel ih =>
      refine ⟨⟨trivial, fun _ h => (Option.mem_some.mp h).symm, fun _ => trivial⟩, fun tmp => ?_⟩
      cases tmp with
      | none => trivial
      | some tmp =>
          dsimp only [Prog.bind]
          split
          · trivial
          · exact ih _

private theorem only_search (fuel : Nat) (found : f.Rec M → Bool) :
    (Sys.search fuel f found).Only (S := Sys M) (Looks f) := by
  have hself : ∀ f' ∈ some f, f' = f := fun _ h => (Option.mem_some.mp h).symm
  refine ⟨⟨trivial, hself, fun _ => trivial⟩, fun fd => ?_⟩
  cases fd with
  | none => trivial
  | some fd =>
      refine ⟨⟨rfl, hself, fun _ => trivial⟩, fun _ => ?_⟩
      refine (only_readUntil found fuel fd).bind fun result => ?_
      refine ⟨⟨trivial, hself, fun _ => trivial⟩, fun _ => ?_⟩
      exact ⟨⟨trivial, hself, fun _ => trivial⟩, fun _ => trivial⟩

private theorem only_endUpdate (updated : Option (f.Rec M)) :
    (Sys.endUpdate f n updated).Only (S := Sys M) fun call =>
      LocksNoRecord call ∧ call.Within (· = f) := by
  have hself : ∀ f' ∈ some f, f' = f := fun _ h => (Option.mem_some.mp h).symm
  cases updated with
  | none =>
      exact ⟨⟨trivial, hself⟩, fun _ => ⟨⟨trivial, hself⟩, fun _ => trivial⟩⟩
  | some tmp =>
      exact ⟨⟨trivial, hself⟩, fun _ => ⟨⟨trivial, hself⟩, fun _ => ⟨⟨trivial, hself⟩,
        fun _ => trivial⟩⟩⟩

private theorem writesNothing_of_within {call : Call DbFile (DbFile.Rec M)}
    (h : call.Within (· ≠ f)) : WritesNothing f call := by
  cases call with
  | write f' fd r => exact h f' rfl
  | _ => trivial

private theorem actions_endUpdate (tmp : f.Rec M) :
    ∃ written last, (Sys.endUpdate f n (some tmp)).actions (Posix.exec p) k = written :: last ∧
      written.before = k ∧ WritesRecord f n written ∧
      (∀ m, WritesRecord f m written → m = n) ∧
      ∀ action ∈ last, ∀ m, ¬ WritesRecord f m action := by
  have hquiet : (do
      let _ ← Sys.unlockRecord (⟨.readWrite, false, n⟩ : Fd f) n
      Sys.close (⟨.readWrite, false, n⟩ : Fd f)
      return true : Prog (Sys M) Bool).Only (S := Sys M) (WritesNothing f) :=
    ⟨trivial, fun _ => ⟨trivial, fun _ => trivial⟩⟩
  have hwrite : Posix.exec p (.write f (⟨.readWrite, false, n⟩ : Fd f) tmp) k =
      some (true, k.setFile f (Table.put (k.content f) n tmp)) := rfl
  refine ⟨⟨k, .write f ⟨.readWrite, false, n⟩ tmp, true, _⟩, _, actions_call hwrite, rfl,
    ⟨k, _, _, _, _, rfl, rfl⟩, ?_, fun action hmem =>
      WritesNothing.not_writesRecord (hquiet.actions action hmem)⟩
  rintro m ⟨before, fd, r, success, after, heq, rfl⟩
  cases heq
  rfl

private theorem heldUntilWrite_endUpdate (updated : Option (f.Rec M))
    (hlock : (⟨p, f, .record n⟩ : Lock DbFile Nat) ∈ k.locks) :
    HeldUntilWrite p f n ((Sys.endUpdate f n updated).actions (Posix.exec p) k) := by
  cases updated with
  | none =>
      have hquiet : (Sys.endUpdate f n none : Prog (Sys M) Bool).Only (S := Sys M)
          (WritesNothing f) := ⟨trivial, fun _ => ⟨trivial, fun _ => trivial⟩⟩
      exact heldUntilWrite_of_no_write fun action hmem =>
        WritesNothing.not_writesRecord (hquiet.actions action hmem)
  | some tmp =>
      obtain ⟨written, last, hactions, rfl, -, hwrites, hquiet⟩ :=
        actions_endUpdate (p := p) (n := n) (k := k) tmp
      rw [hactions]
      exact heldUntilWrite_cons hlock hwrites hquiet

private theorem guarded_bind_endUpdate {program : Prog (Sys M) (Option (f.Rec M))}
    (hwithin : program.Only (S := Sys M) (Call.Within (· ≠ f)))
    (hcovers : LockCoversWrites p (program.actions (Posix.exec p) k))
    (hlock : (⟨p, f, .record n⟩ : Lock DbFile Nat) ∈ k.locks) :
    Guarded p f n ((program >>= Sys.endUpdate f n).actions (Posix.exec p) k) := by
  have hquiet : ∀ action ∈ program.actions (Posix.exec p) k, ∀ m, ¬ WritesRecord f m action :=
    fun action hmem => WritesNothing.not_writesRecord
      (writesNothing_of_within (hwithin.actions action hmem))
  have hkept : ∀ {call : Call DbFile (DbFile.Rec M)} {k : Machine M} {result k'},
      call.Within (· ≠ f) → Posix.exec p call k = some (result, k') →
      (⟨p, f, .record n⟩ : Lock DbFile Nat) ∈ k.locks →
      (⟨p, f, .record n⟩ : Lock DbFile Nat) ∈ k'.locks :=
    fun hcall hexec => mem_locks_of_within hcall hexec rfl
  cases hrun : program.run? (Posix.exec p) k with
  | none =>
      rw [Prog.actions_bind_of_none hrun]
      exact ⟨heldUntilWrite_of_no_write hquiet, hcovers⟩
  | some result =>
      obtain ⟨updated, k'⟩ := result
      have hlock' := hwithin.ends hkept hrun hlock
      have hend := only_endUpdate (M := M) (f := f) (n := n) updated
      rw [Prog.actions_bind hrun]
      have hbefore := hwithin.actions_before
        (I := fun k : Machine M => (⟨p, f, .record n⟩ : Lock DbFile Nat) ∈ k.locks) hkept hlock
      refine ⟨heldUntilWrite_append hbefore hquiet (heldUntilWrite_endUpdate updated hlock'),
        hcovers.append (lockCoversWrites_of_only (hend.imp fun _ h => h.1)) ?_⟩
      rintro locked hmem written hmem' f' n' m ⟨before, fd, after, rfl⟩
      have hne : f' ≠ f := hwithin.actions _ hmem f' rfl
      rintro ⟨before', fd', r, success, after', rfl, -⟩
      exact hne ((hend.actions _ hmem').2 f' rfl)

private theorem lockCoversWrites_bind {α β : Type} {files : DbFile → Prop}
    {program : Prog (Sys M) α}
    {next : α → Prog (Sys M) β} (hcovers : LockCoversWrites p (program.actions (Posix.exec p) k))
    (hwithin : program.Only (S := Sys M) fun call => LocksNoRecord call ∨ call.Within files)
    (hnext : ∀ value k, LockCoversWrites p ((next value).actions (Posix.exec p) k))
    (hapart : ∀ value, (next value).Only (S := Sys M) (Call.Within fun f => ¬ files f)) :
    LockCoversWrites p ((program >>= next).actions (Posix.exec p) k) := by
  cases hrun : program.run? (Posix.exec p) k with
  | none => rwa [Prog.actions_bind_of_none hrun]
  | some result =>
      rw [Prog.actions_bind hrun]
      refine hcovers.append (hnext _ _) ?_
      rintro locked hmem written hmem' f n m hlocks ⟨_, fd', r, _, _, rfl, -⟩
      obtain ⟨_, fd, _, rfl⟩ := hlocks
      rcases hwithin.actions _ hmem with hnone | hfiles
      · cases hnone
      · exact (hapart _).actions _ hmem' f rfl (hfiles f rfl)

private theorem only_lockedUpdate {files : DbFile → Prop} {find : Prog (Sys M) (Option Nat)}
    {modifier : f.Rec M → Prog (Sys M) (Option (f.Rec M))} (hf : files f)
    (hfind : find.Only (S := Sys M) (Call.Within files))
    (hmodifier : ∀ tmp, (modifier tmp).Only (S := Sys M) (Call.Within files)) :
    (lockedUpdate f find modifier).Only (S := Sys M) (Call.Within files) := by
  have hself : ∀ f' ∈ some f, files f' := fun f' h => (Option.mem_some.mp h) ▸ hf
  refine hfind.bind fun offset => ?_
  cases offset with
  | none => trivial
  | some n =>
      refine ⟨hself, fun fd => ?_⟩
      cases fd with
      | none => trivial
      | some fd =>
          refine ⟨hself, fun locked => ?_⟩
          cases locked with
          | false => exact ⟨hself, fun _ => trivial⟩
          | true =>
              refine ⟨hself, fun tmp => ?_⟩
              cases tmp with
              | none => exact ⟨hself, fun _ => ⟨hself, fun _ => trivial⟩⟩
              | some tmp =>
                  refine (hmodifier tmp).bind fun updated => ?_
                  exact (only_endUpdate updated).imp fun call h f' hf' => h.2 f' hf' ▸ hf

private theorem atomicUpdateAccount_eq (fuel userId : Nat)
    (modifier : AccountRec M → Option (AccountRec M)) :
    Sys.atomicUpdateAccount fuel userId modifier =
      lockedUpdate .accounts (Sys.findAccountOffset fuel userId) fun tmp =>
        return modifier tmp := by
  refine congrArg (Sys.findAccountOffset fuel userId >>= ·) (funext fun offset => ?_)
  cases offset with
  | none => rfl
  | some offset =>
      refine congrArg (Sys.beginUpdate .accounts offset >>= ·) (funext fun tmp => ?_)
      cases tmp <;> rfl

private theorem only_findOffset (fuel : Nat) (found : f.Rec M → Bool) :
    (Sys.findOffset fuel f found).Only (S := Sys M) (Looks f) :=
  (only_search fuel found).bind fun _ => trivial

private theorem lockCoversWrites_atomicUpdateAccount (fuel userId : Nat)
    (modifier : AccountRec M → Option (AccountRec M)) (k : Machine M) :
    LockCoversWrites p
      ((Sys.atomicUpdateAccount fuel userId modifier).actions (Posix.exec p) k) := by
  rw [atomicUpdateAccount_eq]
  refine lockCoversWrites_lockedUpdate ((only_findOffset fuel _).imp fun _ h => h.1)
    fun n k₁ tmp _ _ _ => ?_
  exact guarded_bind_endUpdate trivial (lockCoversWrites_ret _) (List.mem_cons_self ..)

private theorem only_atomicUpdateAccount (fuel userId : Nat)
    (modifier : AccountRec M → Option (AccountRec M)) :
    (Sys.atomicUpdateAccount fuel userId modifier).Only (S := Sys M)
      (Call.Within (· = .accounts)) := by
  rw [atomicUpdateAccount_eq]
  exact only_lockedUpdate rfl ((only_findOffset fuel _).imp fun _ h => h.2.1) fun _ => trivial

private theorem only_appendTransaction (tx : TxnRec M) :
    (Sys.appendTransaction tx).Only (S := Sys M) fun call =>
      LocksNoRecord call ∧ call.Within (· = .transactions) := by
  have hself : ∀ f ∈ some DbFile.transactions, f = .transactions :=
    fun _ h => (Option.mem_some.mp h).symm
  refine Prog.Only.bind ⟨⟨trivial, hself⟩, fun fd => ?_⟩ fun _ => trivial
  cases fd with
  | none => trivial
  | some fd =>
      exact ⟨⟨rfl, hself⟩, fun _ => ⟨⟨trivial, hself⟩, fun _ => ⟨⟨trivial, hself⟩, fun _ =>
        ⟨⟨trivial, hself⟩, fun _ => ⟨⟨trivial, hself⟩, fun _ => trivial⟩⟩⟩⟩⟩

private theorem lockCoversWrites_bind_of_only {α β : Type} {program : Prog (Sys M) α}
    {next : α → Prog (Sys M) β} (h : program.Only (S := Sys M) LocksNoRecord)
    (hnext : ∀ value k, LockCoversWrites p ((next value).actions (Posix.exec p) k)) :
    LockCoversWrites p ((program >>= next).actions (Posix.exec p) k) := by
  have hwithin : program.Only (S := Sys M) fun call =>
      LocksNoRecord call ∨ call.Within fun _ => False := h.imp fun _ hcall => .inl hcall
  exact lockCoversWrites_bind (lockCoversWrites_of_only h) hwithin hnext fun value =>
    Prog.only_of_forall (fun _ _ _ => not_false) (next value)

/-- Inside the lock on a loan: what is done to the other files, under locks of its own. -/
def Separate {α : Type} (p : Nat) (program : Prog (Sys M) α) : Prop :=
  program.Only (S := Sys M) (Call.Within (· ≠ .loans)) ∧
    ∀ k, LockCoversWrites p (program.actions (Posix.exec p) k)

private theorem separate_ret {α : Type} (value : α) :
    Separate p (Prog.ret value : Prog (Sys M) α) :=
  ⟨trivial, fun _ => lockCoversWrites_ret value⟩

private theorem separate_bind {α β : Type} {program : Prog (Sys M) α} {next : α → Prog (Sys M) β}
    (hlocks : program.Only (S := Sys M) LocksNoRecord)
    (hwithin : program.Only (S := Sys M) (Call.Within (· ≠ .loans)))
    (hnext : ∀ value, Separate p (next value)) : Separate p (program >>= next) :=
  ⟨hwithin.bind fun value => (hnext value).1, fun _ =>
    lockCoversWrites_bind_of_only hlocks fun value => (hnext value).2⟩

private theorem separate_search {α : Type} (fuel : Nat) (hf : f ≠ .loans) (found : f.Rec M → Bool)
    {next : Option (f.Rec M) → Prog (Sys M) α} (hnext : ∀ r, Separate p (next r)) :
    Separate p (Sys.readRecord fuel f found >>= next) := by
  have hlooks : (Sys.readRecord fuel f found).Only (S := Sys M) (Looks f) :=
    (only_search fuel found).bind fun _ => trivial
  refine separate_bind (hlooks.imp fun _ h => h.1) (hlooks.imp fun call h f' hf' => ?_) hnext
  exact h.2.1 f' hf' ▸ hf

/-- After the deposit: no more locks on records, and nothing on the files locked before. -/
def AfterDeposit {α : Type} (program : Prog (Sys M) α) : Prop :=
  program.Only (S := Sys M) fun call =>
    LocksNoRecord call ∧ call.Within (· ≠ .loans) ∧ call.Within (· ≠ .accounts)

private theorem afterDeposit_time {α : Type} {next : Int → Prog (Sys M) α}
    (hnext : ∀ now, AfterDeposit (next now)) : AfterDeposit (Sys.call .time >>= next) :=
  ⟨⟨trivial, nofun, nofun⟩, hnext⟩

private theorem afterDeposit_appendTransaction {α : Type} (tx : TxnRec M)
    {next : Bool → Prog (Sys M) α} (hnext : ∀ success, AfterDeposit (next success)) :
    AfterDeposit (Sys.appendTransaction tx >>= next) := by
  refine ((only_appendTransaction tx).imp fun call h => ⟨h.1, fun f hf => ?_, fun f hf => ?_⟩).bind
    hnext <;>
    · rw [h.2 f hf]
      nofun

private theorem separate_deposit {α : Type} (fuel userId : Nat)
    (modifier : AccountRec M → Option (AccountRec M)) {next : Bool → Prog (Sys M) α}
    (hnext : ∀ success, AfterDeposit (next success)) :
    Separate p (Sys.atomicUpdateAccount fuel userId modifier >>= next) := by
  have hwithin := only_atomicUpdateAccount (M := M) fuel userId modifier
  refine ⟨(hwithin.imp fun call h f hf => ?_).bind fun success =>
    (hnext success).imp fun _ h => h.2.1, fun k => ?_⟩
  · rw [h f hf]
    nofun
  · exact lockCoversWrites_bind (lockCoversWrites_atomicUpdateAccount fuel userId modifier k)
      (hwithin.imp fun _ h => .inr h)
      (fun success _ => lockCoversWrites_of_only ((hnext success).imp fun _ h => h.1))
      fun success => (hnext success).imp fun _ h => h.2.2

private theorem separate_loanModifier [Amount M] (fuel : Nat) (modifier : LoanModifier)
    (loan : LoanRec M) : Separate p (Sys.expand fuel (modifier.program loan)) := by
  cases modifier with
  | assign empId =>
      rw [LoanModifier.program, assignLoanModifier]
      split
      · exact separate_ret _
      · simp only [Sys.expand, Db.readUser_bind, Prog.expand_call]
        refine separate_search (f := .users) fuel nofun _ fun emp => ?_
        split <;> exact separate_ret _
  | approveReject action empId =>
      rw [LoanModifier.program, approveRejectLoanModifier]
      split
      · exact separate_ret _
      · split
        · exact separate_ret _
        · split
          · simp only [Sys.expand, Db.readAccount_bind, Prog.expand_call]
            refine separate_search (f := .accounts) fuel nofun _ fun custAcc => ?_
            split
            · exact separate_ret _
            · simp only [Db.atomicUpdateAccount_bind, Prog.expand_call]
              refine separate_deposit fuel _ _ fun success => ?_
              cases success with
              | false => trivial
              | true =>
                  refine afterDeposit_time fun logged => ?_
                  refine afterDeposit_appendTransaction _ fun _ => ?_
                  exact afterDeposit_time fun now => trivial
          · split
            · have hlocks : (Sys.call .time : Prog (Sys M) Int).Only (S := Sys M) LocksNoRecord :=
                ⟨trivial, fun _ => trivial⟩
              exact separate_bind hlocks ⟨nofun, fun _ => trivial⟩ fun now => separate_ret _
            · exact separate_ret _

theorem Separate.map {α β : Type} {program : Prog (Sys M) α} (h : Separate p program)
    (g : α → β) : Separate p (program >>= fun value => Prog.ret (g value)) := by
  have hwithin : program.Only (S := Sys M) fun call =>
      LocksNoRecord call ∨ call.Within fun _ => True :=
    Prog.only_of_forall (fun _ => .inr fun _ _ => trivial) program
  exact ⟨h.1.bind fun _ => trivial, fun k => lockCoversWrites_bind (h.2 k) hwithin
    (fun _ _ => lockCoversWrites_ret _) fun _ => trivial⟩

end Modifiers

/-! ## The check of a user's new details -/

section Users

variable [Amount M] {p n : Nat} {k k₁ : Machine M}

def UserModifier.checked : UserModifier → UserRec → Option Details
  | .modifyCustomer d, user => if user.role = .customer then some d else none
  | .modifyUser d, _ => some d
  | .changePass _, _ | .changeRole _, _ => none

def UserModifier.updated (env : Env) (fuel : Nat) (modifier : UserModifier) (user : UserRec) :
    Prog (Sys M) (Option UserRec) := do
  let out ← Sys.expand fuel (modifier.program env user)
  return out.1

private theorem UserModifier.program_of_unchecked (env : Env) {modifier : UserModifier}
    {user : UserRec} (h : modifier.checked user = none) (fuel : Nat) :
    ∃ out, Sys.expand (M := M) fuel (modifier.program env user) = .ret out := by
  cases modifier with
  | changePass newpass => exact ⟨_, rfl⟩
  | modifyUser d => cases h
  | modifyCustomer d =>
      have hrole : user.role ≠ .customer := by
        intro hrole
        simp [checked, hrole] at h
      rw [program, modifyCustomerModifier, if_pos hrole]
      exact ⟨_, rfl⟩
  | changeRole roleStr =>
      rw [program, changeRoleModifier]
      dsimp only
      split
      · exact ⟨_, rfl⟩
      · split
        · exact ⟨_, rfl⟩
        · split
          · exact ⟨_, rfl⟩
          · split <;> exact ⟨_, rfl⟩

private theorem UserModifier.program_of_checked (env : Env) {modifier : UserModifier}
    {user : UserRec} {d : Details} (h : modifier.checked user = some d) (fuel : Nat) :
    ∃ out : Option UniqueField → Option UserRec × Bytes,
      (Sys.expand (M := M) fuel (modifier.program env user) = do
        let clash ← Sys.checkUniqueness fuel user.username.text d.email d.phone user.userId
        return out clash) ∧
      ∀ clash, (out clash).1.isSome = clash.isNone := by
  have hcheck : ∀ {next : Option Bytes → Prog (Db M) (Option UserRec × Bytes)}
      {updated : UserRec} {message : Bytes}, next none = .ret (some updated, message) →
      (∀ clash, next (some clash) = .ret (none, clash)) →
      Sys.expand fuel (Db.checkUniqueness user.username.text d.email d.phone user.userId >>=
        next) = do
        let clash ← Sys.checkUniqueness fuel user.username.text d.email d.phone user.userId
        return clash.elim (some updated, message) fun field =>
          (none, respond (Db.clashMessage user.username.text d.email d.phone field)) := by
    intro next updated message hnone hsome
    refine congrArg (Sys.checkUniqueness fuel _ _ _ _ >>= ·) (funext fun clash => ?_)
    cases clash with
    | none => exact congrArg (Sys.expand fuel) hnone
    | some field => exact congrArg (Sys.expand fuel) (hsome _)
  cases modifier with
  | changePass newpass => cases h
  | changeRole roleStr => cases h
  | modifyUser d' =>
      cases h
      refine ⟨_, hcheck rfl fun _ => rfl, fun clash => ?_⟩
      cases clash <;> rfl
  | modifyCustomer d' =>
      by_cases hrole : user.role = .customer
      · rw [checked, if_pos hrole] at h
        cases h
        rw [program, modifyCustomerModifier, if_neg (not_not.mpr hrole)]
        refine ⟨_, hcheck rfl fun _ => rfl, fun clash => ?_⟩
        cases clash <;> rfl
      · simp [checked, hrole] at h

omit [Amount M] in
/-- A scan of a file that is there ends with closing it. -/
private theorem search_drops {f : DbFile} {fuel : Nat} {found : f.Rec M → Bool}
    {result : Option (Nat × f.Rec M)} {k' : Machine M} (hfile : k.files f ≠ none)
    (hends : Prog.Ends (Posix.exec p) (Sys.search fuel f found) k result k') :
    ∀ lock ∈ k'.locks, lock.file = f → lock.owner ≠ p := by
  obtain ⟨records, hrecords⟩ := Option.ne_none_iff_exists'.mp hfile
  have hopen : Posix.exec p (.openFile f ⟨.readOnly, false, false⟩) k =
      some (some ⟨.readOnly, false, 0⟩, k) := by simp [Posix.exec, hrecords]
  have hlock : Posix.exec p (.setLockWait f (⟨.readOnly, false, 0⟩ : Fd f) .writeLock .all) k =
      some (false, k) := by simp [Posix.exec]
  rw [Sys.search, Sys.openFile, Sys.call, Prog.perform_bind, Prog.Ends, Prog.run?_call, hopen,
    Option.bind_some] at hends
  dsimp only at hends
  rw [Sys.lockFile, Sys.call, Prog.perform_bind, Prog.run?_call, hlock, Option.bind_some,
    Prog.run?_bind, Option.bind_eq_some_iff] at hends
  obtain ⟨⟨r, k₂⟩, -, hrest⟩ := hends
  cases hrest
  intro lock hmem hf howner
  have hkept := (List.mem_filter.mp hmem).2
  simp [hf, howner] at hkept

omit [Amount M] in
private theorem actions_lockedUpdate {f : DbFile} {find : Prog (Sys M) (Option Nat)}
    {tmp : f.Rec M} (modifier : f.Rec M → Prog (Sys M) (Option (f.Rec M)))
    (hfind : Prog.Ends (Posix.exec p) find k (some n) k₁)
    (htmp : (k₁.content f)[n]? = some tmp) (hclear : k₁.conflicts p f (.record n) = false) :
    ∃ opened locked read, LocksRecord f n locked ∧
      (lockedUpdate f find modifier).actions (Posix.exec p) k =
        (find.actions (Posix.exec p) k ++ [opened]) ++ locked :: read ::
          (modifier tmp >>= Sys.endUpdate f n).actions (Posix.exec p)
            (k₁.acquire p f (.record n)) := by
  have hfile : ∃ records, k₁.files f = some records := by
    refine Option.ne_none_iff_exists'.mp fun hnone => ?_
    rw [Kernel.content, hnone] at htmp
    cases htmp
  obtain ⟨records, hfile⟩ := hfile
  have hopen : Posix.exec p (.openFile f ⟨.readWrite, false, false⟩) k₁ =
      some (some ⟨.readWrite, false, 0⟩, k₁) := by simp [Posix.exec, hfile]
  have hlock : Posix.exec p (.setLockWait f (⟨.readWrite, false, 0⟩ : Fd f) .writeLock
      (.record n)) k₁ = some (true, k₁.acquire p f (.record n)) := by
    simp [Posix.exec, hclear]
  have hread : Posix.exec p (.read f (⟨.readWrite, false, n⟩ : Fd f))
      (k₁.acquire p f (.record n)) = some (some tmp, k₁.acquire p f (.record n)) := by
    rw [← htmp]
    rfl
  refine ⟨⟨k₁, .openFile f ⟨.readWrite, false, false⟩, some ⟨.readWrite, false, 0⟩, k₁⟩,
    ⟨k₁, .setLockWait f ⟨.readWrite, false, 0⟩ .writeLock (.record n), true,
      k₁.acquire p f (.record n)⟩,
    ⟨k₁.acquire p f (.record n), .read f ⟨.readWrite, false, n⟩, some tmp,
      k₁.acquire p f (.record n)⟩, ⟨k₁, _, _, rfl⟩, ?_⟩
  rw [lockedUpdate, Prog.actions_bind hfind, List.append_assoc]
  refine congrArg (find.actions (Posix.exec p) k ++ ·) ?_
  exact (actions_call hopen).trans (congrArg (_ :: ·) ((actions_call hlock).trans
    (congrArg (_ :: ·) (actions_call hread))))

omit [Amount M] in
private theorem checkUniqueness_drops {fuel currentUserId : Nat} {username email phone : Bytes}
    {clash : Option UniqueField} {k' : Machine M} (hfile : k.files .users ≠ none)
    (hends : Prog.Ends (Posix.exec p)
      (Sys.checkUniqueness fuel username email phone currentUserId) k clash k') :
    ∀ lock ∈ k'.locks, lock.file = .users → lock.owner ≠ p := by
  rw [Sys.checkUniqueness, Prog.Ends, Prog.run?_bind, Option.bind_eq_some_iff] at hends
  obtain ⟨⟨result, k₂⟩, hsearch, hrest⟩ := hends
  cases hrest
  exact search_drops hfile hsearch

omit [Amount M] in
private theorem not_heldUntilWrite_endUpdate {f : DbFile} {tmp : f.Rec M}
    {actions : List (Action (Sys M) (Machine M))}
    (hdropped : ∀ lock ∈ k.locks, lock.file = f → lock.owner ≠ p) :
    ¬ HeldUntilWrite p f n (actions ++
      (Sys.endUpdate f n (some tmp)).actions (Posix.exec p) k) := by
  intro hheld
  obtain ⟨written, last, hactions, rfl, hwritten, -⟩ :=
    actions_endUpdate (p := p) (n := n) (k := k) tmp
  obtain ⟨-, hlocked⟩ := hheld actions written last n (congrArg (actions ++ ·) hactions) hwritten
  exact hdropped _ (hlocked written (by simp)) rfl rfl

private theorem actions_checked (env : Env) {fuel : Nat} {modifier : UserModifier} {user : UserRec}
    {d : Details} (huser : (k.content .users)[n]? = some user)
    (hchecked : modifier.checked user = some d) (hfuel : (k.content .users).length < fuel) :
    ∃ updated k', (∀ lock ∈ k'.locks, lock.file = .users → lock.owner ≠ p) ∧
      updated.isSome =
        (firstClash user.username.text d.email d.phone user.userId (k.content .users)).isNone ∧
      (modifier.updated env fuel user >>= Sys.endUpdate .users n).actions (Posix.exec p) k =
        (Sys.checkUniqueness fuel user.username.text d.email d.phone user.userId).actions
          (Posix.exec p) k ++ (Sys.endUpdate .users n updated).actions (Posix.exec p) k' := by
  obtain ⟨out, hprogram, hout⟩ := UserModifier.program_of_checked (M := M) env hchecked fuel
  have hfile : k.files .users ≠ none := by
    intro hnone
    have hcontent : k.content .users = [] := congrArg (Option.getD · []) hnone
    rw [hcontent] at huser
    cases huser
  have hreads : Reads (Sys.checkUniqueness (M := M) fuel user.username.text d.email d.phone
      user.userId) := reads_bind (reads_search fuel _) fun _ => trivial
  have hdisk : Sys.Ends (Sys.checkUniqueness (M := M) fuel user.username.text d.email d.phone
      user.userId) k.disk
      (firstClash user.username.text d.email d.phone user.userId (k.content .users)) k.disk :=
    Sys.checkUniqueness_ends _ _ _ _ hfuel
  obtain ⟨k', hcheck, -⟩ := reads_ends (p := p) hreads hdisk
  refine ⟨_, k', checkUniqueness_drops hfile hcheck, hout _, ?_⟩
  rw [UserModifier.updated, hprogram, bind_assoc, bind_assoc]
  exact Prog.actions_bind hcheck

private theorem lockCoversWrites_checked {env : Env} {fuel : Nat} {modifier : UserModifier}
    {find : Prog (Sys M) (Option Nat)} {user : UserRec} {d : Details}
    (hlooks : find.Only (S := Sys M) (Looks .users))
    (hfind : Prog.Ends (Posix.exec p) find k (some n) k₁)
    (huser : (k₁.content .users)[n]? = some user)
    (hclear : k₁.conflicts p .users (.record n) = false)
    (hchecked : modifier.checked user = some d)
    (hfuel : (k₁.content .users).length < fuel) :
    LockCoversWrites p ((lockedUpdate .users find (modifier.updated env fuel)).actions
      (Posix.exec p) k) ↔
    firstClash user.username.text d.email d.phone user.userId (k₁.content .users) ≠ none := by
  have huser' : ((k₁.acquire p .users (.record n)).content .users)[n]? = some user := huser
  obtain ⟨updated, k₃, hdropped, hupdated, hrest⟩ :=
    actions_checked (p := p) env huser' hchecked hfuel
  have hcontent : (k₁.acquire p .users (.record n)).content .users = k₁.content .users := rfl
  rw [hcontent] at hupdated
  cases hclash : firstClash user.username.text d.email d.phone user.userId
      (k₁.content .users) with
  | none =>
      refine iff_of_false (fun hcovers => ?_) (fun hne => hne rfl)
      obtain ⟨opened, locked, read, hlocks, hactions⟩ :=
        actions_lockedUpdate (modifier.updated env fuel) hfind huser hclear
      have hheld := hcovers _ locked _ .users n hactions hlocks
      rw [hclash] at hupdated
      obtain ⟨tmp, rfl⟩ := Option.isSome_iff_exists.mp hupdated
      rw [hrest, ← List.cons_append] at hheld
      exact not_heldUntilWrite_endUpdate hdropped hheld
  | some field =>
      refine iff_of_true ?_ (by simp)
      refine lockCoversWrites_lockedUpdate (hlooks.imp fun _ h => h.1)
        fun n' k₁' tmp hfind' htmp _ => ?_
      cases hfind'.symm.trans hfind
      cases huser.symm.trans htmp
      have hrefused : updated = none := by
        rw [← Option.not_isSome_iff_eq_none, hupdated, hclash]
        simp
      rw [hrest, hrefused]
      have hlooking : (Sys.checkUniqueness (M := M) fuel user.username.text d.email d.phone
          user.userId).Only (S := Sys M) (Looks .users) :=
        (only_search fuel _).bind fun _ => trivial
      have hending : (Sys.endUpdate .users n none : Prog (Sys M) Bool).Only (S := Sys M)
          fun call => LocksNoRecord call ∧ WritesNothing .users call :=
        ⟨⟨trivial, trivial⟩, fun _ => ⟨⟨trivial, trivial⟩, fun _ => trivial⟩⟩
      refine guarded_of_quiet fun action hmem => ?_
      rcases List.mem_append.mp hmem with hmem | hmem
      · exact (hlooking.actions action hmem).imp id fun h => h.2 .users
      · exact hending.actions action hmem

private theorem lockCoversWrites_found (env : Env) {fuel : Nat} (modifier : UserModifier)
    {find : Prog (Sys M) (Option Nat)} {user : UserRec}
    (hlooks : find.Only (S := Sys M) (Looks .users))
    (hfind : Prog.Ends (Posix.exec p) find k (some n) k₁)
    (huser : (k₁.content .users)[n]? = some user) (hfuel : (k₁.content .users).length < fuel) :
    LockCoversWrites p ((lockedUpdate .users find (modifier.updated env fuel)).actions
      (Posix.exec p) k) ↔
    ¬ (k₁.conflicts p .users (.record n) = false ∧ ∃ d, modifier.checked user = some d ∧
      firstClash user.username.text d.email d.phone user.userId (k₁.content .users) = none) := by
  have hlocks := hlooks.imp fun _ h => h.1
  cases hconflict : k₁.conflicts p .users (.record n) with
  | true =>
      refine iff_of_true ?_ (by simp)
      refine lockCoversWrites_lockedUpdate hlocks fun n' k₁' tmp hfind' _ hclear => ?_
      cases hfind'.symm.trans hfind
      rw [hconflict] at hclear
      cases hclear
  | false =>
      cases hchecked : modifier.checked user with
      | none =>
          refine iff_of_true ?_ (by simp)
          refine lockCoversWrites_lockedUpdate hlocks fun n' k₁' tmp hfind' htmp _ => ?_
          cases hfind'.symm.trans hfind
          cases huser.symm.trans htmp
          obtain ⟨out, hout⟩ := UserModifier.program_of_unchecked (M := M) env hchecked fuel
          rw [UserModifier.updated, hout]
          exact guarded_bind_endUpdate trivial (lockCoversWrites_ret _) (List.mem_cons_self ..)
      | some d =>
          refine (lockCoversWrites_checked hlooks hfind huser hconflict hchecked hfuel).trans ?_
          simp

private theorem RecordUpdate.program_user (env : Env) (fuel userId : Nat) (modifier : UserModifier)
    (respMsg : Bytes) :
    (RecordUpdate.user userId modifier respMsg : RecordUpdate M).program env fuel =
      lockedUpdate .users (Sys.findUserOffset fuel userId) (modifier.updated env fuel) := by
  have hfind : Sys.expand (M := M) fuel (Db.findUserOffset userId) =
      Sys.findUserOffset fuel userId := bind_pure _
  rw [program, Db.atomicUpdateUser, expand_atomicUpdate (f := .users) (fun _ => bind_pure _)
    fun _ _ => bind_pure _, hfind]
  rfl

private theorem RecordUpdate.program_loan (env : Env) (fuel loanId : Nat) (modifier : LoanModifier)
    (respMsg : Bytes) :
    (RecordUpdate.loan loanId modifier respMsg : RecordUpdate M).program env fuel =
      lockedUpdate .loans (Sys.findLoanOffset fuel loanId) fun tmp => do
        let out ← Sys.expand fuel (modifier.program tmp)
        return out.1 := by
  have hfind : Sys.expand (M := M) fuel (Db.findLoanOffset loanId) =
      Sys.findLoanOffset fuel loanId := bind_pure _
  rw [program, Db.atomicUpdateLoan, expand_atomicUpdate (f := .loans) (fun _ => bind_pure _)
    fun _ _ => bind_pure _, hfind]

/-- The update checks the new details of the user that it has locked, and finds no clash. -/
def RecordUpdate.WritesAfterCheck (p : Nat) (k : Machine M) : RecordUpdate M → Prop
  | .user userId modifier _ => ∃ pos user d,
      Table.locate UserRec.userId userId (k.content .users) = some pos ∧
      (k.content .users)[pos]? = some user ∧ k.conflicts p .users (.record pos) = false ∧
      modifier.checked user = some d ∧
      firstClash user.username.text d.email d.phone user.userId (k.content .users) = none
  | .account _ _ | .loan _ _ _ => False

/--
An update in a single-threaded process, from any files and lock table.  The lock on the
record lasts until the record is written, except where the update has gone through
`check_uniqueness` to the write.
-/
theorem record_lock_covers_write (env : Env) (fuel : Nat) (update : RecordUpdate M) (p : Nat)
    (k : Machine M) (hfuel : (k.content .users).length < fuel) :
    LockCoversWrites p ((update.program env fuel).actions (Posix.exec p) k) ↔
      ¬ update.WritesAfterCheck p k := by
  cases update with
  | account userId modifier =>
      exact iff_of_true (lockCoversWrites_atomicUpdateAccount fuel userId _ k) not_false
  | loan loanId modifier respMsg =>
      refine iff_of_true ?_ not_false
      rw [RecordUpdate.program_loan]
      refine lockCoversWrites_lockedUpdate ((only_findOffset fuel _).imp fun _ h => h.1)
        fun n k₁ loan _ _ _ => ?_
      obtain ⟨hwithin, hcovers⟩ := (separate_loanModifier (p := p) fuel modifier loan).map Prod.fst
      exact guarded_bind_endUpdate hwithin (hcovers _) (List.mem_cons_self ..)
  | user userId modifier respMsg =>
      rw [RecordUpdate.program_user]
      have hlooks := only_findOffset (M := M) (f := .users) fuel fun tmp => tmp.userId = userId
      have hreads : Reads (Sys.findUserOffset (M := M) fuel userId) :=
        reads_bind (reads_search fuel _) fun _ => trivial
      have halone : Sys.Ends (Sys.findUserOffset fuel userId) k.disk
          (Table.locate UserRec.userId userId (k.content .users)) k.disk :=
        Sys.findOffset_ends (f := .users) (fun tmp => tmp.userId = userId) hfuel
      obtain ⟨k₁, hfind, hdisk, hforeign⟩ := reads_ends (p := p) hreads halone
      have hcontent : k₁.content .users = k.content .users :=
        congrArg (Disk.content · .users) hdisk
      have hconflicts : ∀ range, k₁.conflicts p .users range = k.conflicts p .users range :=
        fun range => Kernel.conflicts_of_foreign hforeign
      rcases hloc : Table.locate UserRec.userId userId (k.content .users) with _ | pos
      · refine iff_of_true ?_ fun ⟨pos, user, d, hpos, _⟩ => by simp [hloc] at hpos
        refine lockCoversWrites_lockedUpdate (hlooks.imp fun _ h => h.1)
          fun n k₁' tmp hfind' _ _ => ?_
        rw [hloc] at hfind
        cases hfind'.symm.trans hfind
      · obtain ⟨user, huser, -⟩ := Table.getElem?_of_locate hloc
        rw [hloc] at hfind
        have hsame : (RecordUpdate.user userId modifier respMsg).WritesAfterCheck p k ↔
            k.conflicts p .users (.record pos) = false ∧ ∃ d, modifier.checked user = some d ∧
              firstClash user.username.text d.email d.phone user.userId
                (k.content .users) = none := by
          simp [RecordUpdate.WritesAfterCheck, hloc, huser]
        rw [hsame, ← hconflicts, ← hcontent]
        rw [← hcontent] at huser hfuel
        exact lockCoversWrites_found env modifier hlooks hfind huser hfuel

end Users

/-- Employee 1001 has loan 1 of customer 1002, whose account is there. -/
def lockMachine : Machine ℚ where
  files
    | .users => some [{ UserRec.zero with userId := 1001, role := .employee }]
    | .accounts => some [⟨1002, 1002, 0, .active⟩]
    | .loans => some [⟨1, 1002, 3, .assigned, 1001, 1, 0⟩]
    | _ => none
  locks := []
  clock _ := 1

theorem record_lock_covers_write_approve :
    LockCoversWrites 7 (((RecordUpdate.loan 1 (.approveReject (str "approve") 1001) []).program
      .plain 2).actions (Posix.exec 7) lockMachine) :=
  (record_lock_covers_write .plain 2 _ 7 lockMachine (by decide)).mpr not_false

/-- The administrator modifies user 1001; the write comes after the close of the check. -/
theorem modify_user_writes_unlocked :
    ¬ LockCoversWrites 7 (((RecordUpdate.user 1001
      (.modifyUser ⟨str "A", str "B", 30, str "C", str "D", str "E"⟩) [] :
      RecordUpdate ℚ).program .plain 2).actions (Posix.exec 7) lockMachine) := by
  have hfind : Prog.Ends (Posix.exec 7) (Sys.findUserOffset 2 1001) lockMachine (some 0)
      lockMachine := rfl
  intro hcovers
  rw [RecordUpdate.program_user] at hcovers
  exact (lockCoversWrites_checked (only_findOffset 2 _) hfind rfl rfl rfl (by decide)).mp
    hcovers (by decide)

end BankingSystem
