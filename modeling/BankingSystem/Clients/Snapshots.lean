import BankingSystem.Foundation.Bystander
import BankingSystem.Foundation.Growth
import BankingSystem.Clients.SystemCalls
import BankingSystem.Requests.Request

/-!
# What a reader sees of files in use

The listings read a file record by record while other threads write.  `transactions.db`
is only ever appended to, so a history that starts from the end of the file shows it as
it was at one moment of the request.
-/

namespace BankingSystem

open Foundation Posix Prog

variable {M : Type}

/-! ## The log is only appended to -/

/-- Whatever is read, a write to `transactions.db` goes to its end. -/
def logAccess (M : Type) : Accesses DbFile (DbFile.Rec M) Unit where
  reads _ _ _ := True
  writes _ f fd _ := f = .transactions → fd.append = true
  after _ _ _ := ()

abbrev KeepsLog {α : Type} (program : Prog (Sys M) α) : Prop :=
  (logAccess M).protocol.Follows (fun _ _ => True) () program

theorem readOnly_reads : Access.readOnly ≠ .writeOnly := by decide

private theorem readWrite_reads : Access.readWrite ≠ .writeOnly := by decide

private theorem readWrite_writes : Access.readWrite ≠ .readOnly := by decide

private theorem writeOnly_writes : Access.writeOnly ≠ .readOnly := by decide

namespace KeepsLog

section Helpers

variable {α β : Type} {f : DbFile}

theorem bind {program : Prog (Sys M) α} {next : α → Prog (Sys M) β} (h : KeepsLog program)
    (hnext : ∀ value, KeepsLog (next value)) : KeepsLog (program >>= next) :=
  Protocol.Follows.bind h fun _ value _ => hnext value

theorem any {post : Unit → α → Prop} {program : Prog (Sys M) α}
    (h : (logAccess M).protocol.Follows post () program) : KeepsLog program :=
  h.imp fun _ _ _ => trivial

theorem quiet {call : Call DbFile (DbFile.Rec M)}
    {next : Result (DbFile.Rec M) call → Prog (Sys M) α}
    (hallow : (logAccess M).protocol.allows () call)
    (hnext : ∀ answer, KeepsLog (next answer)) : KeepsLog (Sys.call call >>= next) :=
  ⟨hallow, fun answer _ => hnext answer⟩

theorem release (fd : Fd f) (value : α) : KeepsLog (do
    let _ ← Sys.unlockFile fd
    Sys.close fd
    return value : Prog (Sys M) α) :=
  quiet trivial fun _ => quiet trivial fun _ => trivial

theorem readAll (fuel : Nat) (fd : Fd f) (haccess : fd.access ≠ .writeOnly) :
    KeepsLog (Sys.readAll fuel fd : Prog (Sys M) _) := by
  induction fuel generalizing fd with
  | zero => exact Sys.follows_stall _ _
  | succ fuel ih =>
      refine quiet haccess fun tmp => ?_
      cases tmp with
      | none => trivial
      | some tmp => exact bind (ih _ haccess) fun _ => trivial

theorem readBackward (fd : Fd f) (haccess : fd.access ≠ .writeOnly) (n : Nat) :
    KeepsLog (Sys.readBackward fd n : Prog (Sys M) _) := by
  induction n with
  | zero => trivial
  | succ n ih =>
      refine quiet haccess fun tmp => ?_
      cases tmp with
      | none => trivial
      | some tmp => exact bind ih fun _ => trivial

theorem reviewAll (fuel : Nat) (fd : Fd DbFile.feedback) (haccess : fd.access = .readWrite) :
    KeepsLog (Sys.reviewAll fuel fd : Prog (Sys M) _) := by
  induction fuel generalizing fd with
  | zero => exact Sys.follows_stall _ _
  | succ fuel ih =>
      have hreads : fd.access ≠ .writeOnly := by
        rw [haccess]
        decide
      have hwrites : fd.access ≠ .readOnly := by
        rw [haccess]
        decide
      refine quiet hreads fun tmp => ?_
      cases tmp with
      | none => trivial
      | some fb =>
          have hrest : KeepsLog (do
              let rest ← Sys.reviewAll fuel (fd.seek (fd.pos + 1))
              return fb :: rest : Prog (Sys M) _) :=
            bind (ih _ haccess) fun _ => trivial
          by_cases hreviewed : fb.reviewed = 0
          · simp only [hreviewed, if_true]
            exact quiet ⟨hwrites, fun hf => by cases hf⟩ fun _ => hrest
          · simp only [hreviewed, if_false]
            exact hrest

theorem writeRecord (hne : f ≠ .transactions) (fuel : Nat) (same : f.Rec M → Bool)
    (r : f.Rec M) : KeepsLog (Sys.writeRecord fuel f same r) := by
  refine Sys.follows_bind trivial fun fd hfd => ?_
  obtain rfl | ⟨-, hcreate⟩ := hfd
  · refine quiet trivial fun _ => ?_
    refine bind (any (Sys.follows_readUntil _ () same fuel _ readWrite_reads)) fun found => ?_
    cases found with
    | some found => exact quiet ⟨readWrite_writes, fun hf => absurd hf hne⟩ fun _ => release _ true
    | none =>
        exact quiet trivial fun pos =>
          quiet ⟨readWrite_writes, fun hf => absurd hf hne⟩ fun _ => release _ true
  · cases hcreate

theorem scan (fuel : Nat) (f : DbFile) : KeepsLog (Sys.scan fuel f : Prog (Sys M) _) := by
  refine Sys.follows_bind trivial fun fd hfd => ?_
  obtain rfl | ⟨rfl, -⟩ := hfd
  · exact quiet trivial fun _ =>
      bind (readAll fuel _ readOnly_reads) fun records => release _ (some records)
  · trivial

theorem scanTransactions : KeepsLog (Sys.scanTransactions : Prog (Sys M) _) := by
  refine Sys.follows_bind trivial fun fd hfd => ?_
  obtain rfl | ⟨rfl, -⟩ := hfd
  · refine quiet trivial fun _ => quiet trivial fun count => ?_
    exact bind (readBackward (f := .transactions) ⟨.readOnly, false, 0⟩ readOnly_reads count)
      fun txns => release _ (some txns)
  · trivial

theorem markReviewed (fuel : Nat) : KeepsLog (Sys.markReviewed fuel : Prog (Sys M) _) := by
  refine Sys.follows_bind trivial fun fd hfd => ?_
  obtain rfl | ⟨rfl, -⟩ := hfd
  · exact quiet trivial fun _ =>
      bind (reviewAll fuel _ rfl) fun records => release _ (some records)
  · trivial

theorem generateNewUserId : KeepsLog (Sys.generateNewUserId : Prog (Sys M) _) := by
  refine Sys.follows_bind trivial fun fd hfd => ?_
  obtain rfl | ⟨rfl, -⟩ := hfd
  · exact quiet trivial fun _ => quiet trivial fun count => release _ (1001 + count)
  · trivial

theorem search (fuel : Nat) (found : f.Rec M → Bool) :
    KeepsLog (Sys.search fuel f found) :=
  any (Sys.follows_search _ () fuel found)

theorem appendRecord (numbered : Nat → f.Rec M) :
    KeepsLog (Sys.appendRecord f numbered) := by
  refine Sys.follows_bind trivial fun fd hfd => ?_
  obtain rfl | ⟨-, hcreate⟩ := hfd
  · exact quiet trivial fun _ => quiet trivial fun count =>
      quiet ⟨writeOnly_writes, fun _ => rfl⟩ fun _ => release _ (some (count + 1))
  · cases hcreate

theorem endUpdate (hne : f ≠ .transactions) (offset : Nat) (updated : Option (f.Rec M)) :
    KeepsLog (Sys.endUpdate f offset updated) :=
  any (Sys.follows_endUpdate _ () offset updated fun _ _ hf => absurd hf hne)

variable [Amount M]

theorem helper (fuel : Nat) (cmd : Db.Cmd M) : KeepsLog (Sys.helper fuel cmd) := by
  cases cmd with
  | readAccount | readUser | findUserOffset | findLoanOffset =>
      exact bind (search fuel _) fun _ => trivial
  | checkUniqueness => exact bind (search fuel _) fun _ => trivial
  | updateAccount userId modifier =>
      exact any (Sys.follows_atomicUpdateAccount _ () fuel userId _ fun _ _ _ _ hf => by cases hf)
  | writeAccount acc => exact writeRecord (f := .accounts) (by decide) fuel _ acc
  | writeUser user => exact writeRecord (f := .users) (by decide) fuel _ user
  | generateNewUserId => exact generateNewUserId
  | lockUser offset | lockLoan offset => exact any (Sys.follows_beginUpdate _ () offset)
  | commitUser offset user => exact endUpdate (f := .users) (by decide) offset user
  | commitLoan offset loan => exact endUpdate (f := .loans) (by decide) offset loan
  | appendTransaction => exact bind (appendRecord _) fun _ => trivial
  | appendLoan loan => exact appendRecord (f := .loans) fun loanId => { loan with loanId }
  | appendFeedback fb => exact appendRecord (f := .feedback) fun fbId => { fb with fbId }
  | scanUsers | scanLoans | scanFeedback => exact scan fuel _
  | scanTransactions => exact scanTransactions
  | markReviewed => exact markReviewed fuel
  | time => exact ⟨trivial, fun _ _ => trivial⟩

theorem expand (fuel : Nat) (program : Prog (Db M) α) : KeepsLog (Sys.expand fuel program) := by
  induction program with
  | ret value => trivial
  | call cmd next ih => exact bind (helper fuel cmd) ih

end Helpers

end KeepsLog

/-! ## Reading loops -/

abbrev Calls (M : Type) := List (Action (Sys M) (Machine M))

namespace Sys

variable {f : DbFile} {p : Nat} {actions : Calls M}

private theorem getElem?_of_grown {α : Type} {first second : List α} (h : first <+: second)
    {i : Nat} {a : α} (ha : first[i]? = some a) : second[i]? = some a := by
  obtain ⟨rest, rfl⟩ := h
  obtain ⟨hlt, -⟩ := List.getElem?_eq_some_iff.mp ha
  rwa [List.getElem?_append_left hlt]

def Reads (f : DbFile) (pos : Nat) (action : Action (Sys M) (Machine M)) : Prop :=
  ∃ fd : Fd f, fd.pos = pos ∧ action.cmd = .read f fd

/-- The calls read one record after the other until there is none. -/
inductive Reading (f : DbFile) :
    Nat → Calls M → List (f.Rec M) → Prop
  | done {pos last} (hlast : Reads f pos last) (h : (last.before.content f)[pos]? = none) :
      Reading f pos [last] []
  | next {pos first rest r records} (hfirst : Reads f pos first)
      (h : (first.before.content f)[pos]? = some r) (hrest : Reading f (pos + 1) rest records) :
      Reading f pos (first :: rest) (r :: records)

private theorem answer_read (fd : Fd f) (haccess : fd.access ≠ .writeOnly) {k k' : Machine M}
    {result : Option (f.Rec M)} (h : Posix.exec p (.read f fd) k = some (result, k')) :
    result = (k.content f)[fd.pos]? := by
  simp only [Posix.exec, if_neg haccess, Option.some_inj, Prod.mk.injEq] at h
  exact h.1.symm

theorem reading_of_readAll {fuel : Nat} (fd : Fd f) (haccess : fd.access ≠ .writeOnly)
    {records : List (f.Rec M)}
    (h : (readAll fuel fd).Traces (Posix.exec p) actions records) :
    Reading f fd.pos actions records := by
  induction fuel generalizing fd actions records with
  | zero =>
      obtain ⟨_, answer, _⟩ := h
      exact answer.elim
  | succ fuel ih =>
      obtain ⟨before, result, after, rest, rfl, hexec, hrest⟩ := h
      have hresult := answer_read fd haccess hexec
      cases result with
      | none =>
          obtain ⟨rfl, rfl⟩ := hrest
          exact .done ⟨fd, rfl, rfl⟩ hresult.symm
      | some tmp =>
          change (readAll fuel (fd.seek (fd.pos + 1)) >>= _).Traces _ _ _ at hrest
          obtain ⟨first, second, middle, rfl, hfirst, rfl, rfl⟩ := hrest.of_bind
          rw [List.append_nil]
          exact .next ⟨fd, rfl, rfl⟩ hresult.symm (ih (fd.seek (fd.pos + 1)) haccess hfirst)

namespace Reading

variable {pos : Nat} {records : List (f.Rec M)}

/-- In a file that is only appended to, the records are what the last read found before it. -/
theorem snapshot (h : Reading f pos actions records)
    (hordered : actions.Pairwise fun first second =>
      first.before.content f <+: second.before.content f) :
    ∃ last ∈ actions, records = (last.before.content f).drop pos := by
  induction h with
  | @done pos last _ hread =>
      refine ⟨last, List.mem_singleton_self last, ?_⟩
      rw [List.drop_eq_nil_of_le (List.getElem?_eq_none_iff.mp hread)]
  | @next pos first rest r records _ hread _ ih =>
      obtain ⟨hfirst, hrest⟩ := List.pairwise_cons.mp hordered
      obtain ⟨last, hmem, rfl⟩ := ih hrest
      refine ⟨last, List.mem_cons_of_mem _ hmem, ?_⟩
      have hlast := getElem?_of_grown (hfirst last hmem) hread
      rw [List.drop_eq_getElem?_toList_append (i := pos), hlast]
      rfl

theorem length (h : Reading f pos actions records)
    (hordered : actions.Pairwise fun first second =>
      (first.before.content f).length ≤ (second.before.content f).length)
    (hpos : ∀ action ∈ actions, pos ≤ (action.before.content f).length) :
    ∃ last, actions.getLast? = some last ∧
      (last.before.content f).length = pos + records.length := by
  induction h with
  | @done pos last _ hread =>
      refine ⟨last, rfl, ?_⟩
      have hbound := hpos last (List.mem_singleton_self last)
      have hmissed := List.getElem?_eq_none_iff.mp hread
      simp only [List.length_nil]
      omega
  | @next pos first rest r records _ hread _ ih =>
      obtain ⟨hfirst, hrest⟩ := List.pairwise_cons.mp hordered
      obtain ⟨hlt, -⟩ := List.getElem?_eq_some_iff.mp hread
      obtain ⟨last, hlast, hlength⟩ := ih hrest fun action hmem => by
        have hgrown := hfirst action hmem
        omega
      refine ⟨last, by rw [List.getLast?_cons, hlast, Option.getD_some], ?_⟩
      rw [hlength, List.length_cons]
      omega

end Reading

private theorem readBackward_of_grown (fd : Fd f) (haccess : fd.access ≠ .writeOnly) {n : Nat}
    (records : List (f.Rec M)) {result : List (f.Rec M)} (hn : n ≤ records.length)
    (hgrown : ∀ action ∈ actions, records <+: action.before.content f)
    (h : (readBackward fd n).Traces (Posix.exec p) actions result) : result = records.take n := by
  induction n generalizing actions result with
  | zero =>
      obtain ⟨rfl, rfl⟩ := h
      rfl
  | succ n ih =>
      obtain ⟨before, read, after, rest, rfl, hexec, hrest⟩ := h
      have hread : records[n]? = some records[n] := List.getElem?_eq_getElem hn
      have hresult := answer_read (fd.seek n) haccess hexec
      have hbefore := getElem?_of_grown (hgrown _ List.mem_cons_self) hread
      rw [show (before.content f)[(fd.seek n).pos]? = some _ from hbefore] at hresult
      subst hresult
      change (readBackward fd n >>= _).Traces _ _ _ at hrest
      obtain ⟨first, second, middle, rfl, hfirst, rfl, rfl⟩ := hrest.of_bind
      rw [ih (Nat.le_of_succ_le hn) (fun action hmem => hgrown action (by simp [hmem])) hfirst,
        List.take_succ_eq_append_getElem hn]

/-- The states that the calls find, in their order, each with the log of the one before it. -/
def LogOrdered (actions : Calls M) : Prop :=
  actions.Pairwise fun first second =>
    first.before.Grows .transactions (· <+: ·) second.before

private theorem scanTransactions_snapshot {result : Option (List (TxnRec M))}
    (hordered : LogOrdered actions) (h : scanTransactions.Traces (Posix.exec p) actions result) :
    ∃ action ∈ actions, result = action.before.files .transactions := by
  obtain ⟨opened, fd, after, rest, rfl, hopen, hrest⟩ := h
  simp only [Posix.exec] at hopen
  cases hfile : opened.files .transactions with
  | none =>
      simp only [hfile, Bool.false_eq_true, if_false, Option.some_inj, Prod.mk.injEq] at hopen
      obtain ⟨rfl, -⟩ := hopen
      obtain ⟨rfl, rfl⟩ := hrest
      exact ⟨_, List.mem_singleton_self _, hfile.symm⟩
  | some records =>
      simp only [hfile, Option.some_inj, Prod.mk.injEq] at hopen
      obtain ⟨rfl, -⟩ := hopen
      obtain ⟨_, _, _, rest, rfl, -, hrest⟩ := hrest
      obtain ⟨atEnd, count, _, rest, rfl, hseek, hrest⟩ := hrest
      have hcount : count = (atEnd.content .transactions).length := by
        simp only [Posix.exec, Option.some_inj, Prod.mk.injEq] at hseek
        exact hseek.1.symm
      change (readBackward (f := .transactions) _ count >>= _).Traces _ _ _ at hrest
      obtain ⟨reads, last, txns, rfl, hreads, hlast⟩ := hrest.of_bind
      obtain ⟨_, _, _, _, -, -, hlast⟩ := hlast
      obtain ⟨_, _, _, _, -, -, -, rfl⟩ := hlast
      obtain ⟨hopened, hlocked⟩ := List.pairwise_cons.mp hordered
      obtain ⟨-, hsought⟩ := List.pairwise_cons.mp hlocked
      obtain ⟨hgrown, -⟩ := List.pairwise_cons.mp hsought
      refine ⟨_, List.mem_cons_of_mem _ (List.mem_cons_of_mem _ List.mem_cons_self), ?_⟩
      obtain ⟨log, hlog, -⟩ := hopened _
        (List.mem_cons_of_mem _ List.mem_cons_self) records hfile
      replace hlog : atEnd.files .transactions = some log := hlog
      have hcontent : atEnd.content .transactions = log := by
        simp [Kernel.content, hlog]
      refine Eq.trans (congrArg some ?_) hlog.symm
      have htaken := readBackward_of_grown (f := .transactions) ⟨.readOnly, false, 0⟩
        readOnly_reads log (hcount.trans (congrArg List.length hcontent)).le ?_ hreads
      · rw [htaken, hcount, hcontent, List.take_length]
      · intro action hmem
        obtain ⟨grown, hgrown', hkept⟩ := hgrown action (by simp [hmem]) log hlog
        simpa [Kernel.content, hgrown'] using hkept

end Sys

/-! ## Every interleaving -/

section Runs

variable {ι α : Type} [DecidableEq ι] {proc : ι → Nat}

private theorem logAccess_sound : Protocol.Sound (fun _ : ι => (logAccess M).protocol)
    (Posix.semantics proc) (fun _ _ => True) fun _ _ _ => True :=
  Accesses.sound (fun _ _ _ _ => trivial) (fun _ _ => trivial) fun _ _ _ => trivial

theorem KeepsLog.step {pool pool' : Pool (Sys M) (Machine M) ι α} {i : ι}
    (h : ∀ i, KeepsLog (pool.threads i))
    (hstep : pool.step (Posix.semantics proc) i = some pool') :
    (∀ i, KeepsLog (pool'.threads i)) ∧
      pool.state.Grows .transactions (· <+: ·) pool'.state := by
  obtain ⟨call, next, answer, s, hthread, hexec, rfl⟩ := Pool.step_eq_some_iff.mp hstep
  have hexplains : Protocol.Explains (fun _ => (logAccess M).protocol) (fun _ _ => True)
      (fun _ _ _ => True) pool fun _ : ι => () := ⟨trivial, h⟩
  have hfollows := h i
  rw [hthread] at hfollows
  refine ⟨(hexplains.step_call logAccess_sound trivial hthread hexec).2, ?_⟩
  refine prefix_exec ?_ hexec
  rintro fd r rfl
  exact hfollows.1.2 rfl

theorem own_logOrdered {pool : Pool (Sys M) (Machine M) ι α}
    (hthreads : ∀ i, KeepsLog (pool.threads i)) (t : ι) (schedule : List ι) :
    Sys.LogOrdered (Pool.own (Posix.semantics proc) t schedule pool) := by
  refine (Pool.own_ordered (J := fun pool => ∀ i, KeepsLog (pool.threads i))
    (R := Kernel.Grows DbFile.transactions (· <+: ·)) (fun k => ?_) (fun h h' => ?_)
    KeepsLog.step hthreads).2
  · exact Kernel.Grows.refl (fun _ => List.prefix_rfl) k
  · exact Kernel.Grows.trans (r := fun old new => old <+: new)
      (fun hfirst hsecond => hfirst.trans hsecond) h h'

variable [Amount M]

private theorem session_parts {env : Env} {fuel p : Nat} {requests : List (Request M)}
    {replies : List Reply} {actions : Calls M}
    (h : (Sys.expand fuel (Request.session env requests)).Traces (Posix.exec p) actions replies) :
    ∃ parts : List (Calls M), actions = parts.flatten ∧
      parts.length = requests.length ∧ replies.length = requests.length ∧
      ∀ (n : Nat) (request : Request M) (reply : Reply) (part : Calls M),
        requests[n]? = some request → replies[n]? = some reply →
        parts[n]? = some part →
        (Sys.expand fuel (request.program env)).Traces (Posix.exec p) part reply := by
  induction requests generalizing actions replies with
  | nil =>
      obtain ⟨rfl, rfl⟩ := h
      exact ⟨[], rfl, rfl, rfl, fun n request reply part hrequest => by cases hrequest⟩
  | cons request requests ih =>
      rw [Sys.expand, Request.session, Prog.expand_bind] at h
      obtain ⟨first, second, reply, rfl, hfirst, hrest⟩ := h.of_bind
      rw [Prog.expand_bind] at hrest
      obtain ⟨second, last, others, rfl, hsecond, rfl, rfl⟩ := hrest.of_bind
      obtain ⟨parts, rfl, hparts, hreplies, htraces⟩ := ih hsecond
      refine ⟨first :: parts, by simp, by simp [hparts], by simp [hreplies], ?_⟩
      intro n request' reply' part hrequest hreply hpart
      cases n with
      | zero =>
          cases hrequest
          cases hreply
          cases hpart
          exact hfirst
      | succ n => exact htraces n request' reply' part hrequest hreply hpart

/-- A history is computed from what one scan of the file returns. -/
private theorem viewTransactions_snapshot {env : Env} {fuel p userId : Nat} {reply : Reply}
    {actions : Calls M} (hordered : Sys.LogOrdered actions)
    (h : (Sys.expand fuel ((Request.viewTransactions userId).program env)).Traces
      (Posix.exec p) actions reply) :
    ∃ action ∈ actions, ∀ db : Database M,
      db.transactions = action.before.files .transactions →
      ((Request.viewTransactions userId).handle env db).1 = reply := by
  change (Sys.scanTransactions >>= _).Traces _ _ _ at h
  obtain ⟨first, second, txns, rfl, hfirst, hsecond⟩ := h.of_bind
  obtain ⟨hscan, -, -⟩ := List.pairwise_append.mp hordered
  obtain ⟨action, hmem, rfl⟩ := Sys.scanTransactions_snapshot hscan hfirst
  refine ⟨action, List.mem_append_left _ hmem, fun db hdb => ?_⟩
  simp only [Request.handle, Request.program, viewTransactionHistory, Db.scanTransactions_bind,
    Prog.run_call, Db.exec, hdb]
  cases hfile : action.before.files .transactions with
  | none =>
      rw [hfile] at hsecond
      obtain ⟨-, rfl⟩ := hsecond
      rfl
  | some records =>
      rw [hfile] at hsecond
      obtain ⟨-, rfl⟩ := hsecond
      rfl

end Runs

/--
Any sessions of any requests, their threads interleaved system call by system call.
The calls of a thread are those of its requests, one request after the other.  Each
transaction history that is answered shows the log as it was before one of the calls of
its own request, and what a thread is shown later only adds to it.
-/
theorem histories_are_snapshots {ι : Type} [DecidableEq ι] [Amount M] (env : Env)
    (proc fuel : ι → Nat) (requests : ι → List (Request M)) (k : Machine M)
    (schedule : List ι) (pool : Pool (Sys M) (Machine M) ι (List Reply))
    (hrun : Pool.run (Posix.semantics proc) schedule
      ⟨k, fun i => Sys.expand (fuel i) (Request.session env (requests i))⟩ = some pool)
    (t : ι) (replies : List Reply) (hret : pool.Returned t replies) :
    let actions := Pool.own (Posix.semantics proc) t schedule
      ⟨k, fun i => Sys.expand (fuel i) (Request.session env (requests i))⟩
    ∃ parts : List (Calls M), actions = parts.flatten ∧
      parts.length = (requests t).length ∧
      (∀ (n : Nat) (request : Request M) (part : Calls M), (requests t)[n]? = some request →
        parts[n]? = some part → ∃ reply, replies[n]? = some reply ∧
          (Sys.expand (fuel t) (request.program env)).Traces (Posix.exec (proc t)) part reply) ∧
      (∀ (n userId : Nat) (part : Calls M), (requests t)[n]? = some (.viewTransactions userId) →
        parts[n]? = some part → ∃ action ∈ part, ∀ db : Database M,
          db.transactions = action.before.files .transactions →
          replies[n]? = some ((Request.viewTransactions userId).handle env db).1) ∧
      Sys.LogOrdered actions := by
  intro actions
  have hordered : Sys.LogOrdered actions :=
    own_logOrdered (fun i => KeepsLog.expand (fuel i) _) t schedule
  obtain ⟨parts, hparts, hlength, hreplies, htraces⟩ := session_parts (Pool.own_traces hrun hret)
  have hown : ∀ (n : Nat) (request : Request M) (part : Calls M),
      (requests t)[n]? = some request → parts[n]? = some part → ∃ reply,
        replies[n]? = some reply ∧ (Sys.expand (fuel t) (request.program env)).Traces
          (Posix.exec (proc t)) part reply := by
    intro n request part hrequest hpart
    obtain ⟨hlt, -⟩ := List.getElem?_eq_some_iff.mp hrequest
    have hreply : replies[n]? = some replies[n] := List.getElem?_eq_getElem (hreplies ▸ hlt)
    exact ⟨_, hreply, htraces n request _ part hrequest hreply hpart⟩
  refine ⟨parts, hparts, hlength, hown, fun n userId part hrequest hpart => ?_, hordered⟩
  have hpartial : Sys.LogOrdered part := by
    have hall : Sys.LogOrdered parts.flatten := hparts ▸ hordered
    exact (List.pairwise_flatten.mp hall).1 part (List.mem_of_getElem? hpart)
  obtain ⟨reply, hreply, htrace⟩ := hown n _ part hrequest hpart
  obtain ⟨action, hmem, hview⟩ := viewTransactions_snapshot hpartial htrace
  exact ⟨action, hmem, fun db hdb => hreply.trans (congrArg some (hview db hdb).symm)⟩

def historyBesideDeposit : Pool (Sys ℚ) (Machine ℚ) Bool (List Reply) where
  state.files
    | .accounts => some [(⟨1001, 1001, 3, .active⟩ : AccountRec ℚ)]
    | .transactions => some []
    | _ => none
  state.locks := []
  state.clock _ := 1
  threads i := Sys.expand 2 (Request.session .plain
    (bif i then [.viewTransactions 1001] else [.deposit 1001 5]))

/-- The deposit comes between the lock and the `lseek` of the history. -/
theorem histories_are_snapshots_late :
    let schedule := [true, true] ++ List.replicate 18 false ++ List.replicate 4 true
    ∃ pool replies, Pool.run (Posix.semantics fun _ => 7) schedule historyBesideDeposit =
        some pool ∧ pool.Returned true replies ∧
      ∃ action ∈ Pool.own (Posix.semantics fun _ => 7) true schedule historyBesideDeposit,
        ∀ db : Database ℚ, db.transactions = action.before.files .transactions →
          replies[0]? = some ((Request.viewTransactions 1001).handle .plain db).1 := by
  intro schedule
  have hreturns : ((Pool.run (Posix.semantics fun _ => 7) schedule historyBesideDeposit).bind
      fun pool => pool.result true).isSome = true := by
    decide +kernel
  obtain ⟨replies, hreplies⟩ := Option.isSome_iff_exists.mp hreturns
  obtain ⟨pool, hrun, hresult⟩ := Option.bind_eq_some_iff.mp hreplies
  have hret := Pool.returned_of_result hresult
  obtain ⟨parts, hparts, hlength, -, hviews, -⟩ := histories_are_snapshots .plain (fun _ => 7)
    (fun _ => 2) (fun i => bif i then [.viewTransactions 1001] else [.deposit 1001 5])
    historyBesideDeposit.state schedule pool hrun true replies hret
  have hnonempty : 0 < parts.length := hlength ▸ Nat.zero_lt_one
  have hpart : parts[0]? = some parts[0] := List.getElem?_eq_getElem hnonempty
  obtain ⟨action, hmem, hview⟩ := hviews 0 1001 _ rfl hpart
  refine ⟨pool, replies, hrun, hret, action, ?_, hview⟩
  rw [show Pool.own _ _ _ historyBesideDeposit = _ from hparts]
  exact List.mem_flatten.mpr ⟨_, List.mem_of_getElem? hpart, hmem⟩

end BankingSystem
