import Mathlib.Algebra.BigOperators.Fin
import Mathlib.Order.Interval.Finset.Nat
import BankingSystem.Clients.SystemCalls
import BankingSystem.Requests.Alone

/-!
# Records appended by many threads

`append_transaction`, `append_loan` and `append_feedback` read the next number off the
length of the file and store it with a later system call.  The lock between the two is
owned by the process, so another thread can append in between.
-/

namespace BankingSystem

open Foundation Posix

variable {M : Type}

/-! ## The three logs -/

inductive Log where
  | transactions
  | loans
  | feedback
  deriving DecidableEq

namespace Log

abbrev file : Log → DbFile
  | .transactions => .transactions
  | .loans => .loans
  | .feedback => .feedback

def number : (log : Log) → log.file.Rec M → Nat
  | .transactions, tx => TxnRec.txnId tx
  | .loans, loan => LoanRec.loanId loan
  | .feedback, fb => FeedbackRec.fbId fb

def setNumber : (log : Log) → log.file.Rec M → Nat → log.file.Rec M
  | .transactions, (tx : TxnRec M), n => { tx with txnId := n }
  | .loans, (loan : LoanRec M), n => { loan with loanId := n }
  | .feedback, (fb : FeedbackRec), n => { fb with fbId := n }

@[simp] theorem number_setNumber (log : Log) (r : log.file.Rec M) (n : Nat) :
    log.number (log.setNumber r n) = n := by
  cases log <;> rfl

@[simp] theorem setNumber_setNumber (log : Log) (r : log.file.Rec M) (m n : Nat) :
    log.setNumber (log.setNumber r m) n = log.setNumber r n := by
  cases log <;> rfl

private theorem file_inj {log log' : Log} (h : log.file = log'.file) : log = log' := by
  cases log <;> cases log' <;> first | rfl | cases h

end Log

structure Append (M : Type) where
  log : Log
  record : log.file.Rec M

namespace Append

def numbered (a : Append M) (n : Nat) : a.log.file.Rec M := a.log.setNumber a.record n

def program : Append M → Prog (Sys M) Bool
  | ⟨.transactions, tx⟩ => Sys.appendTransaction tx
  | ⟨.loans, loan⟩ => do
      let loanId ← Sys.appendLoan loan
      return loanId.isSome
  | ⟨.feedback, fb⟩ => do
      let fbId ← Sys.appendFeedback fb
      return fbId.isSome

theorem program_eq (a : Append M) : a.program = do
    let number ← Sys.appendRecord a.log.file a.numbered
    return number.isSome := by
  obtain ⟨log, record⟩ := a
  cases log <;> rfl

end Append

def appendAll : List (Append M) → Prog (Sys M) Unit
  | [] => return ()
  | a :: rest => do
      let _ ← a.program
      appendAll rest

/-! ## One thread -/

/-- The number that has been computed and not yet stored, and the records to append. -/
structure Appending (M : Type) where
  number : Option Nat
  todo : List (Append M)

def Appending.pending : Appending M → Option (Log × Nat)
  | ⟨some n, a :: _⟩ => some (a.log, n)
  | _ => none

def appendProtocol (M : Type) : Protocol (Sys M) (Appending M) where
  allows g
    | .openFile _ flags => g.number = none ∧ flags.create = true
    | .setLockWait _ _ _ _ | .close _ _ => g.number = none
    | .seekEnd f _ => g.number = none ∧ ∃ a todo, g.todo = a :: todo ∧ f = a.log.file
    | .write f fd r => fd.access ≠ .readOnly ∧ fd.append = true ∧ ∃ n a todo,
        g = ⟨some n, a :: todo⟩ ∧ (⟨f, r⟩ : (f : DbFile) × f.Rec M) = ⟨a.log.file, a.numbered n⟩
    | _ => False
  answers _
    | .openFile _ flags, fd => fd = some ⟨flags.access, flags.append, 0⟩
    | _, _ => True
  next g
    | .seekEnd _ _, length => ⟨some (length + 1), g.todo⟩
    | .write _ _ _, _ => ⟨none, g.todo.tail⟩
    | _, _ => g

def Appending.done (g : Appending M) (_ : Unit) : Prop := g = ⟨none, []⟩

private theorem follows_append (a : Append M) (todo : List (Append M)) :
    (appendProtocol M).Follows (fun g _ => g = ⟨none, todo⟩) ⟨none, a :: todo⟩ a.program := by
  rw [a.program_eq]
  refine Protocol.Follows.bind (Sys.follows_bind ⟨rfl, rfl⟩ fun fd hfd => ?_)
    fun g number hg => hg
  subst hfd
  refine Sys.follows_bind (M := M) rfl fun _ _ => ?_
  refine Sys.follows_bind (M := M) ⟨rfl, a, todo, rfl, rfl⟩ fun count _ => ?_
  refine Sys.follows_bind (M := M) ⟨nofun, rfl, count + 1, a, todo, rfl, rfl⟩ fun _ _ => ?_
  refine Sys.follows_bind (M := M) rfl fun _ _ => ?_
  exact Sys.follows_bind (M := M) rfl fun _ _ => rfl

private theorem follows_appendAll (jobs : List (Append M)) :
    (appendProtocol M).Follows Appending.done ⟨none, jobs⟩ (appendAll jobs) := by
  induction jobs with
  | nil => exact rfl
  | cons a rest ih =>
      refine (follows_append a rest).bind ?_
      rintro g _ rfl
      exact ih

def writesTo {α : Type} : Prog (Sys M) α → Option DbFile
  | .call (.write f _ _) _ => some f
  | _ => none

private theorem writesTo_of_follows {g : Appending M} {program : Prog (Sys M) Unit}
    (h : (appendProtocol M).Follows Appending.done g program) :
    writesTo program = g.pending.map fun waiting => waiting.1.file := by
  cases program with
  | ret value =>
      obtain rfl : g = ⟨none, []⟩ := h
      rfl
  | call call next =>
      have hallow := h.1
      obtain ⟨number, todo⟩ := g
      cases call with
      | write f fd r =>
          obtain ⟨-, -, n, a, todo, hg, hrecord⟩ := hallow
          cases hg
          cases hrecord
          rfl
      | openFile f flags | seekEnd f fd =>
          obtain rfl : number = none := hallow.1
          rfl
      | setLockWait f fd kind range | close f fd =>
          obtain rfl : number = none := hallow
          rfl
      | read | time | stall => exact hallow.elim

/-! ## All threads -/

def contents (log : Log) (records : List (log.file.Rec M)) : Multiset (log.file.Rec M) :=
  Multiset.map (fun r => log.setNumber r 0) records

def remaining (log : Log) : List (Append M) → Multiset (log.file.Rec M)
  | [] => 0
  | a :: rest =>
      (if h : a.log = log then {log.setNumber (h ▸ a.record) 0} else 0) + remaining log rest

private theorem remaining_self (a : Append M) (rest : List (Append M)) :
    remaining a.log (a :: rest) = {a.log.setNumber a.record 0} + remaining a.log rest := by
  rw [remaining, dif_pos rfl]

private theorem remaining_ne {log : Log} {a : Append M} (h : a.log ≠ log) (rest : List (Append M)) :
    remaining log (a :: rest) = remaining log rest := by
  rw [remaining, dif_neg h, zero_add]

private theorem contents_append (log : Log) (records : List (log.file.Rec M)) (r : log.file.Rec M) :
    contents log (records ++ [r]) = contents log records + {log.setNumber r 0} := by
  simp [contents, ← Multiset.coe_add]

variable {ι : Type} [Fintype ι]

structure Logged (start : Machine M) (jobs : ι → List (Append M)) (k : Machine M)
    (g : ι → Appending M) : Prop where
  kept : ∀ log : Log, start.content log.file <+: k.content log.file
  inRange : ∀ log : Log, ∀ r ∈ k.content log.file,
    1 ≤ log.number r ∧ log.number r ≤ (k.content log.file).length
  pending : ∀ i log n, (g i).pending = some (log, n) →
    1 ≤ n ∧ n ≤ (k.content log.file).length + 1
  contents_eq : ∀ log : Log,
    contents log (k.content log.file) + ∑ i, remaining log (g i).todo =
      contents log (start.content log.file) + ∑ i, remaining log (jobs i)

/-- What one system call of a thread does to the logs and to what the thread has seen. -/
inductive Moves (k k' : Machine M) (before after : Appending M) : Prop
  | quiet (hcontent : ∀ f, k'.content f = k.content f) (hbefore : before.pending = none)
      (htodo : after.todo = before.todo)
      (hafter : ∀ log n, after.pending = some (log, n) → n = (k.content log.file).length + 1)
  | append {n a todo} (hbefore : before = ⟨some n, a :: todo⟩) (hafter : after = ⟨none, todo⟩)
      (hnew : k'.content a.log.file = k.content a.log.file ++ [a.numbered n])
      (hothers : ∀ f, f ≠ a.log.file → k'.content f = k.content f)

private theorem moves_of_allows {server : Nat} {k k' : Machine M} {g : Appending M}
    {call : Call DbFile (DbFile.Rec M)} {result : Result (DbFile.Rec M) call}
    (hallow : (appendProtocol M).allows g call)
    (hexec : Posix.exec server call k = some (result, k')) :
    (appendProtocol M).answers g call result ∧
      Moves k k' g ((appendProtocol M).next g call result) := by
  obtain ⟨number, todo⟩ := g
  cases call with
  | openFile f flags =>
      obtain ⟨rfl, hcreate⟩ := hallow
      have hopen := openFile_result hexec
      have hcontent := content_exec_of_ne_write hexec fun _ _ _ hcall => by cases hcall
      refine ⟨hopen.resolve_right fun hnone => ?_, .quiet hcontent rfl rfl nofun⟩
      simp [hcreate] at hnone
  | setLockWait f fd kind range | close f fd =>
      obtain rfl : number = none := hallow
      have hcontent := content_exec_of_ne_write hexec fun _ _ _ hcall => by cases hcall
      exact ⟨trivial, .quiet hcontent rfl rfl nofun⟩
  | seekEnd f fd =>
      obtain ⟨rfl, a, todo, rfl, rfl⟩ := hallow
      have hcontent := content_exec_of_ne_write hexec fun _ _ _ hcall => by cases hcall
      refine ⟨trivial, .quiet hcontent rfl rfl ?_⟩
      rintro log n ⟨⟩
      simp only [exec, Option.some_inj, Prod.mk.injEq] at hexec
      rw [← hexec.1]
  | write f fd r =>
      obtain ⟨haccess, happend, n, a, todo, hg, hrecord⟩ := hallow
      cases hg
      cases hrecord
      simp only [exec, if_neg haccess, Option.some_inj, Prod.mk.injEq] at hexec
      obtain ⟨rfl, rfl⟩ := hexec
      refine ⟨trivial, .append rfl rfl ?_ fun f hf => k.content_setFile_ne _ hf⟩
      rw [Kernel.content_setFile_self, writePos, happend, if_pos rfl, Table.put_length]
  | read | time | stall => exact hallow.elim

section Steps

variable [DecidableEq ι] {start k k' : Machine M} {jobs : ι → List (Append M)}
  {g : ι → Appending M} {i : ι}

theorem Logged.quiet (h : Logged start jobs k g) (hcontent : ∀ f, k'.content f = k.content f)
    {after : Appending M} (htodo : after.todo = (g i).todo)
    (hafter : ∀ log n, after.pending = some (log, n) →
      n = (k.content log.file).length + 1) :
    Logged start jobs k' (Function.update g i after) where
  kept log := hcontent log.file ▸ h.kept log
  inRange log := hcontent log.file ▸ h.inRange log
  pending j log n hpending := by
    rw [hcontent]
    by_cases hj : j = i
    · subst hj
      rw [Function.update_self] at hpending
      have hseen := hafter log n hpending
      omega
    · rw [Function.update_of_ne hj] at hpending
      exact h.pending j log n hpending
  contents_eq log := by
    rw [hcontent, ← h.contents_eq log]
    refine congrArg _ (Finset.sum_congr rfl fun j _ => ?_)
    by_cases hj : j = i
    · subst hj
      rw [Function.update_self, htodo]
    · rw [Function.update_of_ne hj]

theorem Logged.append (h : Logged start jobs k g) {n : Nat} {a : Append M}
    {todo : List (Append M)} (hg : g i = ⟨some n, a :: todo⟩)
    (hnew : k'.content a.log.file = k.content a.log.file ++ [a.numbered n])
    (hothers : ∀ f, f ≠ a.log.file → k'.content f = k.content f) :
    Logged start jobs k' (Function.update g i ⟨none, todo⟩) where
  kept log := by
    by_cases hlog : log = a.log
    · subst hlog
      exact hnew ▸ (h.kept _).trans (List.prefix_append _ _)
    · rw [hothers _ fun hfile => hlog (Log.file_inj hfile)]
      exact h.kept log
  inRange log r hr := by
    by_cases hlog : log = a.log
    · subst hlog
      rw [hnew] at hr ⊢
      rw [List.length_append, List.length_singleton]
      rcases List.mem_append.mp hr with hold | hlast
      · have hrange := h.inRange _ r hold
        omega
      · rw [List.mem_singleton.mp hlast, Append.numbered, Log.number_setNumber]
        exact h.pending i a.log n (by rw [hg]; rfl)
    · rw [hothers _ fun hfile => hlog (Log.file_inj hfile)] at hr ⊢
      exact h.inRange log r hr
  pending j log m hpending := by
    by_cases hj : j = i
    · subst hj
      rw [Function.update_self] at hpending
      cases hpending
    · rw [Function.update_of_ne hj] at hpending
      have hold := h.pending j log m hpending
      by_cases hlog : log = a.log
      · subst hlog
        rw [hnew, List.length_append]
        omega
      · rwa [hothers _ fun hfile => hlog (Log.file_inj hfile)]
  contents_eq log := by
    have hsum := sum_comp_update_add (fun g : Appending M => remaining log g.todo) g i
      ⟨none, todo⟩
    simp only [hg] at hsum
    rw [← h.contents_eq log]
    by_cases hlog : a.log = log
    · subst hlog
      rw [remaining_self, ← add_assoc, add_left_inj] at hsum
      rw [hnew, contents_append, Append.numbered, Log.setNumber_setNumber, ← hsum, add_assoc,
        add_comm {_}]
    · rw [remaining_ne hlog, add_left_inj] at hsum
      rw [hothers _ fun hfile => hlog (Log.file_inj hfile).symm, hsum]

theorem Logged.moves (h : Logged start jobs k g) {after : Appending M}
    (hmoves : Moves k k' (g i) after) : Logged start jobs k' (Function.update g i after) := by
  cases hmoves with
  | quiet hcontent _ htodo hafter => exact h.quiet hcontent htodo hafter
  | append hbefore hafter hnew hothers =>
      subst hafter
      exact h.append hbefore hnew hothers

private theorem append_sound (server : Nat) (start : Machine M) (jobs : ι → List (Append M)) :
    Protocol.Sound (fun _ : ι => appendProtocol M) (Posix.semantics fun _ => server)
      (Logged start jobs) fun _ _ _ => True where
  step h _ hallow hexec := by
    obtain ⟨hanswer, hmoves⟩ := moves_of_allows hallow hexec
    exact ⟨hanswer, h.moves hmoves⟩

end Steps

/-! ## Numbers -/

/-- The numbers in each log are distinct, and the search finds each loan where it is. -/
structure Unambiguous (k : Machine M) : Prop where
  numbers : ∀ log : Log, ((k.content log.file).map log.number).Nodup
  found : ∀ (i : Nat) (loan : LoanRec M), (k.content .loans)[i]? = some loan →
    ∀ fuel, (k.content .loans).length < fuel →
      Sys.Ends (Sys.findLoanOffset fuel loan.loanId) k.disk (some i) k.disk

private theorem Unambiguous.of_numbers {k : Machine M}
    (h : ∀ log : Log, ((k.content log.file).map log.number).Nodup) : Unambiguous k where
  numbers := h
  found i loan hloan fuel hfuel := by
    have hends := Sys.findOffset_ends (f := .loans) (d := k.disk)
      (fun tmp => tmp.loanId = loan.loanId) hfuel
    suffices hlocate : Table.locate LoanRec.loanId loan.loanId (k.content .loans) = some i by
      rw [show (k.disk.content .loans).findIdx? _ = some i from hlocate] at hends
      exact hends
    refine Table.locate_eq_some_iff.mpr ⟨loan, hloan, rfl, fun j other hj hother hkey => ?_⟩
    have hsame := Table.getElem?_key_inj (h .loans) hloan hother hkey
    omega

/-- The numbers are those of the positions, and each pending number is the next one. -/
structure Current {ι : Type} (k : Machine M) (g : ι → Appending M) : Prop where
  numbers : ∀ log : Log,
    (k.content log.file).map log.number = List.range' 1 (k.content log.file).length
  next : ∀ i log n, (g i).pending = some (log, n) → n = (k.content log.file).length + 1

/-- Two records have one number, or will have once they are written. -/
def Doomed {ι : Type} (k : Machine M) (g : ι → Appending M) : Prop :=
  (∃ log : Log, ¬ ((k.content log.file).map log.number).Nodup) ∨
    ∃ i log n, (g i).pending = some (log, n) ∧ n ≤ (k.content log.file).length

private theorem mem_of_range {keys : List Nat} (hnodup : keys.Nodup)
    (hrange : ∀ key ∈ keys, 1 ≤ key ∧ key ≤ keys.length) {n : Nat} (hn : 1 ≤ n)
    (hle : n ≤ keys.length) : n ∈ keys := by
  have hsubset : keys.toFinset ⊆ Finset.Icc 1 keys.length := by
    intro key hkey
    exact Finset.mem_Icc.mpr (hrange key (List.mem_toFinset.mp hkey))
  have hcard : (Finset.Icc 1 keys.length).card ≤ keys.toFinset.card := by
    rw [Nat.card_Icc, List.toFinset_card_of_nodup hnodup]
    omega
  rw [← List.mem_toFinset, Finset.eq_of_subset_of_card_le hsubset hcard]
  exact Finset.mem_Icc.mpr ⟨hn, hle⟩

section Numbers

variable [DecidableEq ι] {start k k' : Machine M} {jobs : ι → List (Append M)}
  {g : ι → Appending M} {i : ι} {after : Appending M}

omit [Fintype ι] in
theorem Current.moves (h : Current k g) (hmoves : Moves k k' (g i) after)
    (halone : ∀ log n, (g i).pending = some (log, n) → ∀ j, j ≠ i → ∀ n',
      (g j).pending ≠ some (log, n')) : Current k' (Function.update g i after) := by
  cases hmoves with
  | quiet hcontent _ _ hafter =>
      refine ⟨fun log => hcontent log.file ▸ h.numbers log, fun j log n hpending => ?_⟩
      rw [hcontent]
      by_cases hj : j = i
      · subst hj
        rw [Function.update_self] at hpending
        exact hafter log n hpending
      · rw [Function.update_of_ne hj] at hpending
        exact h.next j log n hpending
  | @append n a todo hbefore hafter hnew hothers =>
      have hpending : (g i).pending = some (a.log, n) := by rw [hbefore]; rfl
      have hn := h.next i a.log n hpending
      refine ⟨fun log => ?_, fun j log m hj => ?_⟩
      · by_cases hlog : log = a.log
        · subst hlog
          rw [hnew, List.map_append, h.numbers, List.length_append, List.length_singleton,
            List.range'_concat, List.map_singleton, Append.numbered, Log.number_setNumber, hn,
            Nat.one_mul, Nat.add_comm 1]
        · rw [hothers _ fun hfile => hlog (Log.file_inj hfile)]
          exact h.numbers log
      · by_cases hji : j = i
        · rw [hji, Function.update_self, hafter] at hj
          cases hj
        · rw [Function.update_of_ne hji] at hj
          have hlog : log ≠ a.log := by
            rintro rfl
            exact halone a.log n hpending j hji m hj
          rw [hothers _ fun hfile => hlog (Log.file_inj hfile)]
          exact h.next j log m hj

omit [Fintype ι] [DecidableEq ι] in
private theorem Moves.prefix_content {before : Appending M} (hmoves : Moves k k' before after)
    (log : Log) : k.content log.file <+: k'.content log.file := by
  cases hmoves with
  | quiet hcontent => rw [hcontent]
  | @append n a todo _ _ hnew hothers =>
      by_cases hlog : log = a.log
      · subst hlog
        exact hnew ▸ List.prefix_append _ _
      · rw [hothers _ fun hfile => hlog (Log.file_inj hfile)]

theorem Doomed.moves (h : Doomed k g) (hlogged : Logged start jobs k g)
    (hmoves : Moves k k' (g i) after) : Doomed k' (Function.update g i after) := by
  rcases h with ⟨log, hdouble⟩ | ⟨j, log, n, hpending, hle⟩
  · exact .inl ⟨log, fun hnodup =>
      hdouble (((hmoves.prefix_content log).map log.number).sublist.nodup hnodup)⟩
  · by_cases hj : j = i
    · subst hj
      cases hmoves with
      | quiet _ hbefore => simp [hbefore] at hpending
      | @append _ a _ hbefore _ hnew _ =>
          rw [hbefore] at hpending
          cases hpending
          refine .inl ⟨a.log, fun hnodup => ?_⟩
          rw [hnew, List.map_append, List.map_singleton, Append.numbered, Log.number_setNumber,
            List.nodup_append] at hnodup
          obtain ⟨hold, -, hfresh⟩ := hnodup
          have hrange := hlogged.pending j a.log n (by rw [hbefore]; rfl)
          refine hfresh n (mem_of_range hold ?_ hrange.1 (by simpa using hle)) n (by simp) rfl
          intro key hkey
          obtain ⟨r, hr, rfl⟩ := List.mem_map.mp hkey
          rw [List.length_map]
          exact hlogged.inRange a.log r hr
    · refine .inr ⟨j, log, n, by rwa [Function.update_of_ne hj], ?_⟩
      exact Nat.le_trans hle (hmoves.prefix_content log).length_le

private theorem doomed_of_overlap (hlogged : Logged start jobs k g)
    (hmoves : Moves k k' (g i) after)
    {log : Log} {n n' : Nat} {j : ι} (hpending : (g i).pending = some (log, n)) (hj : j ≠ i)
    (hother : (g j).pending = some (log, n')) : Doomed k' (Function.update g i after) := by
  cases hmoves with
  | quiet _ hbefore => simp [hbefore] at hpending
  | append hbefore _ hnew =>
      rw [hbefore] at hpending
      cases hpending
      refine .inr ⟨j, _, n', by rwa [Function.update_of_ne hj], ?_⟩
      rw [hnew, List.length_append]
      exact (hlogged.pending j _ n' hother).2

end Numbers

/-! ## Every interleaving -/

section Runs

variable [DecidableEq ι] {start : Machine M} {jobs : ι → List (Append M)}

omit [Fintype ι] in
def AppendsAlone (pool : Pool (Sys M) (Machine M) ι Unit) (i : ι) : Prop :=
  ∀ f ∈ writesTo (pool.threads i), ∀ j, j ≠ i → f ∉ writesTo (pool.threads j)

instance (pool : Pool (Sys M) (Machine M) ι Unit) (i : ι) : Decidable (AppendsAlone pool i) :=
  inferInstanceAs (Decidable (∀ f ∈ writesTo (pool.threads i), ∀ j, j ≠ i →
    f ∉ writesTo (pool.threads j)))

abbrev ExplainsAppends (start : Machine M) (jobs : ι → List (Append M))
    (pool : Pool (Sys M) (Machine M) ι Unit) (g : ι → Appending M) : Prop :=
  Protocol.Explains (fun _ => appendProtocol M) (Logged start jobs)
    (fun _ => Appending.done) pool g

variable {pool pool' : Pool (Sys M) (Machine M) ι Unit} {g : ι → Appending M}
  {schedule : List ι} {server : Nat}

private theorem appends_step {i : ι} (h : ExplainsAppends start jobs pool g)
    (hstep : pool.step (Posix.semantics fun _ => server) i = some pool') :
    ∃ after, Moves pool.state pool'.state (g i) after ∧
      ExplainsAppends start jobs pool' (Function.update g i after) := by
  obtain ⟨call, next, result, k', hthread, hexec, rfl⟩ := Pool.step_eq_some_iff.mp hstep
  have hfollows := h.2 i
  rw [hthread] at hfollows
  exact ⟨_, (moves_of_allows hfollows.1 hexec).2,
    h.step_call (append_sound server start jobs) trivial hthread hexec⟩

omit [DecidableEq ι] in
private theorem pending_file (h : ExplainsAppends start jobs pool g) (i : ι) :
    writesTo (pool.threads i) = (g i).pending.map fun waiting => waiting.1.file :=
  writesTo_of_follows (h.2 i)

private theorem current_run (h : ExplainsAppends start jobs pool g)
    (hcurrent : Current pool.state g)
    (halone : Pool.Along (Posix.semantics fun _ => server) AppendsAlone schedule pool)
    (hrun : Pool.run (Posix.semantics fun _ => server) schedule pool = some pool') :
    ∃ g', ExplainsAppends start jobs pool' g' ∧ Current pool'.state g' := by
  refine Pool.run_invariant
    (I := fun pool => ∃ g, ExplainsAppends start jobs pool g ∧ Current pool.state g)
    ?_ ⟨g, h, hcurrent⟩ halone hrun
  rintro pool i pool' ⟨g, h, hcurrent⟩ hQ hstep
  obtain ⟨after, hmoves, h'⟩ := appends_step h hstep
  refine ⟨_, h', hcurrent.moves hmoves fun log n hpending j hj n' hother => ?_⟩
  refine hQ log.file ?_ j hj ?_
  · simp [pending_file h, hpending]
  · simp [pending_file h, hother]

private theorem doomed_run (h : ExplainsAppends start jobs pool g) (hdoomed : Doomed pool.state g)
    (hrun : Pool.run (Posix.semantics fun _ => server) schedule pool = some pool') :
    ∃ g', ExplainsAppends start jobs pool' g' ∧ Doomed pool'.state g' := by
  refine Pool.run_invariant (Q := fun _ _ => True)
    (I := fun pool => ∃ g, ExplainsAppends start jobs pool g ∧ Doomed pool.state g)
    ?_ ⟨g, h, hdoomed⟩ (Pool.along_of_always (fun _ _ => trivial) schedule pool) hrun
  rintro pool i pool' ⟨g, h, hdoomed⟩ - hstep
  obtain ⟨after, hmoves, h'⟩ := appends_step h hstep
  exact ⟨_, h', hdoomed.moves h.1 hmoves⟩

private theorem along_or_doomed (h : ExplainsAppends start jobs pool g)
    (hrun : Pool.run (Posix.semantics fun _ => server) schedule pool = some pool') :
    Pool.Along (Posix.semantics fun _ => server) AppendsAlone schedule pool ∨
      ∃ g', ExplainsAppends start jobs pool' g' ∧ Doomed pool'.state g' := by
  induction schedule generalizing pool g with
  | nil => exact .inl trivial
  | cons i schedule ih =>
      obtain ⟨middle, hstep, hrest⟩ := Pool.run_cons_eq_some_iff.mp hrun
      obtain ⟨after, hmoves, h'⟩ := appends_step h hstep
      by_cases halone : AppendsAlone pool i
      · refine (ih h' hrest).imp_left fun halong => ⟨halone, fun other hother => ?_⟩
        rw [hstep] at hother
        cases hother
        exact halong
      · refine .inr (doomed_run h' ?_ hrest)
        simp only [AppendsAlone, not_forall, not_not] at halone
        obtain ⟨f, hf, j, hj, hother⟩ := halone
        rw [pending_file h] at hf hother
        obtain ⟨⟨log, n⟩, hpending, rfl⟩ := Option.map_eq_some_iff.mp hf
        obtain ⟨⟨log', n'⟩, hpending', hfile⟩ := Option.map_eq_some_iff.mp hother
        obtain rfl := Log.file_inj hfile
        exact doomed_of_overlap h.1 hmoves hpending hj hpending'

private theorem prefix_run (h : ExplainsAppends start jobs pool g)
    (hrun : Pool.run (Posix.semantics fun _ => server) schedule pool = some pool')
    (log : Log) : pool.state.content log.file <+: pool'.state.content log.file := by
  have hgrown : ∃ g', ExplainsAppends start jobs pool' g' ∧
      pool.state.content log.file <+: pool'.state.content log.file := by
    refine Pool.run_invariant (Q := fun _ _ => True) (I := fun pool' => ∃ g',
      ExplainsAppends start jobs pool' g' ∧
        pool.state.content log.file <+: pool'.state.content log.file)
      ?_ ⟨g, h, List.prefix_refl _⟩ (Pool.along_of_always (fun _ _ => trivial) schedule pool) hrun
    rintro middle i pool' ⟨g, h, hgrown⟩ - hstep
    obtain ⟨after, hmoves, h'⟩ := appends_step h hstep
    exact ⟨_, h', hgrown.trans (hmoves.prefix_content log)⟩
  exact hgrown.choose_spec.2

end Runs

/--
Client threads of one server process append any records to logs that are numbered in
file order, interleaved system call by system call.  No record is lost or overwritten,
and in the end the logs hold what they held before and what has been appended.  The
numbers stay distinct if no thread ever writes to a log while another is about to, and
if all threads have returned, only then.
-/
theorem appended_records [DecidableEq ι] (server : Nat) (jobs : ι → List (Append M))
    (k : Machine M) (schedule : List ι) (pool : Pool (Sys M) (Machine M) ι Unit)
    (hnumbers : ∀ log : Log,
      (k.content log.file).map log.number = List.range' 1 (k.content log.file).length)
    (hrun : Pool.run (Posix.semantics fun _ => server) schedule
      ⟨k, fun i => appendAll (jobs i)⟩ = some pool) :
    (∀ first second middle, schedule = first ++ second →
      Pool.run (Posix.semantics fun _ => server) first ⟨k, fun i => appendAll (jobs i)⟩ =
        some middle →
      ∀ log : Log, middle.state.content log.file <+: pool.state.content log.file) ∧
    (pool.AllReturned → ∀ log : Log, contents log (pool.state.content log.file) =
      contents log (k.content log.file) + ∑ i, remaining log (jobs i)) ∧
    (Pool.Along (Posix.semantics fun _ => server) AppendsAlone schedule
      ⟨k, fun i => appendAll (jobs i)⟩ → Unambiguous pool.state) ∧
    (pool.AllReturned → Unambiguous pool.state →
      Pool.Along (Posix.semantics fun _ => server) AppendsAlone schedule
        ⟨k, fun i => appendAll (jobs i)⟩) := by
  have hinit : ExplainsAppends k jobs ⟨k, fun i => appendAll (jobs i)⟩ fun i =>
      ⟨none, jobs i⟩ := by
    refine ⟨⟨fun _ => List.prefix_refl _, fun log r hr => ?_, nofun, fun _ => rfl⟩,
      fun i => follows_appendAll (jobs i)⟩
    have hmem := List.mem_map_of_mem (f := log.number) hr
    rw [hnumbers, List.mem_range'_1] at hmem
    exact ⟨hmem.1, Nat.lt_one_add_iff.mp hmem.2⟩
  have hdone : ∀ {pool : Pool (Sys M) (Machine M) ι Unit} {g : ι → Appending M},
      ExplainsAppends k jobs pool g → pool.AllReturned → ∀ i, g i = ⟨none, []⟩ := by
    intro pool g h hreturned i
    obtain ⟨value, hret⟩ := hreturned i
    exact h.returned hret
  refine ⟨fun first second middle hsplit hfirst log => ?_, fun hreturned log => ?_,
    fun halong => ?_, fun hreturned hdistinct => ?_⟩
  · subst hsplit
    obtain ⟨middle', hfirst', hsecond⟩ := Pool.run_append_eq_some_iff.mp hrun
    rw [hfirst] at hfirst'
    cases hfirst'
    obtain ⟨g, h⟩ := (append_sound server k jobs).run hinit
      (Pool.along_of_always (fun _ _ _ _ _ => trivial) first _) hfirst
    exact prefix_run h hsecond log
  · obtain ⟨g, h⟩ := (append_sound server k jobs).run hinit
      (Pool.along_of_always (fun _ _ _ _ _ => trivial) schedule _) hrun
    have hsum := h.1.contents_eq log
    simp only [hdone h hreturned, remaining, Finset.sum_const_zero, add_zero] at hsum
    exact hsum
  · obtain ⟨g, h, hcurrent⟩ := current_run hinit ⟨hnumbers, nofun⟩ halong hrun
    exact .of_numbers fun log => hcurrent.numbers log ▸ List.nodup_range'
  · rcases along_or_doomed hinit hrun with halong | ⟨g, h, hdoomed⟩
    · exact halong
    · rcases hdoomed with ⟨log, hdouble⟩ | ⟨i, log, n, hpending, -⟩
      · exact absurd (hdistinct.numbers log) hdouble
      · rw [hdone h hreturned i] at hpending
        cases hpending

def noFiles : Machine ℚ where
  files _ := none
  locks := []
  clock _ := 1

def twoLoanJobs : Fin 2 → List (Append ℚ) :=
  ![[⟨.loans, (⟨0, 1001, 3, .pending, 0, 1, 0⟩ : LoanRec ℚ)⟩],
    [⟨.loans, (⟨0, 1002, 5, .pending, 0, 1, 0⟩ : LoanRec ℚ)⟩]]

def twoLoans : Pool (Sys ℚ) (Machine ℚ) (Fin 2) Unit :=
  ⟨noFiles, fun i => appendAll (twoLoanJobs i)⟩

/-- Both have locked the file when the first one reads its length. -/
theorem appended_records_two_loans : ∃ pool,
    Pool.run (Posix.semantics fun _ => 7) [0, 0, 1, 1, 0, 0, 1, 1, 0, 0, 1, 1] twoLoans =
      some pool ∧
    contents .loans (pool.state.content .loans) = {⟨0, 1001, 3, .pending, 0, 1, 0⟩} +
      {⟨0, 1002, 5, .pending, 0, 1, 0⟩} ∧ Unambiguous pool.state := by
  obtain ⟨pool, hrun, hret⟩ := Pool.exists_run (Posix.semantics fun _ => 7)
    [0, 0, 1, 1, 0, 0, 1, 1, 0, 0, 1, 1] twoLoans (fun _ => ()) (by decide +kernel)
  have happended := appended_records 7 twoLoanJobs noFiles _ pool
    (fun log => by cases log <;> rfl) hrun
  refine ⟨pool, hrun, ?_, happended.2.2.1 (by decide +kernel)⟩
  refine (happended.2.1 (fun i => ⟨(), hret i⟩) .loans).trans ?_
  simp [Fin.sum_univ_two, twoLoanJobs, contents, noFiles, Kernel.content, remaining,
    Log.setNumber]

/-- Both read the length 0 under the lock of their process, and both loans get the number 1. -/
theorem loans_share_a_number :
    ¬ ∀ schedule pool, Pool.run (Posix.semantics fun _ => 7) schedule twoLoans = some pool →
      Unambiguous pool.state := by
  intro h
  obtain ⟨pool, hrun, -⟩ := Pool.exists_run (Posix.semantics fun _ => 7)
    [0, 0, 0, 1, 1, 1, 0, 0, 0, 1, 1, 1] twoLoans (fun _ => ()) (by decide +kernel)
  have hnumbers : ((Pool.run (Posix.semantics fun _ => 7)
      [0, 0, 0, 1, 1, 1, 0, 0, 0, 1, 1, 1] twoLoans).map fun pool =>
      (pool.state.content .loans).map LoanRec.loanId) = some [1, 1] := by
    decide +kernel
  rw [hrun, Option.map_some, Option.some_inj] at hnumbers
  have hdistinct : ((pool.state.content .loans).map LoanRec.loanId).Nodup :=
    (h _ pool hrun).numbers .loans
  rw [hnumbers] at hdistinct
  exact absurd hdistinct (by decide)

end BankingSystem
