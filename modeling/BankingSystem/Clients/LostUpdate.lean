import BankingSystem.Clients.Interleaving
import BankingSystem.Clients.SystemCalls
import Mathlib.Data.Fin.VecNotation
import Mathlib.Data.Fintype.Basic
import Mathlib.Tactic.FinCases

/-!
# Deposits and withdrawals, one system call at a time

The record lock of `atomic_update_account` is owned by the server process and
keeps no other thread of that process out.  No update is lost as long as each
account record is written while the file still holds the record that was read.
-/

namespace BankingSystem

open Foundation Posix

/-! ## One deposit or withdrawal -/

def Request.modify : Request ℚ → AccountRec ℚ → Option (AccountRec ℚ)
  | .deposit _ amount => depositModifier amount
  | .withdraw _ amount => withdrawModifier amount
  | _ => fun _ => none

def Request.effect : Request ℚ → ℚ
  | .deposit _ amount => amount
  | .withdraw _ amount => -amount
  | _ => 0

private theorem Request.modify_eq {request : Request ℚ} {acc acc' : AccountRec ℚ}
    (h : request.modify acc = some acc') :
    acc' = { acc with balance := acc.balance + request.effect } := by
  cases request with
  | deposit userId amount => exact (depositModifier_eq_some_iff.mp h).2
  | withdraw userId amount =>
      obtain ⟨-, -, rfl⟩ := withdrawModifier_eq_some_iff.mp h
      simp [Request.effect, sub_eq_add_neg]
  | _ => cases h

def updateProtocol (userId : Nat) : Protocol (Db ℚ) Bool where
  allows written
    | .updateAccount payee _ => written = false ∧ payee = userId
    | .readAccount _ | .appendTransaction _ | .time => True
    | _ => False
  answers _ _ _ := True
  next written
    | .updateAccount _ _, success => success
    | _, _ => written

section Follows

variable (userId : Nat) (amount : ℚ)

private theorem follows_depositMoney_update :
    (updateProtocol userId).Follows (fun written reply => written = reply.result) false
      (depositMoney userId amount) := by
  unfold depositMoney
  by_cases hpos : amount ≤ 0
  · rw [if_pos hpos]
    exact rfl
  · rw [if_neg hpos]
    refine Db.follows_bind ⟨rfl, rfl⟩ fun success _ => ?_
    cases success with
    | true =>
        refine Db.follows_bind trivial fun now _ => ?_
        exact Db.follows_bind trivial fun _ _ => rfl
    | false =>
        refine Db.follows_bind trivial fun acc _ => ?_
        split
        · split <;> exact rfl
        · exact rfl

private theorem follows_withdrawMoney_update :
    (updateProtocol userId).Follows (fun written reply => written = reply.result) false
      (withdrawMoney userId amount) := by
  unfold withdrawMoney
  by_cases hpos : amount ≤ 0
  · rw [if_pos hpos]
    exact rfl
  · rw [if_neg hpos]
    refine Db.follows_bind ⟨rfl, rfl⟩ fun success _ => ?_
    cases success with
    | true =>
        refine Db.follows_bind trivial fun now _ => ?_
        exact Db.follows_bind trivial fun _ _ => rfl
    | false => exact Db.follows_bind trivial fun acc _ => rfl

end Follows

/-! ## Its system calls -/

/--
The ids in `accounts.db` are `ids` all the time, and an account record is written
once, over the first record of the user.
-/
def accountAccesses (ids : List Nat) (userId : Nat) :
    Accesses DbFile (DbFile.Rec ℚ) Bool where
  reads
    | .accounts, pos, acc => acc.map AccountRec.userId = ids[pos]?
    | _, _, _ => True
  writes written
    | .accounts, fd, _ =>
        written = false ∧ fd.append = false ∧ Table.locate id userId ids = some fd.pos
    | .transactions, _, _ => True
    | _, _, _ => False
  after written
    | .accounts, _ => true
    | _, _ => written

variable {ids : List Nat} {userId : Nat}

private theorem follows_helper (fuel : Nat) (written : Bool) (cmd : Db.Cmd ℚ)
    (hallow : (updateProtocol userId).allows written cmd) :
    (accountAccesses ids userId).protocol.Follows (fun written' answer =>
      (updateProtocol userId).answers written cmd answer ∧
        written' = (updateProtocol userId).next written cmd answer) written
      (Sys.helper fuel cmd) := by
  cases cmd with
  | updateAccount payee modifier =>
      obtain ⟨rfl, rfl⟩ := hallow
      refine (Sys.follows_atomicUpdateAccount (accountAccesses ids payee) false fuel payee
        modifier.apply fun pos acc acc' hfirst => ⟨rfl, rfl, ?_⟩).imp ?_
      · exact Sys.FirstRead.locate (fun pos acc hread => Eq.symm hread) hfirst
      · rintro written success (⟨rfl, rfl⟩ | ⟨rfl, acc, rfl⟩) <;> exact ⟨trivial, rfl⟩
  | readAccount payee =>
      exact (Sys.follows_readRecord _ written fuel _).imp
        fun _ _ hwritten => ⟨trivial, hwritten⟩
  | appendTransaction tx =>
      refine (Sys.follows_appendTransaction (accountAccesses ids userId) written tx
        (fun _ _ => trivial) fun _ => rfl).imp ?_
      rintro written' success ⟨rfl, -⟩
      exact ⟨trivial, rfl⟩
  | time => exact Sys.follows_bind trivial fun _ _ => ⟨trivial, rfl⟩
  | _ => exact hallow.elim

/-! ## All of them together -/

variable {ι : Type} [Fintype ι] [DecidableEq ι]

/--
The record about to be written is what the request makes of the record that is in
the file at this moment.
-/
def WritesCurrent (requests : ι → Request ℚ) (k : Machine ℚ) (i : ι) :
    Call DbFile (DbFile.Rec ℚ) → Prop
  | .write .accounts fd acc =>
      (k.content .accounts)[fd.pos]?.bind (requests i).modify = some acc
  | _ => True

instance (requests : ι → Request ℚ) (k : Machine ℚ) (i : ι) :
    (c : Call DbFile (DbFile.Rec ℚ)) → Decidable (WritesCurrent requests k i c)
  | .write .accounts _ _ => inferInstanceAs (Decidable (_ = _))
  | .write .users _ _ | .write .transactions _ _ | .write .loans _ _
  | .write .feedback _ _ | .openFile _ _ | .setLockWait _ _ _ _ | .read _ _ | .seekEnd _ _
  | .close _ _ | .time | .stall => .isTrue trivial

structure Tallied (ids : List Nat) (userId : Nat) (acc : AccountRec ℚ)
    (requests : ι → Request ℚ) (k : Machine ℚ) (written : ι → Bool) : Prop where
  ids_eq : (k.content .accounts).map AccountRec.userId = ids
  balance : ∃ pos, Table.locate id userId ids = some pos ∧
    (k.content .accounts)[pos]? = some { acc with
      balance := acc.balance + ∑ i, if written i then (requests i).effect else 0 }

private theorem tallied_write {acc acc' : AccountRec ℚ} {requests : ι → Request ℚ}
    {k k' : Machine ℚ} {written : ι → Bool} {i : ι} {pos : Nat}
    (h : Tallied ids userId acc requests k written) (hidle : written i = false)
    (hpos : Table.locate id userId ids = some pos)
    (hcurrent : (k.content .accounts)[pos]?.bind (requests i).modify = some acc')
    (hcontent : k'.content .accounts = Table.put (k.content .accounts) pos acc') :
    Tallied ids userId acc requests k' (Function.update written i true) := by
  obtain ⟨pos', hpos', hold⟩ := h.balance
  have hsame : pos' = pos := Option.some_inj.mp (hpos'.symm.trans hpos)
  subst hsame
  rw [hold, Option.bind_some] at hcurrent
  have hnew := Request.modify_eq hcurrent
  obtain ⟨hlt, -⟩ := List.getElem?_eq_some_iff.mp hold
  rw [Table.put_of_lt hlt] at hcontent
  constructor
  · rw [hcontent, Table.map_key_set hold (by rw [hnew]), h.ids_eq]
  · refine ⟨pos', hpos, ?_⟩
    have hsum := sum_update_apply (fun j w => if w then (requests j).effect else 0)
      written i true
    simp only [hidle, if_true, Bool.false_eq_true, if_false, sub_zero] at hsum
    rw [hcontent, List.getElem?_set_self hlt, hnew, hsum]
    simp [add_assoc]

private theorem account_sound (server : Nat) (acc : AccountRec ℚ) (requests : ι → Request ℚ) :
    Protocol.Sound (fun _ : ι => (accountAccesses ids userId).protocol)
      (Posix.semantics fun _ => server) (Tallied ids userId acc requests)
      (WritesCurrent requests) := by
  refine Accesses.sound (A := fun _ : ι => accountAccesses ids userId) ?_ ?_ ?_
  · intro k written i f pos h
    cases f with
    | accounts => exact h.ids_eq ▸ List.getElem?_map.symm
    | _ => trivial
  · intro k k' written h hcontent
    exact ⟨hcontent .accounts ▸ h.ids_eq, hcontent .accounts ▸ h.balance⟩
  · intro k written i f fd r h hcurrent hwrites
    cases f with
    | accounts =>
        obtain ⟨hidle, happend, hpos⟩ := hwrites
        refine tallied_write h hidle hpos hcurrent ?_
        rw [Kernel.content_setFile_self, writePos, happend]
        rfl
    | transactions =>
        have hsame : (k.setFile .transactions
            (Table.put (k.content .transactions) (writePos fd (k.content .transactions)) r)).content
              .accounts = k.content .accounts := k.content_setFile_ne _ nofun
        rw [show (accountAccesses ids userId).after (written i) .transactions r = written i from
          rfl, Function.update_eq_self]
        exact ⟨hsame ▸ h.ids_eq, hsame ▸ h.balance⟩
    | _ => exact hwrites.elim

/--
Any number of deposits to and withdrawals from one account, by threads of one
server process, interleaved system call by system call.  If every account record
is written while the file still holds the record it was made from, then in the end
the balance has changed by the requests that answered 1.
-/
theorem no_lost_update (env : Env) (fuel server : Nat) (requests : ι → Request ℚ)
    (k : Machine ℚ) (acc : AccountRec ℚ) (schedule : List ι)
    (pool : Pool (Sys ℚ) (Machine ℚ) ι Reply) (replies : ι → Reply)
    (hrequests : ∀ i, ∃ amount,
      requests i = .deposit userId amount ∨ requests i = .withdraw userId amount)
    (hacc : Table.lookup AccountRec.userId userId (k.content .accounts) = some acc)
    (hcurrent : Pool.Along (Posix.semantics fun _ => server)
      (Pool.Guard (WritesCurrent requests)) schedule
      ⟨k, fun i => Sys.expand fuel ((requests i).program env)⟩)
    (hrun : Pool.run (Posix.semantics fun _ => server) schedule
      ⟨k, fun i => Sys.expand fuel ((requests i).program env)⟩ = some pool)
    (hret : ∀ i, pool.Returned i (replies i)) :
    Table.lookup AccountRec.userId userId (pool.state.content .accounts) = some { acc with
      balance := acc.balance +
        ∑ i, if (replies i).result then (requests i).effect else 0 } := by
  obtain ⟨pos, hpos, hpos_acc⟩ := Table.locate_of_lookup hacc
  have hlocate : Table.locate id userId ((k.content .accounts).map AccountRec.userId) =
      some pos := Table.locate_eq_map.symm.trans hpos
  have hinit : Protocol.Explains
      (fun _ : ι => (accountAccesses ((k.content .accounts).map AccountRec.userId)
        userId).protocol)
      (Tallied ((k.content .accounts).map AccountRec.userId) userId acc requests)
      (fun _ written reply => written = reply.result)
      ⟨k, fun i => Sys.expand fuel ((requests i).program env)⟩ fun _ => false := by
    refine ⟨⟨rfl, pos, hlocate, by simpa using hpos_acc⟩, fun i => ?_⟩
    refine Protocol.Follows.expand (follows_helper fuel) ?_
    obtain ⟨amount, hdeposit | hwithdraw⟩ := hrequests i
    · rw [hdeposit]
      exact follows_depositMoney_update userId amount
    · rw [hwithdraw]
      exact follows_withdrawMoney_update userId amount
  obtain ⟨written, hexplains⟩ := (account_sound server acc requests).run hinit hcurrent hrun
  obtain ⟨hids, pos', hpos', hbalance⟩ := hexplains.1
  have hfound : Table.locate AccountRec.userId userId (pool.state.content .accounts) =
      some pos' := by rw [Table.locate_eq_map, hids, hpos']
  have hwritten : ∀ i, written i = (replies i).result := fun i => hexplains.returned (hret i)
  rw [Table.lookup_of_locate hfound, hbalance]
  simp only [hwritten]

def Machine.ofAccount (acc : AccountRec ℚ) : Machine ℚ where
  files
    | .accounts => some [acc]
    | _ => none
  locks := []
  clock _ := 1

def twoDepositRequests : Fin 2 → Request ℚ := ![.deposit 1001 3, .deposit 1001 5]

def twoDeposits : Pool (Sys ℚ) (Machine ℚ) (Fin 2) Reply :=
  ⟨.ofAccount ⟨1001, 1001, 0, .active⟩,
    fun i => Sys.expand 2 ((twoDepositRequests i).program .plain)⟩

def twoDepositReplies : Fin 2 → Reply :=
  ![.say true (str "Deposit Successful: 3.00"), .say true (str "Deposit Successful: 5.00")]

/-- The second deposit starts while the first one is about to find its account. -/
theorem no_lost_update_two_deposits : ∃ pool,
    Pool.run (Posix.semantics fun _ => 7)
      (List.replicate 4 0 ++ List.replicate 18 1 ++ List.replicate 14 0) twoDeposits =
      some pool ∧
    Table.lookup AccountRec.userId 1001 (pool.state.content .accounts) =
      some ⟨1001, 1001, 8, .active⟩ := by
  obtain ⟨pool, hrun, hret⟩ := Pool.exists_run (Posix.semantics fun _ => 7)
    (List.replicate 4 0 ++ List.replicate 18 1 ++ List.replicate 14 0) twoDeposits
    twoDepositReplies (by decide +kernel)
  have hbalance := no_lost_update .plain 2 7 twoDepositRequests _ ⟨1001, 1001, 0, .active⟩ _
    pool twoDepositReplies (fun i => by fin_cases i <;> exact ⟨_, .inl rfl⟩)
    (by decide +kernel) (by decide +kernel) hrun hret
  refine ⟨pool, hrun, hbalance.trans ?_⟩
  decide +kernel

/-- Both read the balance 0 under their record locks, and the deposit of 5 is lost. -/
theorem deposit_is_lost :
    ¬ ∀ schedule pool, Pool.run (Posix.semantics fun _ => 7) schedule twoDeposits = some pool →
      (∀ i, pool.Returned i (twoDepositReplies i)) →
      Table.lookup AccountRec.userId 1001 (pool.state.content .accounts) =
        some ⟨1001, 1001, 0 + ∑ i, if (twoDepositReplies i).result then
          (twoDepositRequests i).effect else 0, .active⟩ := by
  intro h
  obtain ⟨pool, hrun, hret⟩ := Pool.exists_run (Posix.semantics fun _ => 7)
    (List.replicate 8 0 ++ List.replicate 18 1 ++ List.replicate 10 0) twoDeposits
    twoDepositReplies (by decide +kernel)
  have hlost : ((Pool.run (Posix.semantics fun _ => 7)
      (List.replicate 8 0 ++ List.replicate 18 1 ++ List.replicate 10 0) twoDeposits).bind
      fun pool => Table.lookup AccountRec.userId 1001 (pool.state.content .accounts)) =
      some ⟨1001, 1001, 3, .active⟩ := by
    decide +kernel
  rw [hrun, Option.bind_some, h _ pool hrun hret] at hlost
  exact absurd hlost (by decide +kernel)

end BankingSystem
