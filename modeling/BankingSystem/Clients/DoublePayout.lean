import BankingSystem.Clients.Interleaving
import BankingSystem.Clients.SystemCalls
import Mathlib.Data.Fin.VecNotation
import Mathlib.Data.Fintype.Basic
import Mathlib.Tactic.FinCases

/-!
# Decisions on one loan, one system call at a time

`approve_reject_loan` tests the status, pays the loan out and only then writes the
loan record.  A loan is decided and paid out once exactly when every decision is
written while the file still shows the loan as assigned.
-/

namespace BankingSystem

open Foundation Posix

variable {M : Type}

/-! ## One decision -/

inductive Payout where
  | waiting
  | paid
  | logged
  | approved
  | rejected
  deriving DecidableEq

def Payout.status? : Payout → Option LoanStatus
  | .approved => some .approved
  | .rejected => some .rejected
  | _ => none

def Payout.Decides (g : Payout) (status : LoanStatus) : Prop :=
  g = .logged ∧ status = .approved ∨ g = .waiting ∧ status = .rejected

def Payout.decide : LoanStatus → Payout
  | .approved => .approved
  | _ => .rejected

def Payout.Ends (g : Payout) (reply : Reply) : Prop :=
  reply.result = false ∧ g = .waiting ∨ reply.result = true ∧ g.status?.isSome

private theorem Payout.Decides.status? {g : Payout} {status : LoanStatus} (h : g.Decides status) :
    (Payout.decide status).status? = some status := by
  rcases h with ⟨-, rfl⟩ | ⟨-, rfl⟩ <;> rfl

private theorem Payout.Decides.undecided {g : Payout} {status : LoanStatus} (h : g.Decides status) :
    g.status? = none := by
  rcases h with ⟨rfl, -⟩ | ⟨rfl, -⟩ <;> rfl

/--
The loan `loanId` is at its place in `ids`, and has been `assigned` if a thread
sees it assigned.  An approval pays, logs and then writes the loan; a rejection
writes the loan.
-/
def payoutProtocol (ids : List Nat) (loanId : Nat) (assigned : Prop) :
    Protocol (Db M) Payout where
  allows g
    | .findLoanOffset wanted => wanted = loanId
    | .lockLoan _ | .readAccount _ | .time => True
    | .updateAccount _ _ => g = .waiting ∧ assigned
    | .appendTransaction tx => g = .paid ∧ tx.narration = str "loan_deposit"
    | .commitLoan offset (some loan) => Table.locate id loanId ids = some offset ∧
        assigned ∧ loan.loanId = loanId ∧ g.Decides loan.status
    | .commitLoan _ none => True
    | _ => False
  answers _
    | .findLoanOffset _, offset => ∀ pos, offset = some pos →
        Table.locate id loanId ids = some pos
    | .lockLoan offset, loan => ∀ tmp, loan = some tmp → ids[offset]? = some tmp.loanId ∧
        (Table.locate id loanId ids = some offset → tmp.status = .assigned → assigned)
    | .commitLoan _ loan, success => success = loan.isSome
    | _, _ => True
  next g
    | .updateAccount _ _, success => if success then .paid else g
    | .appendTransaction _, _ => .logged
    | .commitLoan _ (some loan), _ => .decide loan.status
    | _, _ => g

section Follows

variable {ids : List Nat} {loanId : Nat} {assigned : Prop}

def Payout.Modified (loan : LoanRec M) (g : Payout) : Option (LoanRec M) → Prop
  | none => g = .waiting
  | some loan' => loan.status = .assigned ∧ loan'.loanId = loan.loanId ∧
      g.Decides loan'.status

private theorem follows_approveRejectLoanModifier_payout (action : Bytes) (empId : Nat)
    (loan : LoanRec M) (hassigned : loan.status = .assigned → assigned) :
    (payoutProtocol ids loanId assigned).Follows (fun g out => g.Modified loan out.1)
      .waiting (approveRejectLoanModifier action empId loan) := by
  unfold approveRejectLoanModifier
  split
  · exact rfl
  · rename_i hstatus
    have hstatus : loan.status = .assigned := not_not.mp hstatus
    split
    · exact rfl
    · split
      · refine Db.follows_bind trivial fun custAcc _ => ?_
        split
        · exact rfl
        · refine Db.follows_bind ⟨rfl, hassigned hstatus⟩ fun deposited _ => ?_
          cases deposited with
          | false => exact rfl
          | true =>
              refine Db.follows_bind trivial fun logged _ => ?_
              refine Db.follows_bind ⟨rfl, rfl⟩ fun _ _ => ?_
              refine Db.follows_bind trivial fun now _ => ?_
              exact ⟨hstatus, rfl, .inl ⟨rfl, rfl⟩⟩
      · split
        · refine Db.follows_bind trivial fun now _ => ?_
          exact ⟨hstatus, rfl, .inr ⟨rfl, rfl⟩⟩
        · exact rfl

private theorem follows_approveRejectLoan_payout (action : Bytes) (empId : Nat) :
    (payoutProtocol (M := M) ids loanId assigned).Follows Payout.Ends .waiting
      (approveRejectLoan loanId action empId []) := by
  have hupdate : (payoutProtocol (M := M) ids loanId assigned).Follows Payout.Ends .waiting
      (Db.atomicUpdateLoan loanId (approveRejectLoanModifier action empId) []) := by
    rw [Db.atomicUpdateLoan_eq]
    refine ⟨rfl, fun offset hoffset => ?_⟩
    cases offset with
    | none => exact .inl ⟨rfl, rfl⟩
    | some offset =>
        have hplace := hoffset offset rfl
        refine ⟨trivial, fun loan hloan => ?_⟩
        cases loan with
        | none => exact .inl ⟨rfl, rfl⟩
        | some loan =>
            obtain ⟨hid, hassigned⟩ := hloan loan rfl
            have hloanId : loan.loanId = loanId := by
              obtain ⟨_, hfound, rfl, -⟩ := Table.locate_eq_some_iff.mp hplace
              exact Option.some_inj.mp (hid.symm.trans hfound)
            refine (follows_approveRejectLoanModifier_payout action empId loan
              (hassigned hplace)).bind ?_
            rintro g ⟨_ | loan', respMsg⟩ hmodified
            · refine ⟨trivial, fun success hsuccess => ?_⟩
              cases hsuccess
              exact .inl ⟨rfl, hmodified⟩
            · obtain ⟨hstatus, hsame, hdecides⟩ := hmodified
              refine ⟨⟨hplace, hassigned hplace hstatus, hsame.trans hloanId, hdecides⟩,
                fun success hsuccess => ?_⟩
              cases hsuccess
              have hdecided : (Payout.decide loan'.status).status?.isSome := by
                rw [hdecides.status?]
                rfl
              exact .inr ⟨rfl, hdecided⟩
  refine hupdate.bind fun g reply hends => ?_
  rcases hends with ⟨hresult, hg⟩ | ⟨hresult, hg⟩
  · rw [hresult]
    exact .inl ⟨rfl, hg⟩
  · rw [hresult]
    exact .inr ⟨hresult, hg⟩

end Follows

/-! ## Its system calls -/

def payoutAccesses (ids : List Nat) (loanId : Nat) (assigned : Prop) :
    Accesses DbFile (DbFile.Rec M) Payout where
  reads
    | .loans, pos, loan => loan.map LoanRec.loanId = ids[pos]? ∧
        ∀ tmp, loan = some tmp → Table.locate id loanId ids = some pos →
          tmp.status = .assigned → assigned
    | _, _, _ => True
  writes g
    | .loans, fd, loan => fd.append = false ∧ Table.locate id loanId ids = some fd.pos ∧
        assigned ∧ loan.loanId = loanId ∧ g.Decides loan.status
    | .accounts, _, _ => g = .waiting ∧ assigned
    | .transactions, _, tx => g = .paid ∧ tx.narration = str "loan_deposit"
    | _, _, _ => False
  after g
    | .loans, loan => .decide loan.status
    | .accounts, _ => .paid
    | .transactions, _ => .logged
    | _, _ => g

variable {ids : List Nat} {loanId : Nat} {assigned : Prop}

private theorem follows_helper_payout [Amount M] (fuel : Nat) (g : Payout) (cmd : Db.Cmd M)
    (hallow : (payoutProtocol ids loanId assigned).allows g cmd) :
    (payoutAccesses ids loanId assigned).protocol.Follows (fun g' answer =>
      (payoutProtocol ids loanId assigned).answers g cmd answer ∧
        g' = (payoutProtocol ids loanId assigned).next g cmd answer) g
      (Sys.helper fuel cmd) := by
  cases cmd with
  | findLoanOffset wanted =>
      cases hallow
      refine (Sys.follows_findOffset (payoutAccesses ids loanId assigned) g fuel _).imp ?_
      rintro g' offset ⟨rfl, hoffset⟩
      refine ⟨fun pos hpos => ?_, rfl⟩
      obtain ⟨loan, hfirst⟩ := hoffset pos hpos
      exact Sys.FirstRead.locate (A := payoutAccesses ids loanId assigned) (f := .loans)
        (fun pos loan hread => hread.1.symm) hfirst
  | lockLoan offset =>
      refine (Sys.follows_beginUpdate (payoutAccesses ids loanId assigned) g offset).imp ?_
      rintro g' loan ⟨rfl, hread⟩
      refine ⟨fun tmp htmp => ?_, rfl⟩
      obtain ⟨hid, hassigned⟩ := hread tmp htmp
      exact ⟨hid.symm, hassigned tmp rfl⟩
  | readAccount userId =>
      exact (Sys.follows_readRecord _ g fuel _).imp fun _ _ hg => ⟨trivial, hg⟩
  | updateAccount userId modifier =>
      refine (Sys.follows_atomicUpdateAccount (payoutAccesses ids loanId assigned) g fuel
        userId modifier.apply fun _ _ _ _ => hallow).imp ?_
      rintro g' success (⟨rfl, rfl⟩ | ⟨rfl, acc, rfl⟩) <;> exact ⟨trivial, rfl⟩
  | appendTransaction tx =>
      refine (Sys.follows_appendTransaction (payoutAccesses ids loanId assigned) g tx
        (fun _ _ => hallow) fun _ => rfl).imp ?_
      rintro g' success ⟨rfl, -⟩
      exact ⟨trivial, rfl⟩
  | commitLoan offset loan =>
      refine (Sys.follows_endUpdate (f := .loans) (payoutAccesses ids loanId assigned) g
        offset loan ?_).imp ?_
      · rintro loan rfl
        exact ⟨rfl, hallow⟩
      · rintro g' success ⟨rfl, rfl⟩
        cases loan <;> exact ⟨rfl, rfl⟩
  | time => exact Sys.follows_bind trivial fun _ _ => ⟨trivial, rfl⟩
  | _ => exact hallow.elim

/-! ## All of them together -/

variable {ι : Type}

def LoanAt (ids : List Nat) (loanId : Nat) (k : Machine M) (pos : Nat) (loan : LoanRec M) :
    Prop :=
  Table.locate id loanId ids = some pos ∧ (k.content .loans)[pos]? = some loan

/-- No decision without the loan being assigned at first, and no return to it. -/
structure Decisions (ids : List Nat) (loanId : Nat) (assigned : Prop) (k : Machine M)
    (g : ι → Payout) : Prop where
  ids_eq : (k.content .loans).map LoanRec.loanId = ids
  seen : ∀ pos loan, LoanAt ids loanId k pos loan → loan.status = .assigned → assigned
  begun : ∀ i, g i ≠ .waiting → assigned
  still : assigned → ∀ pos loan, LoanAt ids loanId k pos loan →
    loan.status = .assigned ∨ ∃ j, (g j).status?.isSome

structure DecidedOnce (ids : List Nat) (loanId : Nat) (assigned : Prop) (k : Machine M)
    (g : ι → Payout) : Prop extends Decisions ids loanId assigned k g where
  single : ∀ i j, (g i).status?.isSome → (g j).status?.isSome → i = j
  recorded : ∀ j, (g j).status?.isSome → ∀ pos loan, LoanAt ids loanId k pos loan →
    (g j).status? = some loan.status

/-- The loan is still assigned when a decision is about to be written over it. -/
def FindsAssigned (k : Machine M) (_ : ι) : Call DbFile (DbFile.Rec M) → Prop
  | .write .loans fd _ =>
      (k.content .loans)[fd.pos]?.map LoanRec.status = some .assigned
  | _ => True

instance (k : Machine M) (i : ι) :
    (c : Call DbFile (DbFile.Rec M)) → Decidable (FindsAssigned k i c)
  | .write .loans _ _ => inferInstanceAs (Decidable (_ = _))
  | .write .users _ _ | .write .accounts _ _ | .write .transactions _ _
  | .write .feedback _ _ | .openFile _ _ | .setLockWait _ _ _ _ | .read _ _ | .seekEnd _ _
  | .close _ _ | .time | .stall => .isTrue trivial

section Sound

variable {k k' : Machine M} {g : ι → Payout} {i : ι}

theorem Decisions.congr (h : Decisions ids loanId assigned k g)
    (hloans : k'.content .loans = k.content .loans) :
    Decisions ids loanId assigned k' g where
  ids_eq := hloans ▸ h.ids_eq
  seen pos loan hloan := h.seen pos loan ⟨hloan.1, hloans ▸ hloan.2⟩
  begun := h.begun
  still hassigned pos loan hloan := h.still hassigned pos loan ⟨hloan.1, hloans ▸ hloan.2⟩

theorem Decisions.reads (h : Decisions ids loanId assigned k g) (f : DbFile) (pos : Nat) :
    (payoutAccesses ids loanId assigned).reads f pos (k.content f)[pos]? := by
  cases f with
  | loans =>
      exact ⟨h.ids_eq ▸ List.getElem?_map.symm,
        fun loan hloan hplace => h.seen pos loan ⟨hplace, hloan⟩⟩
  | _ => trivial

variable [DecidableEq ι]

theorem Decisions.move {x : Payout} (h : Decisions ids loanId assigned k g)
    (hloans : k'.content .loans = k.content .loans) (hold : (g i).status? = none)
    (hassigned : assigned) : Decisions ids loanId assigned k' (Function.update g i x) where
  ids_eq := hloans ▸ h.ids_eq
  seen _ _ _ _ := hassigned
  begun _ _ := hassigned
  still _ pos loan hloan := by
    rcases h.still hassigned pos loan ⟨hloan.1, hloans ▸ hloan.2⟩ with hstatus | ⟨j, hj⟩
    · exact .inl hstatus
    · refine .inr ⟨j, ?_⟩
      have hji : j ≠ i := by
        rintro rfl
        rw [hold] at hj
        cases hj
      rwa [Function.update_of_ne hji]

theorem Decisions.write {pos : Nat} {loan : LoanRec M}
    (h : Decisions ids loanId assigned k g) (hplace : Table.locate id loanId ids = some pos)
    (hassigned : assigned) (hid : loan.loanId = loanId) (hdecides : (g i).Decides loan.status)
    (hcontent : k'.content .loans = Table.put (k.content .loans) pos loan) :
    Decisions ids loanId assigned k' (Function.update g i (.decide loan.status)) ∧
      LoanAt ids loanId k' pos loan := by
  obtain ⟨id', hfound, rfl, -⟩ := Table.locate_eq_some_iff.mp hplace
  rw [← h.ids_eq, List.getElem?_map] at hfound
  obtain ⟨old, hold, hsame⟩ := Option.map_eq_some_iff.mp hfound
  obtain ⟨hlt, -⟩ := List.getElem?_eq_some_iff.mp hold
  rw [Table.put_of_lt hlt] at hcontent
  constructor
  · refine ⟨?_, fun _ _ _ _ => hassigned, fun _ _ => hassigned, fun _ _ _ _ => .inr ⟨i, ?_⟩⟩
    · rw [hcontent, Table.map_key_set hold (hid.trans hsame.symm), h.ids_eq]
    · rw [Function.update_self, hdecides.status?]
      rfl
  · exact ⟨hplace, by rw [hcontent, List.getElem?_set_self hlt]⟩

theorem Decisions.access {f : DbFile} {fd : Fd f} {r : f.Rec M}
    (h : Decisions ids loanId assigned k g)
    (hwrites : (payoutAccesses ids loanId assigned).writes (g i) f fd r) :
    Decisions ids loanId assigned
      (k.setFile f (Table.put (k.content f) (writePos fd (k.content f)) r))
      (Function.update g i ((payoutAccesses ids loanId assigned).after (g i) f r)) := by
  cases f with
  | loans =>
      obtain ⟨happend, hplace, hassigned, hid, hdecides⟩ := hwrites
      refine (h.write hplace hassigned hid hdecides ?_).1
      rw [Kernel.content_setFile_self, writePos, happend]
      rfl
  | accounts =>
      obtain ⟨hg, hassigned⟩ := hwrites
      exact h.move (k.content_setFile_ne _ nofun) (by rw [hg]; rfl) hassigned
  | transactions =>
      obtain ⟨hg, -⟩ := hwrites
      exact h.move (k.content_setFile_ne _ nofun) (by rw [hg]; rfl)
        (h.begun i (by rw [hg]; nofun))
  | _ => exact hwrites.elim

private theorem decisions_sound (server : Nat) :
    Protocol.Sound (fun _ : ι => (payoutAccesses (M := M) ids loanId assigned).protocol)
      (Posix.semantics fun _ => server) (Decisions ids loanId assigned) fun _ _ _ => True :=
  Accesses.sound (fun _ f pos h => h.reads f pos) (fun h hcontent => h.congr (hcontent .loans))
    fun h _ hwrites => h.access hwrites

theorem DecidedOnce.move {x : Payout} (h : DecidedOnce ids loanId assigned k g)
    (hdecisions : Decisions ids loanId assigned k' (Function.update g i x))
    (hloans : k'.content .loans = k.content .loans) (hnew : x.status? = none) :
    DecidedOnce ids loanId assigned k' (Function.update g i x) := by
  have hother : ∀ j, (Function.update g i x j).status?.isSome →
      j ≠ i ∧ (g j).status?.isSome := by
    intro j hj
    have hji : j ≠ i := by
      rintro rfl
      rw [Function.update_self, hnew] at hj
      cases hj
    rw [Function.update_of_ne hji] at hj
    exact ⟨hji, hj⟩
  refine ⟨hdecisions, fun j j' hj hj' => ?_, fun j hj pos loan hloan => ?_⟩
  · exact h.single j j' (hother j hj).2 (hother j' hj').2
  · obtain ⟨hji, hj⟩ := hother j hj
    rw [Function.update_of_ne hji]
    exact h.recorded j hj pos loan ⟨hloan.1, hloans ▸ hloan.2⟩

theorem DecidedOnce.decide {pos : Nat} {loan : LoanRec M}
    (h : DecidedOnce ids loanId assigned k g)
    (hdecisions : Decisions ids loanId assigned k'
      (Function.update g i (.decide loan.status)))
    (hloan : LoanAt ids loanId k' pos loan) (hdecides : (g i).Decides loan.status)
    (hfinds : (k.content .loans)[pos]?.map LoanRec.status = some .assigned) :
    DecidedOnce ids loanId assigned k' (Function.update g i (.decide loan.status)) := by
  obtain ⟨old, hold, hassigned⟩ := Option.map_eq_some_iff.mp hfinds
  have hnone : ∀ j, ¬ (g j).status?.isSome := by
    intro j hj
    have hrecorded := h.recorded j hj pos old ⟨hloan.1, hold⟩
    rw [hassigned] at hrecorded
    cases hg : g j <;> rw [hg] at hrecorded <;> cases hrecorded
  have hself : ∀ j, (Function.update g i (Payout.decide loan.status) j).status?.isSome →
      j = i := by
    intro j hj
    by_contra hji
    rw [Function.update_of_ne hji] at hj
    exact hnone j hj
  refine ⟨hdecisions, fun j j' hj hj' => (hself j hj).trans (hself j' hj').symm, ?_⟩
  intro j hj pos' loan' hloan'
  obtain rfl := hself j hj
  have hpos : pos' = pos := Option.some_inj.mp (hloan'.1.symm.trans hloan.1)
  subst hpos
  have hsame : loan' = loan := Option.some_inj.mp (hloan'.2.symm.trans hloan.2)
  rw [Function.update_self, hdecides.status?, hsame]

private theorem decidedOnce_sound (server : Nat) :
    Protocol.Sound (fun _ : ι => (payoutAccesses (M := M) ids loanId assigned).protocol)
      (Posix.semantics fun _ => server) (DecidedOnce ids loanId assigned) FindsAssigned := by
  refine Accesses.sound (fun _ f pos h => h.toDecisions.reads f pos) ?_ ?_
  · intro k k' g h hcontent
    exact ⟨h.toDecisions.congr (hcontent .loans), h.single, fun j hj pos loan hloan =>
      h.recorded j hj pos loan ⟨hloan.1, hcontent .loans ▸ hloan.2⟩⟩
  · intro k g i f fd r h hfinds hwrites
    have hdecisions := h.toDecisions.access hwrites
    cases f with
    | loans =>
        obtain ⟨happend, hplace, hassigned, hid, hdecides⟩ := hwrites
        refine h.decide hdecisions ?_ hdecides hfinds
        refine (h.toDecisions.write hplace hassigned hid hdecides ?_).2
        rw [Kernel.content_setFile_self, writePos, happend]
        rfl
    | accounts => exact h.move hdecisions (k.content_setFile_ne _ nofun) rfl
    | transactions => exact h.move hdecisions (k.content_setFile_ne _ nofun) rfl
    | _ => exact hwrites.elim

end Sound

/-! ## In every interleaving -/

def isCredit : Call DbFile (DbFile.Rec M) → Bool
  | .write .accounts _ _ => true
  | _ => false

def isLoanDeposit : Call DbFile (DbFile.Rec M) → Bool
  | .write .transactions _ tx => tx.narration = str "loan_deposit"
  | _ => false

def Payout.credits : Payout → ℤ
  | .paid | .logged | .approved => 1
  | .waiting | .rejected => 0

def Payout.loanDeposits : Payout → ℤ
  | .logged | .approved => 1
  | .waiting | .paid | .rejected => 0

private theorem payout_next_cases {g : Payout} {c : Call DbFile (DbFile.Rec M)}
    {answer : Result (DbFile.Rec M) c}
    (hallow : (payoutAccesses ids loanId assigned).protocol.allows g c) :
    (isCredit c = false ∧ isLoanDeposit c = false ∧
      (payoutAccesses ids loanId assigned).protocol.next g c answer = g) ∨
    (isCredit c = true ∧ isLoanDeposit c = false ∧ g = .waiting ∧
      (payoutAccesses ids loanId assigned).protocol.next g c answer = .paid) ∨
    (isCredit c = false ∧ isLoanDeposit c = true ∧ g = .paid ∧
      (payoutAccesses ids loanId assigned).protocol.next g c answer = .logged) ∨
    (isCredit c = false ∧ isLoanDeposit c = false ∧ ∃ status, g.Decides status ∧
      (payoutAccesses ids loanId assigned).protocol.next g c answer = .decide status) := by
  cases c with
  | write f fd r =>
      cases f with
      | loans =>
          obtain ⟨-, -, -, -, -, hdecides⟩ := hallow
          exact .inr (.inr (.inr ⟨rfl, rfl, r.status, hdecides, rfl⟩))
      | accounts => exact .inr (.inl ⟨rfl, rfl, hallow.2.1, rfl⟩)
      | transactions =>
          obtain ⟨-, hpaid, hnarration⟩ := hallow
          exact .inr (.inr (.inl ⟨rfl, decide_eq_true hnarration, hpaid, rfl⟩))
      | _ => exact hallow.2.elim
  | _ => exact .inl ⟨rfl, rfl, rfl⟩

private theorem credits_next {g : Payout} {c : Call DbFile (DbFile.Rec M)}
    {answer : Result (DbFile.Rec M) c}
    (hallow : (payoutAccesses ids loanId assigned).protocol.allows g c) :
    ((payoutAccesses ids loanId assigned).protocol.next g c answer).credits =
      g.credits + if isCredit c then 1 else 0 := by
  rcases payout_next_cases hallow with
    ⟨hcredit, -, hnext⟩ | ⟨hcredit, -, rfl, hnext⟩ | ⟨hcredit, -, rfl, hnext⟩ |
      ⟨hcredit, -, status, hdecides, hnext⟩ <;>
    rw [hnext, hcredit]
  · exact (add_zero _).symm
  · rfl
  · rfl
  · rcases hdecides with ⟨rfl, rfl⟩ | ⟨rfl, rfl⟩ <;> rfl

private theorem loanDeposits_next {g : Payout} {c : Call DbFile (DbFile.Rec M)}
    {answer : Result (DbFile.Rec M) c}
    (hallow : (payoutAccesses ids loanId assigned).protocol.allows g c) :
    ((payoutAccesses ids loanId assigned).protocol.next g c answer).loanDeposits =
      g.loanDeposits + if isLoanDeposit c then 1 else 0 := by
  rcases payout_next_cases hallow with
    ⟨-, hdeposit, hnext⟩ | ⟨-, hdeposit, rfl, hnext⟩ | ⟨-, hdeposit, rfl, hnext⟩ |
      ⟨-, hdeposit, status, hdecides, hnext⟩ <;>
    rw [hnext, hdeposit]
  · exact (add_zero _).symm
  · rfl
  · rfl
  · rcases hdecides with ⟨rfl, rfl⟩ | ⟨rfl, rfl⟩ <;> rfl

private theorem decided_next {g : Payout} {c : Call DbFile (DbFile.Rec M)}
    {answer : Result (DbFile.Rec M) c}
    (hallow : (payoutAccesses ids loanId assigned).protocol.allows g c)
    (hdecided : g.status?.isSome) :
    ((payoutAccesses ids loanId assigned).protocol.next g c answer).status?.isSome := by
  rcases payout_next_cases hallow with
    ⟨-, -, hnext⟩ | ⟨-, -, rfl, -⟩ | ⟨-, -, rfl, -⟩ | ⟨-, -, status, hdecides, -⟩
  · rw [hnext]
    exact hdecided
  · cases hdecided
  · cases hdecided
  · rw [hdecides.undecided] at hdecided
    cases hdecided

section Interleavings

variable [Amount M] [Fintype ι] [DecidableEq ι]

def decisionPool (env : Env) (fuel loanId : Nat) (action : ι → Bytes) (empId : ι → Nat)
    (k : Machine M) : Pool (Sys M) (Machine M) ι Reply :=
  ⟨k, fun i =>
    Sys.expand fuel ((Request.approveRejectLoan loanId (action i) (empId i)).program env)⟩

/-- At most one request answers 1, and at most one pays, none if the loan is rejected. -/
structure PaidOnce (server loanId : Nat) (schedule : List ι)
    (start pool : Pool (Sys M) (Machine M) ι Reply) (replies : ι → Reply) : Prop where
  single : ∀ i j, (replies i).result = true → (replies j).result = true → i = j
  credits : Pool.tally (Posix.semantics fun _ => server) isCredit schedule start ≤ 1
  loanDeposits : Pool.tally (Posix.semantics fun _ => server) isLoanDeposit schedule start ≤ 1
  rejected : ∀ loan, Table.lookup LoanRec.loanId loanId (pool.state.content .loans) = some loan →
    loan.status = .rejected →
    Pool.tally (Posix.semantics fun _ => server) isCredit schedule start = 0 ∧
      Pool.tally (Posix.semantics fun _ => server) isLoanDeposit schedule start = 0

def IsAssigned (loanId : Nat) (k : Machine M) : Prop :=
  ∃ loan, Table.lookup LoanRec.loanId loanId (k.content .loans) = some loan ∧
    loan.status = .assigned

omit [Fintype ι] [DecidableEq ι] [Amount M] in
private theorem decidedOnce_init (loanId : Nat) (k : Machine M) :
    DecidedOnce ((k.content .loans).map LoanRec.loanId) loanId (IsAssigned loanId k) k
      fun _ : ι => .waiting := by
  have hlookup : ∀ pos loan, LoanAt ((k.content .loans).map LoanRec.loanId) loanId k pos loan →
      Table.lookup LoanRec.loanId loanId (k.content .loans) = some loan := by
    rintro pos loan ⟨hplace, hloan⟩
    rw [Table.lookup_of_locate (Table.locate_eq_map.trans hplace), hloan]
  refine ⟨⟨rfl, ?_, nofun, ?_⟩, nofun, nofun⟩
  · exact fun pos loan hloan hstatus => ⟨loan, hlookup pos loan hloan, hstatus⟩
  · rintro ⟨loan', hloan', hstatus⟩ pos loan hloan
    rw [hlookup pos loan hloan] at hloan'
    cases hloan'
    exact .inl hstatus

omit [Fintype ι] [DecidableEq ι] in
private theorem follows_decisionPool (env : Env) (fuel loanId : Nat) (action : ι → Bytes)
    (empId : ι → Nat) (k : Machine M) (i : ι) :
    (payoutAccesses ids loanId assigned).protocol.Follows Payout.Ends .waiting
      ((decisionPool env fuel loanId action empId k).threads i) :=
  Protocol.Follows.expand (follows_helper_payout fuel)
    (follows_approveRejectLoan_payout (action i) (empId i))

omit [Amount M] [DecidableEq ι] in
private theorem sum_once {g : ι → Payout} (count : Payout → ℤ) (hwaiting : count .waiting = 0)
    (hends : ∀ i, g i = .waiting ∨ (g i).status?.isSome)
    (hsingle : ∀ i j, (g i).status?.isSome → (g j).status?.isSome → i = j) :
    ∑ i, count (g i) = 0 ∨ ∃ j, (g j).status?.isSome ∧ ∑ i, count (g i) = count (g j) := by
  by_cases hsome : ∃ j, (g j).status?.isSome
  · obtain ⟨j, hj⟩ := hsome
    refine .inr ⟨j, hj, Finset.sum_eq_single j (fun i _ hij => ?_)
      fun hmem => absurd (Finset.mem_univ j) hmem⟩
    rcases hends i with hi | hi
    · rw [hi, hwaiting]
    · exact absurd (hsingle i j hi hj) hij
  · refine .inl (Finset.sum_eq_zero fun i _ => ?_)
    rcases hends i with hi | hi
    · rw [hi, hwaiting]
    · exact absurd ⟨i, hi⟩ hsome

section Main

variable {env : Env} {fuel server : Nat} {action : ι → Bytes} {empId : ι → Nat}
  {k : Machine M} {schedule : List ι} {pool : Pool (Sys M) (Machine M) ι Reply}
  {replies : ι → Reply}

private theorem tally_once (kind : Call DbFile (DbFile.Rec M) → Bool) (count : Payout → ℤ)
    (hwaiting : count .waiting = 0) (hcount : ∀ (g : Payout) c answer,
      (payoutAccesses ((k.content .loans).map LoanRec.loanId) loanId
        (IsAssigned loanId k)).protocol.allows g c →
      count ((payoutAccesses ((k.content .loans).map LoanRec.loanId) loanId
        (IsAssigned loanId k)).protocol.next g c answer) =
        count g + if kind c then 1 else 0)
    (hfinds : Pool.Along (Posix.semantics fun _ => server) (Pool.Guard FindsAssigned) schedule
      (decisionPool env fuel loanId action empId k))
    (hrun : Pool.run (Posix.semantics fun _ => server) schedule
      (decisionPool env fuel loanId action empId k) = some pool)
    (hret : ∀ i, pool.Returned i (replies i)) :
    ∃ g : ι → Payout, (∀ i, (g i).Ends (replies i)) ∧
      DecidedOnce ((k.content .loans).map LoanRec.loanId) loanId (IsAssigned loanId k)
        pool.state g ∧
      ((Pool.tally (Posix.semantics fun _ => server) kind schedule
          (decisionPool env fuel loanId action empId k) : ℤ) = 0 ∨
        ∃ j, (g j).status?.isSome ∧
          (Pool.tally (Posix.semantics fun _ => server) kind schedule
            (decisionPool env fuel loanId action empId k) : ℤ) = count (g j)) := by
  obtain ⟨g, hexplains, hsum⟩ := (decidedOnce_sound server).run_tally kind count
    (fun _ g c answer hallow => hcount g c answer hallow)
    ⟨decidedOnce_init loanId k, follows_decisionPool env fuel loanId action empId k⟩ hfinds hrun
  have hends : ∀ i, (g i).Ends (replies i) := fun i => hexplains.returned (hret i)
  have hstage : ∀ i, g i = .waiting ∨ (g i).status?.isSome := by
    intro i
    rcases hends i with ⟨-, hg⟩ | ⟨-, hg⟩
    · exact .inl hg
    · exact .inr hg
  refine ⟨g, hends, hexplains.1, ?_⟩
  rw [Finset.sum_eq_zero (fun i _ => hwaiting), zero_add] at hsum
  rw [← hsum]
  exact sum_once count hwaiting hstage hexplains.1.single

private theorem paidOnce_of_findsAssigned
    (hfinds : Pool.Along (Posix.semantics fun _ => server) (Pool.Guard FindsAssigned) schedule
      (decisionPool env fuel loanId action empId k))
    (hrun : Pool.run (Posix.semantics fun _ => server) schedule
      (decisionPool env fuel loanId action empId k) = some pool)
    (hret : ∀ i, pool.Returned i (replies i)) :
    PaidOnce server loanId schedule (decisionPool env fuel loanId action empId k) pool
      replies := by
  obtain ⟨g, hends, honce, hcredits⟩ := tally_once isCredit Payout.credits rfl
    (fun _ _ _ => credits_next) hfinds hrun hret
  obtain ⟨g', -, honce', hdeposits⟩ := tally_once isLoanDeposit Payout.loanDeposits rfl
    (fun _ _ _ => loanDeposits_next) hfinds hrun hret
  have hdecided : ∀ i, (replies i).result = true → (g i).status?.isSome := by
    intro i hi
    rcases hends i with ⟨hresult, -⟩ | ⟨-, hg⟩
    · rw [hi] at hresult
      cases hresult
    · exact hg
  have hrejected : ∀ (g : ι → Payout) j loan,
      DecidedOnce ((k.content .loans).map LoanRec.loanId) loanId (IsAssigned loanId k)
        pool.state g → (g j).status?.isSome →
      Table.lookup LoanRec.loanId loanId (pool.state.content .loans) = some loan →
      loan.status = .rejected → g j = .rejected := by
    intro g j loan h hj hloan hstatus
    obtain ⟨pos, hplace, hpos⟩ := Table.locate_of_lookup hloan
    have hrecorded := h.recorded j hj pos loan
      ⟨by rw [← h.ids_eq, ← Table.locate_eq_map, hplace], hpos⟩
    rw [hstatus] at hrecorded
    cases hg : g j <;> rw [hg] at hrecorded <;> first | rfl | cases hrecorded
  have hle : ∀ g : Payout, g.credits ≤ 1 ∧ g.loanDeposits ≤ 1 := by
    intro g
    cases g <;> decide
  refine ⟨fun i j hi hj => honce.single i j (hdecided i hi) (hdecided j hj), ?_, ?_, ?_⟩
  · rcases hcredits with hzero | ⟨j, -, hcount⟩
    · omega
    · have := (hle (g j)).1
      omega
  · rcases hdeposits with hzero | ⟨j, -, hcount⟩
    · omega
    · have := (hle (g' j)).2
      omega
  · intro loan hloan hstatus
    constructor
    · rcases hcredits with hzero | ⟨j, hj, hcount⟩
      · omega
      · rw [hrejected g j loan honce hj hloan hstatus] at hcount
        exact Int.natCast_eq_zero.mp hcount
    · rcases hdeposits with hzero | ⟨j, hj, hcount⟩
      · omega
      · rw [hrejected g' j loan honce' hj hloan hstatus] at hcount
        exact Int.natCast_eq_zero.mp hcount

omit [Amount M] [Fintype ι] in
private theorem both_answer {after : Pool (Sys M) (Machine M) ι Reply} {rest : List ι}
    {g : ι → Payout} {i j : ι}
    (h : Protocol.Explains (fun _ : ι => (payoutAccesses ids loanId assigned).protocol)
      (Decisions ids loanId assigned) (fun _ => Payout.Ends) after g)
    (hi : (g i).status?.isSome) (hj : (g j).status?.isSome)
    (hrun : Pool.run (Posix.semantics fun _ => server) rest after = some pool)
    (hret : ∀ i, pool.Returned i (replies i)) :
    (replies i).result = true ∧ (replies j).result = true := by
  have hsound : Protocol.Sound
      (fun _ : ι => (payoutAccesses (M := M) ids loanId assigned).protocol)
      (Posix.semantics fun _ => server)
      (fun k g => Decisions ids loanId assigned k g ∧
        ∀ x, x = i ∨ x = j → (g x).status?.isSome) fun _ _ _ => True :=
    (decisions_sound server).and_stable (D := fun x gx => x = i ∨ x = j → gx.status?.isSome)
      fun x gx c answer hallow hdecided hx => decided_next hallow (hdecided hx)
  have hboth : ∀ x, x = i ∨ x = j → (g x).status?.isSome := by
    rintro x (rfl | rfl)
    · exact hi
    · exact hj
  obtain ⟨g', ⟨-, hdecided⟩, hfollows⟩ := hsound.run ⟨⟨h.1, hboth⟩, h.2⟩
    (Pool.along_of_always (fun _ _ _ _ _ => trivial) rest after) hrun
  have hresult : ∀ x, x = i ∨ x = j → (replies x).result = true := by
    intro x hx
    have hends := hfollows x
    rw [hret x] at hends
    rcases hends with ⟨-, hg⟩ | ⟨hresult, -⟩
    · have hsome := hdecided x hx
      rw [hg] at hsome
      cases hsome
    · exact hresult
  exact ⟨hresult i (.inl rfl), hresult j (.inr rfl)⟩

omit [Fintype ι] in
private theorem findsAssigned_of_single
    (hsingle : ∀ i j, (replies i).result = true → (replies j).result = true → i = j)
    (hrun : Pool.run (Posix.semantics fun _ => server) schedule
      (decisionPool env fuel loanId action empId k) = some pool)
    (hret : ∀ i, pool.Returned i (replies i)) :
    Pool.Along (Posix.semantics fun _ => server) (Pool.Guard FindsAssigned) schedule
      (decisionPool env fuel loanId action empId k) := by
  refine Pool.along_of_forall fun first i rest middle hschedule hmiddle cmd next hthread => ?_
  obtain ⟨g, hexplains⟩ := (decisions_sound server).run
    ⟨(decidedOnce_init loanId k).toDecisions,
      follows_decisionPool env fuel loanId action empId k⟩
    (Pool.along_of_always (fun _ _ _ _ _ => trivial) first _) hmiddle
  have hallow := hexplains.2 i
  rw [hthread] at hallow
  cases cmd with
  | write f fd loan =>
      cases f with
      | loans =>
          obtain ⟨-, happend, hplace, hassigned, hid, hdecides⟩ := hallow.1
          obtain ⟨id', hfound, rfl, -⟩ := Table.locate_eq_some_iff.mp hplace
          rw [← hexplains.1.ids_eq, List.getElem?_map] at hfound
          obtain ⟨old, hold, -⟩ := Option.map_eq_some_iff.mp hfound
          rcases hexplains.1.still hassigned fd.pos old ⟨hplace, hold⟩ with hstatus | ⟨j, hj⟩
          · simp [FindsAssigned, hold, hstatus]
          · exfalso
            rw [hschedule, Pool.run_append_eq_some_iff] at hrun
            obtain ⟨middle', hfirst, hrest⟩ := hrun
            have hsame : middle' = middle := Option.some_inj.mp (hfirst.symm.trans hmiddle)
            subst hsame
            obtain ⟨after, hstep, hlast⟩ := Pool.run_cons_eq_some_iff.mp hrest
            obtain ⟨cmd', next', answer, s, hthread', hexec, rfl⟩ :=
              Pool.step_eq_some_iff.mp hstep
            rw [hthread] at hthread'
            cases hthread'
            have hafter := hexplains.step_call (decisions_sound server) trivial hthread hexec
            have hji : j ≠ i := by
              rintro rfl
              rw [hdecides.undecided] at hj
              cases hj
            have hanswers := both_answer hafter (i := i) (j := j)
              (by rw [Function.update_self]
                  change (Payout.decide loan.status).status?.isSome
                  rw [hdecides.status?]
                  rfl)
              (by rwa [Function.update_of_ne hji]) hlast hret
            exact hji (hsingle j i hanswers.2 hanswers.1)
      | _ => trivial
  | _ => trivial

/--
Any number of decisions on one loan, by threads of one server process, interleaved
system call by system call, all of which have returned.  The loan is decided and
paid out at most once exactly when every decision is written while the file still
shows the loan as assigned.
-/
theorem paid_once_iff {M ι : Type} [Amount M] [Fintype ι] [DecidableEq ι] (env : Env)
    (fuel server loanId : Nat) (action : ι → Bytes) (empId : ι → Nat) (k : Machine M)
    (schedule : List ι) (pool : Pool (Sys M) (Machine M) ι Reply) (replies : ι → Reply)
    (hrun : Pool.run (Posix.semantics fun _ => server) schedule
      (decisionPool env fuel loanId action empId k) = some pool)
    (hret : ∀ i, pool.Returned i (replies i)) :
    PaidOnce server loanId schedule (decisionPool env fuel loanId action empId k) pool
      replies ↔
    Pool.Along (Posix.semantics fun _ => server) (Pool.Guard FindsAssigned) schedule
      (decisionPool env fuel loanId action empId k) :=
  ⟨fun h => findsAssigned_of_single h.single hrun hret,
    fun h => paidOnce_of_findsAssigned h hrun hret⟩

end Main

end Interleavings

def oneLoan : Machine ℚ where
  files
    | .accounts => some [⟨1001, 1001, 0, .active⟩]
    | .loans => some [⟨1, 1001, 5, .assigned, 2001, 1, 0⟩]
    | _ => none
  locks := []
  clock _ := 1

def twoApprovals : Pool (Sys ℚ) (Machine ℚ) (Fin 2) Reply :=
  decisionPool .plain 2 1 (fun _ => str "approve") (fun _ => 2001) oneLoan

def approvedReply : Reply := .say true (str "Loan ID 1 Decision Recorded: approve")

/-- The second approval starts while the first one looks for the loan, and is refused. -/
theorem paid_once_iff_in_turn : ∃ pool,
    PaidOnce 7 1 (List.replicate 4 0 ++ List.replicate 35 1 ++ List.replicate 6 0)
      twoApprovals pool ![.say false
        (str "Loan not assigned to an employee or already processed."), approvedReply] := by
  obtain ⟨pool, hrun, hret⟩ := Pool.exists_run (Posix.semantics fun _ => 7)
    (List.replicate 4 0 ++ List.replicate 35 1 ++ List.replicate 6 0) twoApprovals
    (![.say false (str "Loan not assigned to an employee or already processed."),
      approvedReply]) (by decide +kernel)
  exact ⟨pool, (paid_once_iff .plain 2 7 1 (fun _ => str "approve") (fun _ => 2001) oneLoan _
    pool _ hrun hret).mpr (by decide +kernel)⟩

/-- Both read the loan as assigned, and both pay it out. -/
theorem loan_is_paid_twice :
    ¬ ∀ schedule pool (replies : Fin 2 → Reply),
      Pool.run (Posix.semantics fun _ => 7) schedule twoApprovals = some pool →
      (∀ i, pool.Returned i (replies i)) →
      PaidOnce 7 1 schedule twoApprovals pool replies := by
  intro h
  obtain ⟨pool, hrun, hret⟩ := Pool.exists_run (Posix.semantics fun _ => 7)
    (List.replicate 8 0 ++ List.replicate 35 1 ++ List.replicate 27 0) twoApprovals
    (fun _ => approvedReply) (by decide +kernel)
  have hcredits := (h _ pool _ hrun hret).credits
  exact absurd hcredits (by decide +kernel)

end BankingSystem
