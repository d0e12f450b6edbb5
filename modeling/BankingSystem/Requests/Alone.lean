import BankingSystem.Foundation.Disk
import BankingSystem.Requests.Request
import BankingSystem.Store.SystemCalls

/-!
# Requests alone, one system call at a time

Where no other process holds a lock and no other thread runs, the system calls of
a helper do what `Db.exec` says of it, once its loops have the fuel to reach the
ends of the files.  So a program of the modules, spelled out into system calls, does
what the same program does with its helpers taken as single steps.
-/

namespace BankingSystem

open Foundation Posix

variable {M : Type}

def Database.file (db : Database M) : (f : DbFile) → Option (List (f.Rec M))
  | .users => db.users
  | .accounts => db.accounts
  | .transactions => db.transactions
  | .loans => db.loans
  | .feedback => db.feedback

def Database.disk (db : Database M) : Disk DbFile (DbFile.Rec M) := ⟨db.file, db.clock⟩

def Database.fuel (db : Database M) : Nat :=
  db.userTable.length + db.accountTable.length + db.txnTable.length +
    db.loanTable.length + db.feedbackTable.length + 1

namespace Database

variable (db : Database M)

private theorem disk_setUsers (users : List UserRec) :
    db.disk.setFile .users users = { db with users := some users }.disk := by
  refine congrArg (Disk.mk · db.clock) (funext fun f => ?_)
  cases f <;> rfl

private theorem disk_setAccounts (accounts : List (AccountRec M)) :
    db.disk.setFile .accounts accounts = { db with accounts := some accounts }.disk := by
  refine congrArg (Disk.mk · db.clock) (funext fun f => ?_)
  cases f <;> rfl

private theorem disk_setTransactions (transactions : List (TxnRec M)) :
    db.disk.setFile .transactions transactions =
      { db with transactions := some transactions }.disk := by
  refine congrArg (Disk.mk · db.clock) (funext fun f => ?_)
  cases f <;> rfl

private theorem disk_setLoans (loans : List (LoanRec M)) :
    db.disk.setFile .loans loans = { db with loans := some loans }.disk := by
  refine congrArg (Disk.mk · db.clock) (funext fun f => ?_)
  cases f <;> rfl

private theorem disk_setFeedback (feedback : List FeedbackRec) :
    db.disk.setFile .feedback feedback = { db with feedback := some feedback }.disk := by
  refine congrArg (Disk.mk · db.clock) (funext fun f => ?_)
  cases f <;> rfl

theorem length_content_lt (f : DbFile) : (db.disk.content f).length < db.fuel := by
  cases f <;>
    simp only [Database.fuel, Disk.content, disk, file, userTable, accountTable, txnTable,
      loanTable, feedbackTable] <;> omega

end Database

namespace Sys

abbrev Ends {α : Type} (program : Prog (Sys M) α) (d : Disk DbFile (DbFile.Rec M))
    (value : α) (d' : Disk DbFile (DbFile.Rec M)) : Prop :=
  Prog.Ends Disk.exec program d value d'

variable {f : DbFile} {d : Disk DbFile (DbFile.Rec M)} {fuel : Nat}

theorem ends_call {α : Type} {c : Call DbFile (DbFile.Rec M)}
    {next : Result (DbFile.Rec M) c → Prog (Sys M) α} {result : Result (DbFile.Rec M) c}
    {value : α} {d₁ d' : Disk DbFile (DbFile.Rec M)}
    (h : Disk.exec c d = some (result, d₁)) (hrest : Ends (next result) d₁ value d') :
    Ends (Sys.call c >>= next) d value d' :=
  .call (S := Sys M) h hrest

/-! ## Loops -/

def firstFrom {ρ : Type} (found : ρ → Bool) (pos : Nat) : List ρ → Option (Nat × ρ)
  | [] => none
  | r :: rest => if found r then some (pos, r) else firstFrom found (pos + 1) rest

theorem firstFrom_fst {ρ : Type} (found : ρ → Bool) (pos : Nat) (table : List ρ) :
    (firstFrom found pos table).map Prod.fst = (table.findIdx? found).map (pos + ·) := by
  induction table generalizing pos with
  | nil => rfl
  | cons r rest ih =>
      by_cases hfound : found r = true
      · simp [firstFrom, List.findIdx?_cons, hfound]
      · simp only [firstFrom, List.findIdx?_cons, hfound, Bool.false_eq_true, if_false, ih,
          Option.map_map]
        congr 1
        funext i
        simp only [Function.comp_apply]
        omega

theorem firstFrom_snd {ρ : Type} (found : ρ → Bool) (pos : Nat) (table : List ρ) :
    (firstFrom found pos table).map Prod.snd = table.find? found := by
  induction table generalizing pos with
  | nil => rfl
  | cons r rest ih => by_cases hfound : found r = true <;> simp [firstFrom, hfound, ih]

theorem firstFrom_findSome {ρ α : Type} (test : ρ → Option α) (pos : Nat)
    (table : List ρ) :
    (firstFrom (fun r => (test r).isSome) pos table).bind (fun found => test found.2) =
      table.findSome? test := by
  induction table generalizing pos with
  | nil => rfl
  | cons r rest ih => cases htest : test r <;> simp [firstFrom, htest, ih]

theorem exec_read {before rest : List (f.Rec M)} {fd : Fd f}
    (hcontent : d.content f = before ++ rest) (hpos : fd.pos = before.length)
    (haccess : fd.access ≠ .writeOnly) :
    Disk.exec (.read f fd) d = some (rest[0]?, d) := by
  simp only [Disk.exec, haccess, if_false, hcontent, hpos]
  rw [List.getElem?_append_right (Nat.le_refl _), Nat.sub_self]

theorem readUntil_ends (found : f.Rec M → Bool) {before rest : List (f.Rec M)} {fd : Fd f}
    (hcontent : d.content f = before ++ rest) (hpos : fd.pos = before.length)
    (haccess : fd.access ≠ .writeOnly) (hfuel : rest.length < fuel) :
    Ends (readUntil found fuel fd) d (firstFrom found fd.pos rest) d := by
  induction rest generalizing before fd fuel with
  | nil =>
      obtain ⟨fuel, rfl⟩ := Nat.exists_eq_add_one.mpr (Nat.zero_lt_of_lt hfuel)
      exact ends_call (exec_read hcontent hpos haccess) .ret
  | cons r rest ih =>
      obtain ⟨fuel, rfl⟩ := Nat.exists_eq_add_one.mpr (Nat.zero_lt_of_lt hfuel)
      refine ends_call (exec_read hcontent hpos haccess) ?_
      by_cases hfound : found r = true
      · simp only [List.getElem?_cons_zero, hfound, if_true, firstFrom]
        exact .ret
      · simp only [List.getElem?_cons_zero, hfound, firstFrom]
        have hrest : d.content f = (before ++ [r]) ++ rest := by simpa using hcontent
        have hnext : (fd.seek (fd.pos + 1)).pos = (before ++ [r]).length := by
          simp [Fd.seek, hpos]
        exact ih hrest hnext haccess (Nat.lt_of_succ_lt_succ hfuel)

private theorem readAll_ends {before rest : List (f.Rec M)} {fd : Fd f}
    (hcontent : d.content f = before ++ rest) (hpos : fd.pos = before.length)
    (haccess : fd.access ≠ .writeOnly) (hfuel : rest.length < fuel) :
    Ends (readAll fuel fd) d rest d := by
  induction rest generalizing before fd fuel with
  | nil =>
      obtain ⟨fuel, rfl⟩ := Nat.exists_eq_add_one.mpr (Nat.zero_lt_of_lt hfuel)
      exact ends_call (exec_read hcontent hpos haccess) .ret
  | cons r rest ih =>
      obtain ⟨fuel, rfl⟩ := Nat.exists_eq_add_one.mpr (Nat.zero_lt_of_lt hfuel)
      refine ends_call (exec_read hcontent hpos haccess) ?_
      have hrest : d.content f = (before ++ [r]) ++ rest := by simpa using hcontent
      have hnext : (fd.seek (fd.pos + 1)).pos = (before ++ [r]).length := by
        simp [Fd.seek, hpos]
      exact .bind (ih hrest hnext haccess (Nat.lt_of_succ_lt_succ hfuel)) .ret

private theorem readBackward_ends (fd : Fd f) (haccess : fd.access ≠ .writeOnly) {n : Nat}
    (hn : n ≤ (d.content f).length) :
    Ends (readBackward fd n) d ((d.content f).take n) d := by
  induction n with
  | zero => exact .ret
  | succ n ih =>
      have hlast : (d.content f)[n]? = some (d.content f)[n] := List.getElem?_eq_getElem hn
      have hread : Disk.exec (.read f (fd.seek n)) d = some ((d.content f)[n]?, d) := by
        simp [Disk.exec, Fd.seek, haccess]
      refine ends_call hread ?_
      · rw [hlast, List.take_add_one, hlast]
        exact .bind (ih (Nat.le_of_lt hn)) .ret

private theorem reviewAll_ends {before rest : List FeedbackRec} {fd : Fd DbFile.feedback}
    (hfile : d.files .feedback = some (before ++ rest)) (hpos : fd.pos = before.length)
    (haccess : fd.access = .readWrite) (happend : fd.append = false)
    (hfuel : rest.length < fuel) :
    Ends (reviewAll fuel fd) d rest
      (d.setFile .feedback (before ++ rest.map FeedbackRec.markReviewed)) := by
  have hread : fd.access ≠ .writeOnly := by rw [haccess]; nofun
  induction rest generalizing before fd fuel d with
  | nil =>
      obtain ⟨fuel, rfl⟩ := Nat.exists_eq_add_one.mpr (Nat.zero_lt_of_lt hfuel)
      rw [List.map_nil, Disk.setFile_eq_self hfile]
      exact ends_call (exec_read (Disk.content_of_files hfile) hpos hread) .ret
  | cons fb rest ih =>
      obtain ⟨fuel, rfl⟩ := Nat.exists_eq_add_one.mpr (Nat.zero_lt_of_lt hfuel)
      refine ends_call (exec_read (Disk.content_of_files hfile) hpos hread) ?_
      have hsplit : before ++ (fb :: rest).map FeedbackRec.markReviewed =
          (before ++ [fb.markReviewed]) ++ rest.map FeedbackRec.markReviewed := by simp
      have hnext : (fd.seek (fd.pos + 1)).pos = (before ++ [fb.markReviewed]).length := by
        simp [Fd.seek, hpos]
      have hfuel' : rest.length < fuel := Nat.lt_of_succ_lt_succ hfuel
      rw [hsplit]
      by_cases hreviewed : fb.reviewed = 0
      · simp only [List.getElem?_cons_zero, hreviewed, if_true]
        have hput : Table.put (d.content .feedback) (writePos fd (d.content .feedback))
            { fb with reviewed := 1 } = before ++ [fb.markReviewed] ++ rest := by
          rw [Disk.content_of_files hfile, writePos, happend]
          simp [Table.put, hpos, FeedbackRec.markReviewed, hreviewed]
        have hwrite : Disk.exec (.write .feedback fd { fb with reviewed := 1 }) d =
            some (true, d.setFile .feedback (before ++ [fb.markReviewed] ++ rest)) := by
          rw [← hput]
          simp [Disk.exec, haccess]
        refine ends_call hwrite ?_
        · refine .bind (ih (d.files_setFile_self _ _) hnext haccess happend hfuel' hread) ?_
          rw [Disk.setFile_setFile]
          exact .ret
      · have hsame : fb.markReviewed = fb := if_neg hreviewed
        simp only [List.getElem?_cons_zero, hreviewed, if_false]
        refine .bind (ih ?_ hnext haccess happend hfuel' hread) .ret
        rw [hsame, hfile]
        simp

/-! ## Finding and updating -/

private theorem search_ends (found : f.Rec M → Bool) (hfuel : (d.content f).length < fuel) :
    Ends (search fuel f found) d (firstFrom found 0 (d.content f)) d := by
  cases hfile : d.files f with
  | none =>
      rw [Disk.content_of_missing hfile]
      exact ends_call (Disk.exec_openFile_of_missing hfile .readOnly false) .ret
  | some records =>
      refine ends_call (Disk.exec_openFile_of_files hfile ⟨.readOnly, false, false⟩) ?_
      refine ends_call rfl ?_
      refine .bind (readUntil_ends found (List.nil_append _).symm rfl nofun hfuel) ?_
      exact ends_call rfl (ends_call rfl .ret)

theorem findOffset_ends (found : f.Rec M → Bool) (hfuel : (d.content f).length < fuel) :
    Ends (findOffset fuel f found) d ((d.content f).findIdx? found) d := by
  have hfst := firstFrom_fst found 0 (d.content f)
  simp only [Nat.zero_add, Option.map_id'] at hfst
  rw [← hfst]
  exact .bind (search_ends found hfuel) .ret

theorem readRecord_ends (found : f.Rec M → Bool) (hfuel : (d.content f).length < fuel) :
    Ends (readRecord fuel f found) d ((d.content f).find? found) d := by
  rw [← firstFrom_snd found 0]
  exact .bind (search_ends found hfuel) .ret

theorem checkUniqueness_ends (username email phone : Bytes) (currentUserId : Nat)
    (hfuel : (d.content .users).length < fuel) :
    Ends (checkUniqueness fuel username email phone currentUserId) d
      (firstClash username email phone currentUserId (d.content .users)) d := by
  rw [firstClash, ← firstFrom_findSome _ 0]
  exact .bind (search_ends _ hfuel) .ret

private theorem beginUpdate_ends (offset : Nat) :
    Ends (beginUpdate f offset) d (d.content f)[offset]? d := by
  cases hfile : d.files f with
  | none =>
      rw [Disk.content_of_missing hfile]
      exact ends_call (Disk.exec_openFile_of_missing hfile .readWrite false) .ret
  | some records =>
      refine ends_call (Disk.exec_openFile_of_files hfile ⟨.readWrite, false, false⟩) ?_
      refine ends_call rfl ?_
      refine ends_call rfl ?_
      simp only [Fd.seek]
      cases (d.content f)[offset]? with
      | some tmp => exact .ret
      | none => exact ends_call rfl (ends_call rfl .ret)

private theorem endUpdate_some_ends (offset : Nat) (tmp : f.Rec M) :
    Ends (endUpdate f offset (some tmp)) d true
      (d.setFile f (Table.put (d.content f) offset tmp)) :=
  ends_call rfl (ends_call rfl (ends_call rfl .ret))

private theorem endUpdate_none_ends (offset : Nat) :
    Ends (endUpdate f offset none) d false d :=
  ends_call rfl (ends_call rfl .ret)

theorem atomicUpdateAccount_ends (userId : Nat)
    (modifier : AccountRec M → Option (AccountRec M))
    (hfuel : (d.content .accounts).length < fuel) :
    Ends (atomicUpdateAccount fuel userId modifier) d
      (Table.modify AccountRec.userId userId modifier (d.content .accounts)).isSome
      ((Table.modify AccountRec.userId userId modifier (d.content .accounts)).elim d
        (d.setFile .accounts)) := by
  have hfind : Ends (findOffset fuel .accounts fun tmp => tmp.userId = userId) d
      (Table.locate AccountRec.userId userId (d.content .accounts)) d :=
    findOffset_ends (f := .accounts) (fun tmp => tmp.userId = userId) hfuel
  refine .bind hfind ?_
  cases hloc : Table.locate AccountRec.userId userId (d.content .accounts) with
  | none =>
      simp only [Table.modify, hloc]
      exact .ret
  | some offset =>
      obtain ⟨acc, hacc, -⟩ := Table.getElem?_of_locate hloc
      have hlt := (List.getElem?_eq_some_iff.mp hacc).1
      refine .bind (beginUpdate_ends offset) ?_
      simp only [Table.modify, hloc, hacc, Option.bind_eq_bind, Option.bind_some]
      cases modifier acc with
      | none => exact endUpdate_none_ends offset
      | some acc' =>
          rw [Option.bind_some, Option.elim_some, ← Table.put_of_lt hlt]
          exact endUpdate_some_ends (f := .accounts) offset acc'

/-! ## Writing, appending and listing -/

private theorem writeRecord_ends (key : f.Rec M → Nat) (r : f.Rec M)
    (hfuel : (d.content f).length < fuel) :
    Ends (writeRecord fuel f (fun tmp => key tmp = key r) r) d true
      (d.setFile f (Table.upsert key r (d.content f))) := by
  refine ends_call (d.exec_openFile_create f .readWrite false) ?_
  refine ends_call rfl ?_
  have hcontent : (d.setFile f (d.content f)).content f = d.content f :=
    d.content_setFile_self f _
  refine .bind (readUntil_ends _ (hcontent.trans (List.nil_append _).symm) rfl nofun hfuel) ?_
  have hlocate : (firstFrom (fun tmp => decide (key tmp = key r)) 0 (d.content f)).map
      Prod.fst = Table.locate key (key r) (d.content f) := by
    rw [firstFrom_fst]
    simp [Table.locate]
  have hend : ∀ fd : Fd f, Disk.exec (.seekEnd f fd) (d.setFile f (d.content f)) =
      some ((d.content f).length, d.setFile f (d.content f)) := by
    simp [Disk.exec, hcontent]
  have hwrite : ∀ pos, Disk.exec
      (.write f (⟨.readWrite, false, pos⟩ : Fd f) r) (d.setFile f (d.content f)) =
      some (true, d.setFile f (Table.put (d.content f) pos r)) := by
    intro pos
    simp only [Disk.exec, writePos, hcontent, Disk.setFile_setFile]
    rfl
  cases hfirst : firstFrom (fun tmp => decide (key tmp = key r)) 0 (d.content f) with
  | some found =>
      rw [hfirst] at hlocate
      have hlt := (List.getElem?_eq_some_iff.mp
        (Table.getElem?_of_locate hlocate.symm).choose_spec.1).1
      rw [Table.upsert_of_locate hlocate.symm, ← Table.put_of_lt hlt]
      refine ends_call (hwrite found.1) ?_
      exact ends_call rfl (ends_call rfl .ret)
  | none =>
      rw [hfirst] at hlocate
      rw [Table.upsert_of_fresh (Table.locate_eq_none_iff.mp hlocate.symm),
        ← Table.put_length]
      refine ends_call (hend _) ?_
      refine ends_call (hwrite (d.content f).length) ?_
      exact ends_call rfl (ends_call rfl .ret)

private theorem appendRecord_ends (numbered : Nat → f.Rec M) :
    Ends (appendRecord f numbered) d (some ((d.content f).length + 1))
      (d.setFile f (d.content f ++ [numbered ((d.content f).length + 1)])) := by
  refine ends_call (d.exec_openFile_create f .writeOnly true) ?_
  refine ends_call rfl ?_
  have hend : Disk.exec (.seekEnd f (⟨.writeOnly, true, 0⟩ : Fd f))
      (d.setFile f (d.content f)) =
      some ((d.content f).length, d.setFile f (d.content f)) := by
    simp [Disk.exec]
  refine ends_call hend ?_
  have hwrite : Disk.exec (.write f (⟨.writeOnly, true, 0⟩ : Fd f)
      (numbered ((d.content f).length + 1))) (d.setFile f (d.content f)) =
      some (true, d.setFile f (d.content f ++ [numbered ((d.content f).length + 1)])) := by
    rw [← Table.put_length]
    simp [Disk.exec, writePos, Disk.setFile_setFile]
  exact ends_call hwrite (ends_call rfl (ends_call rfl .ret))

private theorem scan_ends (hfuel : (d.content f).length < fuel) :
    Ends (scan fuel f) d (d.files f) d := by
  cases hfile : d.files f with
  | none => exact ends_call (Disk.exec_openFile_of_missing hfile .readOnly false) .ret
  | some records =>
      refine ends_call (Disk.exec_openFile_of_files hfile ⟨.readOnly, false, false⟩) ?_
      refine ends_call rfl ?_
      rw [Disk.content_of_files hfile] at hfuel
      have hcontent := (Disk.content_of_files hfile).trans (List.nil_append records).symm
      refine .bind (readAll_ends hcontent rfl nofun hfuel) ?_
      exact ends_call rfl (ends_call rfl .ret)

private theorem scanTransactions_ends :
    Ends (scanTransactions (M := M)) d (d.files .transactions) d := by
  cases hfile : d.files .transactions with
  | none => exact ends_call (Disk.exec_openFile_of_missing hfile .readOnly false) .ret
  | some records =>
      refine ends_call (Disk.exec_openFile_of_files hfile ⟨.readOnly, false, false⟩) ?_
      refine ends_call rfl ?_
      refine ends_call rfl ?_
      refine .bind (readBackward_ends ⟨.readOnly, false, 0⟩ nofun (Nat.le_refl _)) ?_
      rw [List.take_length, Disk.content_of_files hfile]
      exact ends_call rfl (ends_call rfl .ret)

theorem markReviewed_ends (hfuel : (d.content .feedback).length < fuel) :
    Ends (markReviewed (M := M) fuel) d (d.files .feedback)
      ((d.files .feedback).elim d fun records =>
        d.setFile .feedback (records.map FeedbackRec.markReviewed)) := by
  cases hfile : d.files .feedback with
  | none => exact ends_call (Disk.exec_openFile_of_missing hfile .readWrite false) .ret
  | some records =>
      refine ends_call (Disk.exec_openFile_of_files hfile ⟨.readWrite, false, false⟩) ?_
      refine ends_call rfl ?_
      rw [Disk.content_of_files hfile] at hfuel
      have hfile' := hfile.trans (congrArg some (List.nil_append records).symm)
      refine .bind (reviewAll_ends hfile' rfl rfl rfl hfuel) ?_
      exact ends_call rfl (ends_call rfl .ret)

/-! ## All helpers -/

private theorem helper_ends [Amount M] (cmd : Db.Cmd M) (db : Database M) (hfuel : db.fuel ≤ fuel) :
    Ends (helper fuel cmd) db.disk (Db.exec cmd db).1 (Db.exec cmd db).2.disk := by
  have hlt : ∀ f, (db.disk.content f).length < fuel :=
    fun f => Nat.lt_of_lt_of_le (db.length_content_lt f) hfuel
  cases cmd with
  | readAccount userId => exact readRecord_ends _ (hlt .accounts)
  | updateAccount userId modifier =>
      have hends := atomicUpdateAccount_ends userId modifier.apply (hlt .accounts)
      simp only [Db.exec]
      change Ends _ db.disk (Table.modify _ _ _ db.accountTable).isSome
        ((Table.modify _ _ _ db.accountTable).elim _ _) at hends
      cases hmod : Table.modify AccountRec.userId userId modifier.apply db.accountTable with
      | none =>
          rw [hmod] at hends
          exact hends
      | some accounts =>
          rw [hmod, Option.elim_some, db.disk_setAccounts] at hends
          exact hends
  | writeAccount acc =>
      rw [Db.exec, ← db.disk_setAccounts]
      exact writeRecord_ends (f := .accounts) AccountRec.userId acc (hlt .accounts)
  | readUser userId => exact readRecord_ends _ (hlt .users)
  | writeUser user =>
      rw [Db.exec, ← db.disk_setUsers]
      exact writeRecord_ends (f := .users) UserRec.userId user (hlt .users)
  | generateNewUserId =>
      rw [Db.exec, ← db.disk_setUsers]
      refine ends_call (db.disk.exec_openFile_create .users .readOnly false) ?_
      refine ends_call rfl ?_
      have hend : Disk.exec (.seekEnd .users (⟨.readOnly, false, 0⟩ : Fd DbFile.users))
          (db.disk.setFile .users (db.disk.content .users)) =
          some (db.userTable.length, db.disk.setFile .users db.userTable) := by
        simp only [Disk.exec, Disk.content_setFile_self]
        rfl
      exact ends_call hend (ends_call rfl (ends_call rfl .ret))
  | checkUniqueness username email phone currentUserId =>
      exact checkUniqueness_ends username email phone currentUserId (hlt .users)
  | findUserOffset userId => exact findOffset_ends _ (hlt .users)
  | lockUser offset => exact beginUpdate_ends offset
  | commitUser offset user =>
      cases user with
      | none => exact endUpdate_none_ends offset
      | some user =>
          rw [Db.exec, Db.commitAt, ← db.disk_setUsers]
          exact endUpdate_some_ends (f := .users) offset user
  | findLoanOffset loanId => exact findOffset_ends _ (hlt .loans)
  | lockLoan offset => exact beginUpdate_ends offset
  | commitLoan offset loan =>
      cases loan with
      | none => exact endUpdate_none_ends offset
      | some loan =>
          rw [Db.exec, Db.commitAt, ← db.disk_setLoans]
          exact endUpdate_some_ends (f := .loans) offset loan
  | appendTransaction tx =>
      rw [Db.exec, ← db.disk_setTransactions]
      exact .bind (appendRecord_ends (f := .transactions) _) .ret
  | appendLoan loan =>
      rw [Db.exec, ← db.disk_setLoans]
      exact appendRecord_ends (f := .loans) fun loanId => { loan with loanId }
  | appendFeedback fb =>
      rw [Db.exec, ← db.disk_setFeedback]
      exact appendRecord_ends (f := .feedback) fun fbId => { fb with fbId }
  | scanUsers => exact scan_ends (hlt .users)
  | scanTransactions => exact scanTransactions_ends
  | scanLoans => exact scan_ends (hlt .loans)
  | scanFeedback => exact scan_ends (hlt .feedback)
  | markReviewed =>
      have hends := markReviewed_ends (hlt .feedback)
      rcases db with ⟨users, accounts, transactions, loans, _ | records, clock⟩
      · exact hends
      · change Ends _ _ _ (Disk.setFile _ _ _) at hends
        rw [Database.disk_setFeedback] at hends
        exact hends
  | time => exact ends_call rfl .ret

/--
A program of the modules that meets no other, spelled out into system calls, returns
what it returns over `Db.exec` and leaves the same files.
-/
private theorem expand_alone [Amount M] {α : Type} (p : Nat) (program : Prog (Db M) α)
    (db : Database M) :
    ∃ bound, ∀ fuel, bound ≤ fuel → ∀ k : Kernel DbFile (DbFile.Rec M) Nat,
      k.disk = db.disk ∧ k.OwnedBy p →
      ∃ k', Prog.Ends (Posix.exec p) (expand fuel program) k (program.run Db.exec db).1 k' ∧
        k'.disk = (program.run Db.exec db).2.disk ∧ k'.OwnedBy p := by
  refine Prog.expand_ends helper Db.exec (Posix.exec p)
    (fun db k => k.disk = db.disk ∧ k.OwnedBy p) (fun cmd db => ?_) program db
  refine ⟨db.fuel, fun fuel hfuel k ⟨hdisk, howned⟩ => ?_⟩
  have hends := helper_ends cmd db hfuel
  rw [← hdisk] at hends
  exact howned.ends hends

end Sys

/-- A run of requests, one at a time, leaves the files that `serve` says. -/
theorem Request.serve_alone [Amount M] (env : Env) (p : Nat) (requests : List (Request M))
    (db : Database M) :
    ∃ bound, ∀ fuel, bound ≤ fuel → ∀ k : Kernel DbFile (DbFile.Rec M) Nat,
      k.disk = db.disk ∧ k.OwnedBy p →
      ∃ replies k', Prog.Ends (Posix.exec p) (Sys.expand fuel (session env requests)) k
        replies k' ∧ k'.disk = (serve env requests db).disk ∧ k'.OwnedBy p := by
  obtain ⟨bound, hbound⟩ := Sys.expand_alone p (session env requests) db
  refine ⟨bound, fun fuel hfuel k hk => ?_⟩
  obtain ⟨k', hends, hdisk, howned⟩ := hbound fuel hfuel k hk
  rw [session_run] at hdisk
  exact ⟨_, k', hends, hdisk, howned⟩

end BankingSystem
