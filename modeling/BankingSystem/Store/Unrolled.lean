import BankingSystem.Foundation.Fuel
import BankingSystem.Store.SystemCalls

/-!
# Loops that are unrolled

The read loops make one call for each unit of fuel.  A helper with `fuel` makes at
least as many calls before it can stall.
-/

namespace BankingSystem

open Foundation Posix

namespace Sys

variable {M : Type} {α β : Type} {fuel : Nat} {f : DbFile}

def Stalls : Call DbFile (DbFile.Rec M) → Prop
  | .stall => True
  | _ => False

/-- The program makes `fuel` calls before it can stall. -/
abbrev Unrolled (fuel : Nat) (program : Prog (Sys M) α) : Prop :=
  program.Avoids Stalls fuel

theorem unrolled_call {c : Call DbFile (DbFile.Rec M)}
    {next : Result (DbFile.Rec M) c → Prog (Sys M) β} (hc : ¬ Stalls c)
    (hnext : ∀ result, Unrolled fuel (next result)) :
    Unrolled fuel (call c >>= next) :=
  .bind (.perform hc) hnext

/-! ## Loops -/

theorem readUntil_unrolled (found : f.Rec M → Bool) (fuel : Nat) (fd : Fd f) :
    Unrolled fuel (readUntil found fuel fd) := by
  induction fuel generalizing fd with
  | zero => trivial
  | succ fuel ih =>
      refine ⟨id, fun result => ?_⟩
      cases result with
      | none => exact .ret
      | some tmp =>
          change Unrolled fuel (if found tmp then _ else _)
          split
          · exact .ret
          · exact ih _

private theorem readAll_unrolled (fuel : Nat) (fd : Fd f) :
    Unrolled (M := M) fuel (readAll fuel fd) := by
  induction fuel generalizing fd with
  | zero => trivial
  | succ fuel ih =>
      refine ⟨id, fun result => ?_⟩
      cases result with
      | none => exact .ret
      | some tmp => exact (ih _).bind fun rest => .ret

private theorem reviewAll_unrolled (fuel : Nat) (fd : Fd DbFile.feedback) :
    Unrolled (M := M) fuel (reviewAll fuel fd) := by
  induction fuel generalizing fd with
  | zero => trivial
  | succ fuel ih =>
      refine ⟨id, fun result => ?_⟩
      cases result with
      | none => exact .ret
      | some fb =>
          have hrest : ∀ fd, Unrolled (M := M) fuel (reviewAll fuel fd >>= fun rest =>
              pure (fb :: rest)) := fun fd => (ih fd).bind fun rest => .ret
          change Unrolled fuel (if fb.reviewed = 0 then _ else _)
          split
          · exact unrolled_call id fun _ => hrest _
          · exact hrest _

private theorem readBackward_unrolled (fd : Fd f) (n : Nat) :
    Unrolled (M := M) fuel (readBackward fd n) := by
  induction n with
  | zero => exact .ret
  | succ n ih =>
      refine unrolled_call id fun result => ?_
      cases result with
      | none => exact .ret
      | some tmp => exact ih.bind fun before => .ret

/-! ## Helpers -/

private theorem search_unrolled (f : DbFile) (found : f.Rec M → Bool) :
    Unrolled fuel (search fuel f found) := by
  refine unrolled_call id fun fd => ?_
  cases fd with
  | none => exact .ret
  | some fd =>
      refine unrolled_call id fun _ => (readUntil_unrolled found fuel fd).bind fun result => ?_
      exact unrolled_call id fun _ => unrolled_call id fun _ => .ret

private theorem scan_unrolled (f : DbFile) : Unrolled (M := M) fuel (scan fuel f) := by
  refine unrolled_call id fun fd => ?_
  cases fd with
  | none => exact .ret
  | some fd =>
      refine unrolled_call id fun _ => (readAll_unrolled fuel fd).bind fun records => ?_
      exact unrolled_call id fun _ => unrolled_call id fun _ => .ret

private theorem findOffset_unrolled (f : DbFile) (found : f.Rec M → Bool) :
    Unrolled fuel (findOffset fuel f found) :=
  (search_unrolled f found).bind fun _ => .ret

theorem readRecord_unrolled (f : DbFile) (found : f.Rec M → Bool) :
    Unrolled fuel (readRecord fuel f found) :=
  (search_unrolled f found).bind fun _ => .ret

private theorem beginUpdate_unrolled (f : DbFile) (offset : Nat) :
    Unrolled (M := M) fuel (beginUpdate f offset) := by
  refine unrolled_call id fun fd => ?_
  cases fd with
  | none => exact .ret
  | some fd =>
      refine unrolled_call id fun held => ?_
      split
      · refine unrolled_call id fun tmp => ?_
        cases tmp with
        | some tmp => exact .ret
        | none => exact unrolled_call id fun _ => unrolled_call id fun _ => .ret
      · exact unrolled_call id fun _ => .ret

private theorem endUpdate_unrolled (f : DbFile) (offset : Nat) (updated : Option (f.Rec M)) :
    Unrolled fuel (endUpdate f offset updated) := by
  have hrest : ∀ success : Bool, Unrolled (M := M) fuel (do
      let _ ← unlockRecord (⟨.readWrite, false, offset⟩ : Fd f) offset
      close (⟨.readWrite, false, offset⟩ : Fd f)
      return success) :=
    fun success => unrolled_call id fun _ => unrolled_call id fun _ => .ret
  cases updated with
  | some tmp => exact unrolled_call id hrest
  | none => exact hrest false

private theorem atomicUpdateAccount_unrolled (userId : Nat)
    (modifier : AccountRec M → Option (AccountRec M)) :
    Unrolled fuel (atomicUpdateAccount fuel userId modifier) := by
  refine (findOffset_unrolled .accounts _).bind fun offset => ?_
  cases offset with
  | none => exact .ret
  | some offset =>
      refine (beginUpdate_unrolled .accounts offset).bind fun tmp => ?_
      cases tmp with
      | none => exact .ret
      | some tmp => exact endUpdate_unrolled .accounts offset (modifier tmp)

private theorem writeRecord_unrolled (f : DbFile) (same : f.Rec M → Bool) (r : f.Rec M) :
    Unrolled fuel (writeRecord fuel f same r) := by
  refine unrolled_call id fun fd => ?_
  cases fd with
  | none => exact .ret
  | some fd =>
      refine unrolled_call id fun _ => (readUntil_unrolled same fuel fd).bind fun found => ?_
      have hrest : Unrolled (M := M) fuel (do
          let _ ← unlockFile fd
          close fd
          return true) :=
        unrolled_call id fun _ => unrolled_call id fun _ => .ret
      cases found with
      | some found => exact unrolled_call id fun _ => hrest
      | none => exact unrolled_call id fun _ => unrolled_call id fun _ => hrest

private theorem appendRecord_unrolled (f : DbFile) (numbered : Nat → f.Rec M) :
    Unrolled fuel (appendRecord f numbered) := by
  refine unrolled_call id fun fd => ?_
  cases fd with
  | none => exact .ret
  | some fd =>
      refine unrolled_call id fun _ => unrolled_call id fun count => ?_
      refine unrolled_call id fun _ => unrolled_call id fun _ => ?_
      exact unrolled_call id fun _ => .ret

theorem helper_unrolled [Amount M] (cmd : Db.Cmd M) : Unrolled fuel (helper fuel cmd) := by
  cases cmd with
  | readAccount | readUser => exact readRecord_unrolled _ _
  | updateAccount => exact atomicUpdateAccount_unrolled _ _
  | writeAccount | writeUser => exact writeRecord_unrolled _ _ _
  | generateNewUserId =>
      refine unrolled_call id fun fd => ?_
      cases fd with
      | none => exact .ret
      | some fd =>
          refine unrolled_call id fun _ => unrolled_call id fun count => ?_
          exact unrolled_call id fun _ => unrolled_call id fun _ => .ret
  | checkUniqueness => exact (search_unrolled _ _).bind fun _ => .ret
  | findUserOffset | findLoanOffset => exact findOffset_unrolled _ _
  | lockUser offset => exact beginUpdate_unrolled .users offset
  | lockLoan offset => exact beginUpdate_unrolled .loans offset
  | commitUser offset user => exact endUpdate_unrolled .users offset user
  | commitLoan offset loan => exact endUpdate_unrolled .loans offset loan
  | appendTransaction => exact (appendRecord_unrolled _ _).bind fun _ => .ret
  | appendLoan loan => exact appendRecord_unrolled .loans fun loanId => { loan with loanId }
  | appendFeedback fb => exact appendRecord_unrolled .feedback fun fbId => { fb with fbId }
  | scanUsers | scanLoans | scanFeedback => exact scan_unrolled _
  | scanTransactions =>
      refine unrolled_call id fun fd => ?_
      cases fd with
      | none => exact .ret
      | some fd =>
          refine unrolled_call id fun _ => unrolled_call id fun count => ?_
          refine (readBackward_unrolled fd count).bind fun txns => ?_
          exact unrolled_call id fun _ => unrolled_call id fun _ => .ret
  | markReviewed =>
      refine unrolled_call id fun fd => ?_
      cases fd with
      | none => exact .ret
      | some fd =>
          refine unrolled_call id fun _ => (reviewAll_unrolled fuel fd).bind fun records => ?_
          exact unrolled_call id fun _ => unrolled_call id fun _ => .ret
  | time => exact .perform id

end Sys

end BankingSystem
