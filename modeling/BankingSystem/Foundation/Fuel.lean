import BankingSystem.Foundation.Pool

/-!
# Commands that are not met for a while

A loop that is unrolled to a bound ends in a command that stands for going on.  Where
each program avoids that command for `n` calls, no run of fewer steps meets it.
-/

namespace BankingSystem.Foundation

variable {S T : Signature} {α β σ ι : Type}

namespace Prog

/-- None of the first `n` commands is a bad one, whatever is answered. -/
def Avoids (bad : S.Cmd → Prop) : Nat → Prog S α → Prop
  | 0, _ => True
  | _ + 1, .ret _ => True
  | n + 1, .call cmd next => ¬ bad cmd ∧ ∀ answer, Avoids bad n (next answer)

variable {bad : S.Cmd → Prop} {m n : Nat} {program : Prog S α}

theorem Avoids.ret {value : α} : (Prog.ret value : Prog S α).Avoids bad n := by
  cases n <;> trivial

theorem Avoids.le (h : program.Avoids bad n) (hle : m ≤ n) : program.Avoids bad m := by
  induction m generalizing n program with
  | zero => trivial
  | succ m ih =>
      cases n with
      | zero => cases hle
      | succ n =>
          cases program with
          | ret value => trivial
          | call cmd next =>
              exact ⟨h.1, fun answer => ih (h.2 answer) (Nat.le_of_succ_le_succ hle)⟩

theorem Avoids.call {cmd : S.Cmd} {next : S.Ans cmd → Prog S α} (hcmd : ¬ bad cmd)
    (hnext : ∀ answer, (next answer).Avoids bad n) : (Prog.call cmd next).Avoids bad n := by
  cases n with
  | zero => trivial
  | succ n => exact ⟨hcmd, fun answer => (hnext answer).le (Nat.le_succ n)⟩

theorem Avoids.perform {cmd : S.Cmd} (hcmd : ¬ bad cmd) : (Prog.perform cmd).Avoids bad n :=
  .call hcmd fun _ => .ret

theorem Avoids.bind {f : α → Prog S β} (h : program.Avoids bad n)
    (hf : ∀ value, (f value).Avoids bad n) : (program >>= f).Avoids bad n := by
  induction n generalizing program with
  | zero => trivial
  | succ n ih =>
      cases program with
      | ret value => exact hf value
      | call cmd next =>
          exact ⟨h.1, fun answer => ih (h.2 answer) fun value => (hf value).le (Nat.le_succ n)⟩

theorem Avoids.expand {handler : (cmd : T.Cmd) → Prog S (T.Ans cmd)} (program : Prog T α)
    (h : ∀ cmd, (handler cmd).Avoids bad n) : (program.expand handler).Avoids bad n := by
  induction program with
  | ret value => exact .ret
  | call cmd next ih =>
      rw [expand_call]
      exact (h cmd).bind ih

end Prog

/-- Each step of a run uses up one of the commands that the threads avoid. -/
theorem Pool.run_avoids [DecidableEq ι] {exec : Semantics S σ ι} {bad : S.Cmd → Prop} {n : Nat}
    {schedule : List ι} {pool pool' : Pool S σ ι α}
    (hrun : run exec schedule pool = some pool') (h : ∀ i, (pool.threads i).Avoids bad n)
    (i : ι) : (pool'.threads i).Avoids bad (n - schedule.length) := by
  induction schedule generalizing pool n with
  | nil =>
      cases hrun
      exact h i
  | cons j schedule ih =>
      obtain ⟨middle, hstep, hrest⟩ := run_cons_eq_some_iff.mp hrun
      obtain ⟨cmd, next, answer, s, hthread, -, rfl⟩ := step_eq_some_iff.mp hstep
      rw [List.length_cons, Nat.add_comm, Nat.sub_add_eq]
      refine ih hrest fun k => ?_
      by_cases hk : k = j
      · subst hk
        have hbefore := h k
        rw [hthread] at hbefore
        simp only [Function.update_self]
        cases n with
        | zero => trivial
        | succ n => exact hbefore.2 answer
      · simp only [Function.update_of_ne hk]
        exact (h k).le (Nat.sub_le n 1)

end BankingSystem.Foundation
