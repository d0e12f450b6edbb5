import Mathlib.Logic.Function.Basic

/-!
# Programs over a signature of commands

A program either returns a value or issues one command and continues with the
answer.  A command is the unit of atomicity: everything between two commands is
local to the thread that runs the program.  The same program text can be run
alone, interleaved with others, or refined by replacing each of its commands
by a program over a lower signature.
-/

namespace BankingSystem.Foundation

/-- The commands a program may issue, and the type of the answer to each. -/
structure Signature where
  Cmd : Type
  Ans : Cmd → Type

inductive Prog (S : Signature) (α : Type) : Type where
  | ret (value : α)
  | call (cmd : S.Cmd) (next : S.Ans cmd → Prog S α)

namespace Prog

variable {S T : Signature} {α β γ σ τ : Type}

def bind : Prog S α → (α → Prog S β) → Prog S β
  | .ret value, f => f value
  | .call cmd next, f => .call cmd fun answer => (next answer).bind f

instance : Monad (Prog S) where
  pure := .ret
  bind := bind

def perform (cmd : S.Cmd) : Prog S (S.Ans cmd) := .call cmd .ret

@[simp] theorem pure_eq (value : α) : (pure value : Prog S α) = .ret value := rfl

@[simp] theorem ret_bind (value : α) (f : α → Prog S β) :
    (Prog.ret value : Prog S α) >>= f = f value := rfl

@[simp] theorem call_bind (cmd : S.Cmd) (next : S.Ans cmd → Prog S α)
    (f : α → Prog S β) :
    (Prog.call cmd next) >>= f = .call cmd fun answer => next answer >>= f := rfl

@[simp] theorem perform_bind (cmd : S.Cmd) (f : S.Ans cmd → Prog S β) :
    perform cmd >>= f = .call cmd f := rfl

theorem bind_ret (program : Prog S α) : program >>= Prog.ret = program := by
  induction program with
  | ret value => rfl
  | call cmd next ih =>
      rw [call_bind]
      exact congrArg (Prog.call cmd) (funext ih)

theorem bind_assoc' (program : Prog S α) (f : α → Prog S β) (g : β → Prog S γ) :
    program >>= f >>= g = program >>= fun value => f value >>= g := by
  induction program with
  | ret value => rfl
  | call cmd next ih =>
      simp only [call_bind]
      exact congrArg (Prog.call cmd) (funext ih)

instance : LawfulMonad (Prog S) :=
  LawfulMonad.mk' (Prog S) bind_ret ret_bind bind_assoc'

/-! ## Running one program alone -/

def run (exec : (cmd : S.Cmd) → σ → S.Ans cmd × σ) : Prog S α → σ → α × σ
  | .ret value, s => (value, s)
  | .call cmd next, s => (next (exec cmd s).1).run exec (exec cmd s).2

def run? (exec : (cmd : S.Cmd) → σ → Option (S.Ans cmd × σ)) :
    Prog S α → σ → Option (α × σ)
  | .ret value, s => some (value, s)
  | .call cmd next, s => do
      let (answer, s) ← exec cmd s
      (next answer).run? exec s

section Run

variable (exec : (cmd : S.Cmd) → σ → S.Ans cmd × σ)

@[simp] theorem run_ret (value : α) (s : σ) :
    (Prog.ret value : Prog S α).run exec s = (value, s) := rfl

@[simp] theorem run_call (cmd : S.Cmd) (next : S.Ans cmd → Prog S α) (s : σ) :
    (Prog.call cmd next).run exec s =
      (next (exec cmd s).1).run exec (exec cmd s).2 := rfl

@[simp] theorem run_perform (cmd : S.Cmd) (s : σ) :
    (perform cmd).run exec s = exec cmd s := rfl

theorem run_bind (program : Prog S α) (f : α → Prog S β) (s : σ) :
    (program >>= f).run exec s =
      (f (program.run exec s).1).run exec (program.run exec s).2 := by
  induction program generalizing s with
  | ret value => rfl
  | call cmd next ih =>
      rw [call_bind, run_call, ih, run_call]

theorem run_preserves {I : σ → Prop} (hexec : ∀ cmd s, I s → I (exec cmd s).2)
    (program : Prog S α) {s : σ} (hs : I s) : I (program.run exec s).2 := by
  induction program generalizing s with
  | ret value => exact hs
  | call cmd next ih => exact ih _ (hexec cmd s hs)

end Run

section RunOption

variable (exec : (cmd : S.Cmd) → σ → Option (S.Ans cmd × σ))

@[simp] theorem run?_ret (value : α) (s : σ) :
    (Prog.ret value : Prog S α).run? exec s = some (value, s) := rfl

@[simp] theorem run?_call (cmd : S.Cmd) (next : S.Ans cmd → Prog S α) (s : σ) :
    (Prog.call cmd next).run? exec s =
      (exec cmd s).bind fun result => (next result.1).run? exec result.2 := rfl

theorem run?_bind (program : Prog S α) (f : α → Prog S β) (s : σ) :
    (program >>= f).run? exec s =
      (program.run? exec s).bind fun result => (f result.1).run? exec result.2 := by
  induction program generalizing s with
  | ret value => rfl
  | call cmd next ih =>
      rw [call_bind, run?_call, run?_call, Option.bind_assoc]
      exact congrArg _ (funext fun result => ih result.1 result.2)

def Ends (program : Prog S α) (s : σ) (value : α) (s' : σ) : Prop :=
  program.run? exec s = some (value, s')

variable {exec} {s s₁ s' : σ}

theorem Ends.ret {value : α} : Ends exec (.ret value : Prog S α) s value s := rfl

theorem Ends.bind {program : Prog S α} {f : α → Prog S β} {value : α} {result : β}
    (h : Ends exec program s value s₁) (hrest : Ends exec (f value) s₁ result s') :
    Ends exec (program >>= f) s result s' := by
  rw [Ends, run?_bind, h]
  exact hrest

theorem Ends.call {cmd : S.Cmd} {next : S.Ans cmd → Prog S α} {answer : S.Ans cmd}
    {value : α} (h : exec cmd s = some (answer, s₁))
    (hrest : Ends exec (next answer) s₁ value s') :
    Ends exec (.call cmd next) s value s' := by
  rw [Ends, run?_call, h]
  exact hrest

end RunOption

/-! ## Refining the commands -/

/-- Replace every command by a program over a lower signature. -/
def expand (handler : (cmd : S.Cmd) → Prog T (S.Ans cmd)) : Prog S α → Prog T α
  | .ret value => .ret value
  | .call cmd next => handler cmd >>= fun answer => (next answer).expand handler

section Expand

variable (handler : (cmd : S.Cmd) → Prog T (S.Ans cmd))

@[simp] theorem expand_ret (value : α) :
    (Prog.ret value : Prog S α).expand handler = .ret value := rfl

@[simp] theorem expand_call (cmd : S.Cmd) (next : S.Ans cmd → Prog S α) :
    (Prog.call cmd next).expand handler =
      handler cmd >>= fun answer => (next answer).expand handler := rfl

theorem expand_bind (program : Prog S α) (f : α → Prog S β) :
    (program >>= f).expand handler =
      program.expand handler >>= fun value => (f value).expand handler := by
  induction program with
  | ret value => rfl
  | call cmd next ih =>
      rw [call_bind, expand_call, expand_call, bind_assoc]
      exact congrArg (handler cmd >>= ·) (funext ih)

end Expand

/--
Forward simulation.  If, with enough fuel, the program that replaces a command
does to the lower state what the command does to the upper one, then with enough
fuel the refined program does what the program does.
-/
theorem expand_ends (handler : Nat → (cmd : S.Cmd) → Prog T (S.Ans cmd))
    (upper : (cmd : S.Cmd) → σ → S.Ans cmd × σ)
    (lower : (cmd : T.Cmd) → τ → Option (T.Ans cmd × τ)) (R : σ → τ → Prop)
    (hsim : ∀ cmd s, ∃ bound, ∀ fuel, bound ≤ fuel → ∀ t, R s t → ∃ t',
      Ends lower (handler fuel cmd) t (upper cmd s).1 t' ∧ R (upper cmd s).2 t')
    (program : Prog S α) (s : σ) :
    ∃ bound, ∀ fuel, bound ≤ fuel → ∀ t, R s t → ∃ t',
      Ends lower (program.expand (handler fuel)) t (program.run upper s).1 t' ∧
        R (program.run upper s).2 t' := by
  induction program generalizing s with
  | ret value => exact ⟨0, fun _ _ t h => ⟨t, .ret, h⟩⟩
  | call cmd next ih =>
      obtain ⟨first, hfirst⟩ := hsim cmd s
      obtain ⟨rest, hrest⟩ := ih (upper cmd s).1 (upper cmd s).2
      refine ⟨max first rest, fun fuel hfuel t h => ?_⟩
      obtain ⟨t₁, hends, h₁⟩ := hfirst fuel (Nat.le_trans (Nat.le_max_left _ _) hfuel) t h
      obtain ⟨t', hends', h'⟩ :=
        hrest fuel (Nat.le_trans (Nat.le_max_right _ _) hfuel) t₁ h₁
      exact ⟨t', hends.bind hends', h'⟩

end Prog

end BankingSystem.Foundation
