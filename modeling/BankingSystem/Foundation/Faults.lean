import BankingSystem.Foundation.Prog
import BankingSystem.Foundation.Disk

/-!
# Programs whose commands fail

A command that can fail has an answer for that case, and leaves the state as it is.
Which commands of a run fail is given by a pattern; the run keeps a record of what it
tried.  `Surely` is the weakest precondition over all patterns.
-/

namespace BankingSystem.Foundation

variable {S : Signature} {σ α β : Type}

/-- What a command answers when it fails; `none` if it cannot. -/
abbrev Errors (S : Signature) : Type := (cmd : S.Cmd) → Option (S.Ans cmd)

structure Attempt (S : Signature) where
  cmd : S.Cmd
  ok : Bool

/-- `fails n` says whether the command after the next `n` ones fails, if it can. -/
structure Faulty (S : Signature) (σ : Type) where
  state : σ
  fails : Nat → Bool
  trace : List (Attempt S)

namespace Faulty

variable (errors : Errors S) (exec : (cmd : S.Cmd) → σ → Option (S.Ans cmd × σ))

def succeed (cmd : S.Cmd) (s : Faulty S σ) : Option (S.Ans cmd × Faulty S σ) :=
  (exec cmd s.state).map fun result =>
    (result.1, ⟨result.2, fun n => s.fails (n + 1), s.trace ++ [⟨cmd, true⟩]⟩)

def step (cmd : S.Cmd) (s : Faulty S σ) : Option (S.Ans cmd × Faulty S σ) :=
  match errors cmd with
  | none => s.succeed exec cmd
  | some error =>
      if s.fails 0 then
        some (error, ⟨s.state, fun n => s.fails (n + 1), s.trace ++ [⟨cmd, false⟩]⟩)
      else s.succeed exec cmd

end Faulty

namespace Prog

/--
Whatever fails, the program ends, and the value, the state and the trace that it leaves
have the property.
-/
def Surely (errors : Errors S) (exec : (cmd : S.Cmd) → σ → Option (S.Ans cmd × σ)) :
    Prog S α → σ → (α → σ → List (Attempt S) → Prop) → Prop
  | .ret value, s, R => R value s []
  | .call cmd next, s, R =>
      (∃ answer s₁, exec cmd s = some (answer, s₁) ∧
        (next answer).Surely errors exec s₁ fun value s' rest =>
          R value s' (⟨cmd, true⟩ :: rest)) ∧
      ∀ error ∈ errors cmd, (next error).Surely errors exec s fun value s' rest =>
        R value s' (⟨cmd, false⟩ :: rest)

variable {errors : Errors S} {exec : (cmd : S.Cmd) → σ → Option (S.Ans cmd × σ)}
  {s : σ} {R Q : α → σ → List (Attempt S) → Prop}

theorem Surely.imp {program : Prog S α} (h : program.Surely errors exec s R)
    (himp : ∀ value s' trace, R value s' trace → Q value s' trace) :
    program.Surely errors exec s Q := by
  induction program generalizing s R Q with
  | ret value => exact himp value s [] h
  | call cmd next ih =>
      obtain ⟨⟨answer, s₁, hexec, hok⟩, hfail⟩ := h
      refine ⟨⟨answer, s₁, hexec, ih answer hok fun value s' rest => himp value s' _⟩, ?_⟩
      intro error herror
      exact ih error (hfail error herror) fun value s' rest => himp value s' _

theorem Surely.bind {program : Prog S α} {f : α → Prog S β}
    {R : β → σ → List (Attempt S) → Prop}
    (h : program.Surely errors exec s fun value s₁ first =>
      (f value).Surely errors exec s₁ fun result s' rest => R result s' (first ++ rest)) :
    (program >>= f).Surely errors exec s R := by
  induction program generalizing s R with
  | ret value => exact h
  | call cmd next ih =>
      obtain ⟨⟨answer, s₁, hexec, hok⟩, hfail⟩ := h
      refine ⟨⟨answer, s₁, hexec, ih answer hok⟩, ?_⟩
      intro error herror
      exact ih error (hfail error herror)

theorem Surely.ends {program : Prog S α} (h : program.Surely errors exec s R)
    (fails : Nat → Bool) (before : List (Attempt S)) :
    ∃ value s' later trace, Ends (Faulty.step errors exec) program ⟨s, fails, before⟩ value
      ⟨s', later, before ++ trace⟩ ∧ R value s' trace := by
  induction program generalizing s R fails before with
  | ret value => exact ⟨value, s, fails, [], by rw [List.append_nil]; exact .ret, h⟩
  | call cmd next ih =>
      obtain ⟨⟨answer, s₁, hexec, hok⟩, hfail⟩ := h
      have hsucceed : Faulty.succeed exec cmd ⟨s, fails, before⟩ =
          some (answer, ⟨s₁, fun n => fails (n + 1), before ++ [⟨cmd, true⟩]⟩) := by
        simp [Faulty.succeed, hexec]
      have hdone : Faulty.step errors exec cmd ⟨s, fails, before⟩ =
          Faulty.succeed exec cmd ⟨s, fails, before⟩ →
          ∃ value s' later trace, Ends (Faulty.step errors exec) (.call cmd next)
            ⟨s, fails, before⟩ value ⟨s', later, before ++ trace⟩ ∧ R value s' trace := by
        intro hcall
        obtain ⟨value, s', later, rest, hends, hR⟩ := ih answer hok _ (before ++ [⟨cmd, true⟩])
        rw [List.append_assoc] at hends
        exact ⟨value, s', later, _, .call (hcall.trans hsucceed) hends, hR⟩
      cases herror : errors cmd with
      | none => exact hdone (by simp [Faulty.step, herror])
      | some error =>
          cases hfails : fails 0 with
          | false => exact hdone (by simp [Faulty.step, herror, hfails])
          | true =>
              have hcall : Faulty.step errors exec cmd ⟨s, fails, before⟩ =
                  some (error, ⟨s, fun n => fails (n + 1), before ++ [⟨cmd, false⟩]⟩) := by
                simp [Faulty.step, herror, hfails]
              obtain ⟨value, s', later, rest, hends, hR⟩ :=
                ih error (hfail error herror) _ (before ++ [⟨cmd, false⟩])
              rw [List.append_assoc] at hends
              exact ⟨value, s', later, _, .call hcall hends, hR⟩

theorem Surely.of_ends {program : Prog S α} (h : program.Surely errors exec s R)
    {fails : Nat → Bool} {value : α} {s' : Faulty S σ}
    (hends : Ends (Faulty.step errors exec) program ⟨s, fails, []⟩ value s') :
    R value s'.state s'.trace := by
  obtain ⟨value', s₁, later, trace, hends', hR⟩ := h.ends fails []
  rw [Ends, hends] at hends'
  cases hends'
  exact hR

end Prog

/-! ## Traces -/

def outcomes (p : S.Cmd → Bool) (trace : List (Attempt S)) : List Bool :=
  (trace.filter fun attempt => p attempt.cmd).map Attempt.ok

section Traces

variable (p : S.Cmd → Bool)

@[simp] theorem outcomes_nil : outcomes p ([] : List (Attempt S)) = [] := rfl

@[simp] theorem outcomes_cons (cmd : S.Cmd) (ok : Bool) (trace : List (Attempt S)) :
    outcomes p (⟨cmd, ok⟩ :: trace) =
      if p cmd then ok :: outcomes p trace else outcomes p trace := by
  by_cases h : p cmd <;> simp [outcomes, h]

@[simp] theorem outcomes_append (first second : List (Attempt S)) :
    outcomes p (first ++ second) = outcomes p first ++ outcomes p second := by
  simp [outcomes]

def afterFirst : List (Attempt S) → List (Attempt S)
  | [] => []
  | attempt :: rest => if p attempt.cmd && attempt.ok then rest else afterFirst rest

variable {p}

theorem afterFirst_append_of_mem {first : List (Attempt S)} (h : true ∈ outcomes p first)
    (second : List (Attempt S)) :
    afterFirst p (first ++ second) = afterFirst p first ++ second := by
  induction first with
  | nil => cases h
  | cons attempt first ih =>
      obtain ⟨cmd, ok⟩ := attempt
      rw [List.cons_append, afterFirst, afterFirst]
      split
      · rfl
      · rename_i hnot
        refine ih ?_
        rw [outcomes_cons] at h
        by_cases hp : p cmd <;> simp_all

theorem afterFirst_append_of_not_mem {first : List (Attempt S)}
    (h : true ∉ outcomes p first) (second : List (Attempt S)) :
    afterFirst p (first ++ second) = afterFirst p second := by
  induction first with
  | nil => rfl
  | cons attempt first ih =>
      obtain ⟨cmd, ok⟩ := attempt
      rw [outcomes_cons] at h
      rw [List.cons_append, afterFirst]
      by_cases hp : p cmd <;> simp_all

theorem count_outcomes_afterFirst_le (q : S.Cmd → Bool) (ok : Bool) (trace : List (Attempt S)) :
    (outcomes q (afterFirst p trace)).count ok ≤ (outcomes q trace).count ok := by
  induction trace with
  | nil => exact Nat.le_refl _
  | cons attempt trace ih =>
      obtain ⟨cmd, ok'⟩ := attempt
      have hle : (outcomes q trace).count ok ≤ (outcomes q (⟨cmd, ok'⟩ :: trace)).count ok := by
        rw [outcomes_cons]
        split
        · exact List.count_le_count_cons
        · exact Nat.le_refl _
      rw [afterFirst]
      split
      · exact hle
      · exact ih.trans hle

end Traces

/-! ## System calls that fail -/

namespace Posix

variable {F : Type} {Rec : F → Type}

/-- `open`, `write` and, where it may, `read` fail. -/
def ioErrors (reads : Bool) : Errors (calls F Rec)
  | .openFile _ _ => some none
  | .read _ _ => if reads then some none else none
  | .write _ _ _ => some false
  | .setLockWait _ _ _ _ | .seekEnd _ _ | .close _ _ | .time | .stall => none

variable [DecidableEq F] (f : F)

def Call.isOn (call : Call F Rec) : Bool := call.file? = some f

def Call.isOpen : Call F Rec → Bool
  | .openFile f' _ => f' = f
  | _ => false

def Call.isWrite : Call F Rec → Bool
  | .write f' _ _ => f' = f
  | _ => false

end Posix

end BankingSystem.Foundation
