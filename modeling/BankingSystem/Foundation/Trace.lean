import BankingSystem.Foundation.Protocol

/-!
# The steps that one thread takes in a run

`Pool.own` collects what one thread does in a run of a pool: for each of its
commands the state before, the answer and the state after.  However the others
interfere, these actions are a path through the thread's program (`Traces`), so a
property of one thread is proved by walking through its text.
-/

namespace BankingSystem.Foundation

variable {S : Signature} {σ ι α : Type}

structure Action (S : Signature) (σ : Type) where
  before : σ
  cmd : S.Cmd
  answer : S.Ans cmd
  after : σ

namespace Prog

variable (exec : (cmd : S.Cmd) → σ → Option (S.Ans cmd × σ))

/-- The actions are a complete path through the program, which returns the value. -/
def Traces : Prog S α → List (Action S σ) → α → Prop
  | .ret value, actions, result => actions = [] ∧ result = value
  | .call cmd next, actions, result =>
      ∃ before answer after rest, actions = ⟨before, cmd, answer, after⟩ :: rest ∧
        exec cmd before = some (answer, after) ∧ (next answer).Traces rest result

@[simp] theorem traces_ret {value result : α} {actions : List (Action S σ)} :
    (Prog.ret value : Prog S α).Traces exec actions result ↔
      actions = [] ∧ result = value := Iff.rfl

/-- The actions are the beginning of a path through the program. -/
def Path : Prog S α → List (Action S σ) → Prop
  | _, [] => True
  | .ret _, _ :: _ => False
  | .call cmd next, action :: rest =>
      ∃ before answer after, action = ⟨before, cmd, answer, after⟩ ∧
        exec cmd before = some (answer, after) ∧ (next answer).Path rest

/-! ## A program alone -/

def actions : Prog S α → σ → List (Action S σ)
  | .ret _, _ => []
  | .call cmd next, s =>
      match exec cmd s with
      | none => []
      | some (answer, s') => ⟨s, cmd, answer, s'⟩ :: (next answer).actions s'

variable {exec} {β : Type} {s s' : σ}

@[simp] theorem actions_ret (value : α) : (Prog.ret value : Prog S α).actions exec s = [] := rfl

theorem actions_call {cmd : S.Cmd} {next : S.Ans cmd → Prog S α} {answer : S.Ans cmd}
    (h : exec cmd s = some (answer, s')) :
    (Prog.call cmd next).actions exec s =
      ⟨s, cmd, answer, s'⟩ :: (next answer).actions exec s' := by
  rw [actions, h]

theorem actions_call_of_none {cmd : S.Cmd} {next : S.Ans cmd → Prog S α}
    (h : exec cmd s = none) : (Prog.call cmd next).actions exec s = [] := by
  rw [actions, h]

theorem actions_bind {program : Prog S α} {f : α → Prog S β} {value : α}
    (h : Ends exec program s value s') :
    (program >>= f).actions exec s = program.actions exec s ++ (f value).actions exec s' := by
  induction program generalizing s with
  | ret value =>
      cases h
      rfl
  | call cmd next ih =>
      rw [Ends, run?_call, Option.bind_eq_some_iff] at h
      obtain ⟨⟨answer, s₁⟩, hexec, hrest⟩ := h
      rw [call_bind, actions_call hexec, actions_call hexec, ih answer hrest, List.cons_append]

theorem actions_bind_of_none {program : Prog S α} {f : α → Prog S β}
    (h : program.run? exec s = none) :
    (program >>= f).actions exec s = program.actions exec s := by
  induction program generalizing s with
  | ret value => cases h
  | call cmd next ih =>
      rw [call_bind]
      cases hexec : exec cmd s with
      | none => rw [actions_call_of_none hexec, actions_call_of_none hexec]
      | some result =>
          obtain ⟨answer, s₁⟩ := result
          rw [run?_call, hexec, Option.bind_some] at h
          rw [actions_call hexec, actions_call hexec, ih answer h]

/-- All commands that the program can come to have the property. -/
def Only (P : S.Cmd → Prop) : Prog S α → Prop
  | .ret _ => True
  | .call cmd next => P cmd ∧ ∀ answer, (next answer).Only P

variable {P Q : S.Cmd → Prop}

theorem only_of_forall (h : ∀ cmd, P cmd) (program : Prog S α) : program.Only P := by
  induction program with
  | ret value => trivial
  | call cmd next ih => exact ⟨h cmd, ih⟩

theorem Only.bind {program : Prog S α} {f : α → Prog S β} (h : program.Only P)
    (hf : ∀ value, (f value).Only P) : (program >>= f).Only P := by
  induction program with
  | ret value => exact hf value
  | call cmd next ih => exact ⟨h.1, fun answer => ih answer (h.2 answer)⟩

theorem Only.imp {program : Prog S α} (h : program.Only P) (himp : ∀ cmd, P cmd → Q cmd) :
    program.Only Q := by
  induction program with
  | ret value => trivial
  | call cmd next ih => exact ⟨himp cmd h.1, fun answer => ih answer (h.2 answer)⟩

theorem Only.run_preserves {exec : (cmd : S.Cmd) → σ → S.Ans cmd × σ} {I : σ → Prop}
    {program : Prog S α} {s : σ} (h : program.Only P)
    (hexec : ∀ cmd s, P cmd → I s → I (exec cmd s).2) (hs : I s) :
    I (program.run exec s).2 := by
  induction program generalizing s with
  | ret value => exact hs
  | call cmd next ih => exact ih _ (h.2 _) (hexec cmd s h.1 hs)

inductive MayIssue (cmd : S.Cmd) : Prog S α → Prop
  | now {next : S.Ans cmd → Prog S α} : MayIssue cmd (.call cmd next)
  | later {first : S.Cmd} {next : S.Ans first → Prog S α} (answer : S.Ans first)
      (h : MayIssue cmd (next answer)) : MayIssue cmd (.call first next)

theorem Only.of_mayIssue {program : Prog S α} (h : program.Only P) {cmd : S.Cmd}
    (hissue : program.MayIssue cmd) : P cmd := by
  induction hissue with
  | now => exact h.1
  | later answer _ ih => exact ih (h.2 answer)

theorem only_mayIssue (program : Prog S α) : program.Only fun cmd => program.MayIssue cmd := by
  induction program with
  | ret value => trivial
  | call cmd next ih => exact ⟨.now, fun answer => (ih answer).imp fun _ => .later answer⟩

theorem Only.actions {program : Prog S α} (h : program.Only P) :
    ∀ action ∈ program.actions exec s, P action.cmd := by
  induction program generalizing s with
  | ret value => nofun
  | call cmd next ih =>
      cases hexec : exec cmd s with
      | none =>
          rw [actions_call_of_none hexec]
          nofun
      | some result =>
          rw [actions_call hexec]
          intro action hmem
          rcases List.mem_cons.mp hmem with rfl | hrest
          · exact h.1
          · exact ih result.1 (h.2 result.1) action hrest

theorem Only.actions_before {program : Prog S α} (h : program.Only P) {I : σ → Prop}
    (hexec : ∀ {cmd s answer s'}, P cmd → exec cmd s = some (answer, s') → I s → I s')
    (hs : I s) : ∀ action ∈ program.actions exec s, I action.before := by
  induction program generalizing s with
  | ret value => nofun
  | call cmd next ih =>
      cases hcall : exec cmd s with
      | none =>
          rw [actions_call_of_none hcall]
          nofun
      | some result =>
          rw [actions_call hcall]
          intro action hmem
          rcases List.mem_cons.mp hmem with rfl | hrest
          · exact hs
          · exact ih result.1 (h.2 result.1) (hexec h.1 hcall hs) action hrest

theorem Only.ends {program : Prog S α} (h : program.Only P) {I : σ → Prop}
    (hexec : ∀ {cmd s answer s'}, P cmd → exec cmd s = some (answer, s') → I s → I s')
    {value : α} (hends : Ends exec program s value s') (hs : I s) : I s' := by
  induction program generalizing s with
  | ret value =>
      cases hends
      exact hs
  | call cmd next ih =>
      rw [Ends, run?_call, Option.bind_eq_some_iff] at hends
      obtain ⟨⟨answer, s₁⟩, hcall, hrest⟩ := hends
      exact ih answer (h.2 answer) hrest (hexec h.1 hcall hs)

end Prog

namespace Pool

variable [DecidableEq ι] (exec : Semantics S σ ι)

def own (t : ι) : List ι → Pool S σ ι α → List (Action S σ)
  | [], _ => []
  | i :: schedule, pool =>
      match pool.threads i with
      | .ret _ => []
      | .call cmd next =>
          match exec i cmd pool.state with
          | none => []
          | some (answer, s) =>
              let rest := own t schedule ⟨s, Function.update pool.threads i (next answer)⟩
              if i = t then ⟨pool.state, cmd, answer, s⟩ :: rest else rest

variable {exec}

theorem own_cons {t i : ι} {schedule : List ι} {pool : Pool S σ ι α} {cmd : S.Cmd}
    {next : S.Ans cmd → Prog S α} {answer : S.Ans cmd} {s : σ}
    (hthread : pool.threads i = .call cmd next)
    (hexec : exec i cmd pool.state = some (answer, s)) :
    own exec t (i :: schedule) pool =
      if i = t then ⟨pool.state, cmd, answer, s⟩ ::
        own exec t schedule ⟨s, Function.update pool.threads i (next answer)⟩
      else own exec t schedule ⟨s, Function.update pool.threads i (next answer)⟩ := by
  simp [own, hthread, hexec]

theorem own_relates {R : Prog S α → List (Action S σ) → Prop} {t : ι}
    (hcall : ∀ {before cmd next answer after rest}, exec t cmd before = some (answer, after) →
      R (next answer) rest → R (.call cmd next) (⟨before, cmd, answer, after⟩ :: rest))
    {schedule : List ι} {pool pool' : Pool S σ ι α}
    (hrun : run exec schedule pool = some pool') (hend : R (pool'.threads t) []) :
    R (pool.threads t) (own exec t schedule pool) := by
  induction schedule generalizing pool with
  | nil =>
      cases hrun
      exact hend
  | cons i schedule ih =>
      obtain ⟨middle, hstep, hrest⟩ := run_cons_eq_some_iff.mp hrun
      obtain ⟨cmd, next, answer, s, hthread, hexec, rfl⟩ := step_eq_some_iff.mp hstep
      have hlater := ih hrest
      dsimp only at hlater
      rw [own_cons hthread hexec]
      by_cases hi : i = t
      · subst hi
        rw [if_pos rfl, hthread]
        rw [Function.update_self] at hlater
        exact hcall hexec hlater
      · rw [if_neg hi]
        rwa [Function.update_of_ne (Ne.symm hi)] at hlater

theorem own_traces {t : ι} {schedule : List ι} {pool pool' : Pool S σ ι α} {value : α}
    (hrun : run exec schedule pool = some pool') (hret : pool'.Returned t value) :
    (pool.threads t).Traces (exec t) (own exec t schedule pool) value := by
  refine own_relates (R := fun program actions => program.Traces (exec t) actions value)
    (fun hexec hrest => ⟨_, _, _, _, rfl, hexec, hrest⟩) hrun ?_
  rw [hret]
  exact ⟨rfl, rfl⟩

theorem own_path {t : ι} {schedule : List ι} {pool pool' : Pool S σ ι α}
    (hrun : run exec schedule pool = some pool') :
    (pool.threads t).Path (exec t) (own exec t schedule pool) := by
  refine own_relates (R := fun program actions => program.Path (exec t) actions)
    (fun hexec hrest => ⟨_, _, _, rfl, hexec, hrest⟩) hrun ?_
  cases pool'.threads t <;> trivial

theorem own_exec {t : ι} {schedule : List ι} {pool : Pool S σ ι α} :
    ∀ action ∈ own exec t schedule pool,
      exec t action.cmd action.before = some (action.answer, action.after) := by
  induction schedule generalizing pool with
  | nil => nofun
  | cons i schedule ih =>
      cases hthread : pool.threads i with
      | ret value =>
          rw [own, hthread]
          nofun
      | call cmd next =>
          cases hexec : exec i cmd pool.state with
          | none =>
              simp only [own, hthread, hexec]
              nofun
          | some result =>
              obtain ⟨answer, s⟩ := result
              rw [own_cons hthread hexec]
              by_cases hi : i = t
              · subst hi
                rw [if_pos rfl]
                intro action hmem
                rcases List.mem_cons.mp hmem with rfl | hrest
                · exact hexec
                · exact ih action hrest
              · rw [if_neg hi]
                exact ih

theorem own_append {t : ι} {first second : List ι} {pool middle : Pool S σ ι α}
    (hrun : run exec first pool = some middle) :
    own exec t (first ++ second) pool = own exec t first pool ++ own exec t second middle := by
  induction first generalizing pool with
  | nil =>
      cases hrun
      rfl
  | cons i first ih =>
      obtain ⟨next, hstep, hrest⟩ := run_cons_eq_some_iff.mp hrun
      obtain ⟨cmd, after, answer, s, hthread, hexec, rfl⟩ := step_eq_some_iff.mp hstep
      rw [List.cons_append, own_cons hthread hexec, own_cons hthread hexec, ih hrest]
      split <;> rfl

theorem exists_own_prefix {t : ι} {schedule : List ι} {pool pool' : Pool S σ ι α}
    (hrun : run exec schedule pool = some pool') {actions rest : List (Action S σ)}
    (hown : own exec t schedule pool = actions ++ rest) :
    ∃ first second middle, schedule = first ++ second ∧ run exec first pool = some middle ∧
      own exec t first pool = actions := by
  induction schedule generalizing pool actions with
  | nil =>
      obtain ⟨rfl, -⟩ := List.append_eq_nil_iff.mp hown.symm
      exact ⟨[], [], pool, rfl, rfl, rfl⟩
  | cons i schedule ih =>
      cases actions with
      | nil => exact ⟨[], i :: schedule, pool, rfl, rfl, rfl⟩
      | cons action actions =>
          obtain ⟨next, hstep, hrest⟩ := run_cons_eq_some_iff.mp hrun
          obtain ⟨cmd, after, answer, s, hthread, hexec, rfl⟩ := step_eq_some_iff.mp hstep
          rw [own_cons hthread hexec] at hown
          by_cases hi : i = t
          · rw [if_pos hi, List.cons_append, List.cons.injEq] at hown
            obtain ⟨rfl, hown⟩ := hown
            obtain ⟨first, second, middle, rfl, hfirst, hactions⟩ := ih hrest hown
            refine ⟨i :: first, second, middle, rfl,
              run_cons_eq_some_iff.mpr ⟨_, hstep, hfirst⟩, ?_⟩
            rw [own_cons hthread hexec, if_pos hi, hactions]
          · rw [if_neg hi] at hown
            obtain ⟨first, second, middle, rfl, hfirst, hactions⟩ := ih hrest hown
            refine ⟨i :: first, second, middle, rfl,
              run_cons_eq_some_iff.mpr ⟨_, hstep, hfirst⟩, ?_⟩
            rw [own_cons hthread hexec, if_neg hi, hactions]

end Pool

/-- The ghost state of each thread is what the protocol makes of the thread's own actions. -/
theorem Protocol.Sound.run_own {γ : Type} [DecidableEq ι] {exec : Semantics S σ ι}
    {P : ι → Protocol S γ} {I : σ → (ι → γ) → Prop} {condition : σ → ι → S.Cmd → Prop}
    {post : ι → γ → α → Prop} (hsound : Sound P exec I condition) {schedule : List ι}
    {pool pool' : Pool S σ ι α} {g : ι → γ} (h : Explains P I post pool g)
    (halong : Pool.Along exec (Pool.Guard condition) schedule pool)
    (hrun : Pool.run exec schedule pool = some pool') :
    Explains P I post pool' fun t => (Pool.own exec t schedule pool).foldl
      (fun g action => (P t).next g action.cmd action.answer) (g t) := by
  induction schedule generalizing pool g with
  | nil =>
      cases hrun
      exact h
  | cons i schedule ih =>
      obtain ⟨middle, hstep, hrest⟩ := Pool.run_cons_eq_some_iff.mp hrun
      obtain ⟨cmd, next, answer, s, hthread, hexec, hmiddle⟩ := Pool.step_eq_some_iff.mp hstep
      have hmoved := h.step_call hsound (halong.1 cmd next hthread) hthread hexec
      rw [← hmiddle] at hmoved
      have hend := ih hmoved (halong.2 middle hstep) hrest
      refine cast (congrArg _ (funext fun t => ?_)) hend
      rw [Pool.own_cons hthread hexec, ← hmiddle]
      by_cases hi : i = t
      · subst hi
        rw [if_pos rfl, Function.update_self, List.foldl_cons]
      · rw [if_neg hi, Function.update_of_ne (Ne.symm hi)]

end BankingSystem.Foundation
