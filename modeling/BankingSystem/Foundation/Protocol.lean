import Mathlib.Algebra.BigOperators.Group.Finset.Piecewise
import Mathlib.Tactic.Abel
import Mathlib.Tactic.Ring
import BankingSystem.Foundation.Pool

/-!
# Protocols: what one thread may do, said once

A protocol is an automaton over a thread's private ghost state.  It says which
commands the thread may issue, which answers it may rely on, and how its ghost
state moves.  `Follows` checks a program against a protocol and a postcondition
without looking at the other threads; `Sound` checks, one command at a time,
that the shared state keeps the promises.  `Sound.run` puts the two together
for every interleaving.
-/

namespace BankingSystem.Foundation

structure Protocol (S : Signature) (γ : Type) where
  allows : γ → S.Cmd → Prop
  answers : γ → (cmd : S.Cmd) → S.Ans cmd → Prop
  next : γ → (cmd : S.Cmd) → S.Ans cmd → γ

namespace Protocol

variable {S T : Signature} {α β γ σ ι : Type}

/-- From ghost state `g` the program obeys the protocol and ends in `post`. -/
def Follows (P : Protocol S γ) (post : γ → α → Prop) : γ → Prog S α → Prop
  | g, .ret value => post g value
  | g, .call cmd next =>
      P.allows g cmd ∧ ∀ answer, P.answers g cmd answer →
        P.Follows post (P.next g cmd answer) (next answer)

variable {P : Protocol S γ} {post post' : γ → α → Prop}

@[simp] theorem follows_ret {g : γ} {value : α} :
    P.Follows post g (.ret value) ↔ post g value := Iff.rfl

@[simp] theorem follows_call {g : γ} {cmd : S.Cmd} {next : S.Ans cmd → Prog S α} :
    P.Follows post g (.call cmd next) ↔
      P.allows g cmd ∧ ∀ answer, P.answers g cmd answer →
        P.Follows post (P.next g cmd answer) (next answer) := Iff.rfl

theorem Follows.imp {g : γ} {program : Prog S α} (h : P.Follows post g program)
    (himp : ∀ g value, post g value → post' g value) :
    P.Follows post' g program := by
  induction program generalizing g with
  | ret value => exact himp g value h
  | call cmd next ih => exact ⟨h.1, fun answer ha => ih answer (h.2 answer ha)⟩

theorem Follows.bind {mid : γ → α → Prop} {post : γ → β → Prop} {g : γ}
    {program : Prog S α} {f : α → Prog S β} (h : P.Follows mid g program)
    (hf : ∀ g value, mid g value → P.Follows post g (f value)) :
    P.Follows post g (program >>= f) := by
  induction program generalizing g with
  | ret value => exact hf g value h
  | call cmd next ih => exact ⟨h.1, fun answer ha => ih answer (h.2 answer ha)⟩

/-- A refined program follows, if each command's program does what the command may do. -/
theorem Follows.expand {P : Protocol T γ} {Q : Protocol S γ} {post : γ → α → Prop}
    {handler : (cmd : S.Cmd) → Prog T (S.Ans cmd)}
    (hhandler : ∀ g cmd, Q.allows g cmd →
      P.Follows (fun g' answer => Q.answers g cmd answer ∧ g' = Q.next g cmd answer) g
        (handler cmd))
    {g : γ} {program : Prog S α} (h : Q.Follows post g program) :
    P.Follows post g (program.expand handler) := by
  induction program generalizing g with
  | ret value => exact h
  | call cmd next ih =>
      refine (hhandler g cmd h.1).bind fun g' answer hanswer => ?_
      obtain ⟨hanswer, rfl⟩ := hanswer
      exact ih answer (h.2 answer hanswer)

/-- Some ghost state explains the pool: the invariant holds and each thread follows. -/
def Explains (P : ι → Protocol S γ) (I : σ → (ι → γ) → Prop)
    (post : ι → γ → α → Prop) (pool : Pool S σ ι α) (g : ι → γ) : Prop :=
  I pool.state g ∧ ∀ i, (P i).Follows (post i) (g i) (pool.threads i)

theorem Explains.returned {P : ι → Protocol S γ} {I : σ → (ι → γ) → Prop}
    {post : ι → γ → α → Prop} {pool : Pool S σ ι α} {g : ι → γ} {i : ι} {value : α}
    (h : Explains P I post pool g) (hret : pool.Returned i value) :
    post i (g i) value := by
  have hfollows := h.2 i
  rw [hret] at hfollows
  exact hfollows

/--
The obligations of the shared state.  When a thread issues an allowed command
under `condition`, the answer is one it may rely on, and the invariant holds
again with the thread's ghost state moved.
-/
structure Sound [DecidableEq ι] (P : ι → Protocol S γ) (exec : Semantics S σ ι)
    (I : σ → (ι → γ) → Prop) (condition : σ → ι → S.Cmd → Prop) : Prop where
  step : ∀ {s s' g i cmd answer}, I s g → condition s i cmd →
    (P i).allows (g i) cmd → exec i cmd s = some (answer, s') →
    (P i).answers (g i) cmd answer ∧
      I s' (Function.update g i ((P i).next (g i) cmd answer))

variable [DecidableEq ι] {exec : Semantics S σ ι} {P : ι → Protocol S γ}
  {I : σ → (ι → γ) → Prop} {condition : σ → ι → S.Cmd → Prop}
  {post : ι → γ → α → Prop}

theorem Explains.step_call (hsound : Sound P exec I condition)
    {pool : Pool S σ ι α} {g : ι → γ} {i : ι} {cmd : S.Cmd}
    {next : S.Ans cmd → Prog S α} {answer : S.Ans cmd} {s : σ}
    (h : Explains P I post pool g) (hcondition : condition pool.state i cmd)
    (hthread : pool.threads i = .call cmd next)
    (hexec : exec i cmd pool.state = some (answer, s)) :
    Explains P I post ⟨s, Function.update pool.threads i (next answer)⟩
      (Function.update g i ((P i).next (g i) cmd answer)) := by
  have hfollows := h.2 i
  rw [hthread] at hfollows
  obtain ⟨hanswer, hinv⟩ := hsound.step h.1 hcondition hfollows.1 hexec
  refine ⟨hinv, fun j => ?_⟩
  by_cases hji : j = i
  · subst hji
    simpa using hfollows.2 answer hanswer
  · simpa [Function.update_of_ne hji] using h.2 j

theorem Explains.step (hsound : Sound P exec I condition)
    {pool pool' : Pool S σ ι α} {g : ι → γ} {i : ι}
    (h : Explains P I post pool g) (hguard : pool.Guard condition i)
    (hstep : pool.step exec i = some pool') :
    ∃ cmd answer, Explains P I post pool'
      (Function.update g i ((P i).next (g i) cmd answer)) := by
  obtain ⟨cmd, next, answer, s, hthread, hexec, rfl⟩ :=
    Pool.step_eq_some_iff.mp hstep
  exact ⟨cmd, answer, h.step_call hsound (hguard cmd next hthread) hthread hexec⟩

/-- Every interleaving of threads that follow a sound protocol stays explained. -/
theorem Sound.run (hsound : Sound P exec I condition) {schedule : List ι}
    {pool pool' : Pool S σ ι α} {g : ι → γ} (h : Explains P I post pool g)
    (halong : Pool.Along exec (Pool.Guard condition) schedule pool)
    (hrun : Pool.run exec schedule pool = some pool') :
    ∃ g', Explains P I post pool' g' := by
  refine Pool.run_invariant (I := fun pool => ∃ g, Explains P I post pool g)
    ?_ ⟨g, h⟩ halong hrun
  rintro pool i pool' ⟨g, h⟩ hguard hstep
  obtain ⟨cmd, answer, h'⟩ := h.step hsound hguard hstep
  exact ⟨_, h'⟩

/-- An invariant may also speak of the commands that have been issued so far. -/
theorem Sound.run_history (hsound : Sound P exec I condition)
    {J : List (ι × S.Cmd) → σ → (ι → γ) → Prop}
    (hhistory : ∀ {past s s' g i cmd answer}, J past s g → I s g → (P i).allows (g i) cmd →
      exec i cmd s = some (answer, s') →
      J (past ++ [(i, cmd)]) s' (Function.update g i ((P i).next (g i) cmd answer)))
    {schedule : List ι} {pool pool' : Pool S σ ι α} {g : ι → γ} {past : List (ι × S.Cmd)}
    (h : Explains P I post pool g) (hpast : J past pool.state g)
    (halong : Pool.Along exec (Pool.Guard condition) schedule pool)
    (hrun : Pool.run exec schedule pool = some pool') :
    ∃ g', Explains P I post pool' g' ∧
      J (past ++ Pool.issued exec schedule pool) pool'.state g' := by
  induction schedule generalizing pool g past with
  | nil =>
      cases hrun
      exact ⟨g, h, by rwa [Pool.issued, List.append_nil]⟩
  | cons i schedule ih =>
      obtain ⟨middle, hstep, hrest⟩ := Pool.run_cons_eq_some_iff.mp hrun
      obtain ⟨cmd, next, answer, s, hthread, hexec, hmiddle⟩ :=
        Pool.step_eq_some_iff.mp hstep
      have hfollows := h.2 i
      rw [hthread] at hfollows
      have hmoved := h.step_call hsound (halong.1 cmd next hthread) hthread hexec
      have hpast' := hhistory hpast h.1 hfollows.1 hexec
      rw [← hmiddle] at hmoved
      rw [show s = middle.state by rw [hmiddle]] at hpast'
      obtain ⟨g', hexplains, hend⟩ := ih hmoved hpast' (halong.2 middle hstep) hrest
      refine ⟨g', hexplains, ?_⟩
      simp only [Pool.issued, hthread, hstep]
      rwa [List.append_assoc] at hend

theorem Sound.and_stable (hsound : Sound P exec I condition) {D : ι → γ → Prop}
    (hstable : ∀ i g cmd answer, (P i).allows g cmd → D i g →
      D i ((P i).next g cmd answer)) :
    Sound P exec (fun s g => I s g ∧ ∀ i, D i (g i)) condition where
  step {s s' g i cmd answer} h hcondition hallow hexec := by
    obtain ⟨hanswer, hinv⟩ := hsound.step h.1 hcondition hallow hexec
    refine ⟨hanswer, hinv, fun j => ?_⟩
    by_cases hji : j = i
    · subst hji
      rw [Function.update_self]
      exact hstable j (g j) cmd answer hallow (h.2 j)
    · rw [Function.update_of_ne hji]
      exact h.2 j

end Protocol

theorem sum_update_apply {ι γ A : Type} [Fintype ι] [DecidableEq ι] [AddCommGroup A]
    (f : ι → γ → A) (g : ι → γ) (i : ι) (x : γ) :
    ∑ j, f j (Function.update g i x j) = ∑ j, f j (g j) + (f i x - f i (g i)) := by
  have hcomp : ∀ j, f j (Function.update g i x j) =
      Function.update (fun j => f j (g j)) i (f i x) j := by
    intro j
    by_cases hj : j = i
    · subst hj
      simp
    · simp [hj]
  have hsplit := Finset.sum_update_of_mem (Finset.mem_univ i) (fun j => f j (g j)) (f i x)
  have hold := Finset.sum_sdiff (Finset.singleton_subset_iff.mpr (Finset.mem_univ i))
    (f := fun j => f j (g j))
  rw [Finset.sum_singleton] at hold
  rw [Finset.sum_congr rfl fun j _ => hcomp j, hsplit, ← hold]
  abel

theorem sum_comp_update {ι γ A : Type} [Fintype ι] [DecidableEq ι] [AddCommGroup A]
    (f : γ → A) (g : ι → γ) (i : ι) (x : γ) :
    ∑ j, f (Function.update g i x j) = ∑ j, f (g j) + (f x - f (g i)) :=
  sum_update_apply (fun _ => f) g i x

theorem sum_comp_update_add {ι γ A : Type} [Fintype ι] [DecidableEq ι] [AddCommMonoid A]
    (f : γ → A) (g : ι → γ) (i : ι) (x : γ) :
    ∑ j, f (Function.update g i x j) + f (g i) = ∑ j, f (g j) + f x := by
  have hrest : ∑ j ∈ Finset.univ.erase i, f (Function.update g i x j) =
      ∑ j ∈ Finset.univ.erase i, f (g j) :=
    Finset.sum_congr rfl fun j hj => by rw [Function.update_of_ne (Finset.ne_of_mem_erase hj)]
  have hnew := Finset.sum_erase_add Finset.univ (fun j => f (Function.update g i x j))
    (Finset.mem_univ i)
  have hold := Finset.sum_erase_add Finset.univ (fun j => f (g j)) (Finset.mem_univ i)
  rw [Function.update_self] at hnew
  rw [← hnew, ← hold, hrest, add_right_comm]

namespace Protocol

variable {S : Signature} {α γ σ ι : Type} [Fintype ι] [DecidableEq ι]
  {exec : Semantics S σ ι} {P : ι → Protocol S γ} {I : σ → (ι → γ) → Prop}
  {condition : σ → ι → S.Cmd → Prop} {post : ι → γ → α → Prop}

/-- Where the ghost states count the commands of a kind, the run has taken so many. -/
theorem Sound.run_tally (hsound : Sound P exec I condition) (kind : S.Cmd → Bool)
    (count : γ → ℤ)
    (hcount : ∀ i g cmd answer, (P i).allows g cmd →
      count ((P i).next g cmd answer) = count g + if kind cmd then 1 else 0)
    {schedule : List ι} {pool pool' : Pool S σ ι α} {g : ι → γ}
    (h : Explains P I post pool g)
    (halong : Pool.Along exec (Pool.Guard condition) schedule pool)
    (hrun : Pool.run exec schedule pool = some pool') :
    ∃ g', Explains P I post pool' g' ∧
      ∑ i, count (g' i) = ∑ i, count (g i) + Pool.tally exec kind schedule pool := by
  have hstart : ∑ i, count (g i) = ∑ i, count (g i) +
      ((([] : List (ι × S.Cmd)).countP fun call => kind call.2 : Nat) : ℤ) := by simp
  obtain ⟨g', hexplains, hsum⟩ := hsound.run_history
    (J := fun past _ g' => ∑ i, count (g' i) = ∑ i, count (g i) +
      ((past.countP fun call => kind call.2 : Nat) : ℤ))
    (by
      intro past s s' g' i cmd answer hpast _ hallow _
      rw [sum_comp_update, hcount i (g' i) cmd answer hallow, hpast, List.countP_append,
        List.countP_singleton]
      push_cast
      ring) h hstart halong hrun
  refine ⟨g', hexplains, ?_⟩
  rw [hsum, List.nil_append, Pool.tally_eq_countP]

end Protocol

end BankingSystem.Foundation
