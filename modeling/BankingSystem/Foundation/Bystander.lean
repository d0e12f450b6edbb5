import Mathlib.Data.List.ReduceOption
import BankingSystem.Foundation.Trace

/-!
# A thread that only looks

A thread whose commands leave the shared state as it is can be added to a pool and
left out again: its steps are erased from a schedule and the others have run as they
would without it.  What it sees of a state that only grows is ordered like its own
commands.
-/

namespace BankingSystem.Foundation

variable {S : Signature} {σ ι α β : Type}

namespace Prog

theorem map_call (f : α → β) (cmd : S.Cmd) (next : S.Ans cmd → Prog S α) :
    f <$> Prog.call cmd next = .call cmd fun answer => f <$> next answer := rfl

@[simp] theorem map_ret (f : α → β) (value : α) :
    f <$> (Prog.ret value : Prog S α) = .ret (f value) := rfl

theorem map_eq_call {f : α → β} {program : Prog S α} {cmd : S.Cmd}
    {next : S.Ans cmd → Prog S β} (h : f <$> program = .call cmd next) :
    ∃ next', program = .call cmd next' ∧ next = fun answer => f <$> next' answer := by
  cases program with
  | ret value => cases h
  | call cmd' next' =>
      rw [map_call, Prog.call.injEq] at h
      obtain ⟨rfl, hnext⟩ := h
      exact ⟨next', rfl, (eq_of_heq hnext).symm⟩

variable {exec : (cmd : S.Cmd) → σ → Option (S.Ans cmd × σ)}

theorem Traces.of_bind {program : Prog S α} {f : α → Prog S β} {actions : List (Action S σ)}
    {value : β} (h : (program >>= f).Traces exec actions value) :
    ∃ first second middle, actions = first ++ second ∧ program.Traces exec first middle ∧
      (f middle).Traces exec second value := by
  induction program generalizing actions with
  | ret result => exact ⟨[], actions, result, rfl, ⟨rfl, rfl⟩, h⟩
  | call cmd next ih =>
      obtain ⟨before, answer, after, rest, rfl, hexec, hrest⟩ := h
      obtain ⟨first, second, middle, rfl, hfirst, hsecond⟩ := ih answer hrest
      exact ⟨_ :: first, second, middle, rfl,
        ⟨before, answer, after, first, rfl, hexec, hfirst⟩, hsecond⟩

theorem Traces.of_map {program : Prog S α} {f : α → β} {actions : List (Action S σ)} {value : β}
    (h : (f <$> program).Traces exec actions value) :
    ∃ result, program.Traces exec actions result ∧ f result = value := by
  obtain ⟨first, second, middle, rfl, hfirst, rfl, rfl⟩ := Traces.of_bind h
  exact ⟨middle, by rwa [List.append_nil], rfl⟩

end Prog

namespace Pool

variable [DecidableEq ι]

/-! ## One more thread -/

def beside (pool : Pool S σ ι α) (extra : Prog S β) : Pool S σ (Option ι) (α ⊕ β) where
  state := pool.state
  threads
    | none => .inr <$> extra
    | some i => .inl <$> pool.threads i

omit [DecidableEq ι] in
@[simp] theorem beside_state (pool : Pool S σ ι α) (extra : Prog S β) :
    (pool.beside extra).state = pool.state := rfl

omit [DecidableEq ι] in
@[simp] theorem beside_none (pool : Pool S σ ι α) (extra : Prog S β) :
    (pool.beside extra).threads none = .inr <$> extra := rfl

omit [DecidableEq ι] in
@[simp] theorem beside_some (pool : Pool S σ ι α) (extra : Prog S β) (i : ι) :
    (pool.beside extra).threads (some i) = .inl <$> pool.threads i := rfl

variable {exec : Semantics S σ (Option ι)}

theorem step_beside {i : Option ι} {pool : Pool S σ ι α} {extra : Prog S β}
    {after : Pool S σ (Option ι) (α ⊕ β)}
    (h : (pool.beside extra).step exec i = some after) :
    (∃ j pool', i = some j ∧ pool.step (fun i => exec (some i)) j = some pool' ∧
      after = pool'.beside extra) ∨
    ∃ cmd next answer s, i = none ∧ extra = .call cmd next ∧
      exec none cmd pool.state = some (answer, s) ∧
      after = ({ pool with state := s } : Pool S σ ι α).beside (next answer) := by
  obtain ⟨cmd, next, answer, s, hthread, hexec, rfl⟩ := step_eq_some_iff.mp h
  cases i with
  | some j =>
      obtain ⟨next', hprogram, rfl⟩ := Prog.map_eq_call hthread
      refine .inl ⟨j, ⟨s, Function.update pool.threads j (next' answer)⟩, rfl,
        step_eq_some_iff.mpr ⟨cmd, next', answer, s, hprogram, hexec, rfl⟩, ?_⟩
      refine congrArg (Pool.mk s) (funext fun i => ?_)
      cases i with
      | none => rfl
      | some i =>
          by_cases hi : i = j
          · subst hi
            simp [beside]
          · have hne : some i ≠ some j := fun hsome => hi (Option.some_inj.mp hsome)
            simp only [Function.update_of_ne hne, Function.update_of_ne hi, beside_some]
  | none =>
      obtain ⟨next', rfl, rfl⟩ := Prog.map_eq_call hthread
      refine .inr ⟨cmd, next', answer, s, rfl, rfl, hexec, ?_⟩
      refine congrArg (Pool.mk s) (funext fun i => ?_)
      cases i <;> rfl

/-- The steps of a thread that only looks can be erased. -/
theorem run_beside {P : S.Cmd → Prop} {I : σ → Prop}
    (hquiet : ∀ {cmd s answer s'}, P cmd → I s → exec none cmd s = some (answer, s') → s' = s)
    (hkeeps : ∀ {i cmd s answer s'}, I s → exec (some i) cmd s = some (answer, s') → I s')
    {schedule : List (Option ι)} {pool : Pool S σ ι α} {extra : Prog S β}
    {after : Pool S σ (Option ι) (α ⊕ β)} (hextra : extra.Only P) (hstate : I pool.state)
    (hrun : run exec schedule (pool.beside extra) = some after) :
    ∃ pool' extra', run (fun i => exec (some i)) schedule.reduceOption pool = some pool' ∧
      after = pool'.beside extra' ∧ extra'.Only P ∧ I pool'.state := by
  induction schedule generalizing pool extra with
  | nil =>
      cases hrun
      exact ⟨pool, extra, rfl, rfl, hextra, hstate⟩
  | cons i schedule ih =>
      obtain ⟨middle, hstep, hrest⟩ := run_cons_eq_some_iff.mp hrun
      rcases step_beside hstep with ⟨j, next, rfl, hown, rfl⟩ |
        ⟨cmd, next, answer, s, rfl, rfl, hexec, rfl⟩
      · obtain ⟨cmd, _, answer, s, _, hexec, rfl⟩ := step_eq_some_iff.mp hown
        obtain ⟨pool', extra', hrun', hafter⟩ := ih hextra (hkeeps hstate hexec) hrest
        refine ⟨pool', extra', ?_, hafter⟩
        rw [List.reduceOption_cons_of_some]
        exact run_cons_eq_some_iff.mpr ⟨_, hown, hrun'⟩
      · obtain rfl := hquiet hextra.1 hstate hexec
        rw [List.reduceOption_cons_of_none]
        exact ih (hextra.2 answer) hstate hrest

/-! ## A state that grows -/

section Growth

variable {exec : Semantics S σ ι}

/-- A relation that every step respects orders the states that one thread sees. -/
theorem own_ordered {R : σ → σ → Prop} {J : Pool S σ ι α → Prop} (hrefl : ∀ s, R s s)
    (htrans : ∀ {s₁ s₂ s₃}, R s₁ s₂ → R s₂ s₃ → R s₁ s₃)
    (hstep : ∀ {pool i pool'}, J pool → pool.step exec i = some pool' →
      J pool' ∧ R pool.state pool'.state)
    {t : ι} {schedule : List ι} {pool : Pool S σ ι α} (hpool : J pool) :
    (∀ action ∈ own exec t schedule pool, R pool.state action.before) ∧
      (own exec t schedule pool).Pairwise fun first second => R first.before second.before := by
  induction schedule generalizing pool with
  | nil => exact ⟨List.forall_mem_nil _, .nil⟩
  | cons i schedule ih =>
      cases hthread : pool.threads i with
      | ret value =>
          rw [own, hthread]
          exact ⟨List.forall_mem_nil _, .nil⟩
      | call cmd next =>
          cases hcall : exec i cmd pool.state with
          | none =>
              simp only [own, hthread, hcall]
              exact ⟨List.forall_mem_nil _, .nil⟩
          | some result =>
              obtain ⟨answer, s⟩ := result
              obtain ⟨hnext, hgrown⟩ := hstep hpool
                (step_eq_some_iff.mpr ⟨cmd, next, answer, s, hthread, hcall, rfl⟩)
              obtain ⟨hfrom, hpairs⟩ := ih hnext
              rw [own_cons hthread hcall]
              split
              · refine ⟨fun action hmem => ?_, .cons (fun action hmem => ?_) hpairs⟩
                · rcases List.mem_cons.mp hmem with rfl | hrest
                  · exact hrefl _
                  · exact htrans hgrown (hfrom action hrest)
                · exact htrans hgrown (hfrom action hmem)
              · exact ⟨fun action hmem => htrans hgrown (hfrom action hmem), hpairs⟩

end Growth

end Pool

end BankingSystem.Foundation
