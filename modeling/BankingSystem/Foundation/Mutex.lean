import BankingSystem.Foundation.Pool

/-!
# Critical sections

Threads that share some data under one mutex and the rest without it.  `Locked`
has the commands of the program text: take the mutex, give it back, one access to
the guarded data, one command on the rest.  `Atomic` has each critical section as
one command.  `Refined` relates a pool of the first kind to one of the second; a
section takes effect when its thread takes the mutex.
-/

namespace BankingSystem.Foundation

variable {S T A : Signature} {σ τ ι α : Type}

/-! ## The two signatures -/

namespace Locked

inductive Cmd (S T : Signature) where
  | lock
  | unlock
  | inside (cmd : S.Cmd)
  | outside (cmd : T.Cmd)

abbrev Ans (S T : Signature) : Cmd S T → Type
  | .lock => Unit
  | .unlock => Unit
  | .inside cmd => S.Ans cmd
  | .outside cmd => T.Ans cmd

end Locked

/-- The commands of threads that take a mutex around the commands of `S`. -/
abbrev Locked (S T : Signature) : Signature := ⟨Locked.Cmd S T, Locked.Ans S T⟩

namespace Atomic

inductive Cmd (A T : Signature) where
  | critical (op : A.Cmd)
  | outside (cmd : T.Cmd)

abbrev Ans (A T : Signature) : Cmd A T → Type
  | .critical op => A.Ans op
  | .outside cmd => T.Ans cmd

end Atomic

/-- The same threads with one command for each critical section. -/
abbrev Atomic (A T : Signature) : Signature := ⟨Atomic.Cmd A T, Atomic.Ans A T⟩

/-- The thread that holds the mutex, the data that it guards and the rest. -/
structure WithMutex (ι σ τ : Type) where
  owner : Option ι
  data : σ
  rest : τ

namespace Prog

def beside (A : Signature) (program : Prog T α) : Prog (Atomic A T) α :=
  program.expand fun cmd => Prog.perform (S := Atomic A T) (.outside cmd)

@[simp] theorem beside_ret (value : α) : (Prog.ret value : Prog T α).beside A = .ret value := rfl

@[simp] theorem beside_call (cmd : T.Cmd) (next : T.Ans cmd → Prog T α) :
    (Prog.call cmd next).beside A =
      .call (S := Atomic A T) (.outside cmd) fun answer => (next answer).beside A := rfl

def within (T : Signature) (program : Prog S α) : Prog (Locked S T) α :=
  program.expand fun cmd => Prog.perform (S := Locked S T) (.inside cmd)

@[simp] theorem within_ret (value : α) :
    (Prog.ret value : Prog S α).within T = .ret value := rfl

@[simp] theorem within_call (cmd : S.Cmd) (next : S.Ans cmd → Prog S α) :
    (Prog.call cmd next).within T =
      .call (S := Locked S T) (.inside cmd) fun answer => (next answer).within T := rfl

end Prog

section

variable (inside : (cmd : S.Cmd) → σ → S.Ans cmd × σ) (outside : Semantics T τ ι)
  (body : (op : A.Cmd) → Prog S (A.Ans op))

/--
The guarded data can be accessed at any time; only the mutex can keep threads
apart.  Giving back a mutex that another thread holds has no defined effect.
-/
def Locked.exec [DecidableEq ι] : Semantics (Locked S T) (WithMutex ι σ τ) ι
  | i, .lock, s => if s.owner = none then some ((), { s with owner := some i }) else none
  | i, .unlock, s => if s.owner = some i then some ((), { s with owner := none }) else none
  | _, .inside cmd, s =>
      some ((inside cmd s.data).1, { s with data := (inside cmd s.data).2 })
  | i, .outside cmd, s =>
      (outside i cmd s.rest).map fun result => (result.1, { s with rest := result.2 })

def Atomic.exec : Semantics (Atomic A T) (σ × τ) ι
  | _, .critical op, s =>
      some (((body op).run inside s.1).1, ((body op).run inside s.1).2, s.2)
  | i, .outside cmd, s =>
      (outside i cmd s.2).map fun result => (result.1, s.1, result.2)

def Locked.leave {β : Type} (next : β → Prog (Locked S T) α) (value : β) :
    Prog (Locked S T) α :=
  .call (S := Locked S T) .unlock fun _ => next value

/-- Every critical section runs between taking the mutex and giving it back. -/
def Atomic.handler : (cmd : (Atomic A T).Cmd) → Prog (Locked S T) ((Atomic A T).Ans cmd)
  | .critical op =>
      .call (S := Locked S T) .lock fun _ => (body op).within T >>= Locked.leave .ret
  | .outside cmd => Prog.perform (S := Locked S T) (.outside cmd)

abbrev Prog.locked (program : Prog (Atomic A T) α) : Prog (Locked S T) α :=
  program.expand (Atomic.handler body)

/--
The two pools agree, except that the thread that holds the mutex has still to run
the rest of its section, which will leave the data as it is in the second pool.
-/
structure Refined [DecidableEq ι] (fine : Pool (Locked S T) (WithMutex ι σ τ) ι α)
    (coarse : Pool (Atomic A T) (σ × τ) ι α) : Prop where
  rest : fine.state.rest = coarse.state.2
  free : fine.state.owner = none → fine.state.data = coarse.state.1
  idle : ∀ i, fine.state.owner ≠ some i → fine.threads i = (coarse.threads i).locked body
  held : ∀ i, fine.state.owner = some i →
    ∃ (op : A.Cmd) (left : Prog S (A.Ans op)) (next : A.Ans op → Prog (Atomic A T) α),
      fine.threads i = left.within T >>= Locked.leave (fun answer => (next answer).locked body) ∧
      (left.run inside fine.state.data).2 = coarse.state.1 ∧
      coarse.threads i = next (left.run inside fine.state.data).1

end

section

variable {inside : (cmd : S.Cmd) → σ → S.Ans cmd × σ} {outside : Semantics T τ ι}
  {body : (op : A.Cmd) → Prog S (A.Ans op)}

/-! ## The text of a thread -/

theorem locked_critical (op : A.Cmd) (next : A.Ans op → Prog (Atomic A T) α) :
    (Prog.call (S := Atomic A T) (.critical op) next).locked body =
      .call (S := Locked S T) .lock fun _ =>
        (body op).within T >>= Locked.leave fun answer => (next answer).locked body := by
  rw [Prog.locked, Prog.expand_call]
  refine congrArg (Prog.call (S := Locked S T) .lock) (funext fun _ => ?_)
  exact Prog.bind_assoc' _ _ _

theorem locked_outside (cmd : T.Cmd) (next : T.Ans cmd → Prog (Atomic A T) α) :
    (Prog.call (S := Atomic A T) (.outside cmd) next).locked body =
      .call (S := Locked S T) (.outside cmd) fun answer => (next answer).locked body := rfl

variable [DecidableEq ι] {fine fine' : Pool (Locked S T) (WithMutex ι σ τ) ι α}
  {coarse coarse' : Pool (Atomic A T) (σ × τ) ι α} {i : ι}

theorem Refined.start (threads : ι → Prog (Atomic A T) α) (s : σ) (t : τ) :
    Refined inside body ⟨⟨none, s, t⟩, fun i => (threads i).locked body⟩ ⟨(s, t), threads⟩ where
  rest := rfl
  free _ := rfl
  idle _ _ := rfl
  held i howner := by cases howner

/-! ## A thread alone -/

omit [DecidableEq ι] in
theorem Prog.ends_run {exec : (cmd : T.Cmd) → τ → T.Ans cmd × τ} (program : Prog T α) (t : τ) :
    Prog.Ends (fun cmd t => some (exec cmd t)) program t (program.run exec t).1
      (program.run exec t).2 := by
  induction program generalizing t with
  | ret value => exact .ret
  | call cmd next ih => exact .call rfl (ih (exec cmd t).1 (exec cmd t).2)

omit [DecidableEq ι] in
theorem Prog.beside_ends {program : Prog T α} {s : σ} {t t' : τ} {value : α}
    (h : Prog.Ends (outside i) program t value t') :
    Prog.Ends (Atomic.exec inside outside body i) (program.beside A) (s, t) value (s, t') := by
  induction program generalizing t with
  | ret value' =>
      cases h
      exact .ret
  | call cmd next ih =>
      rw [Prog.Ends, Prog.run?_call, Option.bind_eq_some_iff] at h
      obtain ⟨⟨answer, t₁⟩, hcall, hrest⟩ := h
      exact .call (Option.map_eq_some_iff.mpr ⟨_, hcall, rfl⟩) (ih answer hrest)

/-! ## One step -/

variable (outside) in
/-- The thread that holds the mutex goes on with its section, unseen by the coarse pool. -/
theorem Refined.step_held (h : Refined inside body fine coarse)
    (howner : fine.state.owner = some i) :
    ∃ fine', fine.step (Locked.exec inside outside) i = some fine' ∧
      Refined inside body fine' coarse := by
  obtain ⟨op, left, next, hthread, hdata, hcoarse⟩ := h.held i howner
  have hother : ∀ j, j ≠ i → fine.threads j = (coarse.threads j).locked body := by
    intro j hj
    refine h.idle j ?_
    rw [howner]
    exact fun hsame => hj (Option.some_inj.mp hsame).symm
  cases left with
  | ret value =>
      refine ⟨_, Pool.step_eq_some_iff.mpr ⟨.unlock, _, (), _, hthread, if_pos howner, rfl⟩, ?_⟩
      refine ⟨h.rest, fun _ => hdata, fun j _ => ?_, nofun⟩
      by_cases hj : j = i
      · subst hj
        rw [hcoarse]
        exact Function.update_self ..
      · exact (Function.update_of_ne hj ..).trans (hother j hj)
  | call cmd cont =>
      refine ⟨_, Pool.step_eq_some_iff.mpr ⟨.inside cmd, _, _, _, hthread, rfl, rfl⟩, ?_⟩
      refine ⟨h.rest, fun hfree => ?_, fun j hj => ?_, fun j hj => ?_⟩
      · rw [howner] at hfree
        cases hfree
      · have hne : j ≠ i := fun hji => hj (hji ▸ howner)
        exact (Function.update_of_ne hne ..).trans (hother j hne)
      · obtain rfl : i = j := Option.some_inj.mp (howner.symm.trans hj)
        exact ⟨op, cont _, next, Function.update_self .., hdata, hcoarse⟩

theorem Refined.step_idle (h : Refined inside body fine coarse)
    (howner : fine.state.owner ≠ some i)
    (hstep : fine.step (Locked.exec inside outside) i = some fine') :
    ∃ coarse', coarse.step (Atomic.exec inside outside body) i = some coarse' ∧
      Refined inside body fine' coarse' := by
  obtain ⟨cmd, next, answer, s, hthread, hexec, rfl⟩ := Pool.step_eq_some_iff.mp hstep
  have hidle := h.idle i howner
  cases hcoarse : coarse.threads i with
  | ret value =>
      rw [hcoarse, hthread] at hidle
      cases hidle
  | call op cont =>
      rw [hcoarse, hthread] at hidle
      cases op with
      | critical op =>
          rw [locked_critical] at hidle
          cases hidle
          rw [Locked.exec] at hexec
          split at hexec
          case isFalse hheld => cases hexec
          case isTrue hfree =>
            cases hexec
            refine ⟨_, Pool.step_eq_some_iff.mpr ⟨.critical op, cont, _, _, hcoarse, rfl, rfl⟩, ?_⟩
            refine ⟨h.rest, nofun, fun j hj => ?_, fun j hj => ?_⟩
            · have hne : j ≠ i := fun hji => hj (hji ▸ rfl)
              dsimp only
              rw [Function.update_of_ne hne, Function.update_of_ne hne]
              exact h.idle j (by rw [hfree]; nofun)
            · obtain rfl : i = j := Option.some_inj.mp hj
              refine ⟨op, body op, cont, Function.update_self .., ?_, ?_⟩
              · dsimp only
                rw [h.free hfree]
              · dsimp only
                rw [Function.update_self, h.free hfree]
      | outside cmd' =>
          rw [locked_outside] at hidle
          cases hidle
          obtain ⟨⟨answer', t⟩, hcall, hresult⟩ := Option.map_eq_some_iff.mp hexec
          cases hresult
          rw [h.rest] at hcall
          refine ⟨_, Pool.step_eq_some_iff.mpr ⟨.outside cmd', cont, answer', (coarse.state.1, t),
            hcoarse, Option.map_eq_some_iff.mpr ⟨_, hcall, rfl⟩, rfl⟩, ?_⟩
          refine ⟨rfl, h.free, fun j hj => ?_, fun j hj => ?_⟩
          · dsimp only
            by_cases hji : j = i
            · subst hji
              rw [Function.update_self, Function.update_self]
            · rw [Function.update_of_ne hji, Function.update_of_ne hji]
              exact h.idle j hj
          · have hne : j ≠ i := fun hji => howner (hji ▸ hj)
            dsimp only
            rw [Function.update_of_ne hne, Function.update_of_ne hne]
            exact h.held j hj

/-! ## Runs -/

/-- The mutex and the sections leave the rest of the state to the other commands. -/
theorem Locked.run_rest {J : τ → Prop}
    (hJ : ∀ {i cmd t answer t'}, J t → outside i cmd t = some (answer, t') → J t')
    {schedule : List ι} (h : J fine.state.rest)
    (hrun : Pool.run (Locked.exec inside outside) schedule fine = some fine') :
    J fine'.state.rest := by
  refine Pool.run_invariant (I := fun pool => J pool.state.rest) (Q := fun _ _ => True) ?_ h
    (Pool.along_of_always (fun _ _ => trivial) _ _) hrun
  intro pool i pool' h _ hstep
  obtain ⟨cmd, next, answer, s, -, hexec, rfl⟩ := Pool.step_eq_some_iff.mp hstep
  cases cmd with
  | lock | unlock =>
      simp only [Locked.exec] at hexec
      split at hexec <;> cases hexec
      exact h
  | inside cmd =>
      cases hexec
      exact h
  | outside cmd =>
      obtain ⟨result, hcall, hresult⟩ := Option.map_eq_some_iff.mp hexec
      cases hresult
      exact hJ h hcall

/-- Every interleaving of the threads is one in which critical sections are atomic. -/
theorem Refined.run {schedule : List ι} (h : Refined inside body fine coarse)
    (hrun : Pool.run (Locked.exec inside outside) schedule fine = some fine') :
    ∃ schedule' coarse', schedule'.Sublist schedule ∧
      Pool.run (Atomic.exec inside outside body) schedule' coarse = some coarse' ∧
      Refined inside body fine' coarse' := by
  induction schedule generalizing fine coarse with
  | nil =>
      cases hrun
      exact ⟨[], coarse, .slnil, rfl, h⟩
  | cons i schedule ih =>
      obtain ⟨middle, hstep, hrest⟩ := Pool.run_cons_eq_some_iff.mp hrun
      by_cases howner : fine.state.owner = some i
      · obtain ⟨middle', hstep', hmiddle⟩ := h.step_held outside howner
        obtain rfl : middle = middle' := Option.some_inj.mp (hstep.symm.trans hstep')
        obtain ⟨schedule', coarse', hsub, hcoarse, hend⟩ := ih hmiddle hrest
        exact ⟨schedule', coarse', hsub.cons i, hcoarse, hend⟩
      · obtain ⟨next, hnext, hmiddle⟩ := h.step_idle howner hstep
        obtain ⟨schedule', coarse', hsub, hcoarse, hend⟩ := ih hmiddle hrest
        exact ⟨i :: schedule', coarse', hsub.cons_cons i,
          Pool.run_cons_eq_some_iff.mpr ⟨next, hnext, hcoarse⟩, hend⟩

variable (inside outside) in
/-- The thread that holds the mutex needs no other thread to give it back. -/
theorem run_section {β : Type} (left : Prog S β) (f : β → Prog (Locked S T) α)
    (howner : fine.state.owner = some i)
    (hthread : fine.threads i = left.within T >>= Locked.leave f) :
    ∃ steps, Pool.run (Locked.exec inside outside) (List.replicate steps i) fine =
      some ⟨⟨none, (left.run inside fine.state.data).2, fine.state.rest⟩,
        Function.update fine.threads i (f (left.run inside fine.state.data).1)⟩ := by
  induction left generalizing fine with
  | ret value =>
      refine ⟨1, Pool.run_cons_eq_some_iff.mpr ⟨_, Pool.step_eq_some_iff.mpr
        ⟨.unlock, _, (), _, hthread, if_pos howner, rfl⟩, rfl⟩⟩
  | call cmd cont ih =>
      obtain ⟨steps, hrun⟩ := @ih (inside cmd fine.state.data).1
        ⟨{ fine.state with data := (inside cmd fine.state.data).2 },
          Function.update fine.threads i ((cont (inside cmd fine.state.data).1).within T >>=
            Locked.leave f)⟩ howner (Function.update_self ..)
      refine ⟨steps + 1, Pool.run_cons_eq_some_iff.mpr ⟨_, Pool.step_eq_some_iff.mpr
        ⟨.inside cmd, _, _, _, hthread, rfl, rfl⟩, hrun.trans ?_⟩⟩
      dsimp only
      rw [Function.update_idem]
      rfl

variable (outside) in
theorem Refined.exists_release (h : Refined inside body fine coarse)
    (howner : fine.state.owner = some i) :
    ∃ steps fine', Pool.run (Locked.exec inside outside) (List.replicate steps i) fine =
      some fine' ∧ fine'.state.owner = none ∧ Refined inside body fine' coarse := by
  obtain ⟨op, left, next, hthread, hdata, hcoarse⟩ := h.held i howner
  obtain ⟨steps, hrun⟩ := run_section inside outside left _ howner hthread
  refine ⟨steps, _, hrun, rfl, h.rest, fun _ => hdata, fun j _ => ?_, nofun⟩
  by_cases hj : j = i
  · subst hj
    rw [hcoarse]
    exact Function.update_self ..
  · refine (Function.update_of_ne hj ..).trans (h.idle j ?_)
    rw [howner]
    exact fun hsame => hj (Option.some_inj.mp hsame).symm

theorem Refined.owner_of_inside (h : Refined inside body fine coarse) {cmd : S.Cmd}
    {next : S.Ans cmd → Prog (Locked S T) α}
    (hthread : fine.threads i = .call (S := Locked S T) (.inside cmd) next) :
    fine.state.owner = some i := by
  by_contra howner
  have hidle := h.idle i howner
  rw [hthread] at hidle
  cases hcoarse : coarse.threads i with
  | ret value =>
      rw [hcoarse] at hidle
      cases hidle
  | call op cont =>
      rw [hcoarse] at hidle
      cases op with
      | critical op =>
          rw [locked_critical] at hidle
          cases hidle
      | outside cmd' =>
          rw [locked_outside] at hidle
          cases hidle

/-! ## The other direction -/

theorem Refined.step_of_coarse (h : Refined inside body fine coarse)
    (hfree : fine.state.owner = none)
    (hstep : coarse.step (Atomic.exec inside outside body) i = some coarse') :
    ∃ fine', fine.step (Locked.exec inside outside) i = some fine' ∧
      Refined inside body fine' coarse' := by
  have howner : fine.state.owner ≠ some i := by
    rw [hfree]
    nofun
  have hmoves : ∃ fine', fine.step (Locked.exec inside outside) i = some fine' := by
    obtain ⟨op, cont, answer, s, hthread, hexec, -⟩ := Pool.step_eq_some_iff.mp hstep
    have hidle := h.idle i howner
    rw [hthread] at hidle
    cases op with
    | critical op =>
        rw [locked_critical] at hidle
        exact ⟨_, Pool.step_eq_some_iff.mpr ⟨.lock, _, (), _, hidle, if_pos hfree, rfl⟩⟩
    | outside cmd =>
        rw [locked_outside] at hidle
        obtain ⟨result, hcall, -⟩ := Option.map_eq_some_iff.mp hexec
        rw [← h.rest] at hcall
        exact ⟨_, Pool.step_eq_some_iff.mpr ⟨.outside cmd, _, _, _, hidle,
          Option.map_eq_some_iff.mpr ⟨result, hcall, rfl⟩, rfl⟩⟩
  obtain ⟨fine', hfine⟩ := hmoves
  obtain ⟨middle, hmiddle, hrefined⟩ := h.step_idle howner hfine
  obtain rfl : coarse' = middle := Option.some_inj.mp (hstep.symm.trans hmiddle)
  exact ⟨fine', hfine, hrefined⟩

/-- Every interleaving of atomic sections is one of the threads with the mutex. -/
theorem Refined.run_of_coarse {schedule : List ι} (h : Refined inside body fine coarse)
    (hfree : fine.state.owner = none)
    (hrun : Pool.run (Atomic.exec inside outside body) schedule coarse = some coarse') :
    ∃ schedule' fine',
      Pool.run (Locked.exec inside outside) schedule' fine = some fine' ∧
      fine'.state.owner = none ∧ Refined inside body fine' coarse' := by
  induction schedule generalizing fine coarse with
  | nil =>
      cases hrun
      exact ⟨[], fine, rfl, hfree, h⟩
  | cons i schedule ih =>
      obtain ⟨middle, hstep, hrest⟩ := Pool.run_cons_eq_some_iff.mp hrun
      obtain ⟨taken, htaken, hrefined⟩ := h.step_of_coarse hfree hstep
      -- the section that has taken the mutex is run to its end before the next step
      have hreleased : ∃ steps fine₁, Pool.run (Locked.exec inside outside) steps taken =
          some fine₁ ∧ fine₁.state.owner = none ∧ Refined inside body fine₁ middle := by
        cases howner : taken.state.owner with
        | none => exact ⟨[], taken, rfl, howner, hrefined⟩
        | some j =>
            obtain ⟨steps, fine₁, hrun₁, hfree₁, hrefined₁⟩ :=
              hrefined.exists_release outside howner
            exact ⟨_, fine₁, hrun₁, hfree₁, hrefined₁⟩
      obtain ⟨steps, fine₁, hrun₁, hfree₁, hrefined₁⟩ := hreleased
      obtain ⟨schedule', fine', hrun', hend⟩ := ih hrefined₁ hfree₁ hrest
      exact ⟨i :: (steps ++ schedule'), fine', Pool.run_cons_eq_some_iff.mpr
        ⟨taken, htaken, Pool.run_append_eq_some_iff.mpr ⟨fine₁, hrun₁, hrun'⟩⟩, hend⟩

theorem Refined.result_eq (h : Refined inside body fine coarse) (hfree : fine.state.owner = none)
    (i : ι) : fine.result i = coarse.result i := by
  have hidle := h.idle i (by rw [hfree]; nofun)
  rw [Pool.result, Pool.result, hidle]
  cases coarse.threads i with
  | ret value => rfl
  | call op cont => cases op <;> rfl

/-- With the mutex free, the pools reach the same states with the same values returned. -/
theorem Refined.reaches_iff (h : Refined inside body fine coarse)
    (hfree : fine.state.owner = none) (s : σ) (t : τ) (values : ι → Option α) :
    (∃ schedule fine', Pool.run (Locked.exec inside outside) schedule fine = some fine' ∧
      fine'.state = ⟨none, s, t⟩ ∧ fine'.result = values) ↔
    ∃ schedule coarse', Pool.run (Atomic.exec inside outside body) schedule coarse =
      some coarse' ∧ coarse'.state = (s, t) ∧ coarse'.result = values := by
  constructor
  · rintro ⟨schedule, fine', hrun, hstate, hvalues⟩
    obtain ⟨schedule', coarse', -, hcoarse, hrefined⟩ := h.run hrun
    have hfree' : fine'.state.owner = none := by rw [hstate]
    refine ⟨schedule', coarse', hcoarse, Prod.ext ?_ ?_, ?_⟩
    · rw [← hrefined.free hfree', hstate]
    · rw [← hrefined.rest, hstate]
    · rw [← hvalues]
      exact (funext fun i => hrefined.result_eq hfree' i).symm
  · rintro ⟨schedule, coarse', hrun, hstate, hvalues⟩
    obtain ⟨schedule', fine', hfine, hfree', hrefined⟩ := h.run_of_coarse hfree hrun
    have hdata := hrefined.free hfree'
    have hrest := hrefined.rest
    rw [hstate] at hdata hrest
    refine ⟨schedule', fine', hfine, ?_, ?_⟩
    · rw [← show fine'.state.data = s from hdata, ← show fine'.state.rest = t from hrest,
        ← hfree']
    · rw [← hvalues]
      exact funext fun i => hrefined.result_eq hfree' i

end

end BankingSystem.Foundation
