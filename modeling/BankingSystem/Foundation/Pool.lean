import BankingSystem.Foundation.Prog

/-!
# Interleavings of a pool of threads

A pool is a shared state and one program for each thread.  One step lets one
thread issue its next command.  A schedule is the list of the threads that
move, in order, so a statement about every schedule is a statement about every
interleaving, and about every state in the middle of one.
-/

namespace BankingSystem.Foundation

variable {S : Signature} {σ ι α : Type}

/-- How a thread's command acts on the shared state; `none` blocks the thread. -/
abbrev Semantics (S : Signature) (σ ι : Type) :=
  ι → (cmd : S.Cmd) → σ → Option (S.Ans cmd × σ)

structure Pool (S : Signature) (σ ι α : Type) where
  state : σ
  threads : ι → Prog S α

namespace Pool

variable [DecidableEq ι] (exec : Semantics S σ ι)

def step (i : ι) (pool : Pool S σ ι α) : Option (Pool S σ ι α) :=
  match pool.threads i with
  | .ret _ => none
  | .call cmd next =>
      (exec i cmd pool.state).map fun result =>
        ⟨result.2, Function.update pool.threads i (next result.1)⟩

def run : List ι → Pool S σ ι α → Option (Pool S σ ι α)
  | [], pool => some pool
  | i :: schedule, pool => (pool.step exec i).bind (run schedule)

/-- Every step that the schedule takes starts in a pool with property `Q`. -/
def Along (Q : Pool S σ ι α → ι → Prop) : List ι → Pool S σ ι α → Prop
  | [], _ => True
  | i :: schedule, pool =>
      Q pool i ∧ ∀ pool', pool.step exec i = some pool' → Along Q schedule pool'

def AllReturned (pool : Pool S σ ι α) : Prop :=
  ∀ i, ∃ value, pool.threads i = .ret value

def Returned (pool : Pool S σ ι α) (i : ι) (value : α) : Prop :=
  pool.threads i = .ret value

def result (pool : Pool S σ ι α) (i : ι) : Option α :=
  match pool.threads i with
  | .ret value => some value
  | .call _ _ => none

def Guard (condition : σ → ι → S.Cmd → Prop) (pool : Pool S σ ι α) (i : ι) : Prop :=
  ∀ cmd next, pool.threads i = .call cmd next → condition pool.state i cmd

def tally (kind : S.Cmd → Bool) : List ι → Pool S σ ι α → Nat
  | [], _ => 0
  | i :: schedule, pool =>
      match pool.threads i, pool.step exec i with
      | .call cmd _, some pool' =>
          tally kind schedule pool' + if kind cmd then 1 else 0
      | _, _ => 0

def issued : List ι → Pool S σ ι α → List (ι × S.Cmd)
  | [], _ => []
  | i :: schedule, pool =>
      match pool.threads i, pool.step exec i with
      | .call cmd _, some pool' => (i, cmd) :: issued schedule pool'
      | _, _ => []

variable {exec}

theorem tally_eq_countP (kind : S.Cmd → Bool) (schedule : List ι) (pool : Pool S σ ι α) :
    tally exec kind schedule pool = (issued exec schedule pool).countP fun call => kind call.2 := by
  induction schedule generalizing pool with
  | nil => rfl
  | cons i schedule ih =>
      cases hthread : pool.threads i with
      | ret value => simp only [tally, issued, hthread, List.countP_nil]
      | call cmd next =>
          cases hstep : pool.step exec i with
          | none => simp only [tally, issued, hthread, hstep, List.countP_nil]
          | some pool' => simp only [tally, issued, hthread, hstep, List.countP_cons, ih]

theorem step_eq_some_iff {i : ι} {pool pool' : Pool S σ ι α} :
    pool.step exec i = some pool' ↔
      ∃ cmd next answer s, pool.threads i = .call cmd next ∧
        exec i cmd pool.state = some (answer, s) ∧
        pool' = ⟨s, Function.update pool.threads i (next answer)⟩ := by
  unfold step
  constructor
  · intro h
    split at h
    · cases h
    · rename_i cmd next hthread
      obtain ⟨⟨answer, s⟩, hexec, rfl⟩ := Option.map_eq_some_iff.mp h
      exact ⟨cmd, next, answer, s, hthread, hexec, rfl⟩
  · rintro ⟨cmd, next, answer, s, hthread, hexec, rfl⟩
    simp [hthread, hexec]

@[simp] theorem run_nil (pool : Pool S σ ι α) : run exec [] pool = some pool := rfl

theorem run_cons_eq_some_iff {i : ι} {schedule : List ι}
    {pool pool' : Pool S σ ι α} :
    run exec (i :: schedule) pool = some pool' ↔
      ∃ middle, pool.step exec i = some middle ∧
        run exec schedule middle = some pool' := by
  simp [run, Option.bind_eq_some_iff]

theorem run_append_eq_some_iff {first second : List ι}
    {pool pool' : Pool S σ ι α} :
    run exec (first ++ second) pool = some pool' ↔
      ∃ middle, run exec first pool = some middle ∧
        run exec second middle = some pool' := by
  induction first generalizing pool with
  | nil => simp
  | cons i first ih =>
      simp only [List.cons_append, run_cons_eq_some_iff, ih]
      constructor
      · rintro ⟨next, hstep, middle, hfirst, hsecond⟩
        exact ⟨middle, ⟨next, hstep, hfirst⟩, hsecond⟩
      · rintro ⟨middle, ⟨next, hstep, hfirst⟩, hsecond⟩
        exact ⟨next, hstep, middle, hfirst, hsecond⟩

theorem run_invariant {I : Pool S σ ι α → Prop} {Q : Pool S σ ι α → ι → Prop}
    (hstep : ∀ pool i pool', I pool → Q pool i →
      pool.step exec i = some pool' → I pool')
    {schedule : List ι} {pool pool' : Pool S σ ι α} (hinit : I pool)
    (halong : Along exec Q schedule pool)
    (hrun : run exec schedule pool = some pool') : I pool' := by
  induction schedule generalizing pool with
  | nil =>
      cases hrun
      exact hinit
  | cons i schedule ih =>
      obtain ⟨middle, hfirst, hrest⟩ := run_cons_eq_some_iff.mp hrun
      exact ih (hstep pool i middle hinit halong.1 hfirst)
        (halong.2 middle hfirst) hrest

theorem along_of_always {Q : Pool S σ ι α → ι → Prop} (h : ∀ pool i, Q pool i)
    (schedule : List ι) (pool : Pool S σ ι α) : Along exec Q schedule pool := by
  induction schedule generalizing pool with
  | nil => trivial
  | cons i schedule ih => exact ⟨h pool i, fun pool' _ => ih pool'⟩

omit [DecidableEq ι] in
theorem returned_of_result {pool : Pool S σ ι α} {i : ι} {value : α}
    (h : pool.result i = some value) : pool.Returned i value := by
  unfold result at h
  split at h
  · cases h
    assumption
  · cases h

variable (exec) in
/-- A schedule after which each thread's value is known. -/
theorem exists_run [Nonempty ι] (schedule : List ι) (pool : Pool S σ ι α) (values : ι → α)
    (h : ∀ i, (run exec schedule pool).bind (fun pool' => pool'.result i) =
      some (values i)) :
    ∃ pool', run exec schedule pool = some pool' ∧ ∀ i, pool'.Returned i (values i) := by
  obtain ⟨pool', hrun, -⟩ := Option.bind_eq_some_iff.mp (h (Classical.arbitrary ι))
  refine ⟨pool', hrun, fun i => returned_of_result ?_⟩
  have hi := h i
  rwa [hrun] at hi

theorem step_of_ret {i : ι} {pool : Pool S σ ι α} {value : α}
    (h : pool.threads i = .ret value) : pool.step exec i = none := by
  simp [step, h]

theorem step_of_call {i : ι} {pool : Pool S σ ι α} {cmd : S.Cmd}
    {next : S.Ans cmd → Prog S α} (h : pool.threads i = .call cmd next) :
    pool.step exec i = (exec i cmd pool.state).map fun result =>
      ⟨result.2, Function.update pool.threads i (next result.1)⟩ := by
  simp [step, h]

omit [DecidableEq ι] in
theorem guard_of_ret {condition : σ → ι → S.Cmd → Prop} {i : ι} {pool : Pool S σ ι α}
    {value : α} (h : pool.threads i = .ret value) : pool.Guard condition i := by
  intro cmd next hcall
  rw [h] at hcall
  cases hcall

omit [DecidableEq ι] in
theorem guard_of_call {condition : σ → ι → S.Cmd → Prop} {i : ι} {pool : Pool S σ ι α}
    {cmd : S.Cmd} {next : S.Ans cmd → Prog S α} (h : pool.threads i = .call cmd next) :
    pool.Guard condition i ↔ condition pool.state i cmd := by
  constructor
  · exact fun hguard => hguard cmd next h
  · intro hcond cmd' next' hcall
    rw [h] at hcall
    cases hcall
    exact hcond

instance decidableAlong {condition : σ → ι → S.Cmd → Prop}
    [∀ s i cmd, Decidable (condition s i cmd)] :
    ∀ (schedule : List ι) (pool : Pool S σ ι α),
      Decidable (Along exec (Guard condition) schedule pool)
  | [], _ => .isTrue trivial
  | i :: schedule, pool =>
      match h : pool.threads i with
      | .ret value => .isTrue ⟨guard_of_ret h, by simp [step_of_ret h]⟩
      | .call cmd next =>
          match hexec : exec i cmd pool.state with
          | none => decidable_of_iff (condition pool.state i cmd) <| by
              simp [Along, guard_of_call h, step_of_call h, hexec]
          | some (answer, s) =>
              let pool' : Pool S σ ι α := ⟨s, Function.update pool.threads i (next answer)⟩
              have : Decidable (Along exec (Guard condition) schedule pool') :=
                decidableAlong schedule pool'
              decidable_of_iff (condition pool.state i cmd ∧
                Along exec (Guard condition) schedule pool') <| by
                simp [Along, guard_of_call h, step_of_call h, hexec, pool']

/-- A condition on the whole pool can be decided along a schedule, too. -/
instance decidableAlongPool {Q : Pool S σ ι α → ι → Prop} [∀ pool i, Decidable (Q pool i)] :
    ∀ (schedule : List ι) (pool : Pool S σ ι α), Decidable (Along exec Q schedule pool)
  | [], _ => .isTrue trivial
  | i :: schedule, pool =>
      match hstep : pool.step exec i with
      | none => decidable_of_iff (Q pool i) <| by simp [Along, hstep]
      | some pool' =>
          have : Decidable (Along exec Q schedule pool') := decidableAlongPool schedule pool'
          decidable_of_iff (Q pool i ∧ Along exec Q schedule pool') <| by simp [Along, hstep]

theorem along_of_forall {Q : Pool S σ ι α → ι → Prop} {schedule : List ι}
    {pool : Pool S σ ι α}
    (h : ∀ first i second middle, schedule = first ++ i :: second →
      run exec first pool = some middle → Q middle i) :
    Along exec Q schedule pool := by
  induction schedule generalizing pool with
  | nil => trivial
  | cons i schedule ih =>
      refine ⟨h [] i schedule pool rfl rfl, fun pool' hstep => ih ?_⟩
      intro first j second middle hschedule hrun
      refine h (i :: first) j second middle (by rw [hschedule]; rfl) ?_
      exact run_cons_eq_some_iff.mpr ⟨pool', hstep, hrun⟩

theorem along_left {Q : Pool S σ ι α → ι → Prop} {first second : List ι}
    {pool : Pool S σ ι α} (halong : Along exec Q (first ++ second) pool) :
    Along exec Q first pool := by
  induction first generalizing pool with
  | nil => trivial
  | cons i first ih => exact ⟨halong.1, fun pool' hstep => ih (halong.2 pool' hstep)⟩

/--
Where every step keeps `J`, and a step keeps `I` exactly when it starts with
property `Q`: a schedule stays in `I` exactly when all its steps have property `Q`.
-/
theorem always_iff_along {I J : Pool S σ ι α → Prop} {Q : Pool S σ ι α → ι → Prop}
    (hstuck : ∀ pool i, pool.step exec i = none → Q pool i)
    (hkeep : ∀ pool i pool', J pool → pool.step exec i = some pool' → J pool')
    (hiff : ∀ pool i pool', J pool → I pool → pool.step exec i = some pool' →
      (I pool' ↔ Q pool i))
    (schedule : List ι) {pool : Pool S σ ι α} (hJ : J pool) (hI : I pool) :
    (∀ first second pool', schedule = first ++ second →
      run exec first pool = some pool' → I pool') ↔ Along exec Q schedule pool := by
  constructor
  · intro h
    induction schedule generalizing pool with
    | nil => trivial
    | cons i schedule ih =>
        refine ⟨?_, fun pool' hstep => ?_⟩
        · cases hstep : pool.step exec i with
          | none => exact hstuck pool i hstep
          | some pool' =>
              exact (hiff pool i pool' hJ hI hstep).mp
                (h [i] schedule pool' rfl (by simp [run, hstep]))
        · refine ih (hkeep pool i pool' hJ hstep)
            (h [i] schedule pool' rfl (by simp [run, hstep])) ?_
          intro first second middle hschedule hrun
          exact h (i :: first) second middle (by rw [hschedule]; rfl)
            (run_cons_eq_some_iff.mpr ⟨pool', hstep, hrun⟩)
  · rintro halong first second pool' rfl hrun
    have hboth := run_invariant (I := fun pool => J pool ∧ I pool)
      (fun pool i pool' hinv hQ hstep =>
        ⟨hkeep pool i pool' hinv.1 hstep, (hiff pool i pool' hinv.1 hinv.2 hstep).mpr hQ⟩)
      ⟨hJ, hI⟩ (along_left halong) hrun
    exact hboth.2

end Pool

end BankingSystem.Foundation
