import BankingSystem.Foundation.Prog

/-!
# Programs with unbounded loops

The fuel of a run bounds the iterations of each of its loops.  A result that some fuel
gives is given by every larger one, and a run ends if some fuel gives a result.
-/

namespace BankingSystem.Foundation

structure Run (σ α : Type) where
  exec : Nat → σ → Option (α × σ)
  mono : ∀ {fuel s r}, exec fuel s = some r → exec (fuel + 1) s = some r

namespace Run

variable {σ τ ι α β : Type}

theorem exec_of_le (program : Run σ α) {fuel fuel' : Nat} (hle : fuel ≤ fuel') {s : σ}
    {r : α × σ} (h : program.exec fuel s = some r) : program.exec fuel' s = some r := by
  obtain ⟨extra, rfl⟩ := Nat.exists_eq_add_of_le hle
  clear hle
  induction extra with
  | zero => exact h
  | succ extra ih => exact program.mono ih

def ofOption (f : σ → Option (α × σ)) : Run σ α := ⟨fun _ => f, id⟩

def bind (program : Run σ α) (f : α → Run σ β) : Run σ β where
  exec fuel s := (program.exec fuel s).bind fun r => (f r.1).exec fuel r.2
  mono := by
    intro fuel s r h
    obtain ⟨first, hfirst, hrest⟩ := Option.bind_eq_some_iff.mp h
    exact Option.bind_eq_some_iff.mpr ⟨first, program.mono hfirst, (f first.1).mono hrest⟩

instance : Monad (Run σ) where
  pure value := ofOption fun s => some (value, s)
  bind := bind

/-- At most the given number of iterations.  A body goes on with `inl` and leaves with `inr`. -/
def iterate (body : ι → σ → Option ((ι ⊕ α) × σ)) : Nat → ι → σ → Option (α × σ)
  | 0, _, _ => none
  | count + 1, i, s =>
      match body i s with
      | some (.inl i', s') => iterate body count i' s'
      | some (.inr value, s') => some (value, s')
      | none => none

theorem iterate_mono {body body' : ι → σ → Option ((ι ⊕ α) × σ)}
    (hbody : ∀ i s r, body i s = some r → body' i s = some r) {count count' : Nat}
    (hle : count ≤ count') {i : ι} {s : σ} {r : α × σ} (h : iterate body count i s = some r) :
    iterate body' count' i s = some r := by
  induction count generalizing count' i s with
  | zero => cases h
  | succ count ih =>
      cases count' with
      | zero => cases hle
      | succ count' =>
          rw [iterate] at h ⊢
          cases hstep : body i s with
          | none =>
              rw [hstep] at h
              cases h
          | some step =>
              rw [hbody i s step hstep]
              rw [hstep] at h
              obtain ⟨i' | value, s'⟩ := step
              · exact ih (Nat.le_of_succ_le_succ hle) h
              · exact h

def loop (body : ι → Run σ (ι ⊕ α)) (i : ι) : Run σ α where
  exec fuel := iterate (fun i => (body i).exec fuel) fuel i
  mono h := iterate_mono (fun i _ _ hstep => (body i).mono hstep) (Nat.le_succ _) h

def onPart (get : σ → τ) (set : τ → σ → σ) (program : Run τ α) : Run σ α where
  exec fuel s := (program.exec fuel (get s)).map fun r => (r.1, set r.2 s)
  mono := by
    intro fuel s r h
    obtain ⟨part, hpart, hr⟩ := Option.map_eq_some_iff.mp h
    exact Option.map_eq_some_iff.mpr ⟨part, program.mono hpart, hr⟩

/-! ## Results -/

def Reaches (program : Run σ α) (s : σ) (value : α) (s' : σ) : Prop :=
  ∃ fuel, program.exec fuel s = some (value, s')

def Ends (program : Run σ α) (s : σ) : Prop := ∃ value s', program.Reaches s value s'

variable {program : Run σ α} {s s' : σ} {value : α}

@[simp] theorem reaches_ofOption {f : σ → Option (α × σ)} :
    (ofOption f).Reaches s value s' ↔ f s = some (value, s') := by
  constructor
  · rintro ⟨fuel, h⟩
    exact h
  · exact fun h => ⟨0, h⟩

@[simp] theorem reaches_pure {value' : α} :
    (pure value' : Run σ α).Reaches s value s' ↔ value' = value ∧ s = s' := by
  refine reaches_ofOption.trans ?_
  rw [Option.some_inj, Prod.mk.injEq]

theorem reaches_bind {f : α → Run σ β} {result : β} :
    (program >>= f).Reaches s result s' ↔
      ∃ value s₁, program.Reaches s value s₁ ∧ (f value).Reaches s₁ result s' := by
  constructor
  · rintro ⟨fuel, hfuel⟩
    obtain ⟨⟨value, s₁⟩, hfirst, hrest⟩ := Option.bind_eq_some_iff.mp hfuel
    exact ⟨value, s₁, ⟨fuel, hfirst⟩, ⟨fuel, hrest⟩⟩
  · rintro ⟨value, s₁, ⟨fuel, hfuel⟩, ⟨fuel', hfuel'⟩⟩
    refine ⟨max fuel fuel', Option.bind_eq_some_iff.mpr ⟨(value, s₁), ?_, ?_⟩⟩
    · exact program.exec_of_le (Nat.le_max_left fuel fuel') hfuel
    · exact (f value).exec_of_le (Nat.le_max_right fuel fuel') hfuel'

theorem reaches_onPart {get : σ → τ} {set : τ → σ → σ} {part : Run τ α} :
    (part.onPart get set).Reaches s value s' ↔
      ∃ t, part.Reaches (get s) value t ∧ set t s = s' := by
  constructor
  · rintro ⟨fuel, hfuel⟩
    obtain ⟨⟨value', t⟩, hpart, hr⟩ := Option.map_eq_some_iff.mp hfuel
    cases hr
    exact ⟨t, ⟨fuel, hpart⟩, rfl⟩
  · rintro ⟨t, ⟨fuel, hfuel⟩, rfl⟩
    exact ⟨fuel, Option.map_eq_some_iff.mpr ⟨(value, t), hfuel, rfl⟩⟩

/-! ## Loops -/

section Loop

variable {body : ι → Run σ (ι ⊕ α)} {i : ι}

/-- A loop leaves with its first iteration, or goes on from where that one ends. -/
theorem reaches_loop : (loop body i).Reaches s value s' ↔
    (body i).Reaches s (.inr value) s' ∨
      ∃ i' s₁, (body i).Reaches s (.inl i') s₁ ∧ (loop body i').Reaches s₁ value s' := by
  constructor
  · rintro ⟨fuel, hfuel⟩
    cases fuel with
    | zero => cases hfuel
    | succ fuel =>
        simp only [loop, iterate] at hfuel
        split at hfuel
        · next i' s₁ hstep =>
            refine .inr ⟨i', s₁, ⟨fuel + 1, hstep⟩, ⟨fuel + 1, ?_⟩⟩
            exact iterate_mono (fun _ _ _ h => h) (Nat.le_succ _) hfuel
        · next value' s₁ hstep =>
            cases hfuel
            exact .inl ⟨fuel + 1, hstep⟩
        · cases hfuel
  · rintro (⟨fuel, hfuel⟩ | ⟨i', s₁, ⟨fuel, hfuel⟩, ⟨fuel', hfuel'⟩⟩)
    · refine ⟨fuel + 1, ?_⟩
      have hstep := (body i).mono hfuel
      simp only [loop, iterate, hstep]
    · refine ⟨max fuel fuel' + 1, ?_⟩
      have hstep := (body i).exec_of_le (Nat.le_succ_of_le (Nat.le_max_left fuel fuel')) hfuel
      have hrest := (loop body i').exec_of_le (Nat.le_max_right fuel fuel') hfuel'
      simp only [loop, iterate, hstep]
      exact iterate_mono (fun i _ _ h => (body i).mono h) (Nat.le_refl _) hrest

theorem reaches_while {body : Run σ (Unit ⊕ α)} : (loop (fun _ => body) ()).Reaches s value s' ↔
    body.Reaches s (.inr value) s' ∨
      ∃ s₁, body.Reaches s (.inl ()) s₁ ∧ (loop (fun _ => body) ()).Reaches s₁ value s' := by
  rw [reaches_loop]
  refine or_congr_right ?_
  constructor
  · rintro ⟨⟨⟩, h⟩
    exact h
  · exact fun h => ⟨(), h⟩

theorem loop_not_ends {I : ι → σ → Prop}
    (hstep : ∀ i s result s', I i s → (body i).Reaches s result s' →
      ∃ i', result = .inl i' ∧ I i' s') (hs : I i s) : ¬ (loop body i).Ends s := by
  rintro ⟨value, s', fuel, hfuel⟩
  have hnone : ∀ count i s, I i s → iterate (fun i => (body i).exec fuel) count i s = none := by
    intro count
    induction count with
    | zero => exact fun _ _ _ => rfl
    | succ count ih =>
        intro i s hs
        rw [iterate]
        cases hbody : (body i).exec fuel s with
        | none => rfl
        | some step =>
            obtain ⟨result, s₁⟩ := step
            obtain ⟨i', rfl, hs₁⟩ := hstep i s result s₁ hs ⟨fuel, hbody⟩
            exact ih i' s₁ hs₁
  have hfails := hnone fuel i s hs
  rw [loop] at hfuel
  exact Option.some_ne_none _ (hfuel.symm.trans hfails)

end Loop

/-! ## Loops that use up their input -/

section Turns

variable {turn : ι → σ → Option ((ι ⊕ α) × σ)} {P : ι → σ → α → σ → Prop}

/--
A relation that goes turn by turn, where each turn takes something of the input and nothing
is reached without input, is reached in as many turns as there is input.
-/
theorem iff_iterate (size : σ → Nat)
    (hunfold : ∀ i s value s', P i s value s' ↔ turn i s = some (.inr value, s') ∨
      ∃ i' s₁, turn i s = some (.inl i', s₁) ∧ P i' s₁ value s')
    (htakes : ∀ i s i' s', turn i s = some (.inl i', s') → size s ≠ 0 → size s' < size s)
    (hempty : ∀ i s value s', size s = 0 → ¬ P i s value s') {i : ι} :
    P i s value s' ↔ iterate turn (size s) i s = some (value, s') := by
  have hreached : ∀ count i s, iterate turn count i s = some (value, s') → P i s value s' := by
    intro count
    induction count with
    | zero =>
        intro i s h
        cases h
    | succ count ih =>
        intro i s h
        rw [iterate] at h
        rw [hunfold]
        split at h
        · next i' s₁ hturn => exact .inr ⟨i', s₁, hturn, ih i' s₁ h⟩
        · next value' s₁ hturn =>
            cases h
            exact .inl hturn
        · cases h
  refine ⟨fun h => ?_, hreached (size s) i s⟩
  induction hsize : size s using Nat.strongRecOn generalizing i s with
  | _ n ih =>
      subst hsize
      cases hcount : size s with
      | zero => exact absurd h (hempty i s value s' hcount)
      | succ count =>
          rw [iterate]
          rcases (hunfold i s value s').mp h with hturn | ⟨i', s₁, hturn, hrest⟩
          · rw [hturn]
          · rw [hturn]
            have hless : size s₁ < size s := htakes i s i' s₁ hturn (by omega)
            refine iterate_mono (fun _ _ _ h => h) ?_ (ih (size s₁) hless hrest rfl)
            omega

end Turns

end Run

/-! ## Programs over commands that may loop -/

namespace Prog

variable {S : Signature} {σ α : Type}

def toRun (interp : (cmd : S.Cmd) → Run σ (S.Ans cmd)) : Prog S α → Run σ α
  | .ret value => pure value
  | .call cmd next => interp cmd >>= fun answer => (next answer).toRun interp

theorem reaches_toRun {interp : (cmd : S.Cmd) → Run σ (S.Ans cmd)}
    {exec : (cmd : S.Cmd) → σ → Option (S.Ans cmd × σ)}
    (hinterp : ∀ cmd s answer s',
      (interp cmd).Reaches s answer s' ↔ exec cmd s = some (answer, s'))
    (program : Prog S α) {s s' : σ} {value : α} :
    (program.toRun interp).Reaches s value s' ↔ program.run? exec s = some (value, s') := by
  induction program generalizing s with
  | ret value' =>
      rw [toRun, Run.reaches_pure, run?_ret, Option.some_inj, Prod.mk.injEq]
  | call cmd next ih =>
      rw [toRun, Run.reaches_bind, run?_call]
      simp only [hinterp, ih, Option.bind_eq_some_iff, Prod.exists]

theorem size_run?_le (size : σ → Nat) {exec : (cmd : S.Cmd) → σ → Option (S.Ans cmd × σ)}
    (hexec : ∀ cmd s answer s', exec cmd s = some (answer, s') → size s' ≤ size s)
    (program : Prog S α) {s s' : σ} {value : α} (h : program.run? exec s = some (value, s')) :
    size s' ≤ size s := by
  induction program generalizing s with
  | ret value' =>
      cases h
      exact Nat.le_refl _
  | call cmd next ih =>
      rw [run?_call] at h
      obtain ⟨⟨answer, s₁⟩, hcmd, hnext⟩ := Option.bind_eq_some_iff.mp h
      exact Nat.le_trans (ih answer hnext) (hexec cmd s answer s₁ hcmd)

end Prog

end BankingSystem.Foundation
