import Mathlib.Data.List.Basic

/-!
# Runs of a deterministic machine

A run is a fold of the step function over the events.  A property that only some
steps keep holds all along a run exactly when every step of it is one of those.  What
every step of a kind takes from a potential bounds how many of them a run has.
-/

namespace BankingSystem.Foundation

variable {σ ε : Type} {step : σ → ε → σ} {I Good : σ → Prop} {Allowed : σ → ε → Prop}

theorem foldl_invariant (hstep : ∀ s event, I s → I (step s event)) {s : σ} (hs : I s)
    (events : List ε) : I (events.foldl step s) :=
  List.foldlRecOn events step hs fun s h event _ => hstep s event h

theorem foldl_invariant_of_allowed
    (hstep : ∀ s event, Allowed s event → I s → I (step s event)) {s : σ} (hs : I s)
    {events : List ε} (hallowed : ∀ first event rest, events = first ++ event :: rest →
      Allowed (first.foldl step s) event) : I (events.foldl step s) := by
  induction events generalizing s with
  | nil => exact hs
  | cons event events ih =>
      refine ih (hstep s event (hallowed [] event events rfl) hs) ?_
      intro first event' rest hsplit
      exact hallowed (event :: first) event' rest (by rw [hsplit, List.cons_append])

/-- `hiff` is the step lemma: what a step has to satisfy to keep the property. -/
theorem foldl_good_iff (step : σ → ε → σ) (I Good : σ → Prop) (Allowed : σ → ε → Prop)
    (hstep : ∀ s event, I s → I (step s event))
    (hiff : ∀ s event, I s → Good s → (Good (step s event) ↔ Allowed s event))
    {s : σ} (hs : I s) (hgood : Good s) (events : List ε) :
    (∀ first rest, events = first ++ rest → Good (first.foldl step s)) ↔
      ∀ first event rest, events = first ++ event :: rest →
        Allowed (first.foldl step s) event := by
  constructor
  · intro h first event rest hsplit
    have hbefore := h first (event :: rest) hsplit
    have hafter := h (first ++ [event]) rest (by simp [hsplit])
    rw [List.foldl_append] at hafter
    exact (hiff _ event (foldl_invariant hstep hs first) hbefore).mp hafter
  · intro h first rest hsplit
    have hboth : I (first.foldl step s) ∧ Good (first.foldl step s) := by
      refine foldl_invariant_of_allowed (I := fun s => I s ∧ Good s)
        (fun s event (hallowed : Allowed s event) hs => ?_) ⟨hs, hgood⟩ ?_
      · exact ⟨hstep s event hs.1, (hiff s event hs.1 hs.2).mpr hallowed⟩
      · intro before event after hbefore
        exact h before event (after ++ rest) (by simp [hsplit, hbefore])
    exact hboth.2

/-! ## Potentials -/

def marks (step : σ → ε → σ) (marked : σ → ε → Bool) (s : σ) : List ε → Nat
  | [] => 0
  | event :: events =>
      (marked s event).toNat + marks step marked (step s event) events

/-- Every marked step costs 1, and no step gains anything. -/
theorem marks_add_le (potential : σ → Nat) {marked : σ → ε → Bool}
    (hinvariant : ∀ s event, I s → I (step s event))
    (hstep : ∀ s event, I s →
      (marked s event).toNat + potential (step s event) ≤ potential s) {s : σ} (hs : I s)
    (events : List ε) :
    marks step marked s events + potential (events.foldl step s) ≤ potential s := by
  induction events generalizing s with
  | nil => simp [marks]
  | cons event events ih =>
      have hrest := ih (hinvariant s event hs)
      have hevent := hstep s event hs
      rw [marks, List.foldl_cons]
      omega

end BankingSystem.Foundation
