import Mathlib.Logic.Function.Basic

/-!
# Resources with one owner each

Every owner holds at most one resource.  `Owned` says that the live resources are
those that are held, each by one owner.  A resource is acquired, handed over and
released; nothing else changes who owns what.
-/

namespace BankingSystem.Foundation

variable {ω ρ : Type}

structure Owned (holds : ω → Option ρ) (live : ρ → Prop) : Prop where
  held : ∀ owner r, holds owner = some r → live r
  unique : ∀ owner owner' r, holds owner = some r → holds owner' = some r → owner = owner'
  owned : ∀ r, live r → ∃ owner, holds owner = some r

namespace Owned

theorem congr {holds : ω → Option ρ} {live live' : ρ → Prop} (h : Owned holds live)
    (hlive : ∀ r, live' r ↔ live r) : Owned holds live' := by
  obtain rfl : live' = live := funext fun r => propext (hlive r)
  exact h

variable [DecidableEq ω] {holds : ω → Option ρ} {live : ρ → Prop} {owner owner' : ω} {r : ρ}

omit [DecidableEq ω] in
theorem none_live (h : Owned holds live) (hnone : ∀ owner, holds owner = none) (r : ρ) :
    ¬ live r := by
  intro hlive
  obtain ⟨owner, hholds⟩ := h.owned r hlive
  rw [hnone owner] at hholds
  cases hholds

theorem update_eq_some {value : Option ρ} {other : ω}
    (h : Function.update holds owner value other = some r) :
    other = owner ∧ value = some r ∨ other ≠ owner ∧ holds other = some r := by
  by_cases hother : other = owner
  · subst hother
    rw [Function.update_self] at h
    exact .inl ⟨rfl, h⟩
  · rw [Function.update_of_ne hother] at h
    exact .inr ⟨hother, h⟩

theorem acquire (h : Owned holds live) (hempty : holds owner = none) (hdead : ¬ live r) :
    Owned (Function.update holds owner (some r)) fun r' => r' = r ∨ live r' := by
  constructor
  · intro other r' hholds
    rcases update_eq_some hholds with ⟨-, hr⟩ | ⟨-, hbefore⟩
    · exact .inl (Option.some_inj.mp hr).symm
    · exact .inr (h.held other r' hbefore)
  · intro other other' r' hholds hholds'
    rcases update_eq_some hholds with ⟨rfl, hr⟩ | ⟨-, hbefore⟩
    · rcases update_eq_some hholds' with ⟨rfl, -⟩ | ⟨-, hbefore'⟩
      · rfl
      · rw [Option.some_inj.mp hr] at hdead
        exact absurd (h.held other' r' hbefore') hdead
    · rcases update_eq_some hholds' with ⟨-, hr⟩ | ⟨-, hbefore'⟩
      · rw [Option.some_inj.mp hr] at hdead
        exact absurd (h.held other r' hbefore) hdead
      · exact h.unique other other' r' hbefore hbefore'
  · rintro r' (rfl | hlive)
    · exact ⟨owner, Function.update_self ..⟩
    · obtain ⟨other, hholds⟩ := h.owned r' hlive
      refine ⟨other, ?_⟩
      rw [Function.update_of_ne, hholds]
      rintro rfl
      rw [hempty] at hholds
      cases hholds

theorem release (h : Owned holds live) (hholds : holds owner = some r) :
    Owned (Function.update holds owner none) fun r' => r' ≠ r ∧ live r' := by
  have hbefore : ∀ other r', Function.update holds owner none other = some r' →
      other ≠ owner ∧ holds other = some r' := by
    intro other r' hother
    rcases update_eq_some hother with ⟨-, hnone⟩ | hbefore
    · cases hnone
    · exact hbefore
  constructor
  · intro other r' hother
    obtain ⟨hne, hother⟩ := hbefore other r' hother
    refine ⟨?_, h.held other r' hother⟩
    rintro rfl
    exact hne (h.unique other owner r' hother hholds)
  · intro other other' r' h₁ h₂
    exact h.unique other other' r' (hbefore other r' h₁).2 (hbefore other' r' h₂).2
  · rintro r' ⟨hne, hlive⟩
    obtain ⟨other, hother⟩ := h.owned r' hlive
    refine ⟨other, ?_⟩
    rw [Function.update_of_ne, hother]
    rintro rfl
    rw [hholds] at hother
    exact hne (Option.some_inj.mp hother).symm

theorem transfer (h : Owned holds live) (hholds : holds owner = some r)
    (hempty : holds owner' = none) :
    Owned (Function.update (Function.update holds owner none) owner' (some r)) live := by
  have hne : owner' ≠ owner := by
    rintro rfl
    rw [hholds] at hempty
    cases hempty
  have hfree : Function.update holds owner none owner' = none := by
    rw [Function.update_of_ne hne, hempty]
  have hmoved := (h.release hholds).acquire hfree fun hlive => hlive.1 rfl
  have hsame : (fun r' => r' = r ∨ r' ≠ r ∧ live r') = live := by
    funext r'
    refine propext ⟨?_, fun hlive => ?_⟩
    · rintro (rfl | ⟨-, hlive⟩)
      · exact h.held owner r' hholds
      · exact hlive
    · by_cases hr : r' = r
      · exact .inl hr
      · exact .inr ⟨hr, hlive⟩
  rwa [hsame] at hmoved

end Owned

end BankingSystem.Foundation
