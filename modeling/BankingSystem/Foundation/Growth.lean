import BankingSystem.Foundation.Posix

/-!
# Files that only grow

No call removes a file or shortens it, and a write through a descriptor that appends
leaves in place what the file held.
-/

namespace BankingSystem.Foundation.Posix

variable {F : Type} {Rec : F → Type} {P : Type} [DecidableEq F] [DecidableEq P]
variable {k k' : Kernel F Rec P} {p : P} {f : F}

/-- The file is there, and what it holds is related to what it held. -/
def Kernel.Grows (f : F) (r : List (Rec f) → List (Rec f) → Prop) (k k' : Kernel F Rec P) : Prop :=
  ∀ records, k.files f = some records →
    ∃ records', k'.files f = some records' ∧ r records records'

/-- What the call writes to the file goes to its end. -/
def Call.Appends (f : F) (call : Call F Rec) : Prop :=
  ∀ (fd : Fd f) (x : Rec f), call = .write f fd x → fd.append = true

theorem files_exec {call : Call F Rec} {result : Result Rec call}
    (h : exec p call k = some (result, k')) {records : List (Rec f)}
    (hfile : k.files f = some records) : k'.files f = some (k'.content f) := by
  have hset : ∀ f' records', (k.setFile f' records').files f =
      some ((k.setFile f' records').content f) := by
    intro f' records'
    by_cases hf : f = f'
    · subst hf
      simp [Kernel.setFile, Kernel.content]
    · simp [Kernel.setFile, Kernel.content, Function.update_of_ne hf, hfile]
  have hsame : k.files f = some (k.content f) := by
    simp [Kernel.content, hfile]
  cases call with
  | openFile f' flags =>
      simp only [exec] at h
      split at h
      · simp only [Option.some_inj, Prod.mk.injEq] at h
        exact h.2 ▸ hsame
      · split at h
        · simp only [Option.some_inj, Prod.mk.injEq] at h
          exact h.2 ▸ hset f' []
        · simp only [Option.some_inj, Prod.mk.injEq] at h
          exact h.2 ▸ hsame
  | write f' fd r =>
      simp only [exec] at h
      split at h
      · simp only [Option.some_inj, Prod.mk.injEq] at h
        exact h.2 ▸ hsame
      · simp only [Option.some_inj, Prod.mk.injEq] at h
        exact h.2 ▸ hset f' _
  | setLockWait f' fd kind range =>
      cases kind with
      | unlock =>
          simp only [exec, Option.some_inj, Prod.mk.injEq] at h
          exact h.2 ▸ hsame
      | writeLock =>
          simp only [exec] at h
          split at h
          · simp only [Option.some_inj, Prod.mk.injEq] at h
            exact h.2 ▸ hsame
          · split at h
            · cases h
            · simp only [Option.some_inj, Prod.mk.injEq] at h
              exact h.2 ▸ hsame
  | read f' fd =>
      simp only [exec] at h
      split at h <;>
        · simp only [Option.some_inj, Prod.mk.injEq] at h
          exact h.2 ▸ hsame
  | seekEnd f' fd | close f' fd | time =>
      simp only [exec, Option.some_inj, Prod.mk.injEq] at h
      exact h.2 ▸ hsame
  | stall => cases h

namespace Kernel.Grows

variable {r : List (Rec f) → List (Rec f) → Prop}

omit [DecidableEq F] [DecidableEq P] in
theorem refl (hrefl : ∀ records, r records records) (k : Kernel F Rec P) : k.Grows f r k :=
  fun records hfile => ⟨records, hfile, hrefl records⟩

omit [DecidableEq F] [DecidableEq P] in
theorem trans (htrans : ∀ {a b c}, r a b → r b c → r a c) {k₁ k₂ k₃ : Kernel F Rec P}
    (h : k₁.Grows f r k₂) (h' : k₂.Grows f r k₃) : k₁.Grows f r k₃ := by
  intro records hfile
  obtain ⟨middle, hmiddle, hfirst⟩ := h records hfile
  obtain ⟨last, hlast, hsecond⟩ := h' middle hmiddle
  exact ⟨last, hlast, htrans hfirst hsecond⟩

theorem of_exec (hrefl : ∀ records, r records records) {call : Call F Rec}
    (hwrite : ∀ (fd : Fd f) (x : Rec f), call = .write f fd x →
      ∀ records, r records (Table.put records (writePos fd records) x))
    {result : Result Rec call} (h : exec p call k = some (result, k')) : k.Grows f r k' := by
  intro records hfile
  refine ⟨_, files_exec h hfile, ?_⟩
  have hcontent : k.content f = records := by
    simp [Kernel.content, hfile]
  rcases content_exec (f := f) h with ⟨fd, x, hcall, -, hput⟩ | hsame
  · rw [hput, hcontent]
    exact hwrite fd x hcall records
  · rw [hsame, hcontent]
    exact hrefl records

end Kernel.Grows

theorem prefix_exec {call : Call F Rec} (hcall : call.Appends f) {result : Result Rec call}
    (h : exec p call k = some (result, k')) : k.Grows f (· <+: ·) k' := by
  refine .of_exec (fun _ => List.prefix_rfl) (fun fd x hwrite records => ?_) h
  rw [writePos, hcall fd x hwrite, if_pos rfl, Table.put_length]
  exact List.prefix_append _ _

theorem length_exec {call : Call F Rec} {result : Result Rec call}
    (h : exec p call k = some (result, k')) :
    k.Grows f (fun old new => old.length ≤ new.length) k' :=
  .of_exec (fun _ => Nat.le_refl _) (fun _ _ _ _ => Table.length_le_put) h

end BankingSystem.Foundation.Posix
