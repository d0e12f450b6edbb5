import BankingSystem.Store.SystemCalls

/-!
# The helpers under a protocol of system calls

What a helper of `utils.c` reads and writes, whatever the other threads do
between two of its system calls.
-/

namespace BankingSystem

open Foundation Posix

/-- The files, the lock table and the clock, with numbers for the processes. -/
abbrev Machine (M : Type) := Kernel DbFile (DbFile.Rec M) Nat

namespace Sys

variable {M γ β : Type}

theorem follows_bind {P : Protocol (Sys M) γ} {post : γ → β → Prop} {g : γ}
    {c : Call DbFile (DbFile.Rec M)} {next : Result (DbFile.Rec M) c → Prog (Sys M) β}
    (hallow : P.allows g c)
    (hnext : ∀ answer, P.answers g c answer →
      P.Follows post (P.next g c answer) (next answer)) :
    P.Follows post g (Sys.call c >>= next) :=
  ⟨hallow, hnext⟩

variable (A : Accesses DbFile (DbFile.Rec M) γ) (g : γ) {f : DbFile}

/-- The thread has read a record that passes the test, after others that do not. -/
structure FirstRead (found : f.Rec M → Bool) (start pos : Nat) (r : f.Rec M) : Prop where
  passes : found r = true
  here : A.reads f pos (some r)
  before : ∀ j, start ≤ j → j < pos → ∃ r', A.reads f j (some r') ∧ found r' = false

theorem FirstRead.locate {A : Accesses DbFile (DbFile.Rec M) γ} {keys : List Nat}
    {key : f.Rec M → Nat} {wanted pos : Nat} {r : f.Rec M}
    (hkeys : ∀ pos r, A.reads f pos (some r) → keys[pos]? = some (key r))
    (h : FirstRead A (fun tmp => key tmp = wanted) 0 pos r) :
    Table.locate id wanted keys = some pos := by
  refine Table.locate_eq_some_iff.mpr
    ⟨key r, hkeys pos r h.here, by simpa using h.passes, fun j other hj hother => ?_⟩
  obtain ⟨r', hread, hne⟩ := h.before j (Nat.zero_le j) hj
  rw [hkeys j r' hread] at hother
  cases hother
  simpa using hne

theorem follows_stall {α : Type} {post : γ → α → Prop} :
    A.protocol.Follows post g (stall : Prog (Sys M) α) :=
  ⟨trivial, nofun⟩

theorem follows_readUntil (found : f.Rec M → Bool) (fuel : Nat) (fd : Fd f)
    (haccess : fd.access ≠ .writeOnly) :
    A.protocol.Follows (fun g' result => g' = g ∧
      ∀ pos r, result = some (pos, r) → FirstRead A found fd.pos pos r) g
      (readUntil found fuel fd) := by
  induction fuel generalizing fd with
  | zero => exact follows_stall A g
  | succ fuel ih =>
      refine follows_bind haccess fun result hread => ?_
      cases result with
      | none => exact ⟨rfl, nofun⟩
      | some tmp =>
          by_cases hfound : found tmp = true
          · simp only [hfound, if_true]
            refine ⟨rfl, ?_⟩
            rintro pos r ⟨⟩
            exact ⟨hfound, hread, fun j hle hlt => absurd hlt (not_lt.mpr hle)⟩
          · simp only [hfound]
            refine (ih (fd.seek (fd.pos + 1)) haccess).imp fun g' result hresult => ?_
            refine ⟨hresult.1, fun pos r hr => ?_⟩
            obtain ⟨hpasses, hhere, hbefore⟩ := hresult.2 pos r hr
            refine ⟨hpasses, hhere, fun j hle hlt => ?_⟩
            rcases Nat.eq_or_lt_of_le hle with rfl | hgt
            · exact ⟨tmp, hread, by simpa using hfound⟩
            · exact hbefore j hgt hlt

theorem follows_search (fuel : Nat) (found : f.Rec M → Bool) :
    A.protocol.Follows (fun g' result => g' = g ∧
      ∀ pos r, result = some (pos, r) → FirstRead A found 0 pos r) g
      (search fuel f found) := by
  refine follows_bind trivial fun fd hfd => ?_
  obtain rfl | ⟨rfl, -⟩ := hfd
  · refine follows_bind trivial fun _ _ => ?_
    refine (follows_readUntil A g found fuel ⟨.readOnly, false, 0⟩ nofun).bind ?_
    rintro g' result ⟨rfl, hresult⟩
    refine follows_bind trivial fun _ _ => ?_
    exact follows_bind trivial fun _ _ => ⟨rfl, hresult⟩
  · exact ⟨rfl, nofun⟩

theorem follows_findOffset (fuel : Nat) (found : f.Rec M → Bool) :
    A.protocol.Follows (fun g' result => g' = g ∧
      ∀ pos, result = some pos → ∃ r, FirstRead A found 0 pos r) g
      (findOffset fuel f found) := by
  refine (follows_search A g fuel found).bind ?_
  rintro g' result ⟨rfl, hresult⟩
  refine ⟨rfl, fun pos hpos => ?_⟩
  obtain ⟨⟨pos, r⟩, hr, rfl⟩ := Option.map_eq_some_iff.mp hpos
  exact ⟨r, hresult pos r hr⟩

theorem follows_readRecord (fuel : Nat) (found : f.Rec M → Bool) :
    A.protocol.Follows (fun g' _ => g' = g) g (readRecord fuel f found) := by
  refine (follows_search A g fuel found).bind ?_
  rintro g' result ⟨rfl, -⟩
  exact rfl

theorem follows_beginUpdate (offset : Nat) :
    A.protocol.Follows (fun g' result => g' = g ∧
      ∀ r, result = some r → A.reads f offset (some r)) g (beginUpdate f offset) := by
  refine follows_bind trivial fun fd hfd => ?_
  obtain rfl | ⟨rfl, -⟩ := hfd
  · refine follows_bind trivial fun locked _ => ?_
    cases locked with
    | false => exact follows_bind trivial fun _ _ => ⟨rfl, nofun⟩
    | true =>
        refine follows_bind (M := M) nofun fun result hread => ?_
        cases result with
        | some tmp =>
            refine ⟨rfl, ?_⟩
            rintro r ⟨⟩
            exact hread
        | none =>
            refine follows_bind trivial fun _ _ => ?_
            exact follows_bind trivial fun _ _ => ⟨rfl, nofun⟩
  · exact ⟨rfl, nofun⟩

theorem follows_endUpdate (offset : Nat) (updated : Option (f.Rec M))
    (hwrites : ∀ r, updated = some r → A.writes g f ⟨.readWrite, false, offset⟩ r) :
    A.protocol.Follows (fun g' success => g' = updated.elim g (A.after g f) ∧
      success = updated.isSome) g (endUpdate f offset updated) := by
  cases updated with
  | none => exact ⟨trivial, fun _ _ => ⟨trivial, fun _ _ => ⟨rfl, rfl⟩⟩⟩
  | some tmp =>
      refine follows_bind (M := M) ⟨nofun, hwrites tmp rfl⟩ fun success hsuccess => ?_
      cases hsuccess
      refine follows_bind trivial fun _ _ => ?_
      exact follows_bind trivial fun _ _ => ⟨rfl, rfl⟩

theorem follows_atomicUpdateAccount (fuel userId : Nat)
    (modifier : AccountRec M → Option (AccountRec M))
    (hwrites : ∀ pos acc acc',
      FirstRead (f := .accounts) A (fun tmp => tmp.userId = userId) 0 pos acc →
      A.writes g .accounts ⟨.readWrite, false, pos⟩ acc') :
    A.protocol.Follows (fun g' success => success = false ∧ g' = g ∨
      success = true ∧ ∃ acc, g' = A.after g .accounts acc) g
      (atomicUpdateAccount fuel userId modifier) := by
  refine (follows_findOffset A g fuel _).bind ?_
  rintro g' offset ⟨rfl, hoffset⟩
  cases offset with
  | none => exact .inl ⟨rfl, rfl⟩
  | some offset =>
      obtain ⟨acc, hfirst⟩ := hoffset offset rfl
      refine (follows_beginUpdate A g' offset).bind ?_
      rintro g' tmp ⟨rfl, -⟩
      cases tmp with
      | none => exact .inl ⟨rfl, rfl⟩
      | some tmp =>
          refine (follows_endUpdate (f := .accounts) A g' offset (modifier tmp)
            fun acc' _ => hwrites offset acc acc' hfirst).imp ?_
          rintro g'' success ⟨rfl, rfl⟩
          cases modifier tmp with
          | none => exact .inl ⟨rfl, rfl⟩
          | some acc' => exact .inr ⟨rfl, acc', rfl⟩

/-- The file is created where it is missing, so the record is always appended. -/
private theorem follows_appendRecord (numbered : Nat → f.Rec M) {g' : γ}
    (hwrites : ∀ fd n, A.writes g f fd (numbered n)) (hafter : ∀ n, A.after g f (numbered n) = g') :
    A.protocol.Follows (fun g'' number => g'' = g' ∧ number.isSome) g
      (appendRecord f numbered) := by
  refine follows_bind trivial fun fd hfd => ?_
  obtain rfl | ⟨-, hcreate⟩ := hfd
  · refine follows_bind trivial fun _ _ => ?_
    refine follows_bind trivial fun count _ => ?_
    refine follows_bind (M := M) ⟨nofun, hwrites _ _⟩ fun _ _ => ?_
    refine follows_bind trivial fun _ _ => ?_
    exact follows_bind trivial fun _ _ => ⟨hafter _, rfl⟩
  · cases hcreate

theorem follows_appendTransaction (tx : TxnRec M) {g' : γ}
    (hwrites : ∀ fd txnId, A.writes g .transactions fd { tx with txnId })
    (hafter : ∀ txnId, A.after g .transactions { tx with txnId } = g') :
    A.protocol.Follows (fun g'' success => g'' = g' ∧ success = true) g
      (appendTransaction tx) := by
  refine (follows_appendRecord (f := .transactions) A g (fun txnId => { tx with txnId })
    hwrites hafter).bind ?_
  rintro g'' txnId ⟨rfl, hsome⟩
  exact ⟨rfl, hsome⟩

end Sys

end BankingSystem
