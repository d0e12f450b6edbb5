import BankingSystem.Foundation.Protocol
import BankingSystem.Foundation.Table

/-!
# Files and record locks of a POSIX kernel

Files hold records of one size, and all offsets are counted in records.  A
descriptor is private to the thread that opened it, so its offset is part of the
thread and `lseek` to a known position is no system call here.  `fcntl` locks
belong to a process: a request conflicts only with the locks of other processes,
and closing any descriptor of a file drops every lock that the process holds on it.
-/

namespace BankingSystem.Foundation.Posix

inductive Access where
  | readOnly
  | writeOnly
  | readWrite
  deriving DecidableEq

/-- `O_RDONLY`, `O_WRONLY` or `O_RDWR`, with `O_APPEND` and `O_CREAT`. -/
structure Flags where
  access : Access
  append : Bool
  create : Bool

structure Fd {F : Type} (f : F) where
  access : Access
  append : Bool
  pos : Nat
  deriving DecidableEq

def Fd.seek {F : Type} {f : F} (fd : Fd f) (pos : Nat) : Fd f := { fd with pos }

/-- The records from `start` on, up to `stop` or, with `l_len = 0`, without end. -/
structure Range where
  start : Nat
  stop : Option Nat
  deriving DecidableEq

namespace Range

def all : Range := ⟨0, none⟩

def record (pos : Nat) : Range := ⟨pos, some (pos + 1)⟩

def overlaps (a b : Range) : Bool :=
  b.stop.all (a.start < ·) && a.stop.all (b.start < ·)

/-- What is left of a locked range when another one is unlocked. -/
def minus (a b : Range) : List Range :=
  let before : Range := ⟨a.start, some (a.stop.elim b.start (min b.start))⟩
  let after (stop : Nat) : Range := ⟨max a.start stop, a.stop⟩
  (if a.start < b.start then [before] else []) ++
    match b.stop with
    | some stop => if a.stop.all (stop < ·) then [after stop] else []
    | none => []

@[simp] theorem minus_all (a : Range) : a.minus all = [] := by
  simp [minus, all]

end Range

inductive LockKind where
  | writeLock
  | unlock
  deriving DecidableEq

structure Lock (F P : Type) where
  owner : P
  file : F
  range : Range
  deriving DecidableEq

variable (F : Type) (Rec : F → Type)

/-! ## System calls -/

inductive Call where
  | openFile (f : F) (flags : Flags)
  | setLockWait (f : F) (fd : Fd f) (kind : LockKind) (range : Range)
  | read (f : F) (fd : Fd f)
  | write (f : F) (fd : Fd f) (r : Rec f)
  | seekEnd (f : F) (fd : Fd f)
  | close (f : F) (fd : Fd f)
  | time
  /-- A loop that has run out of fuel never continues. -/
  | stall

variable {F Rec} in
def Call.file? : Call F Rec → Option F
  | .openFile f _ | .setLockWait f _ _ _ | .read f _ | .write f _ _ | .seekEnd f _
  | .close f _ => some f
  | .time | .stall => none

variable {F Rec} in
def Call.Within (files : F → Prop) (call : Call F Rec) : Prop :=
  ∀ f ∈ call.file?, files f

variable {F} in
abbrev Result : Call F Rec → Type
  | .openFile f _ => Option (Fd f)
  | .setLockWait _ _ _ _ => Bool
  | .read f _ => Option (Rec f)
  | .write _ _ _ => Bool
  | .seekEnd _ _ => Nat
  | .close _ _ => Unit
  | .time => Int
  | .stall => Empty

abbrev calls : Signature := ⟨Call F Rec, Result Rec⟩

/-- The shared state: the files, the locks of all processes, and the clock. -/
structure Kernel (P : Type) where
  files : (f : F) → Option (List (Rec f))
  locks : List (Lock F P)
  clock : Nat → Int

variable {F Rec} {P : Type} [DecidableEq F]

namespace Kernel

def content (k : Kernel F Rec P) (f : F) : List (Rec f) := (k.files f).getD []

def setFile (k : Kernel F Rec P) (f : F) (records : List (Rec f)) : Kernel F Rec P :=
  { k with files := Function.update k.files f (some records) }

variable [DecidableEq P]

def conflicts (k : Kernel F Rec P) (p : P) (f : F) (range : Range) : Bool :=
  k.locks.any fun lock =>
    lock.file = f ∧ lock.owner ≠ p ∧ lock.range.overlaps range

def release (k : Kernel F Rec P) (p : P) (f : F) (range : Range) : Kernel F Rec P :=
  { k with locks := k.locks.flatMap fun lock =>
      if lock.file = f ∧ lock.owner = p then
        (lock.range.minus range).map fun rest => { lock with range := rest }
      else [lock] }

def acquire (k : Kernel F Rec P) (p : P) (f : F) (range : Range) : Kernel F Rec P :=
  { k.release p f range with locks := ⟨p, f, range⟩ :: (k.release p f range).locks }

def dropLocks (k : Kernel F Rec P) (p : P) (f : F) : Kernel F Rec P :=
  { k with locks := k.locks.filter fun lock => ¬(lock.file = f ∧ lock.owner = p) }

@[simp] theorem content_setFile_self {P : Type} (k : Kernel F Rec P) (f : F)
    (records : List (Rec f)) : (k.setFile f records).content f = records := by
  simp [content, setFile]

theorem content_setFile_ne {P : Type} (k : Kernel F Rec P) {f f' : F}
    (records : List (Rec f)) (h : f' ≠ f) :
    (k.setFile f records).content f' = k.content f' := by
  simp [content, setFile, Function.update_of_ne h]

@[simp] theorem content_release (k : Kernel F Rec P) (p : P) (f f' : F) (range : Range) :
    (k.release p f range).content f' = k.content f' := rfl

@[simp] theorem content_acquire (k : Kernel F Rec P) (p : P) (f f' : F) (range : Range) :
    (k.acquire p f range).content f' = k.content f' := rfl

@[simp] theorem content_dropLocks (k : Kernel F Rec P) (p : P) (f f' : F) :
    (k.dropLocks p f).content f' = k.content f' := rfl

end Kernel

variable [DecidableEq P]

/-- Where a write goes; no file shrinks, so no position lies beyond its end. -/
def writePos {f : F} (fd : Fd f) (records : List (Rec f)) : Nat :=
  if fd.append then records.length else fd.pos

def exec (p : P) : (call : Call F Rec) → Kernel F Rec P →
    Option (Result Rec call × Kernel F Rec P)
  | .openFile f flags, k =>
      match k.files f with
      | some _ => some (some ⟨flags.access, flags.append, 0⟩, k)
      | none =>
          if flags.create then some (some ⟨flags.access, flags.append, 0⟩, k.setFile f [])
          else some (none, k)
  | .setLockWait f _ .unlock range, k => some (true, k.release p f range)
  | .setLockWait f fd .writeLock range, k =>
      -- a write lock needs a descriptor that is open for writing: EBADF
      if fd.access = .readOnly then some (false, k)
      else if k.conflicts p f range then none
      else some (true, k.acquire p f range)
  | .read f fd, k =>
      if fd.access = .writeOnly then some (none, k)
      else some ((k.content f)[fd.pos]?, k)
  | .write f fd r, k =>
      if fd.access = .readOnly then some (false, k)
      else some (true, k.setFile f (Table.put (k.content f) (writePos fd (k.content f)) r))
  | .seekEnd f _, k => some ((k.content f).length, k)
  | .close f _, k => some ((), k.dropLocks p f)
  | .time, k => some (k.clock 0, { k with clock := fun n => k.clock (n + 1) })
  | .stall, _ => none

def semantics {ι : Type} (proc : ι → P) : Semantics (calls F Rec) (Kernel F Rec P) ι :=
  fun i => exec (proc i)

section Content

variable {k k' : Kernel F Rec P} {p : P} {f : F}

theorem content_exec {call : Call F Rec} {result : Result Rec call}
    (h : exec p call k = some (result, k')) :
    (∃ (fd : Fd f) (r : Rec f), call = .write f fd r ∧ fd.access ≠ .readOnly ∧
      k'.content f = Table.put (k.content f) (writePos fd (k.content f)) r) ∨
    k'.content f = k.content f := by
  cases call with
  | openFile f' flags =>
      refine .inr ?_
      cases hfile : k.files f' with
      | some records =>
          simp only [exec, hfile, Option.some_inj, Prod.mk.injEq] at h
          rw [h.2]
      | none =>
          simp only [exec, hfile] at h
          split at h
          · simp only [Option.some_inj, Prod.mk.injEq] at h
            rw [← h.2]
            by_cases hf : f = f'
            · subst hf
              simp [Kernel.content, Kernel.setFile, hfile]
            · exact k.content_setFile_ne [] hf
          · simp only [Option.some_inj, Prod.mk.injEq] at h
            rw [h.2]
  | setLockWait f' fd kind range =>
      refine .inr ?_
      cases kind with
      | unlock =>
          simp only [exec, Option.some_inj, Prod.mk.injEq] at h
          rw [← h.2, k.content_release]
      | writeLock =>
          simp only [exec] at h
          split at h
          · simp only [Option.some_inj, Prod.mk.injEq] at h
            rw [h.2]
          · split at h
            · cases h
            · simp only [Option.some_inj, Prod.mk.injEq] at h
              rw [← h.2, k.content_acquire]
  | write f' fd r =>
      simp only [exec] at h
      split at h
      · simp only [Option.some_inj, Prod.mk.injEq] at h
        exact .inr (by rw [h.2])
      · rename_i haccess
        simp only [Option.some_inj, Prod.mk.injEq] at h
        rw [← h.2]
        by_cases hf : f = f'
        · subst hf
          exact .inl ⟨fd, r, rfl, haccess, k.content_setFile_self f _⟩
        · exact .inr (k.content_setFile_ne _ hf)
  | read f' fd =>
      refine .inr ?_
      simp only [exec] at h
      split at h <;>
        · simp only [Option.some_inj, Prod.mk.injEq] at h
          rw [h.2]
  | seekEnd f' fd | close f' fd | time =>
      simp only [exec, Option.some_inj, Prod.mk.injEq] at h
      exact .inr (h.2 ▸ rfl)
  | stall => cases h

theorem openFile_result {flags : Flags} {result : Option (Fd f)}
    (h : exec p (.openFile f flags) k = some (result, k')) :
    result = some ⟨flags.access, flags.append, 0⟩ ∨ result = none ∧ flags.create = false := by
  simp only [exec] at h
  split at h
  · simp only [Option.some_inj, Prod.mk.injEq] at h
    exact .inl h.1.symm
  · split at h
    · simp only [Option.some_inj, Prod.mk.injEq] at h
      exact .inl h.1.symm
    · rename_i hcreate
      simp only [Option.some_inj, Prod.mk.injEq] at h
      exact .inr ⟨h.1.symm, by simpa using hcreate⟩

/-- A new lock is one asked for through a descriptor open for writing, or what an
unlock has left of an old one. -/
theorem mem_locks_exec {call : Call F Rec} {result : Result Rec call}
    (h : exec p call k = some (result, k')) {lock : Lock F P} (hlock : lock ∈ k'.locks) :
    lock ∈ k.locks ∨ lock.owner = p ∧ ∃ (f : F) (fd : Fd f) (range : Range),
      call = .setLockWait f fd .writeLock range ∧ fd.access ≠ .readOnly ∨
      call = .setLockWait f fd .unlock range ∧
        ∃ old ∈ k.locks, lock.range ∈ old.range.minus range := by
  have hrelease : ∀ f range, lock ∈ (k.release p f range).locks → lock ∈ k.locks ∨
      lock.owner = p ∧ ∃ old ∈ k.locks, lock.range ∈ old.range.minus range := by
    intro f range hmem
    obtain ⟨old, hold, hrest⟩ := List.mem_flatMap.mp hmem
    split at hrest
    · rename_i hsame
      obtain ⟨rest, hminus, rfl⟩ := List.mem_map.mp hrest
      exact .inr ⟨hsame.2, old, hold, hminus⟩
    · rw [List.mem_singleton.mp hrest]
      exact .inl hold
  have hsame : k'.locks = k.locks → lock ∈ k.locks := by
    intro heq
    rwa [← heq]
  cases call with
  | openFile f flags =>
      simp only [exec] at h
      split at h
      · simp only [Option.some_inj, Prod.mk.injEq] at h
        exact .inl (hsame (h.2 ▸ rfl))
      · split at h <;>
          · simp only [Option.some_inj, Prod.mk.injEq] at h
            exact .inl (hsame (h.2 ▸ rfl))
  | setLockWait f fd kind range =>
      cases kind with
      | unlock =>
          simp only [exec, Option.some_inj, Prod.mk.injEq] at h
          rcases hrelease f range (h.2 ▸ hlock) with hold | ⟨howner, hrest⟩
          · exact .inl hold
          · exact .inr ⟨howner, f, fd, range, .inr ⟨rfl, hrest⟩⟩
      | writeLock =>
          simp only [exec] at h
          split at h
          · simp only [Option.some_inj, Prod.mk.injEq] at h
            exact .inl (hsame (h.2 ▸ rfl))
          · split at h
            · cases h
            · rename_i haccess _
              simp only [Option.some_inj, Prod.mk.injEq] at h
              rw [← h.2] at hlock
              rcases List.mem_cons.mp hlock with rfl | hold
              · exact .inr ⟨rfl, f, fd, range, .inl ⟨rfl, haccess⟩⟩
              · rcases hrelease f range hold with hold | ⟨howner, -⟩
                · exact .inl hold
                · exact .inr ⟨howner, f, fd, range, .inl ⟨rfl, haccess⟩⟩
  | read f fd | write f fd r =>
      simp only [exec] at h
      split at h <;>
        · simp only [Option.some_inj, Prod.mk.injEq] at h
          exact .inl (hsame (h.2 ▸ rfl))
  | seekEnd f fd | time =>
      simp only [exec, Option.some_inj, Prod.mk.injEq] at h
      exact .inl (hsame (h.2 ▸ rfl))
  | close f fd =>
      simp only [exec, Option.some_inj, Prod.mk.injEq] at h
      rw [← h.2] at hlock
      exact .inl (List.mem_of_mem_filter hlock)
  | stall => cases h

theorem mem_locks_of_within {call : Call F Rec} {result : Result Rec call}
    (hcall : call.Within (· ≠ f)) (h : exec p call k = some (result, k'))
    {lock : Lock F P} (hfile : lock.file = f) (hlock : lock ∈ k.locks) : lock ∈ k'.locks := by
  have hrelease : ∀ f' range, f' ≠ f → lock ∈ (k.release p f' range).locks := by
    intro f' range hne
    refine List.mem_flatMap.mpr ⟨lock, hlock, ?_⟩
    rw [if_neg fun hsame => hne (hsame.1.symm.trans hfile)]
    exact List.mem_singleton_self lock
  cases call with
  | openFile f' flags =>
      simp only [exec] at h
      split at h
      · simp only [Option.some_inj, Prod.mk.injEq] at h
        rwa [← h.2]
      · split at h <;>
          · simp only [Option.some_inj, Prod.mk.injEq] at h
            rw [← h.2]
            exact hlock
  | setLockWait f' fd kind range =>
      have hne : f' ≠ f := hcall f' rfl
      cases kind with
      | unlock =>
          simp only [exec, Option.some_inj, Prod.mk.injEq] at h
          rw [← h.2]
          exact hrelease f' range hne
      | writeLock =>
          simp only [exec] at h
          split at h
          · simp only [Option.some_inj, Prod.mk.injEq] at h
            rwa [← h.2]
          · split at h
            · cases h
            · simp only [Option.some_inj, Prod.mk.injEq] at h
              rw [← h.2]
              exact List.mem_cons_of_mem _ (hrelease f' range hne)
  | read f' fd | write f' fd r =>
      simp only [exec] at h
      split at h <;>
        · simp only [Option.some_inj, Prod.mk.injEq] at h
          rw [← h.2]
          exact hlock
  | seekEnd f' fd | time =>
      simp only [exec, Option.some_inj, Prod.mk.injEq] at h
      rw [← h.2]
      exact hlock
  | close f' fd =>
      have hne : f' ≠ f := hcall f' rfl
      simp only [exec, Option.some_inj, Prod.mk.injEq] at h
      rw [← h.2]
      refine List.mem_filter.mpr ⟨hlock, ?_⟩
      simp [hfile, Ne.symm hne]
  | stall => cases h

/-- Only a lock request that waits, and a loop out of fuel, do not go on. -/
theorem exec_eq_none {call : Call F Rec} (h : exec p call k = none) :
    call = .stall ∨ ∃ f fd range, call = .setLockWait f fd .writeLock range ∧
      k.conflicts p f range = true := by
  cases call with
  | stall => exact .inl rfl
  | openFile f flags =>
      simp only [exec] at h
      split at h
      · cases h
      · split at h <;> cases h
  | setLockWait f fd kind range =>
      cases kind with
      | unlock => cases h
      | writeLock =>
          simp only [exec] at h
          split at h
          · cases h
          · split at h
            · exact .inr ⟨f, fd, range, rfl, ‹_›⟩
            · cases h
  | read f fd | write f fd r =>
      simp only [exec] at h
      split at h <;> cases h
  | seekEnd f fd | close f fd | time => cases h

theorem content_exec_of_ne_write {call : Call F Rec} {result : Result Rec call}
    (h : exec p call k = some (result, k')) (hcall : ∀ f fd r, call ≠ .write f fd r)
    (f : F) : k'.content f = k.content f := by
  rcases content_exec (f := f) h with ⟨fd, r, rfl, -⟩ | hsame
  · exact absurd rfl (hcall f fd r)
  · exact hsame

end Content

/-! ## Protocols about the records that are read and written -/

/-- What a thread may write, and what it may rely on when it reads. -/
structure Accesses (F : Type) (Rec : F → Type) (γ : Type) where
  reads : (f : F) → Nat → Option (Rec f) → Prop
  writes : γ → (f : F) → Fd f → Rec f → Prop
  after : γ → (f : F) → Rec f → γ

variable {γ ι : Type}

def Accesses.protocol (A : Accesses F Rec γ) : Protocol (calls F Rec) γ where
  allows g
    | .read _ fd => fd.access ≠ .writeOnly
    | .write f fd r => fd.access ≠ .readOnly ∧ A.writes g f fd r
    | _ => True
  answers _
    | .openFile _ flags, fd =>
        fd = some ⟨flags.access, flags.append, 0⟩ ∨ fd = none ∧ flags.create = false
    | .read f fd, r => A.reads f fd.pos r
    | .write _ _ _, success => success = true
    | _, _ => True
  next g
    | .write f _ r, _ => A.after g f r
    | _, _ => g

theorem Accesses.sound [DecidableEq ι] {A : ι → Accesses F Rec γ} {proc : ι → P}
    {I : Kernel F Rec P → (ι → γ) → Prop} {condition : Kernel F Rec P → ι → Call F Rec → Prop}
    (hreads : ∀ {k g} i f pos, I k g → (A i).reads f pos (k.content f)[pos]?)
    (hquiet : ∀ {k k' g}, I k g → (∀ f, k'.content f = k.content f) → I k' g)
    (hwrite : ∀ {k g i f fd r}, I k g → condition k i (.write f fd r) →
      (A i).writes (g i) f fd r →
      I (k.setFile f (Table.put (k.content f) (writePos fd (k.content f)) r))
        (Function.update g i ((A i).after (g i) f r))) :
    Protocol.Sound (fun i => (A i).protocol) (semantics proc) I condition where
  step {k k' g i call result} h hcondition hallow hexec := by
    have hsame : (∀ f fd r, call ≠ .write f fd r) → I k' (Function.update g i (g i)) := by
      intro hcall
      rw [Function.update_eq_self]
      exact hquiet h (content_exec_of_ne_write hexec hcall)
    cases call with
    | openFile f flags => exact ⟨openFile_result hexec, hsame nofun⟩
    | read f fd =>
        refine ⟨?_, hsame nofun⟩
        simp only [semantics, exec, if_neg hallow, Option.some_inj, Prod.mk.injEq] at hexec
        exact hexec.1 ▸ hreads i f fd.pos h
    | write f fd r =>
        simp only [semantics, exec, if_neg hallow.1, Option.some_inj, Prod.mk.injEq] at hexec
        obtain ⟨rfl, rfl⟩ := hexec
        exact ⟨rfl, hwrite h hcondition hallow.2⟩
    | _ => exact ⟨trivial, hsame nofun⟩

end BankingSystem.Foundation.Posix
