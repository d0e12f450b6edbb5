import BankingSystem.Foundation.Posix

/-!
# A process without competitors

As long as no other process holds a lock, no lock request waits and the lock
table has no influence on a process.  What is left of the kernel are its files and
its clock.
-/

namespace BankingSystem.Foundation.Posix

variable (F : Type) (Rec : F → Type)

structure Disk where
  files : (f : F) → Option (List (Rec f))
  clock : Nat → Int

variable {F Rec} {P : Type} [DecidableEq F]

namespace Disk

def content (d : Disk F Rec) (f : F) : List (Rec f) := (d.files f).getD []

def setFile (d : Disk F Rec) (f : F) (records : List (Rec f)) : Disk F Rec :=
  { d with files := Function.update d.files f (some records) }

/-- The system calls of `exec`, each lock request granted at once. -/
def exec : (call : Call F Rec) → Disk F Rec → Option (Result Rec call × Disk F Rec)
  | .openFile f flags, d =>
      match d.files f with
      | some _ => some (some ⟨flags.access, flags.append, 0⟩, d)
      | none =>
          if flags.create then some (some ⟨flags.access, flags.append, 0⟩, d.setFile f [])
          else some (none, d)
  | .setLockWait _ fd kind _, d => some (kind = .unlock ∨ fd.access ≠ .readOnly, d)
  | .read f fd, d =>
      if fd.access = .writeOnly then some (none, d)
      else some ((d.content f)[fd.pos]?, d)
  | .write f fd r, d =>
      if fd.access = .readOnly then some (false, d)
      else some (true, d.setFile f (Table.put (d.content f) (writePos fd (d.content f)) r))
  | .seekEnd f _, d => some ((d.content f).length, d)
  | .close _ _, d => some ((), d)
  | .time, d => some (d.clock 0, { d with clock := fun n => d.clock (n + 1) })
  | .stall, _ => none

theorem setFile_eq_self {d : Disk F Rec} {f : F} {records : List (Rec f)}
    (h : d.files f = some records) : d.setFile f records = d := by
  rw [setFile, ← h, Function.update_eq_self]

theorem setFile_setFile (d : Disk F Rec) (f : F) (records records' : List (Rec f)) :
    (d.setFile f records).setFile f records' = d.setFile f records' := by
  simp [setFile]

@[simp] theorem files_setFile_self (d : Disk F Rec) (f : F) (records : List (Rec f)) :
    (d.setFile f records).files f = some records :=
  Function.update_self ..

@[simp] theorem content_setFile_self (d : Disk F Rec) (f : F) (records : List (Rec f)) :
    (d.setFile f records).content f = records := by
  simp [content]

omit [DecidableEq F] in
theorem content_of_files {d : Disk F Rec} {f : F} {records : List (Rec f)}
    (h : d.files f = some records) : d.content f = records := by
  rw [content, h, Option.getD_some]

omit [DecidableEq F] in
theorem content_of_missing {d : Disk F Rec} {f : F} (h : d.files f = none) :
    d.content f = [] := by
  rw [content, h, Option.getD_none]

theorem exec_openFile_create (d : Disk F Rec) (f : F) (access : Access) (append : Bool) :
    exec (.openFile f ⟨access, append, true⟩) d =
      some (some ⟨access, append, 0⟩, d.setFile f (d.content f)) := by
  cases hfile : d.files f with
  | some records =>
      rw [content_of_files hfile, setFile_eq_self hfile]
      simp [exec, hfile]
  | none =>
      rw [content_of_missing hfile]
      simp [exec, hfile]

theorem exec_openFile_of_files {d : Disk F Rec} {f : F} {records : List (Rec f)}
    (h : d.files f = some records) (flags : Flags) :
    exec (.openFile f flags) d = some (some ⟨flags.access, flags.append, 0⟩, d) := by
  simp [exec, h]

theorem exec_openFile_of_missing {d : Disk F Rec} {f : F} (h : d.files f = none)
    (access : Access) (append : Bool) :
    exec (.openFile f ⟨access, append, false⟩) d = some (none, d) := by
  simp [exec, h]

end Disk

/-! ## The kernel seen by such a process -/

namespace Kernel

def disk (k : Kernel F Rec P) : Disk F Rec := ⟨k.files, k.clock⟩

def OwnedBy (p : P) (k : Kernel F Rec P) : Prop := ∀ lock ∈ k.locks, lock.owner = p

variable [DecidableEq P] {k k' : Kernel F Rec P} {p : P} {f : F} {range : Range}

def foreign (p : P) (k : Kernel F Rec P) : List (Lock F P) :=
  k.locks.filter fun lock => lock.owner ≠ p

omit [DecidableEq F] in
theorem ownedBy_iff : k.OwnedBy p ↔ k.foreign p = [] := by
  simp [OwnedBy, foreign, List.filter_eq_nil_iff]

theorem conflicts_of_foreign (h : k'.foreign p = k.foreign p) :
    k'.conflicts p f range = k.conflicts p f range := by
  have hforeign : ∀ k : Kernel F Rec P, k.conflicts p f range =
      (k.foreign p).any fun lock => lock.file = f ∧ lock.range.overlaps range := by
    intro k
    rw [foreign, List.any_filter, Kernel.conflicts]
    congr 1
    funext lock
    by_cases howner : lock.owner = p <;> simp [howner]
  rw [hforeign, hforeign, h]

theorem OwnedBy.conflicts (h : k.OwnedBy p) : k.conflicts p f range = false := by
  rw [Kernel.conflicts, List.any_eq_false]
  intro lock hmem
  simp [h lock hmem]

@[simp] theorem foreign_release (k : Kernel F Rec P) (p : P) (f : F) (range : Range) :
    (k.release p f range).foreign p = k.foreign p := by
  simp only [foreign, release]
  induction k.locks with
  | nil => rfl
  | cons lock locks ih =>
      rw [List.flatMap_cons, List.filter_append, ih, List.filter_cons]
      by_cases hsame : lock.file = f ∧ lock.owner = p
      · simp [hsame, List.filter_map, Function.comp_def]
      · rw [if_neg hsame]
        by_cases howner : lock.owner = p <;> simp [howner]

@[simp] theorem foreign_acquire (k : Kernel F Rec P) (p : P) (f : F) (range : Range) :
    (k.acquire p f range).foreign p = k.foreign p := by
  rw [← k.foreign_release p f range]
  simp [foreign, acquire]

@[simp] theorem foreign_dropLocks (k : Kernel F Rec P) (p : P) (f : F) :
    (k.dropLocks p f).foreign p = k.foreign p := by
  rw [foreign, dropLocks, List.filter_filter, foreign]
  congr 1
  funext lock
  by_cases howner : lock.owner = p <;> simp [howner]

/-- A call that waits for no other process does to the files what it does alone. -/
theorem exec_of_disk {call : Call F Rec} {result : Result Rec call} {d : Disk F Rec}
    (hfree : ∀ f fd range, call = .setLockWait f fd .writeLock range →
      fd.access = .readOnly ∨ k.conflicts p f range = false)
    (hdisk : Disk.exec call k.disk = some (result, d)) :
    ∃ k', Posix.exec p call k = some (result, k') ∧ k'.disk = d ∧
      k'.foreign p = k.foreign p := by
  cases call with
  | openFile f flags =>
      cases hfile : k.files f with
      | some records =>
          rw [Disk.exec_openFile_of_files (d := k.disk) hfile] at hdisk
          cases hdisk
          exact ⟨k, by simp [Posix.exec, hfile], rfl, rfl⟩
      | none =>
          by_cases hcreate : flags.create
          · simp only [Disk.exec, disk, hfile, hcreate, if_true] at hdisk
            cases hdisk
            exact ⟨k.setFile f [], by simp [Posix.exec, hfile, hcreate], rfl, rfl⟩
          · simp only [Disk.exec, disk, hfile, hcreate] at hdisk
            cases hdisk
            exact ⟨k, by simp [Posix.exec, hfile, hcreate], rfl, rfl⟩
  | setLockWait f fd kind range =>
      cases hdisk
      cases kind with
      | unlock =>
          exact ⟨k.release p f range, by simp [Posix.exec], rfl, k.foreign_release p f range⟩
      | writeLock =>
          by_cases haccess : fd.access = .readOnly
          · exact ⟨k, by simp [Posix.exec, haccess], rfl, rfl⟩
          · have hclear := (hfree f fd range rfl).resolve_left haccess
            exact ⟨k.acquire p f range, by simp [Posix.exec, haccess, hclear], rfl,
              k.foreign_acquire p f range⟩
  | read f fd =>
      by_cases haccess : fd.access = .writeOnly
      · simp only [Disk.exec, haccess, if_true] at hdisk
        cases hdisk
        exact ⟨k, by simp [Posix.exec, haccess], rfl, rfl⟩
      · simp only [Disk.exec, haccess, if_false] at hdisk
        cases hdisk
        exact ⟨k, by simp only [Posix.exec, haccess, if_false]; rfl, rfl, rfl⟩
  | write f fd r =>
      by_cases haccess : fd.access = .readOnly
      · simp only [Disk.exec, haccess, if_true] at hdisk
        cases hdisk
        exact ⟨k, by simp [Posix.exec, haccess], rfl, rfl⟩
      · simp only [Disk.exec, haccess, if_false] at hdisk
        cases hdisk
        exact ⟨k.setFile f (Table.put (k.content f) (writePos fd (k.content f)) r),
          by simp [Posix.exec, haccess], rfl, rfl⟩
  | seekEnd f fd =>
      cases hdisk
      exact ⟨k, rfl, rfl, rfl⟩
  | close f fd =>
      cases hdisk
      exact ⟨k.dropLocks p f, rfl, rfl, k.foreign_dropLocks p f⟩
  | time =>
      cases hdisk
      exact ⟨{ k with clock := fun n => k.clock (n + 1) }, rfl, rfl, rfl⟩
  | stall => cases hdisk

theorem OwnedBy.exec (h : k.OwnedBy p) {call : Call F Rec} {result : Result Rec call}
    {d : Disk F Rec} (hdisk : Disk.exec call k.disk = some (result, d)) :
    ∃ k', Posix.exec p call k = some (result, k') ∧ k'.disk = d ∧ k'.OwnedBy p := by
  obtain ⟨k', hexec, hd, hforeign⟩ := exec_of_disk (fun _ _ _ _ => .inr h.conflicts) hdisk
  refine ⟨k', hexec, hd, ownedBy_iff.mpr ?_⟩
  rw [hforeign, ownedBy_iff.mp h]

theorem OwnedBy.ends {α : Type} {program : Prog (calls F Rec) α} {value : α}
    {d : Disk F Rec} (h : k.OwnedBy p)
    (hends : Prog.Ends Disk.exec program k.disk value d) :
    ∃ k', Prog.Ends (Posix.exec p) program k value k' ∧ k'.disk = d ∧ k'.OwnedBy p := by
  induction program generalizing k with
  | ret value =>
      cases hends
      exact ⟨k, .ret, rfl, h⟩
  | call c next ih =>
      rw [Prog.Ends, Prog.run?_call, Option.bind_eq_some_iff] at hends
      obtain ⟨⟨result, d₁⟩, hcall, hrest⟩ := hends
      obtain ⟨k₁, hexec, rfl, h₁⟩ := h.exec hcall
      obtain ⟨k', hends', hdisk, h'⟩ := ih result h₁ hrest
      exact ⟨k', .call hexec hends', hdisk, h'⟩

end Kernel

end BankingSystem.Foundation.Posix
