import BankingSystem.Foundation.Faults
import BankingSystem.Requests.Alone
import BankingSystem.Requests.Tables

/-!
# The persistence helpers when system calls fail

What each helper returns and leaves when `open`, `read` or `write` fail anywhere in it,
and how many of its calls failed.  A search whose read fails ends as at the end of the
file; a write that fails is reported by the updates and by none of the others.
-/

namespace BankingSystem

open Foundation Posix

variable {M : Type}

abbrev Trace (M : Type) : Type := List (Attempt (Sys M))

namespace Sys

abbrev Surely {α : Type} (reads : Bool) (program : Prog (Sys M) α)
    (d : Disk DbFile (DbFile.Rec M))
    (R : α → Disk DbFile (DbFile.Rec M) → Trace M → Prop) : Prop :=
  Prog.Surely (ioErrors reads) Disk.exec program d R

variable {α : Type} {reads : Bool} {f : DbFile} {fuel : Nat}
  {d d₁ d' : Disk DbFile (DbFile.Rec M)}
  {R : α → Disk DbFile (DbFile.Rec M) → Trace M → Prop}

private theorem surely_call {c : Call DbFile (DbFile.Rec M)}
    {next : Result (DbFile.Rec M) c → Prog (Sys M) α} {result : Result (DbFile.Rec M) c}
    (h : Disk.exec c d = some (result, d₁))
    (hok : Surely reads (next result) d₁ fun value d' rest => R value d' (⟨c, true⟩ :: rest))
    (hfail : ∀ error ∈ ioErrors reads c, Surely reads (next error) d fun value d' rest =>
      R value d' (⟨c, false⟩ :: rest)) :
    Surely reads (Sys.call c >>= next) d R :=
  ⟨⟨result, d₁, h, hok⟩, hfail⟩

private theorem surely_sure {c : Call DbFile (DbFile.Rec M)}
    {next : Result (DbFile.Rec M) c → Prog (Sys M) α} {result : Result (DbFile.Rec M) c}
    (h : Disk.exec c d = some (result, d₁)) (hsure : ioErrors reads c = none)
    (hok : Surely reads (next result) d₁ fun value d' rest => R value d' (⟨c, true⟩ :: rest)) :
    Surely reads (Sys.call c >>= next) d R := by
  refine surely_call h hok fun error herror => ?_
  rw [hsure] at herror
  cases herror

/-! ## Traces of one file -/

def opens (f : DbFile) (trace : Trace M) : List Bool := outcomes (Call.isOpen f) trace

def writes (f : DbFile) (trace : Trace M) : List Bool := outcomes (Call.isWrite f) trace

def failures (f : DbFile) (trace : Trace M) : Nat := (outcomes (Call.isOn f) trace).count false

section Traces

variable {c : Call DbFile (DbFile.Rec M)} {trace : Trace M} {ok : Bool} {f g : DbFile}

@[simp] theorem opens_nil : opens f ([] : Trace M) = [] := rfl

@[simp] theorem writes_nil : writes f ([] : Trace M) = [] := rfl

@[simp] theorem failures_nil : failures f ([] : Trace M) = 0 := rfl

@[simp] theorem opens_append (first second : Trace M) :
    opens f (first ++ second) = opens f first ++ opens f second := by
  simp [opens]

@[simp] theorem writes_append (first second : Trace M) :
    writes f (first ++ second) = writes f first ++ writes f second := by
  simp [writes]

@[simp] theorem failures_append (first second : Trace M) :
    failures f (first ++ second) = failures f first + failures f second := by
  simp [failures]

@[simp] theorem opens_cons :
    opens f (⟨c, ok⟩ :: trace) = if c.isOpen f then ok :: opens f trace else opens f trace := by
  simp [opens]

@[simp] theorem writes_cons :
    writes f (⟨c, ok⟩ :: trace) =
      if c.isWrite f then ok :: writes f trace else writes f trace := by
  simp [writes]

@[simp] theorem failures_ok : failures f (⟨c, true⟩ :: trace) = failures f trace := by
  rw [failures, outcomes_cons]
  split <;> simp [failures]

private theorem failures_failed (hc : c.file? = some f) :
    failures f (⟨c, false⟩ :: trace) = failures f trace + 1 := by
  simp [failures, Call.isOn, hc]

def Within (f : DbFile) (trace : Trace M) : Prop := ∀ attempt ∈ trace, attempt.cmd.Within (· = f)

theorem Within.nil : Within f ([] : Trace M) := fun _ hmem => absurd hmem List.not_mem_nil

theorem Within.cons (h : Within f trace) (hc : c.file? = some f) :
    Within f (⟨c, ok⟩ :: trace) := by
  intro attempt hmem
  rcases List.mem_cons.mp hmem with rfl | hrest
  · exact fun f' hf' => Option.some.inj (hf'.symm.trans hc)
  · exact h attempt hrest

theorem Within.append {rest : Trace M} (h : Within f trace) (hrest : Within f rest) :
    Within f (trace ++ rest) := by
  intro attempt hmem
  rcases List.mem_append.mp hmem with hfirst | hsecond
  · exact h attempt hfirst
  · exact hrest attempt hsecond

theorem Within.outcomes (h : Within f trace) (hne : g ≠ f)
    {p : Call DbFile (DbFile.Rec M) → Bool} (hp : ∀ c, p c = true → c.file? = some g) :
    outcomes (S := Sys M) p trace = [] := by
  rw [Foundation.outcomes, List.map_eq_nil_iff, List.filter_eq_nil_iff]
  intro attempt hmem hcmd
  exact hne (h attempt hmem g (hp _ hcmd))

theorem Within.opens (h : Within f trace) (hne : g ≠ f) : opens g trace = [] := by
  refine h.outcomes hne fun c hc => ?_
  cases c <;> simp_all [Call.isOpen, Call.file?]

theorem Within.writes (h : Within f trace) (hne : g ≠ f) : writes g trace = [] := by
  refine h.outcomes hne fun c hc => ?_
  cases c <;> simp_all [Call.isWrite, Call.file?]

theorem Within.failures (h : Within f trace) (hne : g ≠ f) : failures g trace = 0 := by
  have hnone : Foundation.outcomes (Call.isOn g) trace = [] :=
    h.outcomes hne fun c hc => by simpa [Call.isOn] using hc
  rw [Sys.failures, hnone, List.count_nil]

end Traces

/-! ## Loops and searches -/

/-- The calls are on the file and write nothing, and the disk stays as it is. -/
structure OnlyLooks (f : DbFile) (d d' : Disk DbFile (DbFile.Rec M)) (trace : Trace M) :
    Prop where
  disk : d' = d
  within : Within f trace
  writes : writes f trace = []

theorem OnlyLooks.nil : OnlyLooks f d d [] := ⟨rfl, .nil, rfl⟩

theorem OnlyLooks.cons {c : Call DbFile (DbFile.Rec M)} {ok : Bool} {trace : Trace M}
    (h : OnlyLooks f d d' trace) (hc : c.file? = some f) (hwrite : c.isWrite f = false) :
    OnlyLooks f d d' (⟨c, ok⟩ :: trace) := by
  refine ⟨h.disk, h.within.cons hc, ?_⟩
  rw [writes_cons, hwrite]
  exact h.writes

theorem OnlyLooks.append {first rest : Trace M} (h : OnlyLooks f d d₁ first)
    (hrest : OnlyLooks f d₁ d' rest) :
    OnlyLooks f d d' (first ++ rest) := by
  refine ⟨hrest.disk.trans h.disk, h.within.append hrest.within, ?_⟩
  rw [writes_append, h.writes, hrest.writes, List.append_nil]

/-- The answer is the right one, or a call has failed and there is none. -/
def Answers {ρ : Type} (f : DbFile) (correct result : Option ρ) (trace : Trace M) : Prop :=
  result = correct ∧ failures f trace = 0 ∨ result = none ∧ failures f trace = 1

theorem Answers.of_some {ρ : Type} {correct : Option ρ} {r : ρ} {trace : Trace M}
    (h : Answers f correct (some r) trace) : correct = some r ∧ failures f trace = 0 := by
  rcases h with ⟨hcorrect, hnone⟩ | ⟨hfailed, -⟩
  · exact ⟨hcorrect.symm, hnone⟩
  · cases hfailed

/-- What a loop of reads does; where reads do not fail, its answer is the right one. -/
structure LoopReads {ρ : Type} (reads : Bool) (f : DbFile) (d : Disk DbFile (DbFile.Rec M))
    (correct result : Option ρ) (d' : Disk DbFile (DbFile.Rec M)) (trace : Trace M) : Prop where
  looks : OnlyLooks f d d' trace
  opens : opens f trace = []
  answers : Answers f correct result trace
  exact : reads = false → result = correct

section LoopReads

variable {ρ : Type} {correct result : Option ρ} {trace : Trace M} {fd : Fd f}

theorem LoopReads.done : LoopReads reads f d correct correct d [⟨.read f fd, true⟩] :=
  ⟨OnlyLooks.nil.cons rfl rfl, rfl, .inl ⟨rfl, by simp⟩, fun _ => rfl⟩

theorem LoopReads.failed (h : reads = true) :
    LoopReads reads f d correct none d [⟨.read f fd, false⟩] := by
  refine ⟨OnlyLooks.nil.cons rfl rfl, rfl, .inr ⟨rfl, failures_failed rfl⟩, fun hnot => ?_⟩
  rw [h] at hnot
  cases hnot

theorem LoopReads.cons (h : LoopReads reads f d correct result d' trace) :
    LoopReads reads f d correct result d' (⟨.read f fd, true⟩ :: trace) := by
  refine ⟨h.looks.cons rfl rfl, h.opens, ?_, h.exact⟩
  rw [Answers, failures_ok]
  exact h.answers

end LoopReads

private theorem read_error {fd : Fd f} {error : Option (f.Rec M)}
    (h : error ∈ ioErrors reads (Call.read f fd : Call DbFile (DbFile.Rec M))) :
    reads = true ∧ error = none := by
  cases hreads : reads with
  | false => simp [ioErrors, hreads] at h
  | true => simpa [ioErrors, hreads, eq_comm] using h

private theorem readUntil_surely (found : f.Rec M → Bool) {before rest : List (f.Rec M)} {fd : Fd f}
    (hcontent : d.content f = before ++ rest) (hpos : fd.pos = before.length)
    (haccess : fd.access ≠ .writeOnly) (hfuel : rest.length < fuel) :
    Surely reads (readUntil found fuel fd) d
      (LoopReads reads f d (firstFrom found fd.pos rest)) := by
  induction rest generalizing before fd fuel with
  | nil =>
      obtain ⟨fuel, rfl⟩ := Nat.exists_eq_add_one.mpr (Nat.zero_lt_of_lt hfuel)
      refine surely_call (exec_read hcontent hpos haccess) ?_ fun error herror => ?_
      · exact LoopReads.done
      · obtain ⟨hreads, rfl⟩ := read_error herror
        exact LoopReads.failed hreads
  | cons r rest ih =>
      obtain ⟨fuel, rfl⟩ := Nat.exists_eq_add_one.mpr (Nat.zero_lt_of_lt hfuel)
      refine surely_call (exec_read hcontent hpos haccess) ?_ fun error herror => ?_
      · by_cases hfound : found r = true
        · simp only [List.getElem?_cons_zero, hfound, if_true, firstFrom]
          exact LoopReads.done
        · simp only [List.getElem?_cons_zero, hfound, firstFrom]
          have hrest : d.content f = (before ++ [r]) ++ rest := by simpa using hcontent
          have hnext : (fd.seek (fd.pos + 1)).pos = (before ++ [r]).length := by
            simp [Fd.seek, hpos]
          exact (ih hrest hnext haccess (Nat.lt_of_succ_lt_succ hfuel)).imp
            fun _ _ _ hspec => hspec.cons
      · obtain ⟨hreads, rfl⟩ := read_error herror
        exact LoopReads.failed hreads

def closing (fd : Fd f) (range : Range) : Trace M :=
  [⟨.setLockWait f fd .unlock range, true⟩, ⟨.close f fd, true⟩]

private theorem looks_closing (fd : Fd f) (range : Range) :
    OnlyLooks f d d (closing fd range) :=
  (OnlyLooks.nil.cons rfl rfl).cons rfl rfl

@[simp] theorem opens_closing {g : DbFile} (fd : Fd f) (range : Range) :
    opens g (closing fd range : Trace M) = [] := rfl

@[simp] theorem writes_closing {g : DbFile} (fd : Fd f) (range : Range) :
    writes g (closing fd range : Trace M) = [] := rfl

@[simp] theorem failures_closing {g : DbFile} (fd : Fd f) (range : Range) :
    failures g (closing fd range : Trace M) = 0 := by
  simp [closing]

private theorem surely_closing {fd : Fd f} {range : Range} {value : α}
    (h : R value d (closing fd range)) :
    Surely reads (do
      let _ ← Sys.call (.setLockWait f fd .unlock range)
      close fd
      return value) d R :=
  surely_sure rfl rfl (surely_sure rfl rfl h)

private theorem open_error {flags : Flags} {error : Option (Fd f)}
    (h : error ∈ ioErrors reads (Call.openFile f flags : Call DbFile (DbFile.Rec M))) :
    error = none := by
  simpa [ioErrors, eq_comm] using h

structure Searched {ρ : Type} (f : DbFile) (d : Disk DbFile (DbFile.Rec M))
    (correct result : Option ρ) (d' : Disk DbFile (DbFile.Rec M)) (trace : Trace M) : Prop where
  looks : OnlyLooks f d d' trace
  opens : ∃ ok, opens f trace = [ok]
  answers : Answers f correct result trace

private theorem Searched.unopened {ρ : Type} {correct : Option ρ} {flags : Flags} :
    Searched f d correct none d [⟨.openFile f flags, false⟩] := by
  refine ⟨OnlyLooks.nil.cons rfl rfl, ⟨false, ?_⟩, .inr ⟨rfl, failures_failed rfl⟩⟩
  simp [Call.isOpen]

private theorem search_surely (found : f.Rec M → Bool) (hfuel : (d.content f).length < fuel) :
    Surely reads (search fuel f found) d (Searched f d (firstFrom found 0 (d.content f))) := by
  cases hfile : d.files f with
  | none =>
      refine surely_call (Disk.exec_openFile_of_missing hfile .readOnly false) ?_ ?_
      · refine ⟨OnlyLooks.nil.cons rfl rfl, ⟨true, by simp [Call.isOpen]⟩, .inl ⟨?_, by simp⟩⟩
        rw [Disk.content_of_missing hfile, firstFrom]
      · intro error herror
        obtain rfl := open_error herror
        exact Searched.unopened
  | some records =>
      refine surely_call (Disk.exec_openFile_of_files hfile ⟨.readOnly, false, false⟩) ?_ ?_
      · refine surely_sure rfl rfl (.bind ?_)
        refine Prog.Surely.imp (readUntil_surely found (List.nil_append _).symm rfl ?_ hfuel) ?_
        · simp
        intro result d' trace hreads
        refine surely_closing ?_
        refine ⟨((hreads.looks.append (looks_closing _ _)).cons rfl rfl).cons rfl rfl,
          ⟨true, by simp [Call.isOpen, hreads.opens]⟩, ?_⟩
        simpa [Answers] using hreads.answers
      · intro error herror
        obtain rfl := open_error herror
        exact Searched.unopened

theorem Searched.map {ρ τ : Type} {correct result : Option ρ} {trace : Trace M}
    (h : Searched f d correct result d' trace) (g : Option ρ → Option τ) (hg : g none = none) :
    Searched f d (g correct) (g result) d' (trace ++ []) := by
  rw [List.append_nil]
  refine ⟨h.looks, h.opens, h.answers.imp ?_ ?_⟩
  · exact fun h => ⟨congrArg g h.1, h.2⟩
  · exact fun h => ⟨(congrArg g h.1).trans hg, h.2⟩

theorem findOffset_surely (found : f.Rec M → Bool) (hfuel : (d.content f).length < fuel) :
    Surely reads (findOffset fuel f found) d (Searched f d ((d.content f).findIdx? found)) := by
  have hfst := firstFrom_fst found 0 (d.content f)
  simp only [Nat.zero_add, Option.map_id'] at hfst
  rw [← hfst]
  exact .bind ((search_surely found hfuel).imp fun _ _ _ h => h.map (Option.map Prod.fst) rfl)

theorem readRecord_surely (found : f.Rec M → Bool) (hfuel : (d.content f).length < fuel) :
    Surely reads (readRecord fuel f found) d (Searched f d ((d.content f).find? found)) := by
  rw [← firstFrom_snd found 0]
  exact .bind ((search_surely found hfuel).imp fun _ _ _ h => h.map (Option.map Prod.snd) rfl)

theorem checkUniqueness_surely (username email phone : Bytes) (currentUserId : Nat)
    (hfuel : (d.content .users).length < fuel) :
    Surely reads (checkUniqueness fuel username email phone currentUserId) d
      (Searched .users d
        (firstClash username email phone currentUserId (d.content .users))) := by
  rw [firstClash, ← firstFrom_findSome _ 0]
  exact .bind ((search_surely _ hfuel).imp fun _ _ _ h =>
    h.map (fun result => result.bind fun found =>
      found.2.clash username email phone currentUserId) rfl)

/-! ## Updates in place -/

theorem beginUpdate_surely (offset : Nat) :
    Surely reads (beginUpdate f offset) d (Searched f d (d.content f)[offset]?) := by
  cases hfile : d.files f with
  | none =>
      refine surely_call (Disk.exec_openFile_of_missing hfile .readWrite false) ?_ ?_
      · refine ⟨OnlyLooks.nil.cons rfl rfl, ⟨true, by simp [Call.isOpen]⟩, .inl ⟨?_, by simp⟩⟩
        rw [Disk.content_of_missing hfile, List.getElem?_nil]
      · intro error herror
        obtain rfl := open_error herror
        exact Searched.unopened
  | some records =>
      refine surely_call (Disk.exec_openFile_of_files hfile ⟨.readWrite, false, false⟩) ?_ ?_
      · refine surely_sure rfl rfl (surely_call rfl ?_ ?_)
        · simp only [Fd.seek]
          cases hread : (d.content f)[offset]? with
          | some tmp =>
              exact ⟨((OnlyLooks.nil.cons rfl rfl).cons rfl rfl).cons rfl rfl,
                ⟨true, by simp [Call.isOpen]⟩, .inl ⟨rfl, by simp⟩⟩
          | none =>
              refine surely_closing ?_
              exact ⟨(((looks_closing _ _).cons rfl rfl).cons rfl rfl).cons rfl rfl,
                ⟨true, by simp [Call.isOpen]⟩, .inl ⟨rfl, by simp⟩⟩
        · intro error herror
          obtain ⟨-, rfl⟩ := read_error herror
          refine surely_closing ?_
          refine ⟨(((looks_closing _ _).cons rfl rfl).cons rfl rfl).cons rfl rfl,
            ⟨true, by simp [Call.isOpen]⟩, .inr ⟨rfl, ?_⟩⟩
          rw [failures_ok, failures_ok, failures_failed rfl, failures_closing]
      · intro error herror
        obtain rfl := open_error herror
        exact Searched.unopened

/-- The end of an update: the record is written, its write fails, or there is none. -/
structure Committed (f : DbFile) (offset : Nat) (updated : Option (f.Rec M))
    (d : Disk DbFile (DbFile.Rec M)) (result : Bool) (d' : Disk DbFile (DbFile.Rec M))
    (trace : Trace M) : Prop where
  within : Within f trace
  opens : opens f trace = []
  outcome :
    (∃ tmp, updated = some tmp ∧ result = true ∧
      d' = d.setFile f (Table.put (d.content f) offset tmp) ∧
        writes f trace = [true] ∧ failures f trace = 0) ∨
    (updated.isSome ∧ result = false ∧ d' = d ∧ writes f trace = [false] ∧
      failures f trace = 1) ∨
    (updated = none ∧ result = false ∧ d' = d ∧ writes f trace = [] ∧ failures f trace = 0)

theorem endUpdate_surely (offset : Nat) (updated : Option (f.Rec M)) :
    Surely reads (endUpdate f offset updated) d (Committed f offset updated d) := by
  cases updated with
  | none =>
      have hlooks := looks_closing (d := d) (⟨.readWrite, false, offset⟩ : Fd f) (.record offset)
      exact surely_closing ⟨hlooks.within, opens_closing _ _,
        .inr (.inr ⟨rfl, rfl, rfl, writes_closing _ _, failures_closing _ _⟩)⟩
  | some tmp =>
      refine surely_call rfl ?_ fun error herror => ?_
      · refine surely_closing ?_
        refine ⟨(looks_closing (d := d) _ _).within.cons rfl, by simp [Call.isOpen], .inl ?_⟩
        exact ⟨tmp, rfl, rfl, rfl, by simp [Call.isWrite], by simp⟩
      · obtain rfl : error = false := by simpa [ioErrors, eq_comm] using herror
        refine surely_closing ?_
        refine ⟨(looks_closing (d := d) _ _).within.cons rfl, by simp [Call.isOpen],
          .inr (.inl ?_)⟩
        exact ⟨rfl, rfl, rfl, by simp [Call.isWrite], by rw [failures_failed rfl, failures_closing]⟩

/-- An update of an account: it is written, or the file stays as it is. -/
structure Updated (userId : Nat) (modifier : AccountRec M → Option (AccountRec M))
    (d : Disk DbFile (DbFile.Rec M)) (result : Bool) (d' : Disk DbFile (DbFile.Rec M))
    (trace : Trace M) : Prop where
  within : Within .accounts trace
  outcome :
    (result = true ∧ (∃ accounts,
      Table.modify AccountRec.userId userId modifier (d.content .accounts) = some accounts ∧
        d' = d.setFile .accounts accounts) ∧
      true ∈ writes .accounts trace ∧ failures .accounts trace = 0) ∨
    (result = false ∧ d' = d ∧ true ∉ writes .accounts trace ∧
      (Table.modify AccountRec.userId userId modifier (d.content .accounts) = none ∧
          failures .accounts trace = 0 ∨
        failures .accounts trace = 1))

theorem atomicUpdateAccount_surely (userId : Nat)
    (modifier : AccountRec M → Option (AccountRec M))
    (hfuel : (d.content .accounts).length < fuel) :
    Surely reads (atomicUpdateAccount fuel userId modifier) d (Updated userId modifier d) := by
  have hfind : Surely reads (findAccountOffset fuel userId) d (Searched .accounts d
      (Table.locate AccountRec.userId userId (d.content .accounts))) :=
    findOffset_surely (f := .accounts) (fun tmp => tmp.userId = userId) hfuel
  refine .bind (hfind.imp ?_)
  rintro offset d₁ first ⟨⟨rfl, hwithin, hwrites⟩, -, hanswers⟩
  cases offset with
  | none =>
      refine ⟨by simpa using hwithin, .inr ⟨rfl, rfl, by simp [hwrites], ?_⟩⟩
      rw [List.append_nil]
      rcases hanswers with ⟨hloc, hnone⟩ | ⟨-, hone⟩
      · refine .inl ⟨?_, hnone⟩
        simp only [Table.modify, ← hloc]
        rfl
      · exact .inr hone
  | some offset =>
      obtain ⟨hloc, hnone⟩ := hanswers.of_some
      obtain ⟨acc, hacc, -⟩ := Table.getElem?_of_locate hloc
      have hlt := (List.getElem?_eq_some_iff.mp hacc).1
      refine .bind ((beginUpdate_surely (f := .accounts) offset).imp ?_)
      rintro tmp d₂ second ⟨⟨rfl, hwithin', hwrites'⟩, -, hanswers'⟩
      cases tmp with
      | none =>
          refine ⟨by simpa using hwithin.append hwithin', .inr ⟨rfl, rfl, ?_, ?_⟩⟩
          · simp [hwrites, hwrites']
          rcases hanswers' with ⟨hnot, -⟩ | ⟨-, hone⟩
          · rw [hacc] at hnot
            cases hnot
          · exact .inr (by simp [hnone, hone])
      | some tmp =>
          obtain ⟨htmp, hnone'⟩ := hanswers'.of_some
          obtain rfl : tmp = acc := Option.some.inj (htmp.symm.trans hacc)
          have hmodify : Table.modify AccountRec.userId userId modifier (d₂.content .accounts) =
              (modifier tmp).map fun tmp' => Table.put (d₂.content .accounts) offset tmp' := by
            simp only [Table.modify, hloc, hacc, Option.bind_eq_bind, Option.bind_some]
            cases modifier tmp with
            | none => rfl
            | some tmp' => simp [Table.put_of_lt hlt]
          refine (endUpdate_surely (f := .accounts) offset (modifier tmp)).imp ?_
          rintro result d' third ⟨hwithin'', -, houtcome⟩
          refine ⟨hwithin.append (hwithin'.append hwithin''), ?_⟩
          rcases houtcome with ⟨tmp', happly, rfl, rfl, hwritten, hnone''⟩ |
            ⟨-, rfl, rfl, hwritten, hone⟩ | ⟨happly, rfl, rfl, hwritten, hnone''⟩
          · refine .inl ⟨rfl, ⟨_, by rw [hmodify, happly, Option.map_some], rfl⟩, ?_, ?_⟩
            · simp [hwritten]
            · simp [hnone, hnone', hnone'']
          · refine .inr ⟨rfl, rfl, by simp [hwrites, hwrites', hwritten], .inr ?_⟩
            simp [hnone, hnone', hone]
          · refine .inr ⟨rfl, rfl, by simp [hwrites, hwrites', hwritten], .inl ?_⟩
            exact ⟨by simp [hmodify, happly], by simp [hnone, hnone', hnone'']⟩

/-! ## Appending and writing -/

/-- An append: its record is there, or every file has the records that it had. -/
structure Appended (f : DbFile) (numbered : Nat → f.Rec M) (d d' : Disk DbFile (DbFile.Rec M))
    (trace : Trace M) : Prop where
  within : Within f trace
  outcome :
    (d' = d.setFile f (d.content f ++ [numbered ((d.content f).length + 1)]) ∧
      failures f trace = 0) ∨
    ((d' = d ∨ d' = d.setFile f (d.content f)) ∧ failures f trace = 1)

private theorem appendRecord_surely (numbered : Nat → f.Rec M) :
    Surely reads (appendRecord f numbered) d fun _ => Appended f numbered d := by
  refine surely_call (d.exec_openFile_create f .writeOnly true) ?_ fun error herror => ?_
  · have hend : Disk.exec (.seekEnd f (⟨.writeOnly, true, 0⟩ : Fd f))
        (d.setFile f (d.content f)) =
        some ((d.content f).length, d.setFile f (d.content f)) := by
      simp [Disk.exec]
    have hwrite : Disk.exec (.write f (⟨.writeOnly, true, 0⟩ : Fd f)
        (numbered ((d.content f).length + 1))) (d.setFile f (d.content f)) =
        some (true, d.setFile f (d.content f ++ [numbered ((d.content f).length + 1)])) := by
      rw [← Table.put_length]
      simp [Disk.exec, writePos, Disk.setFile_setFile]
    refine surely_sure rfl rfl (surely_sure hend rfl (surely_call hwrite ?_ ?_))
    · refine surely_closing ⟨?_, .inl ⟨rfl, by simp⟩⟩
      exact ((((looks_closing (d := d) _ _).within.cons rfl).cons rfl).cons rfl).cons rfl
    · intro error herror
      refine surely_closing ⟨?_, .inr ⟨.inr rfl, ?_⟩⟩
      · exact ((((looks_closing (d := d) _ _).within.cons rfl).cons rfl).cons rfl).cons rfl
      · rw [failures_ok, failures_ok, failures_ok, failures_failed rfl, failures_closing]
  · obtain rfl := open_error herror
    exact ⟨Within.nil.cons rfl, .inr ⟨.inl rfl, failures_failed rfl⟩⟩

def Stored {ρ : Type} (key : ρ → Nat) (r : ρ) (table : List ρ) (written : List Bool)
    (table' : List ρ) : Prop :=
  (written = [false] ∧ table' = table) ∨ (written = [true] ∧ table' = Table.upsert key r table)

section Stored

variable {ρ : Type} {key : ρ → Nat} {r : ρ} {table table' : List ρ} {written : List Bool}

theorem Stored.eq_self_iff (h : Stored key r table written table') :
    table' = table ↔ false ∈ written ∨ Table.lookup key (key r) table = some r := by
  rcases h with ⟨rfl, rfl⟩ | ⟨rfl, rfl⟩
  · simp
  · simp [Table.upsert_eq_self_iff]

theorem Stored.mem_iff (h : Stored key r table written table') :
    r ∈ table' ↔ true ∈ written ∨ r ∈ table := by
  rcases h with ⟨rfl, rfl⟩ | ⟨rfl, rfl⟩
  · simp
  · simp [Table.mem_upsert_self]

end Stored

/-- A write of a record: its result only tells whether the file was opened. -/
structure Written (f : DbFile) (key : f.Rec M → Nat) (r : f.Rec M)
    (d : Disk DbFile (DbFile.Rec M)) (result : Bool) (d' : Disk DbFile (DbFile.Rec M))
    (trace : Trace M) : Prop where
  within : Within f trace
  opens : opens f trace = [result]
  outcome :
    if result then
      ∃ records, Stored key r (d.content f) (writes f trace) records ∧ d' = d.setFile f records
    else d' = d

private theorem writeAt_surely {key : f.Rec M → Nat} {r : f.Rec M} {pos : Nat}
    (hpos : Table.upsert key r (d.content f) = Table.put (d.content f) pos r) :
    Surely false (do
      let fd : Fd f := ⟨.readWrite, false, 0⟩
      let _ ← write (fd.seek pos) r
      let _ ← unlockFile fd
      close fd
      return true) (d.setFile f (d.content f)) fun result d' rest =>
        Within f rest ∧ opens f rest = [] ∧ result = true ∧
          ∃ records, Stored key r (d.content f) (writes f rest) records ∧
            d' = d.setFile f records := by
  have hwrite : Disk.exec (.write f (⟨.readWrite, false, pos⟩ : Fd f) r)
      (d.setFile f (d.content f)) =
      some (true, d.setFile f (Table.upsert key r (d.content f))) := by
    simp only [Disk.exec, writePos, Disk.content_setFile_self, Disk.setFile_setFile, hpos]
    rfl
  refine surely_call hwrite ?_ fun error herror => ?_
  · refine surely_closing ⟨(looks_closing (d := d) _ _).within.cons rfl, ?_, rfl, _, ?_, rfl⟩
    · simp [Call.isOpen]
    · exact .inr ⟨by simp [Call.isWrite], rfl⟩
  · refine surely_closing ⟨(looks_closing (d := d) _ _).within.cons rfl, ?_, rfl, _, ?_, rfl⟩
    · simp [Call.isOpen]
    · exact .inl ⟨by simp [Call.isWrite], rfl⟩

theorem writeRecord_surely (key : f.Rec M → Nat) (r : f.Rec M)
    (hfuel : (d.content f).length < fuel) :
    Surely false (writeRecord fuel f (fun tmp => key tmp = key r) r) d (Written f key r d) := by
  refine surely_call (d.exec_openFile_create f .readWrite false) ?_ fun error herror => ?_
  · refine surely_sure rfl rfl (.bind ?_)
    have hcontent : (d.setFile f (d.content f)).content f = d.content f :=
      d.content_setFile_self f _
    refine Prog.Surely.imp
      (readUntil_surely _ (hcontent.trans (List.nil_append _).symm) rfl ?_ hfuel) ?_
    · simp
    rintro result d₁ trace ⟨⟨rfl, hwithin, hwrites⟩, hopens, -, hexact⟩
    obtain rfl := hexact rfl
    have hlocate : (firstFrom (fun tmp => decide (key tmp = key r)) 0 (d.content f)).map
        Prod.fst = Table.locate key (key r) (d.content f) := by
      rw [firstFrom_fst]
      simp [Table.locate]
    cases hfirst : firstFrom (fun tmp => decide (key tmp = key r)) 0 (d.content f) with
    | some found =>
        rw [hfirst] at hlocate
        have hlt := (List.getElem?_eq_some_iff.mp
          (Table.getElem?_of_locate hlocate.symm).choose_spec.1).1
        have hpos : Table.upsert key r (d.content f) = Table.put (d.content f) found.1 r := by
          rw [Table.upsert_of_locate hlocate.symm, ← Table.put_of_lt hlt]
        refine (writeAt_surely hpos).imp ?_
        rintro result d' rest ⟨hrest, hopens', rfl, records, hstored, rfl⟩
        refine ⟨((hwithin.append hrest).cons rfl).cons rfl, ?_, records, ?_, rfl⟩
        · simp [Call.isOpen, hopens, hopens']
        · simpa [Call.isWrite, hwrites] using hstored
    | none =>
        rw [hfirst] at hlocate
        have hend : Disk.exec (.seekEnd f (⟨.readWrite, false, 0⟩ : Fd f))
            (d.setFile f (d.content f)) =
            some ((d.content f).length, d.setFile f (d.content f)) := by
          simp [Disk.exec, hcontent]
        have hpos : Table.upsert key r (d.content f) =
            Table.put (d.content f) (d.content f).length r := by
          rw [Table.upsert_of_fresh (Table.locate_eq_none_iff.mp hlocate.symm), Table.put_length]
        refine surely_sure hend rfl ((writeAt_surely hpos).imp ?_)
        rintro result d' rest ⟨hrest, hopens', rfl, records, hstored, rfl⟩
        refine ⟨((hwithin.append (hrest.cons rfl)).cons rfl).cons rfl, ?_, records, ?_, rfl⟩
        · simp [Call.isOpen, hopens, hopens']
        · simpa [Call.isWrite, hwrites] using hstored
  · obtain rfl := open_error herror
    exact ⟨Within.nil.cons rfl, by simp [Call.isOpen], rfl⟩

theorem generateNewUserId_surely :
    Surely reads generateNewUserId d fun userId d' trace =>
      Within .users trace ∧ writes .users trace = [] ∧
        ((opens .users trace = [false] ∧ userId = 1001 ∧ d' = d) ∨
          (opens .users trace = [true] ∧ userId = 1001 + (d.content .users).length ∧
            d' = d.setFile .users (d.content .users))) := by
  refine surely_call (d.exec_openFile_create .users .readOnly false) ?_ fun error herror => ?_
  · have hend : Disk.exec (.seekEnd .users (⟨.readOnly, false, 0⟩ : Fd DbFile.users))
        (d.setFile .users (d.content .users)) =
        some ((d.content .users).length, d.setFile .users (d.content .users)) := by
      simp [Disk.exec]
    refine surely_sure rfl rfl (surely_sure hend rfl (surely_closing ?_))
    refine ⟨(((looks_closing (d := d) _ _).within.cons rfl).cons rfl).cons rfl, ?_, .inr ?_⟩
    · simp [Call.isWrite]
    · exact ⟨by simp [Call.isOpen], rfl, rfl⟩
  · obtain rfl := open_error herror
    exact ⟨Within.nil.cons rfl, by simp [Call.isWrite], .inl ⟨by simp [Call.isOpen], rfl, rfl⟩⟩

end Sys

/-! ## The tables on a disk -/

def Foundation.Posix.Disk.tables (d : Disk DbFile (DbFile.Rec M)) : Tables M where
  users := d.content .users
  accounts := d.content .accounts
  transactions := d.content .transactions
  loans := d.content .loans
  feedback := d.content .feedback

theorem tables_of_files {d d' : Disk DbFile (DbFile.Rec M)} (h : d'.files = d.files) :
    d'.tables = d.tables := by
  simp only [Disk.tables, Disk.content, h]

theorem tables_setFile_same (d : Disk DbFile (DbFile.Rec M)) (f : DbFile) :
    (d.setFile f (d.content f)).tables = d.tables := by
  cases f <;> simp [Disk.tables, Disk.content, Disk.setFile]

theorem tables_setUsers (d : Disk DbFile (DbFile.Rec M)) (users : List UserRec) :
    (d.setFile .users users).tables = { d.tables with users } := by
  simp [Disk.tables, Disk.content, Disk.setFile]

theorem tables_setAccounts (d : Disk DbFile (DbFile.Rec M)) (accounts : List (AccountRec M)) :
    (d.setFile .accounts accounts).tables = d.tables.withAccounts accounts := by
  simp [Disk.tables, Disk.content, Disk.setFile, Tables.withAccounts]

private theorem tables_setTransactions (d : Disk DbFile (DbFile.Rec M))
    (transactions : List (TxnRec M)) :
    (d.setFile .transactions transactions).tables = { d.tables with transactions } := by
  simp [Disk.tables, Disk.content, Disk.setFile]

namespace Sys

variable [Amount M] {α : Type} {reads : Bool} {fuel : Nat} {d : Disk DbFile (DbFile.Rec M)}
  {R : α → Disk DbFile (DbFile.Rec M) → Trace M → Prop}

theorem expand_call_surely {cmd : Db.Cmd M} {next : Db.Ans M cmd → Prog (Db M) α}
    {Q : Db.Ans M cmd → Disk DbFile (DbFile.Rec M) → Trace M → Prop}
    (h : Surely reads (helper fuel cmd) d Q)
    (hnext : ∀ answer d₁ first, Q answer d₁ first →
      Surely reads (expand fuel (next answer)) d₁ fun value d' rest => R value d' (first ++ rest)) :
    Surely reads (expand fuel (.call cmd next)) d R :=
  .bind (h.imp hnext)

theorem expand_bind_surely {β : Type} {program : Prog (Db M) β} {next : β → Prog (Db M) α}
    (h : Surely reads (expand fuel program) d fun value d₁ first =>
      Surely reads (expand fuel (next value)) d₁ fun result d' rest =>
        R result d' (first ++ rest)) :
    Surely reads (expand fuel (program >>= next)) d R := by
  rw [expand, Prog.expand_bind]
  exact .bind h

theorem time_surely :
    Surely reads (helper fuel .time) d fun now d' trace =>
      now = d.clock 0 ∧ d'.files = d.files ∧ trace = [⟨.time, true⟩] :=
  surely_sure rfl rfl ⟨rfl, rfl, rfl⟩

theorem Updated.tables {userId : Nat} {modifier : AccountModifier M} {result : Bool}
    {d' : Disk DbFile (DbFile.Rec M)} {trace : Trace M}
    (h : Updated userId modifier.apply d result d' trace) :
    (result = true ∧ d.tables.updateAccount userId modifier = some d'.tables ∧
      true ∈ writes .accounts trace ∧ failures .accounts trace = 0) ∨
    (result = false ∧ d' = d ∧ true ∉ writes .accounts trace ∧
      (d.tables.updateAccount userId modifier = none ∧ failures .accounts trace = 0 ∨
        failures .accounts trace = 1)) := by
  refine h.outcome.imp ?_ ?_
  · rintro ⟨hresult, ⟨accounts, hmodify, rfl⟩, hwritten, hnone⟩
    refine ⟨hresult, ?_, hwritten, hnone⟩
    rw [tables_setAccounts]
    exact congrArg (Option.map d.tables.withAccounts) hmodify
  · rintro ⟨hresult, hsame, hunwritten, hfailed⟩
    refine ⟨hresult, hsame, hunwritten, hfailed.imp_left ?_⟩
    rintro ⟨hmodify, hnone⟩
    exact ⟨congrArg (Option.map d.tables.withAccounts) hmodify, hnone⟩

theorem appendTransaction_surely (fromAccount toAccount : Nat) (amount : M) (now : Time)
    (narration : Bytes) :
    Surely reads (helper fuel
      (.appendTransaction ⟨0, fromAccount, toAccount, amount, now, narration⟩)) d
      fun _ d' trace => Within .transactions trace ∧
        ((d'.tables = d.tables.log fromAccount toAccount amount now narration ∧
            failures .transactions trace = 0) ∨
          (d'.tables = d.tables ∧ failures .transactions trace = 1)) := by
  refine .bind ((appendRecord_surely (f := .transactions) _).imp ?_)
  rintro txnId d' trace ⟨hwithin, houtcome⟩
  refine ⟨hwithin.append .nil, ?_⟩
  rw [List.append_nil]
  refine houtcome.imp ?_ ?_
  · rintro ⟨rfl, hnone⟩
    exact ⟨tables_setTransactions d _, hnone⟩
  · rintro ⟨rfl | rfl, hone⟩
    · exact ⟨rfl, hone⟩
    · exact ⟨tables_setFile_same d _, hone⟩

end Sys

end BankingSystem
