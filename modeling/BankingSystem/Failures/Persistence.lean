import BankingSystem.Foundation.RecordFile
import Mathlib.Data.List.TakeDrop

/-!
# What the persistence helpers report

The seven functions of `utils.c` that store a record, over the bytes of their file.  The
`open` may fail, and the `write` may fail or take a part of the record.
-/

namespace BankingSystem

open Foundation ByteFd

/-! ## The functions -/

/-- What becomes of the two calls that can fail. -/
structure CallOutcomes where
  opens : Bool
  written : Written

def userLayout : Layout := ⟨680, 0, 4⟩

def accountLayout : Layout := ⟨24, 4, 4⟩

def txnLayout : Layout := ⟨160, 0, 8⟩

def loanLayout : Layout := ⟨304, 0, 8⟩

def feedbackLayout : Layout := ⟨792, 0, 8⟩

namespace ByteStore

/-- Update the first record with the key, or append; `none` is a loop of too many reads. -/
def writeRecord (layout : Layout) (calls : CallOutcomes) (fuel : Nat) (record : Bytes)
    (file : Option Bytes) : Option (Nat × Option Bytes) :=
  if ¬ calls.opens then some (0, file)
  else do
    let (pos, fd) ← findFrom layout.size (fun tmp => layout.key tmp = layout.key record) fuel 0
      ⟨file.getD [], 0⟩
    let fd := match pos with
      | some pos => fd.seekSet pos
      | none => (fd.lseek 0 .seekEnd).2
    -- whether all of it was written goes to `success`, which is not returned
    let (_, fd) := fd.write record calls.written
    return (1, some fd.bytes)

def appendRecord (layout : Layout) (calls : CallOutcomes) (record : Bytes)
    (file : Option Bytes) : Nat × Option Bytes :=
  if ¬ calls.opens then (0, file)
  else
    let (length, fd) := lseek ⟨file.getD [], 0⟩ 0 .seekEnd
    let record := layout.withKey (length.toNat / layout.size.toNat + 1) record
    let (_, fd) := fd.write record calls.written
    (1, some fd.bytes)

def writeAccount : CallOutcomes → Nat → Bytes → Option Bytes → Option (Nat × Option Bytes) :=
  writeRecord accountLayout

def writeUser : CallOutcomes → Nat → Bytes → Option Bytes → Option (Nat × Option Bytes) :=
  writeRecord userLayout

def writeLoan : CallOutcomes → Nat → Bytes → Option Bytes → Option (Nat × Option Bytes) :=
  writeRecord loanLayout

def writeFeedback : CallOutcomes → Nat → Bytes → Option Bytes → Option (Nat × Option Bytes) :=
  writeRecord feedbackLayout

def appendTransaction : CallOutcomes → Bytes → Option Bytes → Nat × Option Bytes :=
  appendRecord txnLayout

def appendLoan : CallOutcomes → Bytes → Option Bytes → Nat × Option Bytes :=
  appendRecord loanLayout

def appendFeedback : CallOutcomes → Bytes → Option Bytes → Nat × Option Bytes :=
  appendRecord feedbackLayout

end ByteStore

inductive StoreHelper where
  | writeAccount
  | writeUser
  | writeLoan
  | writeFeedback
  | appendTransaction
  | appendLoan
  | appendFeedback
  deriving DecidableEq

namespace StoreHelper

def run (calls : CallOutcomes) (fuel : Nat) (record : Bytes) (file : Option Bytes) :
    StoreHelper → Option (Nat × Option Bytes)
  | writeAccount => ByteStore.writeAccount calls fuel record file
  | writeUser => ByteStore.writeUser calls fuel record file
  | writeLoan => ByteStore.writeLoan calls fuel record file
  | writeFeedback => ByteStore.writeFeedback calls fuel record file
  | appendTransaction => some (ByteStore.appendTransaction calls record file)
  | appendLoan => some (ByteStore.appendLoan calls record file)
  | appendFeedback => some (ByteStore.appendFeedback calls record file)

def layout : StoreHelper → Layout
  | writeAccount => accountLayout
  | writeUser => userLayout
  | appendTransaction => txnLayout
  | writeLoan | appendLoan => loanLayout
  | writeFeedback | appendFeedback => feedbackLayout

/-- It updates a record with the same key, if there is one. -/
def Updates : StoreHelper → Prop
  | writeAccount | writeUser | writeLoan | writeFeedback => True
  | appendTransaction | appendLoan | appendFeedback => False

/-- The records with this one stored: in its place, or at the end with the next number. -/
def stored (record : Bytes) (records : List Bytes) : StoreHelper → List Bytes
  | writeAccount => Table.upsert accountLayout.key record records
  | writeUser => Table.upsert userLayout.key record records
  | writeLoan => Table.upsert loanLayout.key record records
  | writeFeedback => Table.upsert feedbackLayout.key record records
  | appendTransaction => records ++ [txnLayout.withKey (records.length + 1) record]
  | appendLoan => records ++ [loanLayout.withKey (records.length + 1) record]
  | appendFeedback => records ++ [feedbackLayout.withKey (records.length + 1) record]

/-- It ends, and where it returns 1 the file is that of the records with this one stored. -/
def TellsTruth (helper : StoreHelper) (calls : CallOutcomes) (fuel : Nat) (record : Bytes)
    (file : Option (List Bytes)) : Prop :=
  ∃ result file', helper.run calls fuel record (file.map List.flatten) = some (result, file') ∧
    (result = 1 → file' = some (helper.stored record (file.getD [])).flatten)

/--
The file is not opened, or the record is written to its end, or it overwrites one that
has the same bytes from where the write stops.
-/
def WritesEnough (helper : StoreHelper) (calls : CallOutcomes) (record : Bytes)
    (records : List Bytes) : Prop :=
  calls.opens = false ∨ helper.layout.size.toNat ≤ calls.written.count ∨
    helper.Updates ∧ ∃ old, Table.lookup helper.layout.key (helper.layout.key record) records =
      some old ∧ old.drop calls.written.count = record.drop calls.written.count

end StoreHelper

/-! ## What is in the file afterwards -/

section Files

variable {layout : Layout} {calls : CallOutcomes} {record : Bytes} {file : Option (List Bytes)}

private theorem getD_map_flatten (file : Option (List Bytes)) :
    (file.map List.flatten).getD [] = (file.getD []).flatten := by
  cases file <;> rfl

private theorem writeRecord_eq {fuel : Nat} {bytes : Option Bytes} {pos : Option Nat} {fd : ByteFd}
    (hopens : calls.opens = true)
    (hfind : findFrom layout.size (fun tmp => layout.key tmp = layout.key record) fuel 0
      ⟨bytes.getD [], 0⟩ = some (pos, fd)) :
    ByteStore.writeRecord layout calls fuel record bytes =
      some (1, some (((pos.elim (fd.lseek 0 .seekEnd).2 fd.seekSet).write record
        calls.written).2.bytes)) := by
  simp only [ByteStore.writeRecord, hopens, hfind, not_true_eq_false, if_false]
  cases pos <;> rfl

private theorem flatten_middle_eq_iff {before after : List Bytes} {chunk chunk' : Bytes} :
    before.flatten ++ chunk ++ after.flatten = (before ++ chunk' :: after).flatten ↔
      chunk = chunk' := by
  rw [List.flatten_append, List.flatten_cons, ← List.append_assoc, List.append_left_inj,
    List.append_right_inj]

private theorem writeRecord_run (hsize : 0 < layout.size.toNat) (hopens : calls.opens = true)
    (hrecord : record.length = layout.size.toNat)
    (hfile : ∀ chunk ∈ file.getD [], chunk.length = layout.size.toNat) {fuel : Nat}
    (hfuel : (file.getD []).length < fuel) :
    ∃ bytes, ByteStore.writeRecord layout calls fuel record (file.map List.flatten) =
        some (1, some bytes) ∧
      (Table.locate layout.key (layout.key record) (file.getD []) = none ∧
          bytes = (file.getD []).flatten ++ record.take calls.written.count ∨
        ∃ before old after, file.getD [] = before ++ old :: after ∧
          Table.locate layout.key (layout.key record) (file.getD []) = some before.length ∧
          old.length = record.length ∧
          bytes = before.flatten ++
            (record.take calls.written.count ++ old.drop calls.written.count) ++
              after.flatten) := by
  have hnone : ∀ chunk ∈ ([] : List Bytes), chunk.length = layout.size.toNat := by simp
  have hstart : (⟨(file.getD []).flatten, 0⟩ : ByteFd).bytes =
      ([] : List Bytes).flatten ++ (file.getD []).flatten := rfl
  obtain ⟨fd, hfind, hbytes⟩ := findFrom_eq hsize
    (fun tmp => layout.key tmp = layout.key record) hnone hfile hstart (by simp) hfuel
  rw [← getD_map_flatten] at hfind
  change fd.bytes = (file.getD []).flatten at hbytes
  cases hlocate : Table.locate layout.key (layout.key record) (file.getD []) with
  | none =>
      have hnone : (file.getD []).findIdx? (fun tmp => layout.key tmp = layout.key record) =
          none := hlocate
      rw [hnone, Option.map_none] at hfind
      refine ⟨_, writeRecord_eq hopens hfind, .inl ⟨rfl, ?_⟩⟩
      rw [Option.elim_none, lseek_end, write_end rfl, hbytes]
  | some i =>
      have hsome : (file.getD []).findIdx? (fun tmp => layout.key tmp = layout.key record) =
          some i := hlocate
      rw [hsome, Option.map_some] at hfind
      refine ⟨_, writeRecord_eq hopens hfind, .inr ?_⟩
      obtain ⟨old, hi, -, -⟩ := Table.locate_eq_some_iff.mp hlocate
      obtain ⟨hlt, rfl⟩ := List.getElem?_eq_some_iff.mp hi
      have hsplit : file.getD [] =
          (file.getD []).take i ++ (file.getD [])[i] :: (file.getD []).drop (i + 1) := by
        rw [← List.drop_eq_getElem_cons hlt, List.take_append_drop]
      have hlength : ((file.getD []).take i).length = i :=
        List.length_take_of_le (Nat.le_of_lt hlt)
      have hold : (file.getD [])[i].length = record.length := by
        rw [hrecord]
        exact hfile _ (List.getElem_mem hlt)
      refine ⟨_, _, _, hsplit, by rw [hlength], hold, ?_⟩
      refine write_record hold ?_ ?_ calls.written
      · rw [Option.elim_some, seekSet_bytes, hbytes]
        conv_lhs => rw [hsplit]
        rw [List.flatten_append, List.flatten_cons, List.append_assoc]
      · have hbefore := length_flatten_chunks fun c hc =>
          hfile c (List.mem_of_mem_take (i := i) hc)
        rw [Option.elim_some, seekSet_pos, hbefore, hlength, List.length_nil, Nat.zero_add]

private theorem writeRecord_iff (hsize : 0 < layout.size.toNat)
    (hrecord : record.length = layout.size.toNat)
    (hfile : ∀ chunk ∈ file.getD [], chunk.length = layout.size.toNat) {fuel : Nat}
    (hfuel : (file.getD []).length < fuel) :
    (∃ result file', ByteStore.writeRecord layout calls fuel record (file.map List.flatten) =
        some (result, file') ∧
      (result = 1 → file' = some (Table.upsert layout.key record (file.getD [])).flatten)) ↔
    calls.opens = false ∨ layout.size.toNat ≤ calls.written.count ∨
      ∃ old, Table.lookup layout.key (layout.key record) (file.getD []) = some old ∧
        old.drop calls.written.count = record.drop calls.written.count := by
  cases hopens : calls.opens with
  | false =>
      refine iff_of_true ⟨0, file.map List.flatten, ?_, by simp⟩ (.inl rfl)
      simp [ByteStore.writeRecord, hopens]
  | true =>
      obtain ⟨bytes, hrun, hbytes⟩ := writeRecord_run hsize hopens hrecord hfile hfuel
      have honly : (∃ result file', ByteStore.writeRecord layout calls fuel record
            (file.map List.flatten) = some (result, file') ∧
          (result = 1 → file' = some (Table.upsert layout.key record (file.getD [])).flatten)) ↔
          bytes = (Table.upsert layout.key record (file.getD [])).flatten := by
        simp [hrun]
      rw [honly]
      rcases hbytes with ⟨hlocate, rfl⟩ | ⟨before, old, after, hsplit, hlocate, hold, rfl⟩
      · have hlookup := Table.lookup_of_locate_none hlocate
        have hupsert : Table.upsert layout.key record (file.getD []) =
            file.getD [] ++ [record] := by
          simp [Table.upsert, hlocate]
        rw [hupsert, hlookup, List.flatten_append, List.flatten_singleton, List.append_right_inj,
          List.take_eq_self_iff, hrecord]
        simp
      · have hupsert : Table.upsert layout.key record (file.getD []) =
            before ++ record :: after := by
          rw [Table.upsert_of_locate hlocate, hsplit]
          simp
        have hlookup : Table.lookup layout.key (layout.key record) (file.getD []) = some old := by
          rw [Table.lookup_of_locate hlocate, hsplit]
          simp
        have hwhole : layout.size.toNat ≤ calls.written.count →
            old.drop calls.written.count = record.drop calls.written.count := by
          intro hcount
          rw [List.drop_eq_nil_of_le (by omega), List.drop_eq_nil_of_le (by omega)]
        rw [hupsert, hlookup, flatten_middle_eq_iff, take_append_drop_eq_iff hold]
        constructor
        · exact fun hrest => .inr (.inr ⟨old, rfl, hrest⟩)
        · rintro (hfalse | hcount | ⟨_, ⟨⟩, hrest⟩)
          · cases hfalse
          · exact hwhole hcount
          · exact hrest

private theorem appendRecord_iff (hsize : 0 < layout.size.toNat)
    (hfits : layout.keyOffset + layout.keyWidth ≤ record.length)
    (hrecord : record.length = layout.size.toNat)
    (hfile : ∀ chunk ∈ file.getD [], chunk.length = layout.size.toNat) :
    ((ByteStore.appendRecord layout calls record (file.map List.flatten)).1 = 1 →
      (ByteStore.appendRecord layout calls record (file.map List.flatten)).2 =
        some ((file.getD []) ++ [layout.withKey ((file.getD []).length + 1) record]).flatten) ↔
    calls.opens = false ∨ layout.size.toNat ≤ calls.written.count := by
  cases hopens : calls.opens with
  | false => simp [ByteStore.appendRecord, hopens]
  | true =>
      have hlength := length_flatten_chunks hfile
      have hcount : (file.getD []).flatten.length / layout.size.toNat = (file.getD []).length := by
        rw [hlength, Nat.mul_div_cancel_left _ hsize]
      have hnumbered := layout.length_withKey hfits ((file.getD []).length + 1)
      rw [hrecord] at hnumbered
      have hfirst : (ByteStore.appendRecord layout calls record (file.map List.flatten)).1 = 1 := by
        simp [ByteStore.appendRecord, hopens]
      have hsecond : (ByteStore.appendRecord layout calls record (file.map List.flatten)).2 =
          some ((file.getD []).flatten ++
            (layout.withKey ((file.getD []).length + 1) record).take calls.written.count) := by
        simp only [ByteStore.appendRecord, hopens, not_true_eq_false, if_false, getD_map_flatten,
          lseek_end, Int.toNat_natCast, hcount]
        rw [write_end rfl]
      rw [hfirst, hsecond, List.flatten_append, List.flatten_singleton, Option.some_inj,
        List.append_right_inj, List.take_eq_self_iff, hnumbered]
      simp

end Files

/-! ## The seven helpers -/

private theorem StoreHelper.layout_fits (helper : StoreHelper) : 0 < helper.layout.size.toNat ∧
    helper.layout.keyOffset + helper.layout.keyWidth ≤ helper.layout.size.toNat := by
  cases helper <;> decide

/--
A helper that returns 1 has stored the whole record under its key, with all others as they
were, if and only if the file was not opened, or the write came to the end of the record,
or the record that it overwrites has the same bytes from where it stopped.
-/
theorem helpers_tell_truth_iff (helper : StoreHelper) (calls : CallOutcomes) {record : Bytes}
    (hrecord : record.length = helper.layout.size.toNat) {file : Option (List Bytes)}
    (hfile : ∀ chunk ∈ file.getD [], chunk.length = helper.layout.size.toNat) {fuel : Nat}
    (hfuel : (file.getD []).length < fuel) :
    helper.TellsTruth calls fuel record file ↔
      helper.WritesEnough calls record (file.getD []) := by
  obtain ⟨hsize, hfits⟩ := helper.layout_fits
  rw [← hrecord] at hfits
  have happend : ∀ {layout : Layout}, 0 < layout.size.toNat →
      layout.keyOffset + layout.keyWidth ≤ record.length →
      record.length = layout.size.toNat →
      (∀ chunk ∈ file.getD [], chunk.length = layout.size.toNat) →
      ((∃ result file', some (ByteStore.appendRecord layout calls record
          (file.map List.flatten)) = some (result, file') ∧ (result = 1 → file' =
            some (file.getD [] ++ [layout.withKey ((file.getD []).length + 1) record]).flatten)) ↔
        calls.opens = false ∨ layout.size.toNat ≤ calls.written.count ∨ False ∧
          ∃ old, Table.lookup layout.key (layout.key record) (file.getD []) = some old ∧
            old.drop calls.written.count = record.drop calls.written.count) := by
    intro layout hsize hfits hrecord hfile
    rw [false_and, or_false, ← appendRecord_iff hsize hfits hrecord hfile]
    constructor
    · rintro ⟨result, file', hrun, htruth⟩
      rwa [Option.some_inj.mp hrun]
    · exact fun htruth => ⟨_, _, rfl, htruth⟩
  cases helper with
  | writeAccount | writeUser | writeLoan | writeFeedback =>
      refine (writeRecord_iff hsize hrecord hfile hfuel).trans ?_
      simp only [StoreHelper.WritesEnough, StoreHelper.Updates, StoreHelper.layout, true_and]
  | appendTransaction | appendLoan | appendFeedback =>
      exact happend hsize hfits hrecord hfile

def accountBytes (balance : UInt8) : Bytes :=
  List.replicate 8 1 ++ [balance] ++ List.replicate 15 1

/-- The write stops behind the byte in which the two records differ. -/
theorem helpers_tell_truth_account :
    StoreHelper.writeAccount.TellsTruth ⟨true, .upTo 12⟩ 2 (accountBytes 3)
      (some [accountBytes 2]) :=
  (helpers_tell_truth_iff .writeAccount ⟨true, .upTo 12⟩ (by decide) (by simp; decide)
    (by decide)).mpr (.inr (.inr ⟨trivial, accountBytes 2, by decide +kernel, by decide⟩))

/-- The disk is full; each of the helpers returns 1 and has stored nothing. -/
theorem success_of_failed_write :
    ¬ ∃ helper : StoreHelper, ∀ (calls : CallOutcomes) (record : Bytes)
      (file : Option (List Bytes)), record.length = helper.layout.size.toNat →
      (∀ chunk ∈ file.getD [], chunk.length = helper.layout.size.toNat) →
        helper.TellsTruth calls ((file.getD []).length + 1) record file := by
  rintro ⟨helper, h⟩
  have hlength : (List.replicate helper.layout.size.toNat 0 : Bytes).length =
      helper.layout.size.toNat := List.length_replicate
  have htruth := h ⟨true, .failed⟩ _ none hlength (by simp)
  rw [helpers_tell_truth_iff helper _ hlength (by simp) (Nat.lt_succ_self _)] at htruth
  rcases htruth with hopens | hcount | ⟨-, old, hold, -⟩
  · cases hopens
  · exact absurd (helper.layout_fits).1 (Nat.not_lt.mpr hcount)
  · cases hold

end BankingSystem
