import BankingSystem.Foundation.Seek
import BankingSystem.Foundation.Table

/-!
# Records in a file of bytes

Reading record after record, and a `write` that may take a part of its buffer only.  A
record that is overwritten in part begins like the new one and ends like the old one.
-/

namespace BankingSystem.Foundation

namespace ByteFd

def seekSet (fd : ByteFd) (pos : Nat) : ByteFd := { fd with pos }

inductive Written where
  | failed
  | upTo (count : Nat)
  deriving DecidableEq

def Written.count : Written → Nat
  | failed => 0
  | upTo count => count

/-- The result, and the file after it; a hole before the offset is filled with zeros. -/
def write (fd : ByteFd) (buffer : Bytes) : Written → Int × ByteFd
  | .failed => (-1, fd)
  | .upTo count =>
      let taken := buffer.take count
      if taken = [] then (0, fd)
      else
        let front := fd.bytes.take fd.pos ++ List.replicate (fd.pos - fd.bytes.length) 0
        (taken.length, ⟨front ++ taken ++ fd.bytes.drop (fd.pos + taken.length),
          fd.pos + taken.length⟩)

/--
Read records of `size` bytes until one is found; its offset.  The result is `none` when
more than `fuel` reads are to be made.
-/
def findFrom (size : BitVec 64) (found : Bytes → Bool) : Nat → Nat → ByteFd →
    Option (Option Nat × ByteFd)
  | 0, _, _ => none
  | fuel + 1, pos, fd =>
      let (tmp, fd) := fd.read size
      if tmp.length ≠ size.toNat then some (none, fd)
      else if found tmp then some (some pos, fd)
      else findFrom size found fuel (pos + size.toNat) fd

@[simp] theorem read_bytes (fd : ByteFd) (count : BitVec 64) :
    (fd.read count).2.bytes = fd.bytes := rfl

@[simp] theorem seekSet_bytes (fd : ByteFd) (pos : Nat) : (fd.seekSet pos).bytes = fd.bytes := rfl

@[simp] theorem seekSet_pos (fd : ByteFd) (pos : Nat) : (fd.seekSet pos).pos = pos := rfl

theorem lseek_end (fd : ByteFd) :
    fd.lseek 0 .seekEnd = ((fd.bytes.length : Int), { fd with pos := fd.bytes.length }) := by
  have hnonneg : ¬ ((fd.bytes.length : Int) < 0) := by omega
  simp [lseek, base, hnonneg]

theorem write_bytes {fd : ByteFd} (hpos : fd.pos ≤ fd.bytes.length) (buffer : Bytes)
    (written : Written) :
    (fd.write buffer written).2.bytes = fd.bytes.take fd.pos ++ buffer.take written.count ++
      fd.bytes.drop (fd.pos + (buffer.take written.count).length) := by
  cases written with
  | failed => simp [write, Written.count]
  | upTo count =>
      rw [write, Written.count]
      split
      case isTrue hnone => simp [hnone]
      case isFalse => simp [Nat.sub_eq_zero_of_le hpos]

section Records

variable {size : BitVec 64} {before : List Bytes}

theorem write_record {fd : ByteFd} {old record : Bytes} {rest : List Bytes}
    (hold : old.length = record.length)
    (hbytes : fd.bytes = before.flatten ++ old ++ rest.flatten)
    (hpos : fd.pos = before.flatten.length) (written : Written) :
    (fd.write record written).2.bytes = before.flatten ++
      (record.take written.count ++ old.drop written.count) ++ rest.flatten := by
  have hshort : fd.pos ≤ fd.bytes.length := by
    rw [hpos, hbytes, List.length_append, List.length_append]
    omega
  have hdrop : (old ++ rest.flatten).drop (record.take written.count).length =
      old.drop written.count ++ rest.flatten := by
    rw [List.length_take, List.drop_append_of_le_length (by omega)]
    by_cases hcount : written.count ≤ record.length
    · rw [Nat.min_eq_left hcount]
    · rw [Nat.min_eq_right (by omega), List.drop_eq_nil_of_le (by omega),
        List.drop_eq_nil_of_le (by omega)]
  rw [write_bytes hshort, hbytes, hpos, List.append_assoc before.flatten, List.take_left,
    ← List.drop_drop, List.drop_left, hdrop]
  simp only [List.append_assoc]

theorem write_end {fd : ByteFd} (hpos : fd.pos = fd.bytes.length) (record : Bytes)
    (written : Written) :
    (fd.write record written).2.bytes = fd.bytes ++ record.take written.count := by
  rw [write_bytes (Nat.le_of_eq hpos), hpos, List.take_length, List.drop_eq_nil_of_le (by omega),
    List.append_nil]

theorem take_append_drop_eq_iff {old record : Bytes} (hold : old.length = record.length)
    (count : Nat) :
    record.take count ++ old.drop count = record ↔ old.drop count = record.drop count := by
  constructor
  · intro heq
    have hdrop := congrArg (List.drop count) heq
    by_cases hcount : count ≤ record.length
    · rwa [List.drop_left' (by rw [List.length_take, Nat.min_eq_left hcount])] at hdrop
    · rw [List.drop_eq_nil_of_le (by omega), List.drop_eq_nil_of_le (by omega)]
  · intro heq
    rw [heq, List.take_append_drop]

theorem findFrom_eq (hsize : 0 < size.toNat) (found : Bytes → Bool) {rest : List Bytes}
    (hbefore : ∀ chunk ∈ before, chunk.length = size.toNat)
    (hrest : ∀ chunk ∈ rest, chunk.length = size.toNat) {fd : ByteFd}
    (hbytes : fd.bytes = before.flatten ++ rest.flatten)
    (hpos : fd.pos = size.toNat * before.length) {fuel : Nat} (hfuel : rest.length < fuel) :
    ∃ fd', findFrom size found fuel fd.pos fd =
        some ((rest.findIdx? found).map fun i => size.toNat * (before.length + i), fd') ∧
      fd'.bytes = fd.bytes := by
  induction rest generalizing before fd fuel with
  | nil =>
      obtain ⟨fuel, rfl⟩ := Nat.exists_eq_add_one.mpr (Nat.zero_lt_of_lt hfuel)
      have hlength := length_flatten_chunks hbefore
      have hread : (fd.read size).1.length ≠ size.toNat := by
        have hend : fd.bytes.drop fd.pos = [] :=
          List.drop_eq_nil_of_le (by rw [hbytes, hpos, List.length_append, hlength]; simp)
        rw [read, hend]
        simp only [List.take_nil, List.length_nil]
        omega
      refine ⟨(fd.read size).2, ?_, rfl⟩
      rw [findFrom]
      simp only [hread, ne_eq, not_false_eq_true, if_true]
      rfl
  | cons chunk rest ih =>
      obtain ⟨fuel, rfl⟩ := Nat.exists_eq_add_one.mpr (Nat.zero_lt_of_lt hfuel)
      have hchunk := hrest chunk List.mem_cons_self
      have hall : ∀ c ∈ before ++ [chunk], c.length = size.toNat := by
        intro c hc
        rcases List.mem_append.mp hc with hc | hc
        · exact hbefore c hc
        · rwa [List.mem_singleton.mp hc]
      have hnext : fd.bytes = (before ++ [chunk]).flatten ++ rest.flatten := by
        simpa using hbytes
      have hread := read_atLast hall hnext hpos
      rw [findFrom, hread]
      simp only [hchunk, ne_eq, not_true_eq_false, if_false, List.findIdx?_cons]
      cases hfound : found chunk with
      | true =>
          exact ⟨{ fd with pos := size.toNat * (before.length + 1) }, by simp [hpos], rfl⟩
      | false =>
          have hpos' : size.toNat * (before.length + 1) =
              size.toNat * (before ++ [chunk]).length := by simp
          have hnext' : ({ fd with pos := size.toNat * (before.length + 1) } : ByteFd).bytes =
              (before ++ [chunk]).flatten ++ rest.flatten := hnext
          obtain ⟨fd', hfind, hsame⟩ := ih hall
            (fun c hc => hrest c (List.mem_cons_of_mem _ hc)) hnext' hpos'
            (Nat.lt_of_succ_lt_succ hfuel)
          refine ⟨fd', ?_, hsame⟩
          simp only [Bool.false_eq_true, if_false]
          rw [hpos, ← Nat.mul_add_one, hfind, Option.map_map]
          have hshift : (fun i => size.toNat * ((before ++ [chunk]).length + i)) =
              (fun i => size.toNat * (before.length + i)) ∘ fun i => i + 1 := by
            funext i
            simp only [Function.comp_apply, List.length_append, List.length_singleton]
            ring
          rw [hshift]

end Records

end ByteFd

/-! ## Keys -/

def ofLittleEndian : Bytes → Nat
  | [] => 0
  | b :: bytes => b.toNat + 256 * ofLittleEndian bytes

def littleEndian : Nat → Nat → Bytes
  | 0, _ => []
  | width + 1, n => n.toUInt8 :: littleEndian width (n / 256)

@[simp] theorem length_littleEndian (width n : Nat) : (littleEndian width n).length = width := by
  induction width generalizing n with
  | zero => rfl
  | succ width ih => simp [littleEndian, ih]

theorem ofLittleEndian_littleEndian (width n : Nat) :
    ofLittleEndian (littleEndian width n) = n % 256 ^ width := by
  induction width generalizing n with
  | zero => simp [littleEndian, ofLittleEndian, Nat.mod_one]
  | succ width ih =>
      have hbyte : n.toUInt8.toNat = n % 256 := UInt8.toNat_ofNat
      rw [littleEndian, ofLittleEndian, ih, hbyte, Nat.pow_succ', Nat.mod_mul]

/-- How large a record is, and where its key stands. -/
structure Layout where
  size : BitVec 64
  keyOffset : Nat
  keyWidth : Nat

namespace Layout

variable (layout : Layout)

def key (record : Bytes) : Nat :=
  ofLittleEndian ((record.drop layout.keyOffset).take layout.keyWidth)

def withKey (n : Nat) (record : Bytes) : Bytes :=
  record.take layout.keyOffset ++ littleEndian layout.keyWidth n ++
    record.drop (layout.keyOffset + layout.keyWidth)

variable {layout} {record : Bytes}

theorem length_withKey (hfits : layout.keyOffset + layout.keyWidth ≤ record.length) (n : Nat) :
    (layout.withKey n record).length = record.length := by
  simp only [withKey, List.length_append, List.length_take, length_littleEndian, List.length_drop]
  omega

end Layout

end BankingSystem.Foundation
