import Mathlib.Data.List.Basic
import BankingSystem.Foundation.CString

/-!
# Reading a file backwards

A descriptor of a regular file with its offset in bytes.  Offsets are passed as an
`off_t`, which a `size_t` expression with a minus sign becomes by reduction modulo `2^64`.
-/

namespace BankingSystem.Foundation

structure ByteFd where
  bytes : Bytes
  pos : Nat

namespace ByteFd

inductive Whence where
  | seekCur
  | seekEnd

def base (fd : ByteFd) : Whence → Nat
  | .seekCur => fd.pos
  | .seekEnd => fd.bytes.length

/-- The new offset, or -1 where it would be negative, which is `EINVAL` and moves nothing. -/
def lseek (fd : ByteFd) (offset : BitVec 64) (whence : Whence) : Int × ByteFd :=
  let pos := fd.base whence + offset.toInt
  if pos < 0 then (-1, fd) else (pos, { fd with pos := pos.toNat })

def read (fd : ByteFd) (count : BitVec 64) : Bytes × ByteFd :=
  let buffer := (fd.bytes.drop fd.pos).take count.toNat
  (buffer, { fd with pos := fd.pos + buffer.length })

@[simp] theorem lseek_bytes (fd : ByteFd) (offset : BitVec 64) (whence : Whence) :
    (fd.lseek offset whence).2.bytes = fd.bytes := by
  simp only [lseek]
  split <;> rfl

/-! ## The loop -/

/-- The offset and the content of a record that was read. -/
abbrev Visit := Int × Bytes

/--
`while (offset >= 0)`: read a record of `size` bytes, or leave the loop, and seek back over
two of them.  The result is what was read and the last `offset`, or `none` when the
condition is to be tested more than `fuel` times.
-/
def readBackwardFrom (size : BitVec 64) : Nat → Int → ByteFd → Option (List Visit × Int)
  | 0, _, _ => none
  | fuel + 1, offset, fd =>
      if 0 ≤ offset then
        let (buffer, fd) := fd.read size
        if buffer.length ≠ size.toNat then some ([], offset)
        else
          let (offset', fd) := fd.lseek (-2 * size) .seekCur
          (readBackwardFrom size fuel offset' fd).map fun (visits, last) =>
            ((offset, buffer) :: visits, last)
      else some ([], offset)

def readBackward (size : BitVec 64) (fuel : Nat) (bytes : Bytes) :
    Option (List Visit × Int) :=
  let (offset, fd) := lseek ⟨bytes, 0⟩ (-size) .seekEnd
  readBackwardFrom size fuel offset fd

def numbered (size : BitVec 64) (chunks : List Bytes) : List Visit :=
  chunks.mapIdx fun i chunk => ((size.toNat * i : Nat), chunk)

theorem numbered_concat (size : BitVec 64) (chunks : List Bytes) (chunk : Bytes) :
    numbered size (chunks ++ [chunk]) =
      numbered size chunks ++ [(((size.toNat * chunks.length : Nat) : Int), chunk)] := by
  rw [numbered, List.mapIdx_concat]
  rfl

theorem numbered_map_snd (size : BitVec 64) (chunks : List Bytes) :
    (numbered size chunks).map Prod.snd = chunks := by
  refine List.ext_getElem? fun i => ?_
  rw [List.getElem?_map, numbered, List.getElem?_mapIdx]
  cases chunks[i]? <;> rfl

theorem length_flatten_chunks {n : Nat} {chunks : List Bytes}
    (h : ∀ chunk ∈ chunks, chunk.length = n) : chunks.flatten.length = n * chunks.length := by
  induction chunks with
  | nil => simp
  | cons chunk chunks ih =>
      have hrest := ih fun c hc => h c (List.mem_cons_of_mem _ hc)
      rw [List.flatten_cons, List.length_append, hrest, h chunk List.mem_cons_self,
        List.length_cons]
      ring

/-- The loop is about to read the last record of `before`, or finds that there is none. -/
structure AtLast (size : BitVec 64) (before : List Bytes) (offset : Int) (fd : ByteFd) :
    Prop where
  nil : before = [] → offset = -1
  concat : ∀ init chunk, before = init ++ [chunk] →
    offset = (size.toNat * init.length : Nat) ∧ fd.pos = size.toNat * init.length

section Loop

variable {size : BitVec 64} (hpos : 0 < size.toNat) (hsmall : 2 * size.toNat < 2 ^ 63)
include hpos hsmall

theorem toInt_neg_size : (-size).toInt = -(size.toNat : Int) := by
  rw [BitVec.toInt_eq_toNat_cond, BitVec.toNat_neg]
  omega

theorem toInt_neg_two_sizes : (-2 * size).toInt = -(2 * size.toNat : Int) := by
  have hmul : (-2 * size).toNat = 2 ^ 64 - 2 * size.toNat := by
    rw [BitVec.toNat_mul, show (-2 : BitVec 64).toNat = 2 ^ 64 - 2 from rfl]
    omega
  rw [BitVec.toInt_eq_toNat_cond, hmul]
  omega

variable {before : List Bytes} {offset : Int} {fd : ByteFd}

omit hsmall in
theorem lseek_atLast (fd : ByteFd) (shift : BitVec 64) (whence : Whence)
    (hshift : (fd.base whence : Int) + shift.toInt =
      size.toNat * before.length - size.toNat) :
    AtLast size before (fd.lseek shift whence).1 (fd.lseek shift whence).2 := by
  unfold lseek
  rw [hshift]
  rcases before.eq_nil_or_concat' with rfl | ⟨init, chunk, rfl⟩
  · have hneg : (size.toNat : Int) * ([] : List Bytes).length - size.toNat < 0 := by
      simp
      omega
    rw [if_pos hneg]
    exact ⟨fun _ => rfl, fun init chunk h => by simp at h⟩
  · have hnext : (size.toNat : Int) * (init ++ [chunk]).length - size.toNat =
        (size.toNat * init.length : Nat) := by
      push_cast [List.length_append, List.length_singleton]
      ring
    rw [hnext, if_neg (Int.not_lt.mpr (Int.natCast_nonneg _))]
    refine ⟨fun h => by simp at h, fun init' chunk' h => ?_⟩
    obtain ⟨rfl, -⟩ := List.append_inj' h rfl
    exact ⟨rfl, Int.toNat_natCast _⟩

omit hpos hsmall in
theorem read_atLast {chunk : Bytes} {rest : Bytes}
    (hchunks : ∀ c ∈ before ++ [chunk], c.length = size.toNat)
    (hbytes : fd.bytes = (before ++ [chunk]).flatten ++ rest)
    (hpos : fd.pos = size.toNat * before.length) :
    fd.read size = (chunk, { fd with pos := size.toNat * (before.length + 1) }) := by
  have hbefore : before.flatten.length = fd.pos := by
    rw [hpos]
    exact length_flatten_chunks fun c hc => hchunks c (List.mem_append_left _ hc)
  have hchunk : chunk.length = size.toNat := hchunks chunk (by simp)
  have hbuffer : (fd.bytes.drop fd.pos).take size.toNat = chunk := by
    rw [hbytes, List.flatten_append, List.append_assoc, ← hbefore, List.drop_left,
      List.flatten_singleton, ← hchunk, List.take_left]
  rw [read, hbuffer, hchunk, hpos, Nat.mul_add_one]

theorem readBackwardFrom_eq (fuel : Nat) (hchunks : ∀ c ∈ before, c.length = size.toNat)
    {rest : Bytes} (hbytes : fd.bytes = before.flatten ++ rest)
    (hat : AtLast size before offset fd) :
    readBackwardFrom size fuel offset fd =
      if before.length < fuel then some ((numbered size before).reverse, -1) else none := by
  induction fuel generalizing before offset fd rest with
  | zero => rfl
  | succ fuel ih =>
      rcases before.eq_nil_or_concat' with rfl | ⟨init, chunk, rfl⟩
      · rw [readBackwardFrom, hat.nil rfl]
        simp [numbered]
      · obtain ⟨hoffset, hfd⟩ := hat.concat init chunk rfl
        have hread := read_atLast hchunks hbytes hfd
        have hchunk : chunk.length = size.toNat := hchunks chunk (by simp)
        have hshift : ((size.toNat * (init.length + 1) : Nat) : Int) + (-2 * size).toInt =
            size.toNat * init.length - size.toNat := by
          rw [toInt_neg_two_sizes hpos hsmall]
          push_cast
          ring
        have hback := lseek_atLast hpos ⟨fd.bytes, size.toNat * (init.length + 1)⟩
          (-2 * size) .seekCur hshift
        have hinit : (lseek ⟨fd.bytes, size.toNat * (init.length + 1)⟩
            (-2 * size) .seekCur).2.bytes = init.flatten ++ (chunk ++ rest) := by
          rw [lseek_bytes, hbytes, List.flatten_append, List.flatten_singleton,
            List.append_assoc]
        have hrest := ih (fun c hc => hchunks c (List.mem_append_left _ hc)) hinit hback
        rw [readBackwardFrom, if_pos (by omega), hread]
        simp only [hchunk, ne_eq, not_true_eq_false, if_false]
        rw [hrest, numbered_concat, List.reverse_append, hoffset]
        by_cases hfuel : init.length < fuel <;> simp [hfuel]

/-- On a file of whole records the loop reads each of them once and then ends. -/
theorem readBackward_eq (fuel : Nat) {chunks : List Bytes}
    (hchunks : ∀ c ∈ chunks, c.length = size.toNat) :
    readBackward size fuel chunks.flatten =
      if chunks.length < fuel then some ((numbered size chunks).reverse, -1) else none := by
  have hshift : (chunks.flatten.length : Int) + (-size).toInt =
      size.toNat * chunks.length - size.toNat := by
    rw [toInt_neg_size hpos hsmall, length_flatten_chunks hchunks]
    push_cast
    ring
  have hentry := lseek_atLast hpos ⟨chunks.flatten, 0⟩ (-size) .seekEnd hshift
  have hbytes := (lseek_bytes ⟨chunks.flatten, 0⟩ (-size) .seekEnd).trans
    (List.append_nil _).symm
  rw [readBackward]
  cases hlseek : lseek ⟨chunks.flatten, 0⟩ (-size) .seekEnd with
  | mk offset fd =>
      rw [hlseek] at hentry hbytes
      exact readBackwardFrom_eq hpos hsmall fuel hchunks hbytes hentry

end Loop

end ByteFd

end BankingSystem.Foundation
