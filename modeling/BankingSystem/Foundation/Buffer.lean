import BankingSystem.Foundation.CString

/-!
# Text collected in a buffer

A buffer of a fixed size is cleared, printed to and appended to.  The room that is left
is computed in `size_t`, where a subtraction below zero gives a huge number.
-/

namespace BankingSystem.Foundation

/-- Subtraction of two values of `size_t`. -/
def sizeSub (a b : Nat) : Nat := (a + 2 ^ 64 - b) % 2 ^ 64

theorem sizeSub_of_le {a b : Nat} (ha : a < 2 ^ 64) (h : b ≤ a) : sizeSub a b = a - b := by
  rw [sizeSub]
  omega

theorem take_append_cut (n : Nat) (first second : Bytes) :
    (first.take n ++ second).take n = (first ++ second).take n := by
  rw [List.take_append, List.take_take, Nat.min_self, List.length_take, List.take_append]
  congr 2
  omega

inductive BufferOp where
  /-- `buffer[0] = '\0'` -/
  | clear
  /-- `snprintf(buffer, size, ...)` -/
  | print (text : Bytes)
  /-- `strncat(buffer, text, size - 1)` -/
  | append (text : Bytes)
  /-- `strncat(buffer, text, size - strlen(buffer) - 1)` -/
  | appendRest (text : Bytes)

namespace BufferOp

def apply (size : Nat) (buffer : Bytes) : BufferOp → Bytes
  | clear => []
  | print text => snprintf size text
  | append text => strncat buffer text (sizeSub size 1)
  | appendRest text => strncat buffer text (sizeSub (sizeSub size buffer.length) 1)

def run (size : Nat) (buffer : Bytes) (ops : List BufferOp) : Bytes :=
  ops.foldl (apply size) buffer

/-- The room that is computed does not wrap, and the string ends within the buffer. -/
structure Safe (size : Nat) (buffer : Bytes) (op : BufferOp) : Prop where
  noWrap : ∀ text, op = appendRest text → buffer.length + 1 ≤ size
  fits : (op.apply size buffer).length ≤ size - 1

/-- Each operation is safe where it is reached. -/
def AllSafe (size : Nat) : Bytes → List BufferOp → Prop
  | _, [] => True
  | buffer, op :: ops => op.Safe size buffer ∧ AllSafe size (op.apply size buffer) ops

variable {size : Nat} {buffer : Bytes} {first ops : List BufferOp}

@[simp] theorem run_nil : run size buffer [] = buffer := rfl

@[simp] theorem run_cons (op : BufferOp) :
    run size buffer (op :: ops) = run size (op.apply size buffer) ops := rfl

theorem run_append : run size buffer (first ++ ops) = run size (run size buffer first) ops :=
  List.foldl_append ..

theorem allSafe_append :
    AllSafe size buffer (first ++ ops) ↔
      AllSafe size buffer first ∧ AllSafe size (run size buffer first) ops := by
  induction first generalizing buffer with
  | nil => simp [AllSafe]
  | cons op first ih => simp [AllSafe, ih, and_assoc]

theorem AllSafe.at {op : BufferOp} {rest : List BufferOp}
    (h : AllSafe size buffer (first ++ op :: rest)) : op.Safe size (run size buffer first) :=
  (allSafe_append.mp h).2.1

theorem length_run_le (h : AllSafe size buffer ops) (hbuffer : buffer.length ≤ size - 1) :
    (run size buffer ops).length ≤ size - 1 := by
  induction ops generalizing buffer with
  | nil => exact hbuffer
  | cons op ops ih => exact ih h.2 h.1.fits

theorem safe_clear (buffer : Bytes) : clear.Safe size buffer where
  noWrap := by simp
  fits := Nat.zero_le _

theorem safe_print (buffer text : Bytes) : (print text).Safe size buffer where
  noWrap := by simp
  fits := by simp [apply, snprintf]

variable (hpos : 0 < size) (hsize : size < 2 ^ 64)

include hpos hsize

theorem apply_append (text : Bytes) :
    (append text).apply size buffer = buffer ++ text.take (size - 1) := by
  rw [apply, sizeSub_of_le hsize hpos, strncat]

theorem safe_append {text : Bytes} (h : buffer.length + text.length ≤ size - 1) :
    (append text).Safe size buffer := by
  refine ⟨by simp, ?_⟩
  rw [apply_append hpos hsize, List.length_append, List.length_take]
  omega

theorem run_appends (texts : List Bytes)
    (h : buffer.length + texts.flatten.length ≤ size - 1) :
    AllSafe size buffer (texts.map append) ∧
      run size buffer (texts.map append) = buffer ++ texts.flatten := by
  induction texts generalizing buffer with
  | nil => simp [AllSafe]
  | cons text texts ih =>
      rw [List.flatten_cons, List.length_append] at h
      have happly : (append text).apply size buffer = buffer ++ text := by
        rw [apply_append hpos hsize, List.take_of_length_le (by omega)]
      have hrest : (buffer ++ text).length + texts.flatten.length ≤ size - 1 := by
        rw [List.length_append]
        omega
      obtain ⟨hall, hrun⟩ := ih hrest
      refine ⟨⟨safe_append hpos hsize (by omega), by rwa [happly]⟩, ?_⟩
      rw [List.map_cons, run_cons, happly, hrun, List.flatten_cons, List.append_assoc]

theorem apply_appendRest (text : Bytes) (h : buffer.length ≤ size - 1) :
    (appendRest text).apply size buffer = (buffer ++ text).take (size - 1) := by
  have hroom : sizeSub (sizeSub size buffer.length) 1 = size - 1 - buffer.length := by
    rw [sizeSub_of_le hsize (by omega), sizeSub_of_le (by omega) (by omega)]
    omega
  rw [apply, hroom, strncat, List.take_append, List.take_of_length_le h]

theorem safe_appendRest (text : Bytes) (h : buffer.length ≤ size - 1) :
    (appendRest text).Safe size buffer := by
  refine ⟨fun _ _ => by omega, ?_⟩
  rw [apply_appendRest hpos hsize text h, List.length_take]
  omega

/-- A loop that appends one text after the other cuts their sequence to the buffer. -/
theorem run_appendRests (texts : List Bytes) (h : buffer.length ≤ size - 1) :
    AllSafe size buffer (texts.map appendRest) ∧
      run size buffer (texts.map appendRest) = (buffer ++ texts.flatten).take (size - 1) := by
  induction texts generalizing buffer with
  | nil => simp [AllSafe, List.take_of_length_le h]
  | cons text texts ih =>
      have hsafe := safe_appendRest hpos hsize text h
      obtain ⟨hall, hrun⟩ := ih hsafe.fits
      refine ⟨⟨hsafe, hall⟩, ?_⟩
      rw [List.map_cons, run_cons, hrun, apply_appendRest hpos hsize text h, List.flatten_cons,
        ← List.append_assoc]
      exact take_append_cut ..

end BufferOp

end BankingSystem.Foundation
