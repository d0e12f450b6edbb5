import Mathlib.Data.List.TakeWhile
import Mathlib.Data.Nat.Digits.Defs

/-!
# Bytes, C strings and formatted text

A C string is the list of its bytes up to the first NUL.  A `CharArray` is a
fixed-size array of bytes whatever it holds; an array without a NUL is read as
a string up to its end.
-/

namespace BankingSystem.Foundation

abbrev Bytes := List UInt8

def str (text : String) : Bytes := text.toList.map fun c => c.toNat.toUInt8

/-- The bytes that `strlen`, `strcmp` and `%s` see. -/
def cstr (bytes : Bytes) : Bytes := bytes.takeWhile (· ≠ 0)

theorem cstr_cstr (bytes : Bytes) : cstr (cstr bytes) = cstr bytes := by
  simp [cstr, List.takeWhile_takeWhile]

/-- `char array[size]`, whatever its contents. -/
structure CharArray (size : Nat) where
  bytes : Bytes
  size_eq : bytes.length = size
  deriving DecidableEq

namespace CharArray

variable {size : Nat}

def zero (size : Nat) : CharArray size :=
  ⟨List.replicate size 0, List.length_replicate⟩

def text (array : CharArray size) : Bytes := cstr array.bytes

theorem length_text_le (array : CharArray size) : array.text.length ≤ size :=
  Nat.le_trans (List.takeWhile_prefix _).length_le (Nat.le_of_eq array.size_eq)

/-- The prefix that `strncpy(dest, src, count)` writes: the string, then NULs. -/
def strncpyPrefix (src : Bytes) (count : Nat) : Bytes :=
  let copied := (cstr src).take count
  copied ++ List.replicate (count - copied.length) 0

theorem strncpyPrefix_length (src : Bytes) (count : Nat) :
    (strncpyPrefix src count).length = count := by
  simp [strncpyPrefix]

/-- `strncpy(dest, src, sizeof(dest) - 1)`: the last byte of `dest` is kept. -/
def strncpy (dest : CharArray size) (src : Bytes) : CharArray size where
  bytes := strncpyPrefix src (size - 1) ++ dest.bytes.drop (size - 1)
  size_eq := by
    rw [List.length_append, strncpyPrefix_length, List.length_drop, dest.size_eq]
    omega

def ofText (src : Bytes) : CharArray size := (zero size).strncpy src

/-- A string that may fill the array, then NULs. -/
def padded (src : Bytes) (h : src.length ≤ size) : CharArray size where
  bytes := src ++ List.replicate (size - src.length) 0
  size_eq := by
    rw [List.length_append, List.length_replicate]
    omega

theorem text_padded {src : Bytes} (h : src.length ≤ size) (hsrc : cstr src = src) :
    (padded src h).text = src := by
  have hall : ∀ b ∈ src, decide (b ≠ 0) = true := List.takeWhile_eq_self_iff.mp hsrc
  rw [padded, text, cstr, List.takeWhile_append_of_pos hall]
  simp

def Terminated (array : CharArray size) : Prop := array.bytes[size - 1]? = some 0

theorem terminated_zero (h : 0 < size) : (zero size).Terminated := by
  have hlast : size - 1 < size := Nat.sub_one_lt_of_lt h
  simp [Terminated, zero, hlast]

theorem drop_strncpy (array : CharArray size) (src : Bytes) :
    (array.strncpy src).bytes.drop (size - 1) = array.bytes.drop (size - 1) :=
  List.drop_left' (strncpyPrefix_length src (size - 1))

theorem Terminated.strncpy {array : CharArray size} (h : array.Terminated) (src : Bytes) :
    (array.strncpy src).Terminated := by
  have hlength := strncpyPrefix_length src (size - 1)
  rw [Terminated, CharArray.strncpy, List.getElem?_append_right (Nat.le_of_eq hlength),
    hlength, Nat.sub_self, List.getElem?_drop]
  exact h

/-- There is a NUL within the array. -/
def Ends (array : CharArray size) : Prop := 0 ∈ array.bytes

theorem zero_mem_strncpyPrefix (src : Bytes) (count : Nat) :
    0 ∈ strncpyPrefix src count ↔ (cstr src).length < count := by
  have hcopied : 0 ∉ (cstr src).take count := fun hmem => by
    simpa using List.mem_takeWhile_imp (p := fun b => decide (b ≠ 0)) (List.mem_of_mem_take hmem)
  simp only [strncpyPrefix, List.mem_append, hcopied, List.mem_replicate, List.length_take,
    false_or, and_true]
  omega

theorem zero_mem_drop_last (array : CharArray size) :
    0 ∈ array.bytes.drop (size - 1) ↔ array.Terminated := by
  have hsize := array.size_eq
  simp only [List.mem_iff_getElem?, List.getElem?_drop]
  constructor
  · rintro ⟨i, hi⟩
    obtain ⟨hlt, -⟩ := List.getElem?_eq_some_iff.mp hi
    obtain rfl : i = 0 := by omega
    exact hi
  · exact fun h => ⟨0, h⟩

/-- A short string brings its NUL; a longer one leaves it to the last byte of the array. -/
theorem ends_strncpy_iff (array : CharArray size) (src : Bytes) :
    (array.strncpy src).Ends ↔ (cstr src).length < size - 1 ∨ array.Terminated := by
  rw [Ends, strncpy, List.mem_append, zero_mem_strncpyPrefix, zero_mem_drop_last]

/-- A string of the greatest length that fits is followed by a NUL. -/
def Closes (array : CharArray size) (src : Bytes) : Prop :=
  (cstr src).length = size - 1 → array.Terminated

theorem Terminated.closes {array : CharArray size} (h : array.Terminated) (src : Bytes) :
    array.Closes src := fun _ => h

theorem ends_strncpy_iff_closes (array : CharArray size) {src : Bytes}
    (hfits : (cstr src).length ≤ size - 1) :
    (array.strncpy src).Ends ↔ array.Closes src := by
  rw [ends_strncpy_iff, Closes]
  constructor
  · intro h hlength
    exact h.resolve_left (by omega)
  · intro h
    by_cases hlength : (cstr src).length = size - 1
    · exact .inr (h hlength)
    · exact .inl (by omega)

theorem text_strncpy {array : CharArray size} (h : array.Terminated) {src : Bytes}
    (hshort : (cstr src).length < size) : (array.strncpy src).text = cstr src := by
  have hdrop : array.bytes.drop (size - 1) = [0] := by
    have hlength : (array.bytes.drop (size - 1)).length = 1 := by
      rw [List.length_drop, array.size_eq]
      omega
    obtain ⟨b, hb⟩ := List.length_eq_one_iff.mp hlength
    have hlast : (array.bytes.drop (size - 1))[0]? = some 0 := by
      rw [List.getElem?_drop]
      exact h
    rw [hb] at hlast ⊢
    simpa using hlast
  have hcopied : (cstr src).take (size - 1) = cstr src := List.take_of_length_le (by omega)
  have hall : ∀ b ∈ cstr src, decide (b ≠ 0) = true :=
    fun b hb => List.mem_takeWhile_imp (p := fun b => decide (b ≠ 0)) hb
  change cstr (strncpyPrefix src (size - 1) ++ array.bytes.drop (size - 1)) = cstr src
  simp only [strncpyPrefix, hcopied, hdrop, List.append_assoc]
  rw [cstr, List.takeWhile_append_of_pos hall]
  cases size - 1 - (cstr src).length <;> simp [List.replicate_succ]

/-! ### Copies that are read back -/

theorem cstr_text (array : CharArray size) : cstr array.text = array.text :=
  cstr_cstr array.bytes

/-- An array without a NUL is read up to its end. -/
theorem ends_iff_length_text {array : CharArray size} :
    array.Ends ↔ array.text.length < size := by
  have hfront := List.takeWhile_prefix (l := array.bytes) fun b => decide (b ≠ 0)
  constructor
  · intro hends
    have hne : array.text ≠ array.bytes := by
      intro hall
      simpa using List.takeWhile_eq_self_iff.mp hall 0 hends
    have hlt : array.text.length < array.bytes.length :=
      Nat.lt_of_le_of_ne hfront.length_le fun heq => hne (hfront.eq_of_length heq)
    rwa [array.size_eq] at hlt
  · intro hshort
    by_contra hnone
    have hall : array.text = array.bytes := by
      refine List.takeWhile_eq_self_iff.mpr fun b hb => ?_
      have hne : b ≠ 0 := fun hzero => hnone (by rwa [Ends, ← hzero])
      simpa using hne
    rw [hall, array.size_eq] at hshort
    omega

theorem text_ofText {src : Bytes} (hsrc : cstr src = src) (hshort : src.length < size) :
    (ofText src : CharArray size).text = src := by
  have hsize : 0 < size := by omega
  rw [ofText, text_strncpy (terminated_zero hsize) (by rwa [hsrc]), hsrc]

theorem cstr_take (src : Bytes) (count : Nat) :
    cstr ((cstr src).take count) = (cstr src).take count := by
  refine List.takeWhile_eq_self_iff.mpr fun b hb => ?_
  exact List.mem_takeWhile_imp (p := fun b => decide (b ≠ 0)) (List.mem_of_mem_take hb)

theorem strncpy_take (array : CharArray size) (src : Bytes) :
    array.strncpy ((cstr src).take (size - 1)) = array.strncpy src := by
  have hfront : strncpyPrefix ((cstr src).take (size - 1)) (size - 1) =
      strncpyPrefix src (size - 1) := by
    simp only [strncpyPrefix, cstr_take, List.take_take, Nat.min_self]
  simp only [strncpy, hfront]

theorem text_strncpy_of_closes {array : CharArray size} {src : Bytes} (hsize : 0 < size)
    (hshort : (cstr src).length ≤ size - 1) (h : array.Closes src) :
    (array.strncpy src).text = cstr src := by
  by_cases hfull : (cstr src).length = size - 1
  · exact text_strncpy (h hfull) (by omega)
  · obtain ⟨k, hk⟩ : ∃ k, size - 1 - (cstr src).length = k + 1 :=
      ⟨size - 2 - (cstr src).length, by omega⟩
    have hall : ∀ b ∈ cstr src, decide (b ≠ 0) = true :=
      fun b hb => List.mem_takeWhile_imp (p := fun b => decide (b ≠ 0)) hb
    have hbytes : (array.strncpy src).bytes =
        cstr src ++ 0 :: (List.replicate k 0 ++ array.bytes.drop (size - 1)) := by
      simp [strncpy, strncpyPrefix, List.take_of_length_le hshort, hk, List.replicate_succ]
    rw [text, hbytes, cstr, List.takeWhile_append_of_pos hall]
    simp

theorem text_of_short {array : CharArray size} {src : Bytes}
    (h : (array.strncpy src).text.length < size) :
    (array.strncpy src).text = (cstr src).take (size - 1) ∧
      array.Closes (array.strncpy src).text := by
  have hends := ends_iff_length_text.mpr h
  have hcloses : array.Closes ((cstr src).take (size - 1)) := by
    intro hfull
    rw [cstr_take, List.length_take] at hfull
    exact ((ends_strncpy_iff array src).mp hends).resolve_left (by omega)
  have htext := text_strncpy_of_closes (by omega)
    (by rw [cstr_take, List.length_take]; omega) hcloses
  rw [strncpy_take, cstr_take] at htext
  exact ⟨htext, by rwa [htext]⟩

end CharArray

/-! ## Formatting -/

/-- `%u` and `%llu`. -/
def dec (n : Nat) : Bytes := (Nat.toDigits 10 n).map fun c => c.toNat.toUInt8

theorem length_dec_le {n : Nat} (h : n < 2 ^ 32) : (dec n).length ≤ 10 := by
  rw [dec, List.length_map, Nat.length_toDigits_le_iff (by decide) (by decide)]
  omega

/-- `%d`. -/
def decInt : Int → Bytes
  | .ofNat n => dec n
  | .negSucc n => str "-" ++ dec (n + 1)

/-- Pad on the right with spaces to a width, as `%-11s` does. -/
def padRight (width : Nat) (text : Bytes) : Bytes :=
  text ++ List.replicate (width - text.length) 32

/-- The string left in a buffer of `size` bytes by `snprintf` of the given text. -/
def snprintf (size : Nat) (text : Bytes) : Bytes := text.take (size - 1)

def strncat (dest src : Bytes) (count : Nat) : Bytes := dest ++ src.take count

end BankingSystem.Foundation
