import BankingSystem.Foundation.Amount
import Mathlib.Data.List.Basic

/-!
# `sscanf`

The conversions that the program uses.  Each one skips white space first, so the
blanks of a format are not needed, and a format is the list of its conversions.
`sscanf` delivers the values up to the first conversion that fails; its result
in C is their number.
-/

namespace BankingSystem.Foundation

def isSpace (b : UInt8) : Bool := b = 32 || (9 ≤ b && b ≤ 13)

def isDigit (b : UInt8) : Bool := 48 ≤ b && b ≤ 57

def skipSpace (text : Bytes) : Bytes := text.dropWhile isSpace

def natOfDigits (digits : Bytes) : Nat :=
  digits.foldl (fun n digit => 10 * n + (digit.toNat - 48)) 0

def scanSign : Bytes → Bool × Bytes
  | 43 :: text => (false, text)
  | 45 :: text => (true, text)
  | text => (false, text)

/-- An integer, whether it is negative, its magnitude, and what follows it. -/
def scanInteger (text : Bytes) : Option (Bool × Nat × Bytes) :=
  let (negative, text) := scanSign (skipSpace text)
  let digits := text.takeWhile isDigit
  if digits = [] then none
  else some (negative, natOfDigits digits, text.dropWhile isDigit)

/-- `strtoul` with 64 bits. -/
def unsignedLong (negative : Bool) (n : Nat) : Nat :=
  if 2 ^ 64 ≤ n then 2 ^ 64 - 1 else if negative then (2 ^ 64 - n) % 2 ^ 64 else n

/-- `strtol` with 64 bits. -/
def signedLong (negative : Bool) (n : Nat) : Int :=
  if negative then max (-n : Int) (-2 ^ 63) else min (n : Int) (2 ^ 63 - 1)

/-- `strtod`: the number at the start of a text and what follows it. -/
class Strtod (M : Type) where
  strtod : Bytes → Option (M × Bytes)

/-- The decimal notation without an exponent. -/
def decimalStrtod (text : Bytes) : Option (ℚ × Bytes) :=
  let (negative, text) := scanSign text
  let whole := text.takeWhile isDigit
  let rest := text.dropWhile isDigit
  let fraction := match rest with
    | 46 :: rest => rest.takeWhile isDigit
    | _ => []
  if whole = [] ∧ fraction = [] then none
  else
    let value : ℚ := natOfDigits (whole ++ fraction) / 10 ^ fraction.length
    let rest := match rest with
      | 46 :: rest => rest.dropWhile isDigit
      | rest => rest
    some (if negative then -value else value, rest)

instance : Strtod ℚ := ⟨decimalStrtod⟩

/-- `%u`, `%d`, `%llu`, `%s` and `%lf`. -/
inductive Conv where
  | u
  | d
  | llu
  | s
  | lf
  deriving DecidableEq

inductive Scanned (M : Type) where
  | unsigned (n : Nat)
  | signed (n : Int)
  | text (bytes : Bytes)
  | double (x : M)

variable {M : Type}

def Conv.scan [Strtod M] (conv : Conv) (text : Bytes) : Option (Scanned M × Bytes) :=
  match conv with
  | .u => (scanInteger text).map fun (negative, n, rest) =>
      (.unsigned (unsignedLong negative n % 2 ^ 32), rest)
  | .d => (scanInteger text).map fun (negative, n, rest) =>
      (.signed ((signedLong negative n).bmod (2 ^ 32)), rest)
  | .llu => (scanInteger text).map fun (negative, n, rest) =>
      (.unsigned (unsignedLong negative n), rest)
  | .s =>
      let text := skipSpace text
      let token := text.takeWhile fun b => ¬isSpace b
      if token = [] then none
      else some (.text token, text.dropWhile fun b => ¬isSpace b)
  | .lf => (Strtod.strtod (skipSpace text)).map fun (x, rest) => (.double x, rest)

def sscanf [Strtod M] : List Conv → Bytes → List (Scanned M)
  | [], _ => []
  | conv :: format, text =>
      match conv.scan text with
      | some (value, rest) => value :: sscanf format rest
      | none => []

namespace Scanned

/-! The value of the `n`-th variable, which is unchanged where nothing was assigned. -/

def unsignedAt (values : List (Scanned M)) (n : Nat) (before : Nat) : Nat :=
  match values[n]? with
  | some (.unsigned value) => value
  | _ => before

def signedAt (values : List (Scanned M)) (n : Nat) (before : Int) : Int :=
  match values[n]? with
  | some (.signed value) => value
  | _ => before

def textAt (values : List (Scanned M)) (n : Nat) (before : Bytes) : Bytes :=
  match values[n]? with
  | some (.text value) => value
  | _ => before

def doubleAt (values : List (Scanned M)) (n : Nat) (before : M) : M :=
  match values[n]? with
  | some (.double value) => value
  | _ => before

end Scanned

/-! ## Reading a printed number back -/

theorem isDigit_of_mem_dec {n : Nat} {b : UInt8} (h : b ∈ dec n) : isDigit b = true := by
  obtain ⟨c, hc, rfl⟩ := List.mem_map.mp h
  have hdigit := Nat.isDigit_of_mem_toDigits (by decide) (by decide) hc
  simp only [Char.isDigit, Bool.and_eq_true, decide_eq_true_eq] at hdigit
  have hlow : 48 ≤ c.toNat := hdigit.1
  have hhigh : c.toNat ≤ 57 := hdigit.2
  simp only [isDigit, Bool.and_eq_true, decide_eq_true_eq, UInt8.le_iff_toNat_le]
  simp
  omega

theorem dec_ne_nil (n : Nat) : dec n ≠ [] := by
  simp [dec, Nat.toDigits_ne_nil]

theorem natOfDigits_dec (n : Nat) : natOfDigits (dec n) = n := by
  have hdigits : ∀ m, ∀ c ∈ Nat.toDigits 10 n,
      10 * m + (c.toNat.toUInt8.toNat - 48) = 10 * m + (c.toNat - '0'.toNat) := by
    intro m c hc
    have hdigit := Nat.isDigit_of_mem_toDigits (by decide) (by decide) hc
    simp only [Char.isDigit, Bool.and_eq_true, decide_eq_true_eq] at hdigit
    have hhigh : c.toNat ≤ 57 := hdigit.2
    simp
    omega
  calc natOfDigits (dec n)
      = (Nat.toDigits 10 n).foldl (fun m c => 10 * m + (c.toNat.toUInt8.toNat - 48)) 0 := by
        rw [natOfDigits, dec, List.foldl_map]
    _ = Nat.ofDigitChars 10 (Nat.toDigits 10 n) 0 := by
        rw [Nat.ofDigitChars_eq_foldl]
        exact List.foldl_ext _ _ _ hdigits
    _ = n := Nat.ofDigitChars_ten_toDigits

theorem skipSpace_of_isDigit {b : UInt8} (h : isDigit b = true) (text : Bytes) :
    skipSpace (b :: text) = b :: text := by
  have hspace : isSpace b = false := by
    simp only [isDigit, Bool.and_eq_true, decide_eq_true_eq, UInt8.le_iff_toNat_le] at h
    simp only [isSpace, Bool.or_eq_false_iff, Bool.and_eq_false_iff, decide_eq_false_iff_not,
      UInt8.le_iff_toNat_le, ← UInt8.toNat_inj]
    simp at h ⊢
    omega
  simp [skipSpace, hspace]

theorem scanSign_of_isDigit {b : UInt8} (h : isDigit b = true) (text : Bytes) :
    scanSign (b :: text) = (false, b :: text) := by
  unfold scanSign
  split
  · next text heq =>
      cases heq
      exact absurd h (by decide)
  · next text heq =>
      cases heq
      exact absurd h (by decide)
  · rfl

theorem scanInteger_dec (n : Nat) {rest : Bytes} (hrest : ∀ b ∈ rest.head?, isDigit b = false) :
    scanInteger (dec n ++ rest) = some (false, n, rest) := by
  obtain ⟨b, digits, hdec⟩ := List.exists_cons_of_ne_nil (dec_ne_nil n)
  have hdigit : isDigit b = true := isDigit_of_mem_dec (n := n) (by simp [hdec])
  have hall : ∀ b ∈ dec n, isDigit b = true := fun b hb => isDigit_of_mem_dec hb
  have htake : (dec n ++ rest).takeWhile isDigit = dec n := by
    rw [List.takeWhile_append_of_pos hall]
    cases rest with
    | nil => simp
    | cons c rest => simp [hrest c rfl]
  have hdrop : (dec n ++ rest).dropWhile isDigit = rest := by
    rw [List.dropWhile_append_of_pos hall]
    cases rest with
    | nil => simp
    | cons c rest => simp [hrest c rfl]
  have hstart : scanSign (skipSpace (dec n ++ rest)) = (false, dec n ++ rest) := by
    rw [hdec, List.cons_append, skipSpace_of_isDigit hdigit, scanSign_of_isDigit hdigit]
  rw [scanInteger, hstart]
  simp only [htake, hdrop, dec_ne_nil, if_false, natOfDigits_dec]

/-! ## The words of a text -/

def words (text : Bytes) : List Bytes := (text.splitOnP isSpace).filter (· ≠ [])

/-- What a number conversion leaves of a word, if the word starts with a number. -/
def numberEnd (word : Bytes) : Option Bytes :=
  let digits := (scanSign word).2
  if digits.takeWhile isDigit = [] then none else some (digits.dropWhile isDigit)

private theorem words_skipSpace (text : Bytes) : words (skipSpace text) = words text := by
  induction text with
  | nil => rfl
  | cons b text ih =>
      by_cases hspace : isSpace b = true
      · rw [skipSpace, List.dropWhile_cons_of_pos hspace, ← skipSpace, ih]
        simp [words, List.splitOnP_cons_eq_if_modifyHead, hspace]
      · rw [skipSpace, List.dropWhile_cons_of_neg hspace]

private theorem words_append {word tail : Bytes} (hword : ∀ b ∈ word, isSpace b = false)
    (htail : ∀ b ∈ tail.head?, isSpace b = true) :
    words (word ++ tail) = if word = [] then words tail else word :: words tail := by
  cases tail with
  | nil =>
      rw [List.append_nil, words, List.splitOnP_eq_singleton hword]
      by_cases hnil : word = [] <;> simp [hnil, words]
  | cons b tail =>
      have hspace := htail b rfl
      have hskip : words (b :: tail) = words tail := by
        simp [words, List.splitOnP_cons_eq_if_modifyHead, hspace]
      rw [hskip, words, List.splitOnP_append_cons_of_forall_mem hword b hspace]
      by_cases hnil : word = [] <;> simp [hnil, words]

private theorem exists_first_word (text : Bytes) : ∃ word tail, skipSpace text = word ++ tail ∧
    (∀ b ∈ word, isSpace b = false) ∧ (∀ b ∈ tail.head?, isSpace b = true) ∧
    (skipSpace text).takeWhile (fun b => ¬isSpace b) = word ∧
    (skipSpace text).dropWhile (fun b => ¬isSpace b) = tail ∧
    (word = [] → tail = []) := by
  refine ⟨_, _, (List.takeWhile_append_dropWhile ..).symm, ?_, ?_, rfl, rfl, ?_⟩
  · intro b hb
    simpa using List.mem_takeWhile_imp hb
  · intro b hb
    have hstop := List.head?_dropWhile_not (fun b => decide (¬isSpace b = true)) (skipSpace text)
    simp only [Option.mem_def] at hb
    rw [hb] at hstop
    simpa using hstop
  · intro hnil
    cases hskip : skipSpace text with
    | nil => rfl
    | cons b rest =>
        have hstart := List.head?_dropWhile_not isSpace text
        rw [← skipSpace, hskip] at hstart
        rw [hskip, List.takeWhile_cons_of_pos (by simpa using hstart)] at hnil
        cases hnil

theorem scan_s_words {M : Type} [Strtod M] (text : Bytes) :
    words text = [] ∧ Conv.s.scan (M := M) text = none ∨
    ∃ word rest, words text = word :: words rest ∧
      Conv.s.scan (M := M) text = some (.text word, rest) := by
  obtain ⟨word, tail, hskip, hword, htail, htake, hdrop, hnil⟩ := exists_first_word text
  have hwords : words text = if word = [] then words tail else word :: words tail := by
    rw [← words_skipSpace, hskip, words_append hword htail]
  by_cases hempty : word = []
  · refine .inl ⟨?_, ?_⟩
    · rw [hwords, if_pos hempty, hnil hempty]
      rfl
    · simp only [Conv.scan, htake, hempty, if_true]
  · refine .inr ⟨word, tail, by rw [hwords, if_neg hempty], ?_⟩
    simp only [Conv.scan, htake, hdrop, hempty, if_false]

private theorem scanSign_cons (b : UInt8) (text : Bytes) : scanSign (b :: text) =
    if b = 43 then (false, text) else if b = 45 then (true, text) else (false, b :: text) := by
  by_cases hplus : b = 43
  · subst hplus
    rfl
  · by_cases hminus : b = 45
    · subst hminus
      rfl
    · rw [if_neg hplus, if_neg hminus]
      unfold scanSign
      split
      · next heq =>
          cases heq
          exact absurd rfl hplus
      · next heq =>
          cases heq
          exact absurd rfl hminus
      · rfl

private theorem scanSign_append {word : Bytes} (h : word ≠ []) (tail : Bytes) :
    scanSign (word ++ tail) = ((scanSign word).1, (scanSign word).2 ++ tail) := by
  obtain ⟨b, rest, rfl⟩ := List.exists_cons_of_ne_nil h
  rw [List.cons_append, scanSign_cons, scanSign_cons]
  split_ifs <;> rfl

private theorem mem_of_mem_scanSign {word : Bytes} {b : UInt8} (h : b ∈ (scanSign word).2) :
    b ∈ word := by
  cases word with
  | nil => cases h
  | cons c rest =>
      rw [scanSign_cons] at h
      split_ifs at h
      · exact List.mem_cons_of_mem c h
      · exact List.mem_cons_of_mem c h
      · exact h

theorem not_isDigit_of_isSpace {b : UInt8} (h : isSpace b = true) : isDigit b = false := by
  cases hdigit : isDigit b with
  | false => rfl
  | true =>
      have hskip := skipSpace_of_isDigit hdigit []
      simp [skipSpace, h] at hskip

private theorem digits_append (word : Bytes) {tail : Bytes}
    (h : ∀ b ∈ tail.head?, isDigit b = false) :
    (word ++ tail).takeWhile isDigit = word.takeWhile isDigit ∧
      (word ++ tail).dropWhile isDigit = word.dropWhile isDigit ++ tail := by
  induction word with
  | nil =>
      cases tail with
      | nil => exact ⟨rfl, rfl⟩
      | cons b tail => simp [h b rfl]
  | cons b word ih =>
      cases hdigit : isDigit b with
      | true => simp [hdigit, ih.1, ih.2]
      | false => simp [hdigit]

theorem scanInteger_words (text : Bytes) :
    scanInteger text = none ∧ (∀ word ∈ (words text).head?, numberEnd word = none) ∨
    ∃ word left rest negative n others, words text = word :: others ∧
      numberEnd word = some left ∧ scanInteger text = some (negative, n, rest) ∧
      words rest = if left = [] then others else left :: others := by
  obtain ⟨word, tail, hskip, hword, htail, -, -, hnil⟩ := exists_first_word text
  have hwords : words text = if word = [] then words tail else word :: words tail := by
    rw [← words_skipSpace, hskip, words_append hword htail]
  by_cases hempty : word = []
  · refine .inl ⟨?_, ?_⟩
    · rw [scanInteger, hskip, hempty, hnil hempty]
      rfl
    · rw [hwords, if_pos hempty, hnil hempty]
      nofun
  · rw [if_neg hempty] at hwords
    have hdigit : ∀ b ∈ tail.head?, isDigit b = false :=
      fun b hb => not_isDigit_of_isSpace (htail b hb)
    obtain ⟨htake, hdrop⟩ := digits_append (scanSign word).2 hdigit
    have hscan : scanInteger text = if (scanSign word).2.takeWhile isDigit = [] then none
        else some ((scanSign word).1, natOfDigits ((scanSign word).2.takeWhile isDigit),
          (scanSign word).2.dropWhile isDigit ++ tail) := by
      simp only [scanInteger, hskip, scanSign_append hempty, htake, hdrop]
    by_cases hdigits : (scanSign word).2.takeWhile isDigit = []
    · refine .inl ⟨hscan.trans (if_pos hdigits), ?_⟩
      rw [hwords]
      rintro _ ⟨⟩
      simp [numberEnd, hdigits]
    · have hleft : ∀ b ∈ (scanSign word).2.dropWhile isDigit, isSpace b = false :=
        fun b hb => hword b (mem_of_mem_scanSign ((List.dropWhile_suffix _).subset hb))
      exact .inr ⟨word, _, _, _, _, words tail, hwords, if_neg hdigits,
        hscan.trans (if_neg hdigits), words_append hleft htail⟩

end BankingSystem.Foundation
