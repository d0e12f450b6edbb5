import BankingSystem.Foundation.CString
import Mathlib.Algebra.Order.Ring.Rat

/-!
# Numbers that a C `double` may stand for

Programs compute with an abstract amount: comparisons, sums and differences,
and the text of `%.2lf`.  The exact numbers are the rationals.  `Double` adds
the special values of IEEE arithmetic, with finite arithmetic still exact: every
comparison with `nan` is false.
-/

namespace BankingSystem.Foundation

class Amount (M : Type) extends Zero M, Add M, Sub M, LE M, LT M where
  decLe : DecidableLE M
  decLt : DecidableLT M
  fixed2 : M → Bytes

attribute [reducible, instance] Amount.decLe Amount.decLt

/-- A nonnegative fraction rounded to hundredths, ties to even. -/
def hundredths (num den : Nat) : Nat :=
  let quotient := num * 100 / den
  let remainder := num * 100 % den
  if den < 2 * remainder ∨ (den = 2 * remainder ∧ quotient % 2 = 1)
  then quotient + 1 else quotient

def fixed2Rat (q : ℚ) : Bytes :=
  let n := hundredths q.num.natAbs q.den
  (if q < 0 then str "-" else []) ++ dec (n / 100) ++ str "." ++
    dec (n % 100 / 10) ++ dec (n % 10)

instance : Amount ℚ where
  decLe := inferInstance
  decLt := inferInstance
  fixed2 := fixed2Rat

inductive Double where
  | fin (value : ℚ)
  | posInf
  | negInf
  | nan
  deriving DecidableEq

namespace Double

def IsFinite : Double → Prop
  | .fin _ => True
  | _ => False

instance : DecidablePred IsFinite
  | .fin _ => .isTrue trivial
  | .posInf => .isFalse id
  | .negInf => .isFalse id
  | .nan => .isFalse id

def add : Double → Double → Double
  | .fin x, .fin y => .fin (x + y)
  | .nan, _ | _, .nan => .nan
  | .posInf, .negInf | .negInf, .posInf => .nan
  | .posInf, _ | _, .posInf => .posInf
  | .negInf, _ | _, .negInf => .negInf

def neg : Double → Double
  | .fin x => .fin (-x)
  | .posInf => .negInf
  | .negInf => .posInf
  | .nan => .nan

def le : Double → Double → Bool
  | .nan, _ | _, .nan => false
  | .fin x, .fin y => x ≤ y
  | .negInf, _ | _, .posInf => true
  | _, _ => false

def lt : Double → Double → Bool
  | .nan, _ | _, .nan => false
  | .fin x, .fin y => x < y
  | .negInf, .negInf | .posInf, .posInf => false
  | .negInf, _ | _, .posInf => true
  | _, _ => false

def fixed2 : Double → Bytes
  | .fin x => fixed2Rat x
  | .posInf => str "inf"
  | .negInf => str "-inf"
  | .nan => str "nan"

instance : Amount Double where
  zero := .fin 0
  add := add
  sub x y := add x (neg y)
  le x y := le x y = true
  lt x y := lt x y = true
  decLe _ _ := inferInstanceAs (Decidable (_ = true))
  decLt _ _ := inferInstanceAs (Decidable (_ = true))
  fixed2 := fixed2

theorem zero_def : (0 : Double) = .fin 0 := rfl

@[simp] theorem fin_add_fin (x y : ℚ) :
    (Double.fin x + Double.fin y : Double) = .fin (x + y) := rfl

@[simp] theorem fin_sub_fin (x y : ℚ) :
    (Double.fin x - Double.fin y : Double) = .fin (x - y) := by
  change Double.fin (x + -y) = _
  rw [sub_eq_add_neg]

@[simp] theorem fin_le_fin (x y : ℚ) : Double.fin x ≤ Double.fin y ↔ x ≤ y := by
  change decide (x ≤ y) = true ↔ _
  simp

@[simp] theorem fin_lt_fin (x y : ℚ) : Double.fin x < Double.fin y ↔ x < y := by
  change decide (x < y) = true ↔ _
  simp

@[simp] theorem isFinite_fin (x : ℚ) : (Double.fin x).IsFinite := trivial

@[simp] theorem not_isFinite_posInf : ¬ Double.posInf.IsFinite := id

@[simp] theorem not_isFinite_negInf : ¬ Double.negInf.IsFinite := id

@[simp] theorem not_isFinite_nan : ¬ Double.nan.IsFinite := id

end Double

end BankingSystem.Foundation
