import Mathlib
import Galerkin.Formula.Basic

/-!
Exact numbers. In a field the operations of `Scalar` are those of the field; the elementary functions may
be read in any way that agrees with whole powers and with square roots.
-/

/-- A field with an order and a reading of the elementary functions. -/
class ExactNumbers (K : Type) extends Field K, LinearOrder K where
  sqrt : K → K
  exp : K → K
  log : K → K
  sin : K → K
  cos : K → K
  tanh : K → K
  power : K → K → K
  modulus : K → K
  direction : K → K
  realPart : K → K
  angle : K → K
  infinity : K
  power_intCast : ∀ (x : K) (n : Int), power x n = x ^ n
  power_half : ∀ x : K, power x ((mkRat 1 2 : Rat) : K) = sqrt x

/-- The real numbers, with the functions of analysis. -/
noncomputable instance : ExactNumbers ℝ where
  toField := inferInstance
  toLinearOrder := inferInstance
  sqrt := Real.sqrt
  exp := Real.exp
  log := Real.log
  sin := Real.sin
  cos := Real.cos
  tanh := Real.tanh
  power := fun x y => x ^ y
  modulus := fun x => |x|
  direction := fun x => SignType.sign x
  realPart := id
  angle := fun x => if x < 0 then Real.pi else 0
  infinity := 0
  power_intCast := fun x n => Real.rpow_intCast x n
  power_half := fun x => by
    rw [Real.sqrt_eq_rpow]
    norm_num [Rat.mkRat_eq_div]

namespace Galerkin

instance (priority := low) exactArithmetic {K : Type} [ExactNumbers K] : Arithmetic K where
  toZero := inferInstance
  toOne := inferInstance
  toAdd := inferInstance
  toSub := inferInstance
  toNeg := inferInstance
  toMul := inferInstance
  toDiv := inferInstance
  toLT := inferInstance
  toLE := inferInstance
  decLt := inferInstance
  decLe := inferInstance
  ofRat := fun r => (r : K)

instance (priority := low) exactScalar {K : Type} [ExactNumbers K] : Scalar K where
  toArithmetic := exactArithmetic
  sqrt := ExactNumbers.sqrt
  exp := ExactNumbers.exp
  log := ExactNumbers.log
  sin := ExactNumbers.sin
  cos := ExactNumbers.cos
  tanh := ExactNumbers.tanh
  pow := ExactNumbers.power
  modulus := ExactNumbers.modulus
  direction := ExactNumbers.direction
  realPart := ExactNumbers.realPart
  angle := ExactNumbers.angle
  infinity := ExactNumbers.infinity
  isFinite := fun _ => true
  toFloat := fun _ => 0.0

section Arithmetic

variable {K : Type} [ExactNumbers K]

theorem powWithin_eq_pow (x : K) (digits n : Nat) (small : n < 2 ^ digits) :
    Arithmetic.powWithin x digits n = x ^ n := by
  induction digits generalizing n with
  | zero =>
      have none : n = 0 := by omega
      subst none
      exact (pow_zero x).symm
  | succ digits ih =>
      have half : n / 2 < 2 ^ digits := by
        rw [pow_succ] at small
        omega
      rw [Arithmetic.powWithin]
      by_cases zero : n = 0
      · rw [if_pos zero, zero]
        exact (pow_zero x).symm
      · rw [if_neg zero]
        simp only [ih (n / 2) half]
        by_cases even : n % 2 = 0
        · rw [if_pos even, ← pow_add]
          congr 1
          omega
        · rw [if_neg even, ← pow_add, ← pow_succ]
          congr 1
          omega

theorem natPow_eq_pow (x : K) (n : Nat) : Arithmetic.natPow x n = x ^ n :=
  powWithin_eq_pow x _ n Nat.lt_log2_self

theorem intPow_eq_zpow (x : K) (n : Int) : Formula.intPow x n = x ^ n := by
  cases n with
  | ofNat n =>
      rw [Formula.intPow, natPow_eq_pow]
      exact (zpow_natCast x n).symm
  | negSucc n =>
      rw [Formula.intPow, natPow_eq_pow, zpow_negSucc]
      exact one_div _

theorem total_eq_sum (xs : List K) : Arithmetic.total xs = xs.sum := by
  rw [Arithmetic.total, List.sum_eq_foldl]

theorem half_real : (Arithmetic.half : ℝ) = 1 / 2 := by
  change ((mkRat 1 2 : ℚ) : ℝ) = _
  norm_num [Rat.mkRat_eq_div]

theorem isZero_iff (x : ℝ) : Arithmetic.isZero x = true ↔ x = 0 := by
  rw [Arithmetic.isZero, Bool.and_eq_true, decide_eq_true_eq, decide_eq_true_eq]
  exact le_antisymm_iff.symm

end Arithmetic

end Galerkin
