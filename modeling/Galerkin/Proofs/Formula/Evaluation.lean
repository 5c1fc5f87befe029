import Mathlib
import Galerkin.Expansion
import Galerkin.Proofs.Exact

/-!
Values of formulas in exact arithmetic, one rule for each way to build a formula. Number literals keep
their value: a double has at most 53 binary digits, fewer than a coefficient holds.
-/

namespace Galerkin

/-! ### Literals -/

theorem bitLength_le {n bits : Nat} (small : n < 2 ^ bits) : Precise.bitLength n ≤ bits := by
  unfold Precise.bitLength
  split
  · omega
  · next positive => exact (Nat.log2_lt positive).mpr small

theorem natAbs_shiftRight_le (i : Int) (n : Nat) : (i >>> n).natAbs ≤ i.natAbs := by
  rw [Int.shiftRight_eq_div_pow]
  exact Int.natAbs_ediv_le_natAbs i _

/-- A number with few binary digits is not changed by rounding to more. -/
theorem round_ofIntWithPrec {i prec : Int} {bits : Nat} (small : i.natAbs < 2 ^ bits) :
    Precise.round bits (.ofIntWithPrec i prec) = .ofIntWithPrec i prec := by
  unfold Dyadic.ofIntWithPrec
  split
  · rfl
  · have odd : (i >>> i.trailingZeros).natAbs < 2 ^ bits :=
      lt_of_le_of_lt (natAbs_shiftRight_le i _) small
    simp only [Precise.round, if_pos (bitLength_le odd)]

theorem mantissa_lt_of_ofFloat? {x : Float} {b : Decimal.Binary}
    (found : Decimal.Binary.ofFloat? x = some b) : b.mantissa < 2 ^ 53 := by
  have fraction : x.toBits.toNat % Decimal.fractionBits < 2 ^ 52 := Nat.mod_lt _ (by decide)
  have width : Decimal.fractionBits = 2 ^ 52 := rfl
  simp only [Decimal.Binary.ofFloat?] at found
  split at found
  · cases found
  · split at found
    · cases found
      show x.toBits.toNat % Decimal.fractionBits < 2 ^ 53
      omega
    · cases found
      show x.toBits.toNat % Decimal.fractionBits + Decimal.fractionBits < 2 ^ 53
      omega

theorem round_ofFloat? {x : Float} {d : Dyadic} (found : Precise.ofFloat? x = some d) :
    Precise.round Coeff.digits d = d := by
  obtain ⟨b, read, rfl⟩ := Option.map_eq_some_iff.mp found
  have small := mantissa_lt_of_ofFloat? read
  apply round_ofIntWithPrec
  have wide : (2 : Nat) ^ 53 < 2 ^ Coeff.digits := by decide
  split <;> omega

section Values

variable {K : Type} [ExactNumbers K]

/-- The value of a number literal. -/
def Number.value (n : Number) : K :=
  match n with
  | .int n => n
  | .bool b => if b then 1 else 0
  | .real x =>
    match Precise.ofFloat? x with
    | some d => (d.toRat : K)
    | none =>
      if x.isNaN then 0 / 0
      else if x < 0.0 then -Scalar.infinity
      else Scalar.infinity

/-- The value of a function that a form may apply. -/
def Function.value : Function → K → K
  | .sqrt => Scalar.sqrt
  | .exp => Scalar.exp
  | .log => Scalar.log
  | .sin => Scalar.sin
  | .cos => Scalar.cos
  | .tanh => Scalar.tanh
  | .abs => Scalar.modulus

namespace Formula

variable {ν : Type} (v : ν → K)

@[simp] theorem eval_add (a b : Formula ν) : (add a b).eval v = a.eval v + b.eval v := rfl

@[simp] theorem eval_mul (a b : Formula ν) : (mul a b).eval v = a.eval v * b.eval v := rfl

@[simp] theorem eval_var (q : ν) : (var q).eval v = v q := rfl

@[simp] theorem eval_ofRat (r : Rat) : (ofRat r : Formula ν).eval v = (r : K) := rfl

@[simp] theorem eval_zero : (zero : Formula ν).eval v = 0 := Rat.cast_zero

@[simp] theorem eval_one : (one : Formula ν).eval v = 1 := Rat.cast_one

theorem eval_of_integer {c : Coeff} {n : Int} (whole : c.integer? = some n) :
    (c.eval : K) = n := by
  cases c with
  | exact r =>
      simp only [Coeff.integer?, Coeff.rational?, Option.bind_some] at whole
      split at whole
      · next single =>
          cases whole
          have same : (r.num : Rat) = r := by
            rw [← Rat.num_div_den r, single]
            simp
          show (r : K) = (r.num : K)
          rw [← same]
          exact Rat.cast_intCast _
      · cases whole
  | decimal d => cases whole
  | infinite negative => cases whole
  | unsigned => cases whole
  | undefined => cases whole

/-- A power has the value of the power function, also where the exponent is whole. -/
@[simp] theorem eval_pow (a b : Formula ν) :
    (pow a b).eval v = Scalar.pow (a.eval v) (b.eval v) := by
  cases b with
  | const c =>
      simp only [eval]
      cases whole : c.integer? with
      | none => rfl
      | some n =>
          have value : (c.eval : K) = n := eval_of_integer whole
          rw [value]
          exact (intPow_eq_zpow _ n).trans (ExactNumbers.power_intCast _ n).symm
  | var q => rfl
  | add x y => rfl
  | mul x y => rfl
  | pow x y => rfl
  | app f x => rfl

@[simp] theorem eval_inverse (a : Formula ν) : (inverse a).eval v = (a.eval v)⁻¹ := by
  have whole := ExactNumbers.power_intCast (a.eval v) (-1)
  rw [zpow_neg_one] at whole
  rw [inverse, eval_pow, ← whole]
  simp [Scalar.pow]

theorem eval_ofNumber (n : Number) : (ofNumber n : Formula ν).eval v = n.value := by
  cases n with
  | int n => exact Rat.cast_intCast n
  | bool b => cases b <;> simp [ofNumber, Number.value]
  | real x =>
      simp only [ofNumber, Number.value]
      cases read : Precise.ofFloat? x with
      | some d =>
          by_cases whole : d.toRat.den = 1 && d.toRat.num.natAbs < Nat.pow 2 53
          · simp only [whole, ↓reduceIte, eval_ofRat]
          · simp only [whole, Coeff.ofDyadic, round_ofFloat? read]
            simp only [Bool.false_eq_true, ↓reduceIte, eval]
            by_cases zero : d = Dyadic.zero
            · rw [if_pos zero, zero]
              rfl
            · rw [if_neg zero]
              rfl
      | none =>
          simp only [eval]
          by_cases nan : x.isNaN = true
          · rw [if_pos nan, if_pos nan]
            rfl
          · rw [if_neg nan, if_neg nan, Coeff.eval]
            simp only [decide_eq_true_eq]

end Formula

theorem Expansion.eval_function (f : Function) (x : Expansion.Scalars) (v : Quantity → K) :
    (Expansion.function f x).eval v = f.value (x.eval v) := by
  cases f with
  | sqrt =>
      rw [Expansion.function, Formula.eval_pow]
      exact ExactNumbers.power_half _
  | exp => rfl
  | log => rfl
  | sin => rfl
  | cos => rfl
  | tanh => rfl
  | abs => rfl

end Values

end Galerkin
