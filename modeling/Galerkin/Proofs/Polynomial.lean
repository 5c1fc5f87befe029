import Mathlib
import Galerkin.Polynomial
import Galerkin.Proofs.Exact

/-!
Values of polynomials at real points, and the polynomial that a monomial becomes when polynomials take the places of its
variables. The derivative of a polynomial along an axis, taken monomial by monomial, is the derivative of its values.
-/

namespace Galerkin

/-- A point with rational coordinates among those with real ones. -/
noncomputable def realPoint (x : List ℚ) : List ℝ := x.map fun c : ℚ => (c : ℝ)

namespace Monomial

theorem powWithin_cast (x : ℚ) (digits n : Nat) :
    ((Arithmetic.powWithin x digits n : ℚ) : ℝ) = Arithmetic.powWithin (x : ℝ) digits n := by
  induction digits generalizing n with
  | zero => exact Rat.cast_one
  | succ digits ih =>
      rw [Arithmetic.powWithin, Arithmetic.powWithin]
      dsimp only
      split
      · exact Rat.cast_one
      · split
        · rw [← ih]
          exact Rat.cast_mul _ _
        · rw [← ih]
          refine (Rat.cast_mul _ _).trans (congrArg (· * (x : ℝ)) ?_)
          exact Rat.cast_mul _ _

theorem powers_cast (exponents : List Nat) (x : List ℚ) :
    powers exponents (realPoint x) = ((powers exponents x : ℚ) : ℝ) := by
  induction exponents generalizing x with
  | nil => exact Rat.cast_one.symm
  | cons k ks ih =>
      cases x with
      | nil => exact Rat.cast_one.symm
      | cons x xs =>
          change Arithmetic.natPow (x : ℝ) k * powers ks (realPoint xs) = _
          rw [ih, Arithmetic.natPow, ← powWithin_cast]
          exact (Rat.cast_mul _ _).symm

theorem eval_cast (m : Monomial) (x : List ℚ) : m.eval (realPoint x) = ((m.eval x : ℚ) : ℝ) := by
  rw [eval, powers_cast]
  exact (Rat.cast_mul _ _).symm

@[simp] theorem eval_real (m : Monomial) (x : List ℝ) : m.eval x = (m.coeff : ℝ) * powers m.exponents x := rfl

theorem powers_cons (k : Nat) (ks : List Nat) (x : ℝ) (xs : List ℝ) :
    powers (k :: ks) (x :: xs) = x ^ k * powers ks xs := by
  rw [powers, natPow_eq_pow]

/-- Exponents of a product; those that are missing are zero. -/
def addExponents : List Nat → List Nat → List Nat
  | [], f => f
  | e, [] => e
  | j :: e, k :: f => (j + k) :: addExponents e f

theorem powers_addExponents (e f : List Nat) (x : List ℝ) :
    powers (addExponents e f) x = powers e x * powers f x := by
  induction e, f using addExponents.induct generalizing x with
  | case1 f => exact (one_mul _).symm
  | case2 e _ =>
      rw [addExponents.eq_2 e (by assumption)]
      exact (mul_one _).symm
  | case3 j e k f ih =>
      cases x with
      | nil => exact (one_mul _).symm
      | cons x xs =>
          rw [addExponents, powers_cons, powers_cons, powers_cons, ih, pow_add]
          ring

theorem powers_replicate_zero (d : Nat) (x : List ℝ) : powers (List.replicate d 0) x = 1 := by
  induction d generalizing x with
  | zero => rfl
  | succ d ih =>
      cases x with
      | nil => rfl
      | cons x xs => rw [List.replicate_succ, powers_cons, ih, pow_zero, one_mul]

def product (m n : Monomial) : Monomial := ⟨m.coeff * n.coeff, addExponents m.exponents n.exponents⟩

theorem eval_product (m n : Monomial) (x : List ℝ) : (product m n).eval x = m.eval x * n.eval x := by
  rw [eval_real, eval_real, eval_real, product, powers_addExponents, Rat.cast_mul]
  ring

end Monomial

namespace Polynomial

theorem eval_eq_sum (p : Polynomial) (x : List ℝ) : p.eval x = (p.map (·.eval x)).sum := total_eq_sum _

@[simp] theorem eval_nil (x : List ℝ) : eval [] x = 0 := rfl

@[simp] theorem eval_cons (m : Monomial) (p : Polynomial) (x : List ℝ) : eval (m :: p) x = m.eval x + p.eval x := by
  rw [eval_eq_sum, eval_eq_sum, List.map_cons, List.sum_cons]

theorem eval_append (p q : Polynomial) (x : List ℝ) : eval (p ++ q) x = p.eval x + q.eval x := by
  rw [eval_eq_sum, eval_eq_sum, eval_eq_sum, List.map_append, List.sum_append]

theorem eval_cast (p : Polynomial) (x : List ℚ) : p.eval (realPoint x) = ((p.eval x : ℚ) : ℝ) := by
  have values : p.map (fun m => m.eval (realPoint x)) = (p.map fun m => m.eval x).map (Rat.castHom ℝ) := by
    rw [List.map_map]
    exact List.map_congr_left fun m _ => m.eval_cast x
  rw [eval_eq_sum, values, ← map_list_sum, List.sum_eq_foldl]
  rfl

/-- Monomials without a coefficient do not count. -/
theorem eval_filter (p : Polynomial) (x : List ℝ) : eval (p.filter (·.coeff != 0)) x = p.eval x := by
  induction p with
  | nil => rfl
  | cons m rest ih =>
      by_cases zero : m.coeff = 0
      · rw [List.filter_cons_of_neg (by simp [zero]), ih, eval_cons, Monomial.eval_real, zero, Rat.cast_zero, zero_mul,
          zero_add]
      · rw [List.filter_cons_of_pos (by simp [zero]), eval_cons, eval_cons, ih]

theorem eval_ofCoeffs {coeffs : List ℚ} {exponents : List (List Nat)} (same : coeffs.length = exponents.length)
    (x : List ℝ) : (ofCoeffs coeffs exponents).eval x =
      ∑ j ∈ Finset.range exponents.length, (coeffs.getD j 0 : ℝ) * Monomial.powers (exponents.getD j []) x := by
  rw [ofCoeffs, eval_filter, eval_eq_sum, Finset.sum_range, ← List.sum_ofFn]
  refine congrArg List.sum (List.ext_getElem (by simp [same]) fun i left right => ?_)
  have inside : i < exponents.length := by simpa using right
  simp [same.symm ▸ inside, Monomial.eval]
  exact Or.inl rfl

/-! ### Composition -/

def scale (c : ℚ) (p : Polynomial) : Polynomial := p.map fun m => ⟨c * m.coeff, m.exponents⟩

theorem eval_scale (c : ℚ) (p : Polynomial) (x : List ℝ) : (scale c p).eval x = c * p.eval x := by
  induction p with
  | nil => exact (mul_zero _).symm
  | cons m rest ih =>
      have tail : eval (rest.map fun m => ⟨c * m.coeff, m.exponents⟩) x = c * eval rest x := ih
      rw [scale, List.map_cons, eval_cons, eval_cons, tail, Monomial.eval_real, Monomial.eval_real, Rat.cast_mul]
      ring

def product (p q : Polynomial) : Polynomial := p.flatMap fun m => q.map m.product

theorem eval_product (p q : Polynomial) (x : List ℝ) : (product p q).eval x = p.eval x * q.eval x := by
  induction p with
  | nil => exact (zero_mul _).symm
  | cons m rest ih =>
      have tail : eval (rest.flatMap fun m => q.map m.product) x = eval rest x * eval q x := ih
      have head : eval (q.map m.product) x = m.eval x * eval q x := by
        rw [eval_eq_sum, eval_eq_sum, List.map_map, ← List.sum_map_mul_left]
        exact congrArg List.sum (List.map_congr_left fun n _ => m.eval_product n x)
      rw [product, List.flatMap_cons, eval_append, head, tail, eval_cons, add_mul]

/-- Adds a monomial to the one with the same exponents. -/
def insert (m : Monomial) : Polynomial → Polynomial
  | [] => [m]
  | n :: rest => if n.exponents = m.exponents then ⟨n.coeff + m.coeff, n.exponents⟩ :: rest else n :: insert m rest

theorem eval_insert (m : Monomial) (p : Polynomial) (x : List ℝ) : (insert m p).eval x = m.eval x + p.eval x := by
  induction p with
  | nil => exact eval_cons m [] x
  | cons n rest ih =>
      rw [insert]
      split
      · next same =>
          rw [eval_cons, eval_cons, Monomial.eval_real, Monomial.eval_real, Monomial.eval_real, same, Rat.cast_add]
          ring
      · rw [eval_cons, eval_cons, ih]
        ring

/-- The same polynomial with one monomial for each list of exponents, and none without a coefficient. -/
def collect (p : Polynomial) : Polynomial := (p.foldr insert []).filter (·.coeff != 0)

theorem eval_collect (p : Polynomial) (x : List ℝ) : (collect p).eval x = p.eval x := by
  rw [collect, eval_filter]
  induction p with
  | nil => rfl
  | cons m rest ih => rw [List.foldr_cons, eval_insert, ih, eval_cons]

/-- The constant one in `d` variables. -/
def one (d : Nat) : Polynomial := [⟨1, List.replicate d 0⟩]

theorem eval_one (d : Nat) (x : List ℝ) : (one d).eval x = 1 := by
  rw [one, eval_cons, eval_nil, Monomial.eval_real, Monomial.powers_replicate_zero, Rat.cast_one, one_mul, add_zero]

def power (d : Nat) (p : Polynomial) : Nat → Polynomial
  | 0 => one d
  | k + 1 => product p (power d p k)

theorem eval_power (d : Nat) (p : Polynomial) (k : Nat) (x : List ℝ) : (power d p k).eval x = p.eval x ^ k := by
  induction k with
  | zero => rw [power, eval_one, pow_zero]
  | succ k ih => rw [power, eval_product, ih, pow_succ']

/-- The product of powers of polynomials, collected. -/
def compose (d : Nat) : List Nat → List Polynomial → Polynomial
  | k :: ks, p :: ps => collect (product (power d p k) (compose d ks ps))
  | _, _ => one d

theorem eval_compose (d : Nat) (exponents : List Nat) (ps : List Polynomial) (x : List ℝ) :
    (compose d exponents ps).eval x = Monomial.powers exponents (ps.map (·.eval x)) := by
  induction exponents generalizing ps with
  | nil => exact eval_one d x
  | cons k ks ih =>
      cases ps with
      | nil => exact eval_one d x
      | cons p ps => rw [compose, eval_collect, eval_product, eval_power, ih, List.map_cons, Monomial.powers_cons]

end Polynomial

/-! ### Derivatives -/

namespace Monomial

theorem powers_ones (exponents : List Nat) (n : Nat) : powers exponents (List.replicate n (1 : ℝ)) = 1 := by
  induction exponents generalizing n with
  | nil => rfl
  | cons k ks ih =>
      cases n with
      | zero => rfl
      | succ n => rw [List.replicate_succ, powers_cons, ih, one_pow, one_mul]

/-- Coordinates that are missing count as ones. -/
theorem powers_append_ones (exponents : List Nat) (x : List ℝ) (n : Nat) :
    powers exponents (x ++ List.replicate n 1) = powers exponents x := by
  induction exponents generalizing x with
  | nil => rfl
  | cons k ks ih =>
      cases x with
      | nil => exact powers_ones (k :: ks) n
      | cons c x => rw [List.cons_append, powers_cons, powers_cons, ih]

theorem hasDerivAt_powers (exponents : List Nat) {x : List ℝ} {axis : Nat} (inside : axis < x.length) :
    HasDerivAt (fun t => powers exponents (x.set axis t))
      ((exponents.getD axis 0 : ℝ) * powers (exponents.set axis (exponents.getD axis 0 - 1)) x) (x.getD axis 0) := by
  induction exponents generalizing x axis with
  | nil =>
      apply (hasDerivAt_const (x.getD axis 0) (1 : ℝ)).congr_deriv
      rw [List.getD_nil, Nat.cast_zero, zero_mul]
  | cons k ks ih =>
      cases x with
      | nil => exact absurd inside (Nat.not_lt_zero axis)
      | cons c x =>
          cases axis with
          | zero =>
              simp only [List.set_cons_zero, powers_cons, List.getD_cons_zero]
              apply ((hasDerivAt_pow k c).mul_const (powers ks x)).congr_deriv
              exact mul_assoc ..
          | succ axis =>
              simp only [List.set_cons_succ, powers_cons, List.getD_cons_succ]
              apply ((ih (Nat.lt_of_succ_lt_succ inside)).const_mul (c ^ k)).congr_deriv
              ring

theorem hasDerivAt_eval (m : Monomial) {x : List ℝ} {axis : Nat} (inside : axis < x.length) :
    HasDerivAt (fun t => m.eval (x.set axis t)) ((m.derivative axis).eval x) (x.getD axis 0) := by
  simp only [eval_real]
  apply ((hasDerivAt_powers m.exponents inside).const_mul (m.coeff : ℝ)).congr_deriv
  rw [derivative, Rat.cast_mul, Rat.cast_natCast]
  ring

end Monomial

namespace Polynomial

theorem eval_append_ones (p : Polynomial) (x : List ℝ) (n : Nat) : p.eval (x ++ List.replicate n 1) = p.eval x := by
  simp only [eval_eq_sum, Monomial.eval_real, Monomial.powers_append_ones]

theorem eval_derivative (axis : Nat) (p : Polynomial) (x : List ℝ) :
    (p.derivative axis).eval x = eval (p.map (Monomial.derivative axis)) x := eval_filter _ x

theorem hasDerivAt_eval (p : Polynomial) {x : List ℝ} {axis : Nat} (inside : axis < x.length) :
    HasDerivAt (fun t => p.eval (x.set axis t)) ((p.derivative axis).eval x) (x.getD axis 0) := by
  rw [eval_derivative]
  induction p with
  | nil => exact hasDerivAt_const _ _
  | cons m rest ih =>
      simp only [List.map_cons, eval_cons]
      exact (m.hasDerivAt_eval inside).add ih

theorem eval_derivative_one (d axis : Nat) (x : List ℝ) : ((one d).derivative axis).eval x = 0 := by
  have exponent : (List.replicate d 0).getD axis 0 = 0 := by
    rw [List.getD_eq_getElem?_getD, List.getElem?_replicate]
    split <;> rfl
  rw [eval_derivative, one, List.map_cons, List.map_nil, eval_cons, eval_nil, Monomial.eval_real, Monomial.derivative,
    exponent, Nat.cast_zero, zero_mul, Rat.cast_zero, zero_mul, add_zero]

end Polynomial

end Galerkin
