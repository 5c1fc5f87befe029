import Galerkin.Arithmetic

/-!
Polynomials in several variables with rational coefficients, as sums of monomials.
-/

namespace Galerkin

structure Monomial where
  coeff : Rat
  exponents : List Nat
  deriving DecidableEq, Repr

abbrev Polynomial := List Monomial

namespace Monomial

variable {α : Type} [Arithmetic α]

def powers : List Nat → List α → α
  | k :: ks, x :: xs => Arithmetic.natPow x k * powers ks xs
  | _, _ => 1

def eval (m : Monomial) (x : List α) : α := Arithmetic.ofRat m.coeff * powers m.exponents x

def derivative (axis : Nat) (m : Monomial) : Monomial :=
  let k := m.exponents.getD axis 0
  ⟨k * m.coeff, m.exponents.set axis (k - 1)⟩

end Monomial

namespace Polynomial

def eval {α : Type} [Arithmetic α] (p : Polynomial) (x : List α) : α :=
  Arithmetic.sumOf p (·.eval x)

def ofCoeffs (coeffs : List Rat) (exponents : List (List Nat)) : Polynomial :=
  (List.zipWith Monomial.mk coeffs exponents).filter (·.coeff != 0)

def derivative (axis : Nat) (p : Polynomial) : Polynomial :=
  (p.map (Monomial.derivative axis)).filter (·.coeff != 0)

end Polynomial

end Galerkin
