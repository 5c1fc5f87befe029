import Galerkin.Formula.Modulus

/-!
The normal form of formulas. The rules for sums, products, powers and functions call on each other; they
are stacked, each level using the one below for what it puts together, and the lowest one writes
everything down as it is.
-/

namespace Galerkin

namespace Formula

variable {ν : Type} [DecidableEq ν] [Ord ν]

def applied (alg : Algebra ν) (f : Elementary) (e : Formula ν) : Formula ν :=
  match f with
  | .exp => exponential alg e
  | .log => logarithm alg e
  | .sin => sine alg e
  | .cos => cosine alg e
  | .tanh => hyperbolicTangent alg e
  | .abs => modulus alg e
  | .sign => direction alg e
  | .impulse => app .impulse e
  | .realPart => realPart alg e
  | .angle => angle e

end Formula

namespace Algebra

variable {ν : Type} [DecidableEq ν] [Ord ν]

/-- The rules, over an algebra for the parts. -/
def above (alg : Algebra ν) : Algebra ν where
  add := Formula.normalSum
  mul := Formula.normalProduct alg
  pow := Formula.normalPower alg
  app := Formula.applied alg

def level : Nat → Algebra ν
  | 0 => free
  | n + 1 => above (level n)

/-- Deeper than the rules nest. -/
def depth : Nat := 48

/-- The algebra of normal formulas. -/
def standard : Algebra ν := level depth

end Algebra

end Galerkin
