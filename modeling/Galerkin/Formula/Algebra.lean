import Galerkin.Formula.Basic

/-!
Ways to put formulas together. An algebra says what becomes of sums, products, powers and functions of
formulas that are put together already: the free one writes them down, others simplify. Every formula
can be read in every algebra.
-/

namespace Galerkin

structure Algebra (ν : Type) where
  add : List (Formula ν) → Formula ν
  mul : List (Formula ν) → Formula ν
  pow : Formula ν → Formula ν → Formula ν
  app : Elementary → Formula ν → Formula ν

namespace Formula

variable {ν : Type}

/-! ### Constants -/

/-- The base of the exponential function. -/
def euler : Formula ν := app .exp one

def pi : Formula ν := app .angle (ofRat (-1))

def imaginaryUnit : Formula ν := pow (ofRat (-1)) half

/-! ### Sums -/

def summands : Formula ν → List (Formula ν)
  | add a b => summands a ++ summands b
  | e => [e]

def sumOf : List (Formula ν) → Formula ν
  | [] => zero
  | [e] => e
  | e :: rest => add e (sumOf rest)

def isSum : Formula ν → Bool
  | add _ _ => true
  | _ => false

/-! ### Products -/

def factors : Formula ν → List (Formula ν)
  | mul a b => factors a ++ factors b
  | e => [e]

def productOf : List (Formula ν) → Formula ν
  | [] => one
  | [e] => e
  | e :: rest => mul e (productOf rest)

def isProduct : Formula ν → Bool
  | mul _ _ => true
  | _ => false

/-- A coefficient and what it stands before. -/
def splitTerm : Formula ν → Coeff × Formula ν
  | const c => (c, one)
  | mul (const c) m => (c, m)
  | m => (.one, m)

def isOne : Formula ν → Bool
  | const c => c.isOne
  | _ => false

def isZero : Formula ν → Bool
  | const c => c.isZero
  | _ => false

def ofTerm (t : Coeff × Formula ν) : Formula ν :=
  if t.2.isOne then const t.1
  else if t.1.isOne then t.2
  else mul (const t.1) t.2

/-! ### Powers -/

/-- Base and exponent. Exponentials are powers too, and a base between zero and one is turned over. -/
def baseExponent : Formula ν → Formula ν × Formula ν
  | pow (const (.exact r)) e =>
    if 0 < r ∧ r < 1 then
      let (c, m) := splitTerm e
      (ofRat r⁻¹, ofTerm (c.neg, m))
    else (ofRat r, e)
  | pow b e => (b, e)
  | app .exp x => (euler, x)
  | e => (e, one)

def isPower : Formula ν → Bool
  | pow _ _ => true
  | _ => false

/-! ### Parts -/

/-- Does it mention no variable? -/
def isClosed : Formula ν → Bool
  | const _ => true
  | var _ => false
  | add a b | mul a b | pow a b => isClosed a && isClosed b
  | app _ x => isClosed x

/-- The number that a formula is. -/
def number? : Formula ν → Option Coeff
  | const c => some c
  | _ => none

def integer? (e : Formula ν) : Option Int := e.number?.bind Coeff.integer?

def rational? (e : Formula ν) : Option Rat := e.number?.bind Coeff.rational?

end Formula

namespace Algebra

open Formula (const one ofRat)

variable {ν : Type}

/-- Nothing is simplified. -/
def free : Algebra ν where
  add := Formula.sumOf
  mul := Formula.productOf
  pow := .pow
  app := .app

variable (alg : Algebra ν)

def neg (a : Formula ν) : Formula ν := alg.mul [ofRat (-1), a]

def sub (a b : Formula ν) : Formula ν := alg.add [a, alg.neg b]

def inverse (a : Formula ν) : Formula ν := alg.pow a (ofRat (-1))

def div (a b : Formula ν) : Formula ν := alg.mul [a, alg.inverse b]

def sqrt (a : Formula ν) : Formula ν := alg.pow a Formula.half

/-- Reads a formula in an algebra. A quotient of two numbers is rounded once. -/
def normalize : Formula ν → Formula ν
  | .const c => const c
  | .var q => .var q
  | .add a b => alg.add [normalize a, normalize b]
  | .mul a (.pow b (.const c)) =>
    match normalize a, normalize b with
    | .const x, .const y =>
      if c = .ofInt (-1) then const (x.div y) else alg.mul [const x, alg.pow (const y) (const c)]
    | x, y => alg.mul [x, alg.pow y (const c)]
  | .mul a b => alg.mul [normalize a, normalize b]
  | .pow a b => alg.pow (normalize a) (normalize b)
  | .app f x => alg.app f (normalize x)

end Algebra

end Galerkin
