import Galerkin.Formula.Expand

/-!
Partial derivatives, put together in any algebra. The absolute value of a real formula has its sign as
slope; for a complex one the slope is the real part of what the sign turns the inner slope into.

What weak forms ask of formulas: a normal form, sums and products of normal formulas, derivatives,
multiplying out, and the common parts of several formulas. Where only the values of formulas matter,
every calculus that keeps them will do.
-/

namespace Galerkin.Formula

variable {ν : Type} [DecidableEq ν] (alg : Algebra ν)

/-- Is a formula real wherever it has a value? -/
def isRealForm : Formula ν → Bool
  | const c => c.isFinite
  | var _ => true
  | add a b | mul a b => isRealForm a && isRealForm b
  | pow b e => (e.number?.any Coeff.isInteger && isRealForm b) || (pow b e).traits.isReal
  | app f x =>
    match f with
    | .exp | .sin | .cos | .tanh => isRealForm x
    | f => (app f x).traits.isReal

/-- The derivative of a function by its argument. -/
def slope (f : Elementary) (x : Formula ν) : Formula ν :=
  match f with
  | .exp => alg.app .exp x
  | .log => alg.inverse x
  | .sin => alg.app .cos x
  | .cos => alg.neg (alg.app .sin x)
  | .tanh => alg.sub one (alg.pow (alg.app .tanh x) (ofRat 2))
  | .abs => alg.app .sign x
  | .sign => alg.mul [ofRat 2, alg.app .impulse x]
  | .impulse => app .impulse x
  | .realPart | .angle => one

/-- The real factors before a logarithm of a real formula, and what the logarithm is taken of. -/
def asLogarithm? (e : Formula ν) : Option (List (Formula ν) × Formula ν) :=
  let (real, rest) := (factors e).partition fun f => f.traits.isReal
  match rest with
  | [app .log g] => if g.traits.isReal then some (real, g) else none
  | _ => none

/-- The derivative of the modulus of `x`, whose derivative is `dx`. -/
def modulusSlope (constant : Formula ν → Bool) (x dx : Formula ν) : Formula ν :=
  let general := alg.app .realPart (alg.div dx (alg.app .sign x))
  if isRealForm x then alg.mul [dx, alg.app .sign x]
  else match asLogarithm? x with
    | some (real, g) =>
      if real.all constant then
        let log := alg.app .log (alg.app .abs g)
        alg.div (alg.mul (one :: (real ++ [log, dx]))) (alg.app .abs x)
      else general
    | none => general

/-- A function and the derivative of its argument. -/
def chained (constant : Formula ν → Bool) (f : Elementary) (x dx : Formula ν) : Formula ν :=
  if dx.isZero then zero
  else match f with
    | .abs => modulusSlope alg constant x dx
    | .realPart => alg.app .realPart dx
    | .angle => if isRealForm x then zero else app .angle dx
    | f => alg.mul [slope alg f x, dx]

/-- The sum over all factors of the product with that factor replaced by its derivative. -/
def productRule : List (Formula ν × Formula ν) → List (Formula ν) → List (Formula ν)
  | [], _ => []
  | (f, df) :: rest, before =>
    let others := productRule rest (before ++ [f])
    if df.isZero then others else alg.mul (before ++ df :: rest.map (·.1)) :: others

/-- The partial derivative by the variable `q`. -/
def derivative (q : ν) : Formula ν → Formula ν
  | const _ => zero
  | var r => if r = q then one else zero
  | add a b => alg.add (ofSummands a ++ ofSummands b)
  | mul a b => alg.add (productRule alg (ofFactors a ++ ofFactors b) [])
  | pow a b =>
    if (pow a b).atoms.contains q then
      alg.mul [pow a b, alg.add [alg.mul [derivative q b, alg.app .log a],
        alg.div (alg.mul [derivative q a, b]) a]]
    else zero
  | app f x => chained alg (fun e => !e.atoms.contains q) f x (derivative q x)
where
  ofSummands : Formula ν → List (Formula ν)
    | add a b => ofSummands a ++ ofSummands b
    | e => [derivative q e]
  ofFactors : Formula ν → List (Formula ν × Formula ν)
    | mul a b => ofFactors a ++ ofFactors b
    | e => [(e, derivative q e)]

end Galerkin.Formula

namespace Galerkin

/-- Formulas over numbered variables, with their common parts computed first: each is one more variable,
and may use those before it. -/
structure Sharing where
  common : List (Formula Nat)
  formulas : List (Formula Nat)

/-- Formulas that share nothing. -/
def Sharing.apart (formulas : List (Formula Nat)) : Sharing := ⟨[], formulas⟩

structure Calculus (ν : Type) where
  normal : Formula ν → Formula ν
  add : Formula ν → Formula ν → Formula ν
  mul : Formula ν → Formula ν → Formula ν
  derivative : ν → Formula ν → Formula ν
  expand : Formula ν → Formula ν
  /-- Takes the common parts out of formulas over the given number of variables. -/
  share : Nat → List (Formula Nat) → Sharing

namespace Calculus

variable {ν : Type} [DecidableEq ν]

/-- The calculus of an algebra, with a way to multiply out. -/
def ofAlgebra (alg : Algebra ν) (expand : Formula ν → Formula ν) : Calculus ν where
  normal := alg.normalize
  add := fun a b => alg.add [a, b]
  mul := fun a b => alg.mul [a, b]
  derivative := Formula.derivative alg
  expand := expand
  share := fun _ => .apart

/-- Formulas stay as they are written. -/
def free : Calculus ν := ofAlgebra .free id

/-- The calculus of normal formulas, in which a formula is seen to be zero if it cancels. -/
def standard [Ord ν] : Calculus ν :=
  let alg := Algebra.standard
  ofAlgebra alg (Formula.expand alg)

end Calculus

end Galerkin
