import Galerkin.Formula.Function

/-!
The normal absolute value. Factors whose modulus is known are taken out, a sum is taken with the sign
that it is written with, and where the conjugate of a complex formula is known, the modulus is the root
of the product with it.
-/

namespace Galerkin.Formula

variable {ν : Type} [DecidableEq ν] [Ord ν] (alg : Algebra ν)

/-- Of a formula and its opposite the one without a minus sign, in every factor. -/
def unsigned (e : Formula ν) : Formula ν :=
  let turned := fun (f : Formula ν) =>
    match f with
    | add a b => if isOpposite f then alg.neg f else add a b
    | pow (add a b) n =>
      if n.isInteger && isOpposite (add a b) then alg.pow (alg.neg (add a b)) n else f
    | f => f
  match e with
  | mul a b =>
    let fs := factors (mul a b)
    let fs' := fs.map turned
    if fs = fs' then e else alg.mul fs'
  | e => turned e

/-- Is this a factor of the denominator? -/
def isInDenominator (f : Formula ν) : Bool :=
  match f with
  | pow _ x => (splitTerm x).1.isNegative
  | app .exp x => (splitTerm x).1.isNegative
  | _ => false

/-- Numerator and denominator. -/
def fraction (e : Formula ν) : List (Formula ν) × List (Formula ν) :=
  let (below, above) := (factors e).partition isInDenominator
  (above, below.map alg.inverse)

/-- The modulus of a factor, or else what is left to take the modulus of. -/
def factorModulus (f : Formula ν) : Formula ν ⊕ Formula ν :=
  let whole :=
    match alg.app .abs f with
    | app .abs x => .inr x
    | m => .inl m
  match f with
  | pow b (const c) =>
    if c.isInteger && c.isNegative then
      match alg.app .abs b with
      | app .abs _ => .inr f
      | m => .inl (alg.pow m (const c))
    else whole
  | _ => whole

def modulusOfProduct (fs : List (Formula ν)) : Formula ν :=
  let parts := fs.map (factorModulus alg)
  let known := parts.filterMap fun p => p.getLeft?
  let rest := parts.filterMap fun p => p.getRight?
  if rest.isEmpty then alg.mul known
  else alg.mul (known ++ [app .abs (alg.mul rest)])

/-- The modulus of a power, where the base decides it. -/
def modulusOfPower? (b e : Formula ν) : Option (Formula ν) :=
  let t := b.traits
  let exponent := if e.traits.isReal then e else alg.app .realPart e
  if t.isReal then
    if e.isInteger then
      if e.number?.any Coeff.isEven then some (pow b e) else some (alg.pow (alg.app .abs b) e)
    else if t.isNonnegative then some (alg.pow b exponent)
    else if t.isNegative && e.traits.isReal then some (alg.pow (alg.neg b) e)
    else some (app .abs (pow b e))
  else if b.isClosed && e.traits.isReal then some (alg.pow (alg.app .abs b) e)
  else none

/-- The conjugate of a formula all of whose parts have a known one. -/
def conjugate? : Formula ν → Option (Formula ν)
  | const .unsigned => none
  | const c => some (const c)
  | var q => some (var q)
  | add a b => do pure (alg.add [← conjugate? a, ← conjugate? b])
  | mul a b => do pure (alg.mul [← conjugate? a, ← conjugate? b])
  | pow b e =>
    if e.isInteger then do pure (alg.pow (← conjugate? b) e)
    else if b = ofRat (-1) && e.rational?.isSome then some (alg.inverse (pow b e))
    else if (pow b e).traits.isReal then some (pow b e)
    else if b.traits.isPositive then do pure (alg.pow b (← conjugate? e))
    else none
  | app f x =>
    match f with
    | .exp => do pure (alg.app .exp (← conjugate? x))
    | .sin => do pure (alg.app .sin (← conjugate? x))
    | .cos => do pure (alg.app .cos (← conjugate? x))
    | .tanh => do pure (alg.app .tanh (← conjugate? x))
    | .abs => some (app .abs x)
    | f => if (app f x).traits.isReal then some (app f x) else none

/-- The product of two sums, term by term. -/
def multiplyOut (a b : Formula ν) : Formula ν :=
  alg.add ((summands a).flatMap fun x => (summands b).map fun y => alg.mul [x, y])

/-- The modulus from what is known of the value, or from the conjugate. -/
def modulusByTraits (e : Formula ν) : Formula ν :=
  let t := e.traits
  if t.zero = some true then zero
  else if t.isNonnegative then e
  else if t.isNonpositive then alg.neg e
  else if t.isReal then app .abs e
  else match conjugate? alg e with
    | none => app .abs e
    | some c =>
      if c = e || c = alg.neg e then app .abs e else alg.sqrt (multiplyOut alg e c)

def modulus (e : Formula ν) : Formula ν :=
  match e with
  | const c => const c.abs
  | e =>
    let e := unsigned alg e
    let (above, below) := fraction alg e
    if below.any (!·.isClosed) && above.all (·.isClosed) then
      alg.div (alg.app .abs (alg.mul (one :: above))) (alg.app .abs (alg.mul (one :: below)))
    else match e with
      | mul a b => modulusOfProduct alg (factors (mul a b))
      | pow b x => (modulusOfPower? alg b x).getD (modulusByTraits alg e)
      | app .exp x => if x.traits.isReal then e else alg.app .exp (alg.app .realPart x)
      | e => modulusByTraits alg e

end Galerkin.Formula
