import Galerkin.Formula.Power

/-!
Normal functions. What is known exactly is worked out, a function of a decimal is a decimal, odd and even
functions take the sign out of their argument, and exponential and logarithm undo each other where the
principal value allows it.
-/

namespace Galerkin.Formula

variable {ν : Type} [DecidableEq ν] [Ord ν] (alg : Algebra ν)

/-- Of a formula and its opposite, is this the one that is written with a minus sign? -/
def isOpposite (e : Formula ν) : Bool :=
  let negative := ((summands e).filter fun x => (splitTerm x).1.isNegative).length
  let all := (summands e).length
  all < 2 * negative ||
    (all = 2 * negative && (summands e).head?.any fun x => (splitTerm x).1.isNegative)

/-- The value of a function at a number with decimals. -/
def atDecimal (f : Elementary) (d : Dyadic) : Formula ν := ofValue alg (f.eval (.ofReal d))

/-- The rational number of half turns that an angle is. -/
def halfTurnsIn? (e : Formula ν) : Option Rat :=
  let (c, m) := splitTerm e
  if m = pi then c.rational? else none

/-- The factors of a product without a given one, if it is among them. -/
def without? (f e : Formula ν) : Option (List (Formula ν)) :=
  if (factors e).contains f then some ((factors e).erase f) else none

/-- What the imaginary unit is multiplied by. -/
def imaginaryFactor? (e : Formula ν) : Option (Formula ν) := (without? imaginaryUnit e).map alg.mul

/-! ### Exponential -/

/-- Minus one to the number of half turns that an imaginary exponent is. -/
def circular? (e : Formula ν) : Option (Formula ν) :=
  match (imaginaryFactor? alg e).bind halfTurnsIn? with
  | none => none
  | some r =>
    if (2 * r).den = 1 then some (turnPower r)
    else
      let turned := r - 2 * ((r / 2).floor : Rat)
      let reduced := if 1 < turned then turned - 2 else turned
      if reduced = r then none
      else some (alg.app .exp (alg.mul [ofRat reduced, pi, imaginaryUnit]))

def isLogarithm : Formula ν → Bool
  | app .log _ => true
  | _ => false

/-- The exponential of a number times one logarithm. -/
def powerOfArgument? (e : Formula ν) : Option (Formula ν) :=
  let (logs, rest) := (factors e).partition isLogarithm
  match logs with
  | [app .log x] =>
    if rest.all fun f => f.isClosed && f.traits.isReal then some (alg.pow x (alg.mul (one :: rest)))
    else none
  | _ => none

/-- The exponential of a sum: exponentials that can be worked out are taken out. -/
def exponentialOfSum (es : List (Formula ν)) : Formula ν :=
  let parts := es.map fun e =>
    if e.isOne then (none, some e)
    else match alg.app .exp e with
      | app .exp x => (none, some x)
      | w => (some w, none)
  let outside := parts.filterMap (·.1)
  let inside := parts.filterMap (·.2)
  if inside = es then app .exp (sumOf es)
  else if inside.isEmpty then alg.mul outside
  else alg.mul (outside ++ [app .exp (alg.add inside)])

def exponential (e : Formula ν) : Formula ν :=
  match e with
  | const (.decimal d) => atDecimal alg .exp d
  | const (.infinite negative) => if negative then zero else e
  | const .unsigned | const .undefined => const .undefined
  | const c => if c.isZero then one else app .exp e
  | app .log x => x
  | add a b => exponentialOfSum alg (summands (add a b))
  | mul a b =>
    match circular? alg (mul a b) with
    | some w => w
    | none => (powerOfArgument? alg (mul a b)).getD (app .exp e)
  | e => app .exp e

/-! ### Logarithm -/

/-- The logarithm of a number in the direction of the imaginary unit or opposite to it. -/
def imaginaryLogarithm? (e : Formula ν) : Option (Formula ν) :=
  (imaginaryFactor? alg e).bind fun a =>
    let t := a.traits
    if !a.isClosed || !t.isReal then none
    else if t.isPositive then
      some (alg.add [alg.mul [half, pi, imaginaryUnit], alg.app .log a])
    else some (alg.add [alg.mul [ofRat (mkRat (-1) 2), pi, imaginaryUnit], alg.app .log (alg.neg a)])

def logarithm (e : Formula ν) : Formula ν :=
  let general :=
    if e.isClosed && e.traits.isNegative then
      alg.add [alg.mul [pi, imaginaryUnit], alg.app .log (alg.neg e)]
    else (imaginaryLogarithm? alg e).getD (app .log e)
  match e with
  | const (.infinite _) => const (.infinite false)
  | const .unsigned | const .undefined => e
  | const (.exact r) =>
    if r = 0 then const .unsigned
    else if r = 1 then zero
    else if r.num = 1 then alg.neg (alg.app .log (ofRat r.den))
    else general
  | const (.decimal d) => if Precise.isNegative d then general else atDecimal alg .log d
  | app .exp x =>
    if x.traits.isReal then x
    else if ((imaginaryFactor? alg x).bind halfTurnsIn?).any fun r => -1 < r && r ≤ 1 then x
    else app .log e
  | _ => general

/-! ### Odd and even functions -/

/-- Sine and cosine of a multiple of half a right angle. -/
def rightAngle? (f : Elementary) (e : Formula ν) : Option (Formula ν) :=
  (halfTurnsIn? e).bind fun r =>
    let quarters := 2 * r
    if quarters.den ≠ 1 then none
    else
      let k := if f = .sin then quarters.num else quarters.num + 1
      some (ofRat (match k % 4 with | 1 => 1 | 3 => -1 | _ => 0))

/-- A function with `f (-x) = - f x` that vanishes at zero. -/
def oddFunction (f : Elementary) (e : Formula ν) : Formula ν :=
  if e.isZero then zero
  else if isOpposite e then alg.neg (alg.app f (alg.neg e))
  else app f e

def sine (e : Formula ν) : Formula ν :=
  match e with
  | const (.decimal d) => atDecimal alg .sin d
  | const (.infinite _) | const .unsigned | const .undefined => const .undefined
  | e => (rightAngle? .sin e).getD (oddFunction alg .sin e)

def cosine (e : Formula ν) : Formula ν :=
  match e with
  | const (.decimal d) => atDecimal alg .cos d
  | const (.infinite _) | const .unsigned | const .undefined => const .undefined
  | e =>
    if e.isZero then one
    else if isOpposite e then alg.app .cos (alg.neg e)
    else (rightAngle? .cos e).getD (app .cos e)

def hyperbolicTangent (e : Formula ν) : Formula ν :=
  match e with
  | const (.decimal d) => atDecimal alg .tanh d
  | const (.infinite negative) => ofRat (if negative then -1 else 1)
  | const .unsigned | const .undefined => const .undefined
  | e => oddFunction alg .tanh e

/-! ### Sign, real part and angle -/

/-- The sign; factors with a known one are taken out. -/
def direction (e : Formula ν) : Formula ν :=
  let rows := (factors e).map fun f => (f, f.traits)
  let doubtful := (rows.filter fun r => !r.2.isPositive && !r.2.isNegative).map (·.1)
  let flipped := (rows.filter fun r => r.2.isNegative).length % 2 = 1
  match e with
  | const .undefined => e
  | app .sign _ => e
  | e =>
    if e.traits.zero = some true then zero
    else if doubtful.isEmpty then ofRat (if flipped then -1 else 1)
    else
      let rest := app .sign (productOf doubtful)
      if flipped then alg.neg rest else rest

/-- The real part; real factors and summands are taken out. -/
def realPart (e : Formula ν) : Formula ν :=
  match e with
  | add a b =>
    let (real, rest) := (summands (add a b)).partition fun x => x.traits.isReal
    if real.isEmpty then app .realPart e
    else if rest.isEmpty then e
    else alg.add (real ++ [alg.app .realPart (sumOf rest)])
  | e =>
    let (real, rest) := (factors e).partition fun x => x.traits.isReal
    if rest.isEmpty then e
    else if rest = [imaginaryUnit] then zero
    else alg.mul (real ++ [app .realPart (productOf rest)])

def angle (e : Formula ν) : Formula ν := if e.traits.isPositive then zero else app .angle e

end Galerkin.Formula
