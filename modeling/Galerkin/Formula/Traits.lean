import Galerkin.Formula.Algebra
import Galerkin.Precise.Extended

/-!
Values of formulas as doubles, computed with many digits and rounded once, so that nothing is lost where
large parts of a formula cancel; and what can be said of the value of a formula whatever real numbers its
variables are: whether it is real, finite, zero, negative or positive. An infinity of either sign counts
as real. Formulas without variables are worked out, of others only what follows from their parts is known.
-/

namespace Galerkin.Formula

variable {ν : Type}

/-- The value of a formula without variables. -/
def closedValue (e : Formula ν) : Extended := e.eval fun _ => .undefined

/-- The double nearest to the value where the variables are given as doubles; none is near to a number that
is not real. -/
def nearestValue (v : ν → Float) (e : Formula ν) : Float :=
  (e.eval fun q => Extended.ofFloat (v q)).toFloat

end Galerkin.Formula

namespace Galerkin

structure Traits where
  real : Option Bool
  finite : Option Bool
  zero : Option Bool
  negative : Option Bool
  positive : Option Bool
  deriving DecidableEq, Repr

namespace Traits

def unknown : Traits := ⟨none, none, none, none, none⟩

/-- Of a real number whose sign is `sign`. -/
def ofSign (finite : Bool) (sign : Ordering) : Traits :=
  ⟨some true, some finite, some (sign = .eq), some (sign = .lt), some (sign = .gt)⟩

def unreal (finite : Bool) : Traits := ⟨some false, some finite, some false, some false, some false⟩

def isReal (t : Traits) : Bool := t.real = some true

def isPositive (t : Traits) : Bool := t.positive = some true

def isNegative (t : Traits) : Bool := t.negative = some true

def isNonnegative (t : Traits) : Bool := t.isReal && t.negative = some false

def isNonpositive (t : Traits) : Bool := t.isReal && t.positive = some false

def isNonzero (t : Traits) : Bool := t.zero = some false

def isFinite (t : Traits) : Bool := t.finite = some true

def neg (t : Traits) : Traits := { t with negative := t.positive, positive := t.negative }

/-- True if all are true, false if one is false and the others are true. -/
def agree (xs : List (Option Bool)) : Option Bool :=
  match xs.filter (· ≠ some true) with
  | [] => some true
  | [some false] => some false
  | _ => none

/-- Zero is neither negative nor positive, and a sign excludes the others. -/
def settle (t : Traits) : Traits :=
  if t.isPositive then ⟨some true, t.finite, some false, some false, some true⟩
  else if t.isNegative then ⟨some true, t.finite, some false, some true, some false⟩
  else if t.isReal && t.negative = some false && t.isNonzero then
    { t with positive := some true }
  else if t.isReal && t.positive = some false && t.isNonzero then
    { t with negative := some true }
  else if t.real = some false then { t with negative := some false, positive := some false }
  else t

def ofCoeff : Coeff → Traits
  | .exact r => ofSign true (if r < 0 then .lt else if r = 0 then .eq else .gt)
  | .decimal d => ofSign true (if Precise.isNegative d then .lt else .gt)
  | .infinite negative => ofSign false (if negative then .lt else .gt)
  | .unsigned => unreal false
  | .undefined => unknown

/-- Values with an exponent below this one may be zero that rounding has not left so. -/
def smallest : Int := -300

/-- Of a number that has been worked out. -/
def ofValue : Extended → Traits
  | .finite a b =>
    let small := Precise.below smallest
    if small a && small b then { unknown with finite := some true }
    else if Extended.isNegligible a b then
      ofSign true (if Precise.isNegative a then .lt else .gt)
    else unreal true
  | .infinite negative => ofSign false (if negative then .lt else .gt)
  | .unsigned => unreal false
  | .undefined => unknown

/-- Is a sum of such summands positive? -/
def sumPositive (ts : List Traits) : Option Bool :=
  let ts := ts.filter (·.zero ≠ some true)
  let positive := ts.any (·.isPositive)
  let nonnegative := ts.any fun t => !t.isPositive && t.isNonnegative
  let nonpositive := ts.any fun t => !t.isNonnegative && t.isNonpositive
  if ts.any fun t => !t.isNonnegative && !t.isNonpositive then none
  else if positive && !nonpositive then some true
  else if !positive && !nonnegative then some false
  else none

def sum (ts : List Traits) : Traits :=
  settle ⟨agree (ts.map (·.real)), agree (ts.map (·.finite)),
    if ts.all (·.zero = some true) then some true else none,
    sumPositive (ts.map neg), sumPositive ts⟩

/-- What the factors so far say about the sign of a product. -/
structure SignCount where
  /-- Has an odd number of factors been negative? -/
  flipped : Bool
  /-- May some factor be zero? -/
  mayVanish : Bool
  /-- Is the sign of some factor known only if it is real? -/
  doubtful : Bool

def countSign : Option SignCount → Traits → Option SignCount
  | none, _ => none
  | some s, t =>
    if t.isPositive then some s
    else if t.isNegative then some { s with flipped := !s.flipped }
    else if t.isNonpositive then some { s with flipped := !s.flipped, mayVanish := true }
    else if t.isNonnegative then some { s with mayVanish := true }
    else if s.doubtful then none
    else if t.positive = some false then some { s with flipped := !s.flipped, doubtful := true }
    else if t.negative = some false then some { s with doubtful := true }
    else none

/-- Is a product of such factors positive, after a sign in front of it? -/
def productPositive (flipped : Bool) (ts : List Traits) : Option Bool :=
  if ts.any (·.zero = some true) then (if ts.all (·.isFinite) then some false else none)
  else match ts.foldl countSign (some ⟨flipped, false, false⟩) with
    | none => none
    | some s =>
      if s.flipped then some false
      else if !s.mayVanish && !s.doubtful then some true
      else none

def productReal (ts : List Traits) : Option Bool :=
  match ts.filter (!·.isReal) with
  | [] => some true
  | [t] =>
    if t.real = some false && ts.all fun u => !u.isReal || u.isNonzero then some false else none
  | _ => none

def product (ts : List Traits) : Traits :=
  settle ⟨productReal ts,
    if ts.all (·.isFinite) then some true else none,
    if ts.any (·.zero = some true) then (if ts.all (·.isFinite) then some true else none)
    else if ts.all (·.isNonzero) then some false else none,
    productPositive true ts, productPositive false ts⟩

def powerReal (b e : Traits) (n : Option Coeff) : Option Bool :=
  let whole := n.any Coeff.isInteger
  if b.isReal && e.isReal then
    if b.isPositive || (b.isNonnegative && e.isNonnegative) || (whole && b.isNonzero) ||
      (whole && e.isNonnegative) then some true
    else if b.isNegative && (n.bind Coeff.rational?).isSome then some false
    else none
  else none

/-- Of a power with base `b` and exponent `e`, which may be the number `n`. -/
def power (b e : Traits) (n : Option Coeff) : Traits :=
  let even := n.any Coeff.isEven
  let odd := n.any Coeff.isOdd
  let positive : Option Bool :=
    if b.isPositive then (if e.isReal then some true else none)
    else if b.isNegative then (if even then some true else if odd then some false else none)
    else if b.isNonpositive && odd then some false
    else none
  let negative : Option Bool :=
    if n = some (.ofRat (mkRat 1 2)) && (b.isReal || b.isFinite) then some false
    else if b.isNegative then (if odd && b.isFinite then some true else if even then some false else none)
    else if b.isPositive then (if e.isReal then some false else none)
    else if b.isNonnegative then (if e.isNonnegative then some false else if even then some false else none)
    else if b.isReal && even then some false
    else none
  let zero : Option Bool :=
    if b.zero = some true then (if e.isPositive then some true else none)
    else if b.isNonzero then (if b.isFinite && e.isFinite then some false else none)
    else if b.isFinite && e.isNegative then some false
    else none
  let finite : Option Bool :=
    if e.isNegative && b.zero = some true then some false
    else if e.isNegative && b.isNonzero then some true
    else if b.isFinite && e.isFinite && (e.isNonnegative || b.isNonzero) then some true
    else none
  settle ⟨powerReal b e n, finite, zero, negative, positive⟩

/-- Of a real number without a known sign. -/
def anyReal : Traits := ⟨some true, some true, none, none, none⟩

/-- Of a function at an argument `x`; `above` says whether the argument is known to be more than one. -/
def function (f : Elementary) (x : Traits) (above : Traits) : Traits :=
  match f with
  | .exp =>
    if x.isReal then ⟨some true, x.finite, some false, some false, some true⟩
    else ⟨none, x.finite, some false, none, none⟩
  | .log =>
    settle ⟨x.positive, if x.zero = some true then some false else x.finite, above.zero,
      if x.isPositive then above.negative else none, above.positive⟩
  | .sin | .cos => if x.isReal then anyReal else unknown
  | .tanh => if x.isReal then { x with finite := some true } else unknown
  | .abs => settle ⟨some true, x.finite, x.zero, some false, x.zero.map not⟩
  | .sign => { x with finite := some true }
  | .impulse => anyReal
  | .realPart | .angle => ⟨some true, x.finite, none, none, none⟩

end Traits

namespace Formula

variable {ν : Type}

/-- The traits of what is put together from parts with known traits. -/
def traits : Formula ν → Traits
  | const c => .ofCoeff c
  | var _ => .anyReal
  | add a b =>
    if (add a b).isClosed then .ofValue (add a b).closedValue
    else .sum (sumTraits a ++ sumTraits b)
  | mul a b =>
    if (mul a b).isClosed then .ofValue (mul a b).closedValue
    else .product (productTraits a ++ productTraits b)
  | pow a b =>
    if (pow a b).isClosed then .ofValue (pow a b).closedValue
    else .power (traits a) (traits b) b.number?
  | app f x =>
    if x.isClosed then .ofValue (app f x).closedValue
    else .function f (traits x) (lessOne x)
where
  sumTraits : Formula ν → List Traits
    | add a b => sumTraits a ++ sumTraits b
    | const c => [.ofCoeff c]
    | e => [traits e]
  productTraits : Formula ν → List Traits
    | mul a b => productTraits a ++ productTraits b
    | const c => [.ofCoeff c]
    | e => [traits e]
  /-- Of a formula less one. -/
  lessOne : Formula ν → Traits
    | add (const c) b => .sum (.ofCoeff (c.add (.ofInt (-1))) :: sumTraits b)
    | e => .sum [.ofCoeff (.ofInt (-1)), traits e]

/-! ### Formulas that can be evaluated as they are written

Impulses have no value, and a real part has one if real and imaginary part of what it is taken of can be
written down: of a power with a variable exponent they cannot.
-/

/-- Can real and imaginary part be written down? -/
def hasParts : Formula ν → Bool
  | const _ => true
  | var _ => true
  | add a b | mul a b => hasParts a && hasParts b
  | pow b e => (pow b e).traits.isReal || (e.rational?.isSome && hasParts b)
  | app f x =>
    match f with
    | .exp | .sin | .cos | .tanh | .sign | .abs => hasParts x
    | .impulse => false
    | f => (app f x).traits.isReal

/-- Can the value be computed from the values of the variables? -/
def isWritable : Formula ν → Bool
  | const _ => true
  | var _ => true
  | add a b | mul a b | pow a b => isWritable a && isWritable b
  | app f x =>
    match f with
    | .impulse => false
    | .realPart => isWritable x && hasParts x
    | .angle => x.isClosed
    | _ => isWritable x

end Formula

end Galerkin
