import Galerkin.Decimal.Digits

/-!
Integers times powers of two, which hold every double exactly, and rounding to a number of bits. Sums
and products are exact; quotients and square roots are rounded to the nearest number with so many bits,
ties to the even one.
-/

namespace Galerkin.Precise

instance reprDyadic : Repr Dyadic := ⟨fun x p => reprPrec x.toRat p⟩

instance inhabitedDyadic : Inhabited Dyadic := ⟨.zero⟩

/-- The number of binary digits of a natural number. -/
def bitLength (n : Nat) : Nat := if n = 0 then 0 else Nat.log2 n + 1

/-- `n * 2^exponent`, negated if asked for. -/
def scaled (negative : Bool) (n : Nat) (exponent : Int) : Dyadic :=
  .ofIntWithPrec (if negative then -(n : Int) else n) (-exponent)

/-- The nearest number with `bits` binary digits to `n * 2^exponent`, whose digits behind the last one of
`n` are all zero unless `more` is set. -/
def roundScaled (bits : Nat) (negative : Bool) (n : Nat) (exponent : Int) (more : Bool) : Dyadic :=
  let surplus := bitLength n - bits
  if surplus = 0 then scaled negative n exponent
  else
    let kept := n >>> surplus
    let rest := n - (kept <<< surplus)
    let half := 1 <<< (surplus - 1)
    let up := half < rest || (rest = half && (more || kept % 2 = 1))
    scaled negative (if up then kept + 1 else kept) (exponent + surplus)

/-- Mantissa and exponent of a number. -/
def parts : Dyadic → Int × Int
  | .zero => (0, 0)
  | .ofOdd n k _ => (n, -k)

def round (bits : Nat) (x : Dyadic) : Dyadic :=
  match x with
  | .zero => x
  | .ofOdd n k _ =>
    if bitLength n.natAbs ≤ bits then x else roundScaled bits (n < 0) n.natAbs (-k) false

/-- The exponent of the first binary digit; zero has none. -/
def magnitude? : Dyadic → Option Int
  | .zero => none
  | .ofOdd n k _ => some ((Nat.log2 n.natAbs : Int) - k)

def isNegative (x : Dyadic) : Bool := (parts x).1 < 0

def abs (x : Dyadic) : Dyadic := if isNegative x then -x else x

/-- The quotient of two naturals, scaled by a power of two. -/
def divideScaled (bits : Nat) (negative : Bool) (n d : Nat) (exponent : Int) : Dyadic :=
  let shift := bits + 2 + bitLength d - bitLength n
  let wide := n <<< shift
  roundScaled bits negative (wide / d) (exponent - shift) (wide % d ≠ 0)

/-- The quotient by a number that is not zero. -/
def divide (bits : Nat) (x y : Dyadic) : Dyadic :=
  let (n, e) := parts x
  let (d, f) := parts y
  divideScaled bits ((n < 0) != (d < 0)) n.natAbs d.natAbs (e - f)

def ofRat (bits : Nat) (r : Rat) : Dyadic := divideScaled bits (r.num < 0) r.num.natAbs r.den 0

def ofInt (n : Int) : Dyadic := .ofIntWithPrec n 0

/-- The exact value of a rational whose denominator is a power of two. -/
def ofRat? (r : Rat) : Option Dyadic :=
  let k := Nat.log2 r.den
  if r.den = 1 <<< k then some (.ofIntWithPrec r.num k) else none

/-- The square root of a number that is not negative. -/
def squareRoot (bits : Nat) (x : Dyadic) : Dyadic :=
  let (n, e) := parts x
  let n := n.natAbs
  let wanted := 2 * bits + 4 - bitLength n
  let shift := if (e - (wanted : Int)) % 2 = 0 then wanted else wanted + 1
  let wide := n <<< shift
  let root := Nat.sqrt wide
  roundScaled bits false root ((e - (shift : Int)) / 2) (root * root ≠ wide)

/-- Is the value an integer? -/
def integer? (x : Dyadic) : Option Int :=
  let (n, e) := parts x
  if 0 ≤ e ∧ e < 4096 then some (n <<< e.toNat) else none

/-- The largest integer that is not above a number. -/
def floor (x : Dyadic) : Int :=
  let (n, e) := parts x
  if 0 ≤ e then n <<< e.toNat else n >>> (-e).toNat

/-- The exact value of a finite double. -/
def ofFloat? (x : Float) : Option Dyadic :=
  (Decimal.Binary.ofFloat? x).map fun b => scaled b.negative b.mantissa b.exponent

/-- The nearest double, infinite if the number is too large. -/
def toFloat (x : Dyadic) : Float :=
  match magnitude? x with
  | none => 0.0
  | some m =>
    if 1024 < m then (if isNegative x then -1.0 / 0.0 else 1.0 / 0.0)
    else if m < -1100 then 0.0
    else Decimal.ratToFloat x.toRat

/-- Is a number smaller than `2^exponent` in size? -/
def below (exponent : Int) (x : Dyadic) : Bool :=
  match magnitude? x with
  | none => true
  | some m => m < exponent

/-- A sum to `bits` binary digits. A summand that is too small to count is left out. -/
def add (bits : Nat) (x y : Dyadic) : Dyadic :=
  match magnitude? x, magnitude? y with
  | none, _ => y
  | _, none => x
  | some m, some n =>
    if n + 2 * (bits : Int) < m then x
    else if m + 2 * (bits : Int) < n then y
    else round bits (x + y)

def mul (bits : Nat) (x y : Dyadic) : Dyadic := round bits (x * y)

end Galerkin.Precise
