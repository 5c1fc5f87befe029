import Galerkin.Failure

/-!
Arithmetic on number literals. Whole numbers stay whole under sums, differences, products and powers
with exponents that are not negative; everything else is computed with doubles, and a whole number
that is too large for a double has no place there. Fractional powers of negative numbers are complex:
no expression holds them, but numbers may be computed with them before.
-/

namespace Galerkin.Number

/-- Whole numbers and truth values, which count as zero and one. -/
def whole? : Number → Option Int
  | int n => some n
  | bool b => some (if b then 1 else 0)
  | real _ => none

/-- A number under a plus sign: truth values become whole numbers. -/
def positive (a : Number) : Number := (a.whole?.map int).getD a

/-- The nearest double; whole numbers beyond every double have none. -/
def toDouble (a : Number) : Except Failure Float :=
  let x := a.toFloat
  if a.whole?.isSome && !x.isFinite then throw .overflow else pure x

/-- Applies the first operation to two whole numbers, and the second to others. -/
def combine (whole : Int → Int → Int) (other : Float → Float → Float) (a b : Number) :
    Except Failure Number :=
  match a.whole?, b.whole? with
  | some x, some y => pure (int (whole x y))
  | _, _ => do
    let x ← a.toDouble
    let y ← b.toDouble
    pure (real (other x y))

def add (a b : Number) : Except Failure Number := combine (· + ·) (· + ·) a b

def sub (a b : Number) : Except Failure Number := combine (· - ·) (· - ·) a b

def mul (a b : Number) : Except Failure Number := combine (· * ·) (· * ·) a b

/-- A quotient is a double; that of whole numbers is rounded once. -/
def div (a b : Number) : Except Failure Number :=
  match a.whole?, b.whole? with
  | some x, some y =>
    let q := Decimal.ratToFloat ((x : Rat) / (y : Rat))
    if y = 0 then throw .divisionByZero
    else if q.isFinite then pure (real q) else throw .overflow
  | _, _ => do
    let x ← a.toDouble
    let y ← b.toDouble
    if y == 0.0 then throw .divisionByZero else pure (real (x / y))

def isWholeDouble (x : Float) : Bool := !x.isFinite || x.floor == x

/-- Negative numbers have whole powers only; the other powers are not real. -/
def hasRealPower (x y : Float) : Bool := !(x < 0.0 && x.isFinite && y.isFinite && !isWholeDouble y)

/-- A real power of doubles. Zero has no negative powers, but its power at minus infinity is infinite. -/
def powDouble (x y : Float) : Except Failure Float :=
  if x == 0.0 && y < 0.0 && y.isFinite then throw .divisionByZero
  else
    let z := Float.pow x y
    if !z.isFinite && x.isFinite && y.isFinite then throw .overflow else pure z

/-- A whole power of a whole number; those of zero, one and minus one are known for any exponent. -/
def powWhole (x : Int) (n : Nat) : Int :=
  if n = 0 || x = 1 then 1
  else if x = 0 then 0
  else if x = -1 then (if n % 2 = 0 then 1 else -1)
  else Int.pow x n

end Galerkin.Number

/-! ### Complex numbers -/

namespace Galerkin

structure Complex where
  re : Float
  im : Float
  deriving Repr

namespace Complex

def ofReal (x : Float) : Complex := ⟨x, 0.0⟩

def ofNumber (n : Number) : Except Failure Complex := do pure (ofReal (← n.toDouble))

def isZero (a : Complex) : Bool := a.re == 0.0 && a.im == 0.0

def neg (a : Complex) : Complex := ⟨-a.re, -a.im⟩

def add (a b : Complex) : Complex := ⟨a.re + b.re, a.im + b.im⟩

def sub (a b : Complex) : Complex := ⟨a.re - b.re, a.im - b.im⟩

def mul (a b : Complex) : Complex := ⟨a.re * b.re - a.im * b.im, a.re * b.im + a.im * b.re⟩

def div (a b : Complex) : Except Failure Complex :=
  if b.isZero then throw .divisionByZero
  else
    let size := b.re * b.re + b.im * b.im
    pure ⟨(a.re * b.re + a.im * b.im) / size, (a.im * b.re - a.re * b.im) / size⟩

/-- The power `exp (b * log a)`. Zero has powers with positive exponents only, and a power may be too large. -/
def pow (a b : Complex) : Except Failure Complex :=
  if b.isZero then pure (ofReal 1.0)
  else if a.isZero then
    if b.im != 0.0 || b.re < 0.0 then throw .divisionByZero else pure (ofReal 0.0)
  else
    let size := Float.log (Float.sqrt (a.re * a.re + a.im * a.im))
    let angle := Float.atan2 a.im a.re
    let radius := Float.exp (b.re * size - b.im * angle)
    let turn := b.re * angle + b.im * size
    let z : Complex := ⟨radius * Float.cos turn, radius * Float.sin turn⟩
    if z.re.isInf || z.im.isInf then throw .overflow else pure z

end Complex

end Galerkin
