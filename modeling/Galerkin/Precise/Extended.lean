import Galerkin.Precise.Functions
import Galerkin.Scalar

/-!
Complex numbers of high precision, with infinities: plus and minus infinity, an infinity without a
direction such as one over zero, and the value of what has none. Sums and products of moderate numbers
are exact in practice, quotients and functions are rounded. Formulas are evaluated in them where the
double nearest to the true value is wanted.
-/

namespace Galerkin

open Precise

inductive Extended where
  | finite (re im : Dyadic)
  | infinite (negative : Bool)
  /-- An infinity in no direction. -/
  | unsigned
  | undefined
  deriving DecidableEq, Repr

namespace Extended

/-- Binary digits of sums and products. -/
def exactBits : Nat := 4096

/-- Binary digits of quotients and functions. -/
def bits : Nat := 512

def ofReal (x : Dyadic) : Extended := finite x .zero

def ofInt (n : Int) : Extended := ofReal (Precise.ofInt n)

def zero : Extended := ofInt 0

def one : Extended := ofInt 1

def plus (x y : Dyadic) : Dyadic := Precise.add exactBits x y

def times (x y : Dyadic) : Dyadic := Precise.mul exactBits x y

def quotient (x y : Dyadic) : Dyadic := Precise.divide bits x y

/-- Exact if the denominator is a power of two and the number is of moderate size. -/
def ofRat (r : Rat) : Extended :=
  if exactBits < Nat.log2 r.num.natAbs + Nat.log2 r.den then ofReal (Precise.ofRat bits r)
  else ofReal ((Precise.ofRat? r).getD (Precise.ofRat bits r))

def ofFloat (x : Float) : Extended :=
  match Precise.ofFloat? x with
  | some d => ofReal d
  | none => if x.isNaN then undefined else infinite (x < 0.0)

def neg : Extended → Extended
  | finite a b => finite (-a) (-b)
  | infinite negative => infinite !negative
  | x => x

def isInfinite : Extended → Bool
  | infinite _ | unsigned => true
  | _ => false

/-- Infinities add up only if they agree. -/
def add : Extended → Extended → Extended
  | finite a b, finite c d => finite (plus a c) (plus b d)
  | undefined, _ | _, undefined => undefined
  | infinite m, infinite n => if m = n then infinite m else undefined
  | unsigned, y => if y.isInfinite then undefined else unsigned
  | x, unsigned => if x.isInfinite then undefined else unsigned
  | infinite m, _ => infinite m
  | _, infinite n => infinite n

/-- An infinity turned into the direction of a number. -/
def infinityTimes (negative : Bool) (a b : Dyadic) : Extended :=
  if b ≠ .zero then unsigned
  else if a = .zero then undefined
  else infinite (negative != isNegative a)

def mul : Extended → Extended → Extended
  | finite a b, finite c d =>
    if b = .zero ∧ d = .zero then finite (times a c) .zero
    else finite (plus (times a c) (-(times b d))) (plus (times a d) (times b c))
  | undefined, _ | _, undefined => undefined
  | infinite m, infinite n => infinite (m != n)
  | infinite m, finite a b | finite a b, infinite m => infinityTimes m a b
  | unsigned, finite a b | finite a b, unsigned =>
    if a = .zero ∧ b = .zero then undefined else unsigned
  | _, _ => unsigned

def isZero (x : Extended) : Bool := x = zero

/-- Zero has no inverse, infinities have zero. -/
def inverse : Extended → Extended
  | finite a b =>
    if a = .zero ∧ b = .zero then unsigned
    else if b = .zero then finite (quotient (Precise.ofInt 1) a) .zero
    else
      let size := plus (times a a) (times b b)
      finite (quotient a size) (-(quotient b size))
  | undefined => undefined
  | _ => zero

def div (x y : Extended) : Extended :=
  match x, y with
  | finite a b, finite c d =>
    if d = .zero ∧ c ≠ .zero then finite (quotient a c) (quotient b c) else mul x (inverse y)
  | x, y => mul x (inverse y)

/-! ### Comparison of real numbers -/

/-- A real number, plain or infinite, as a key to compare. -/
def below : Extended → Extended → Bool
  | finite a b, finite c d => decide (b = .zero ∧ d = .zero ∧ a < c)
  | infinite m, finite _ d => m && decide (d = .zero)
  | finite _ b, infinite n => !n && decide (b = .zero)
  | infinite m, infinite n => m && !n
  | _, _ => false

def atMost (x y : Extended) : Bool :=
  below x y || (decide (x = y) && match x with
    | finite _ b => decide (b = .zero)
    | infinite _ => true
    | _ => false)

instance : Arithmetic Extended where
  zero := zero
  one := one
  add := add
  sub := fun x y => add x (neg y)
  neg := neg
  mul := mul
  div := div
  lt := fun x y => below x y = true
  le := fun x y => atMost x y = true
  decLt := fun x y => inferInstanceAs (Decidable (below x y = true))
  decLe := fun x y => inferInstanceAs (Decidable (atMost x y = true))
  ofRat := ofRat

/-! ### Functions -/

def modulusOf (a b : Dyadic) : Dyadic :=
  if b = .zero then Precise.abs a
  else if a = .zero then Precise.abs b
  else squareRoot bits (plus (times a a) (times b b))

def modulus : Extended → Extended
  | finite a b => ofReal (modulusOf a b)
  | undefined => undefined
  | _ => infinite false

def direction : Extended → Extended
  | finite a b =>
    if b = .zero then (if a = .zero then zero else ofInt (if isNegative a then -1 else 1))
    else div (finite a b) (ofReal (modulusOf a b))
  | infinite negative => ofInt (if negative then -1 else 1)
  | _ => undefined

def realPart : Extended → Extended
  | finite a _ => ofReal a
  | x => x

def angle : Extended → Extended
  | finite a b => if a = .zero ∧ b = .zero then undefined else ofReal (Precise.angle bits a b)
  | infinite negative => ofReal (if negative then pi bits else .zero)
  | _ => undefined

def half (x : Dyadic) : Dyadic := x * .ofIntWithPrec 1 1

/-- The square root with a real part that is not negative. -/
def sqrt : Extended → Extended
  | finite a b =>
    if b = .zero then
      if isNegative a then finite .zero (squareRoot bits (-a)) else ofReal (squareRoot bits a)
    else
      let size := modulusOf a b
      let re := squareRoot bits (half (plus size a))
      let im := squareRoot bits (half (plus size (-a)))
      finite re (if isNegative b then -im else im)
  | infinite true => unsigned
  | x => x

def exp : Extended → Extended
  | finite a b =>
    match Precise.exp? bits a, sinCos? bits b with
    | some size, some (s, c) =>
      if b = .zero then ofReal size else finite (times size c) (times size s)
    | none, _ => if b = .zero then infinite false else unsigned
    | _, none => undefined
  | infinite negative => if negative then zero else infinite false
  | _ => undefined

def log : Extended → Extended
  | finite a b =>
    if a = .zero ∧ b = .zero then unsigned
    else finite (Precise.log bits (modulusOf a b)) (Precise.angle bits a b)
  | infinite _ => infinite false
  | x => x

/-- From sine and cosine of the real part and their hyperbolic companions of the imaginary one. -/
def trigonometric (combine : Dyadic → Dyadic → Dyadic → Dyadic → Extended) : Extended → Extended
  | finite a b =>
    match sinCos? bits a, sinhCosh? bits b with
    | some (s, c), some (sh, ch) => combine s c sh ch
    | _, _ => undefined
  | _ => undefined

def sin (x : Extended) : Extended :=
  trigonometric (fun s c sh ch => finite (times s ch) (times c sh)) x

def cos (x : Extended) : Extended :=
  trigonometric (fun s c sh ch => finite (times c ch) (-(times s sh))) x

def tanh : Extended → Extended
  | finite a b =>
    if b = .zero then ofReal (Precise.tanh bits a)
    else
      let e := exp (finite (a + a) (b + b))
      match e with
      | finite _ _ => div (add e (ofInt (-1))) (add e one)
      | _ => ofInt (if isNegative a then -1 else 1)
  | infinite negative => ofInt (if negative then -1 else 1)
  | _ => undefined

/-- The power of a number that is not zero by way of its logarithm. -/
def generalPower (x y : Extended) : Extended := exp (mul y (log x))

def infinitePower (x : Extended) (y : Dyadic) (n : Option Int) : Extended :=
  if y = .zero then one
  else if isNegative y then zero
  else match x, n with
    | infinite true, some n => infinite (n % 2 = 1)
    | infinite true, none => unsigned
    | x, _ => x

/-- The largest exponent that is worked out by multiplication. -/
def multiplicationLimit : Nat := 1048576

def pow (x y : Extended) : Extended :=
  match x, y with
  | undefined, _ | _, undefined | _, unsigned => undefined
  | x, infinite negative =>
    match modulus x with
    | finite size _ =>
      if size = Precise.ofInt 1 then undefined
      else if decide (size < Precise.ofInt 1) != negative then zero
      else if x.below zero || negative then unsigned
      else infinite false
    | size => if negative then zero else size
  | finite a b, finite c d =>
    if a = .zero ∧ b = .zero then
      if c = .zero ∧ d = .zero then one
      else if isNegative c then unsigned
      else if c = .zero then undefined
      else zero
    else if d = .zero then
      match integer? c with
      | some n =>
        if multiplicationLimit < n.natAbs then generalPower x y
        else
          let whole := Arithmetic.natPow (finite a b) n.natAbs
          if n < 0 then inverse whole else whole
      | none =>
        if c = half (Precise.ofInt 1) then sqrt x
        else if c = -(half (Precise.ofInt 1)) then inverse (sqrt x)
        else generalPower x y
    else generalPower x y
  | x, finite c d => if d = .zero then infinitePower x c (integer? c) else undefined

/-- Is an imaginary part no more than what rounding leaves? -/
def isNegligible (re im : Dyadic) : Bool :=
  match magnitude? im, magnitude? re with
  | none, _ => true
  | some m, some n => m + 200 < n || m < -400
  | some m, none => m < -400

/-- The nearest double; what is not real has none. -/
def toFloat : Extended → Float
  | finite a b => if isNegligible a b then Precise.toFloat a else 0.0 / 0.0
  | infinite negative => if negative then -1.0 / 0.0 else 1.0 / 0.0
  | _ => 0.0 / 0.0

def isFinite : Extended → Bool
  | finite _ _ => true
  | _ => false

instance : Scalar Extended where
  sqrt := sqrt
  exp := exp
  log := log
  sin := sin
  cos := cos
  tanh := tanh
  pow := pow
  modulus := modulus
  direction := direction
  realPart := realPart
  angle := angle
  infinity := infinite false
  isFinite := isFinite
  toFloat := toFloat

end Extended

end Galerkin
