import Galerkin.Decimal.Style
import Galerkin.Precise.Extended

/-!
The numbers in formulas. Exact ones are rational. Those that descend from a literal with decimals are
binary with sixty digits: an exact number next to one is rounded first, and a result of zero is exact.
There are also two signed infinities, one without a direction, and the number that is none.
-/

namespace Galerkin

inductive Coeff where
  | exact (r : Rat)
  /-- Never zero. -/
  | decimal (d : Dyadic)
  | infinite (negative : Bool)
  | unsigned
  | undefined
  deriving DecidableEq, Repr, Inhabited

namespace Coeff

open Precise (isNegative)

/-- Binary digits of a decimal. -/
def digits : Nat := 60

def ofRat (r : Rat) : Coeff := exact r

def ofInt (n : Int) : Coeff := exact n

def zero : Coeff := ofRat 0

def one : Coeff := ofRat 1

/-- A computed decimal. -/
def ofDyadic (d : Dyadic) : Coeff := if d = .zero then zero else decimal (Precise.round digits d)

def isZero (c : Coeff) : Bool := c = zero

def isOne (c : Coeff) : Bool := c = one

def isFinite : Coeff → Bool
  | exact _ | decimal _ => true
  | _ => false

def isDecimal : Coeff → Bool
  | decimal _ => true
  | _ => false

/-- Is this less than zero? -/
def isNegative : Coeff → Bool
  | exact r => r < 0
  | decimal d => Precise.isNegative d
  | infinite negative => negative
  | _ => false

/-- Is this more than zero? -/
def isPositive : Coeff → Bool
  | exact r => 0 < r
  | decimal d => !Precise.isNegative d
  | infinite negative => !negative
  | _ => false

def rational? : Coeff → Option Rat
  | exact r => some r
  | _ => none

/-- An exact integer. -/
def integer? (c : Coeff) : Option Int := c.rational?.bind fun r => if r.den = 1 then some r.num else none

def isInteger (c : Coeff) : Bool := c.integer?.isSome

def isEven (c : Coeff) : Bool := match c.integer? with
  | some n => n % 2 = 0
  | none => false

def isOdd (c : Coeff) : Bool := match c.integer? with
  | some n => n % 2 ≠ 0
  | none => false

/-- Is this an odd number of halves? -/
def isHalf (c : Coeff) : Bool := match c.rational? with
  | some r => r.den = 2
  | none => false

/-- A finite number in sixty digits. -/
def rounded? : Coeff → Option Dyadic
  | exact r => some (Precise.ofRat digits r)
  | decimal d => some d
  | _ => none

def isInfinite : Coeff → Bool
  | infinite _ | unsigned => true
  | _ => false

def neg : Coeff → Coeff
  | exact r => exact (-r)
  | decimal d => decimal (-d)
  | infinite negative => infinite !negative
  | c => c

def abs : Coeff → Coeff
  | unsigned => infinite false
  | c => if c.isNegative then c.neg else c

def add : Coeff → Coeff → Coeff
  | exact a, exact b => exact (a + b)
  | undefined, _ | _, undefined => undefined
  | infinite m, infinite n => if m = n then infinite m else undefined
  | unsigned, y => if y.isInfinite then undefined else unsigned
  | x, unsigned => if x.isInfinite then undefined else unsigned
  | infinite m, _ => infinite m
  | _, infinite n => infinite n
  | x, y =>
    match x.rounded?, y.rounded? with
    | some a, some b => ofDyadic (Precise.add (2 * digits) a b)
    | _, _ => undefined

def mul : Coeff → Coeff → Coeff
  | exact a, exact b => exact (a * b)
  | undefined, _ | _, undefined => undefined
  | infinite m, infinite n => infinite (m != n)
  | unsigned, y => if y.isZero then undefined else unsigned
  | x, unsigned => if x.isZero then undefined else unsigned
  | infinite m, y => if y.isZero then undefined else infinite (m != y.isNegative)
  | x, infinite n => if x.isZero then undefined else infinite (n != x.isNegative)
  | x, y =>
    match x.rounded?, y.rounded? with
    | some a, some b => ofDyadic (a * b)
    | _, _ => undefined

def inverse : Coeff → Coeff
  | exact r => if r = 0 then unsigned else exact r⁻¹
  | decimal d => decimal (Precise.divide digits (Precise.ofInt 1) d)
  | undefined => undefined
  | _ => zero

/-- A quotient. With a decimal on top it is rounded once, with one below only it is a product with the
inverse. -/
def div (x y : Coeff) : Coeff :=
  match x, y with
  | undefined, _ | _, undefined => undefined
  | exact a, exact b => if b = 0 then (if a = 0 then undefined else unsigned) else exact (a / b)
  | decimal a, y =>
    match y.rounded? with
    | some b => if b = .zero then unsigned else decimal (Precise.divide digits a b)
    | none => zero
  | infinite m, y =>
    match y with
    | infinite _ | unsigned => undefined
    | y => infinite (m != y.isNegative)
  | unsigned, y => if y.isFinite then unsigned else undefined
  | x, y => x.mul y.inverse

/-- Powers of numbers with more binary digits than this are not worked out. -/
def sizeLimit : Nat := 4194304

/-- How many binary digits the power of a finite number takes. -/
def powerSize (c : Coeff) (n : Int) : Nat :=
  match c with
  | exact r => (Nat.log2 r.num.natAbs + Nat.log2 r.den) * n.natAbs
  | _ => 0

/-- A decimal to a natural power, by squaring with spare digits. -/
def decimalPower (d : Dyadic) : Nat → Nat → Dyadic
  | 0, _ => Precise.ofInt 1
  | depth + 1, n =>
    if n = 0 then Precise.ofInt 1
    else
      let root := decimalPower d depth (n / 2)
      let square := Precise.mul (8 * digits) root root
      if n % 2 = 0 then square else Precise.mul (8 * digits) square d

/-- An integer power, unless it is too large to be worked out. -/
def intPower? (c : Coeff) (n : Int) : Option Coeff :=
  if n = 0 then some one
  else if sizeLimit < c.powerSize n then none
  else match c with
    | exact r =>
      if r = 0 then some (if n < 0 then unsigned else zero)
      else
        let p : Rat := Rat.zpow r n
        some (exact p)
    | decimal d =>
      let p := decimalPower d (Nat.log2 n.natAbs + 1) n.natAbs
      some (ofDyadic (if n < 0 then Precise.divide (2 * digits) (Precise.ofInt 1) p else p))
    | infinite negative =>
      some (if n < 0 then zero else infinite (negative && n % 2 ≠ 0))
    | unsigned => some (if n < 0 then zero else unsigned)
    | undefined => some undefined

/-- The nearest decimal to a computed real number. -/
def ofExtended? : Extended → Option Coeff
  | .finite a b => if Extended.isNegligible a b then some (ofDyadic a) else none
  | .infinite negative => some (infinite negative)
  | _ => none

/-- A coefficient whose decimals are no finer than a double. -/
def asDouble : Coeff → Coeff
  | decimal d => decimal (Precise.round 53 d)
  | c => c

def text : Coeff → String
  | exact r => if r.den = 1 then toString r.num else s!"{r.num}/{r.den}"
  | decimal d => Decimal.exactText d.toRat
  | infinite negative => if negative then "-oo" else "oo"
  | unsigned => "zoo"
  | undefined => "nan"

def rank : Coeff → Nat
  | exact _ => 0 | decimal _ => 1 | infinite _ => 2 | unsigned => 3 | undefined => 4

/-- A total order; it decides only how normal forms are arranged. -/
def compare : Coeff → Coeff → Ordering
  | exact a, exact b => if a < b then .lt else if b < a then .gt else .eq
  | decimal a, decimal b => if a < b then .lt else if b < a then .gt else .eq
  | infinite m, infinite n => Ord.compare m n
  | x, y => Ord.compare x.rank y.rank

/-- Compares the values of two finite numbers. -/
def compareSize (x y : Coeff) : Ordering :=
  match x, y with
  | exact a, exact b => if a < b then .lt else if b < a then .gt else .eq
  | x, y =>
    match x.rounded?, y.rounded? with
    | some a, some b => if a < b then .lt else if b < a then .gt else .eq
    | some _, none => .lt
    | none, some _ => .gt
    | none, none => .eq

/-- The value among some scalars. An infinity without a direction has none. -/
def eval {α : Type} [Scalar α] : Coeff → α
  | exact r => Arithmetic.ofRat r
  | decimal d => Arithmetic.ofRat d.toRat
  | infinite negative => if negative then -Scalar.infinity else Scalar.infinity
  | unsigned | undefined => 0 / 0

end Coeff

end Galerkin
