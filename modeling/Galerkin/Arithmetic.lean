import Galerkin.Decimal.Digits

/-!
The arithmetic that geometry is computed with: exact on rationals, rounded on doubles. Everything
that needs no more than the four operations and comparison is written over `Arithmetic`.
-/

namespace Galerkin

class Arithmetic (α : Type) extends Zero α, One α, Add α, Sub α, Neg α, Mul α, Div α, LT α, LE α where
  decLt : DecidableRel (LT.lt (α := α))
  decLe : DecidableRel (LE.le (α := α))
  ofRat : Rat → α

namespace Arithmetic

instance {α : Type} [Arithmetic α] (a b : α) : Decidable (a < b) := Arithmetic.decLt a b

instance {α : Type} [Arithmetic α] (a b : α) : Decidable (a ≤ b) := Arithmetic.decLe a b

instance : Arithmetic Rat where
  zero := 0
  one := 1
  add := Rat.add
  sub := Rat.sub
  neg := Rat.neg
  mul := Rat.mul
  div := Rat.div
  lt := fun a b => a < b
  le := fun a b => a ≤ b
  decLt := fun a b => inferInstanceAs (Decidable (a < b))
  decLe := fun a b => inferInstanceAs (Decidable (a ≤ b))
  ofRat := id

instance : Arithmetic Float where
  zero := 0.0
  one := 1.0
  add := Float.add
  sub := Float.sub
  neg := Float.neg
  mul := Float.mul
  div := Float.div
  lt := fun a b => a < b
  le := fun a b => a ≤ b
  decLt := fun a b => inferInstanceAs (Decidable (a < b))
  decLe := fun a b => inferInstanceAs (Decidable (a ≤ b))
  ofRat := Decimal.ratToFloat

variable {α : Type} [Arithmetic α]

def ofNat (n : Nat) : α := ofRat n

def ofInt (n : Int) : α := ofRat n

def half : α := ofRat (mkRat 1 2)

def abs (a : α) : α := if a < 0 then -a else a

/-- The larger of two; what cannot be compared stays incomparable. -/
def max (a b : α) : α := if a < b then b else if b ≤ a then a else a + b

def sign (a : α) : α := if 0 < a then 1 else if a < 0 then -1 else 0

def isZero (a : α) : Bool := a ≤ 0 && 0 ≤ a

/-- The power with an exponent of at most `digits` binary digits, by squaring. -/
def powWithin (x : α) : Nat → Nat → α
  | 0, _ => 1
  | digits + 1, n =>
    if n = 0 then 1
    else
      let root := powWithin x digits (n / 2)
      if n % 2 = 0 then root * root else root * root * x

def natPow (x : α) (n : Nat) : α := powWithin x (Nat.log2 n + 1) n

/-- The sum of a list, from the left. -/
def total (xs : List α) : α := xs.foldl (· + ·) 0

def sumOf {β : Type} (items : List β) (f : β → α) : α := total (items.map f)

/-- The sum of the products of corresponding entries. -/
def dot (xs ys : List α) : α := total (xs.zipWith (· * ·) ys)

/-- The largest modulus, zero for no entries. -/
def largest (xs : List α) : α := xs.foldl (fun best a => max best (abs a)) 0

end Arithmetic

end Galerkin
