import Galerkin.Arithmetic

/-!
Scalars are numbers with the elementary functions that weak forms may apply. The numerical parts of
the library are written over `Scalar`, so that the same definitions run on doubles and can be read
over the reals.
-/

namespace Galerkin

class Scalar (α : Type) extends Arithmetic α where
  sqrt : α → α
  exp : α → α
  log : α → α
  sin : α → α
  cos : α → α
  tanh : α → α
  pow : α → α → α
  /-- The distance from zero. -/
  modulus : α → α
  /-- The number of modulus one in the direction of a number; zero has none and stays. -/
  direction : α → α
  realPart : α → α
  /-- The angle that a number forms with the positive ones. -/
  angle : α → α
  infinity : α
  /-- Neither an overflow nor the result of an undefined operation. -/
  isFinite : α → Bool
  /-- A double nearby, for messages. -/
  toFloat : α → Float

/-- Half a turn. -/
def halfTurn : Float := 3.141592653589793

instance : Scalar Float where
  sqrt := Float.sqrt
  exp := Float.exp
  log := Float.log
  sin := Float.sin
  cos := Float.cos
  tanh := Float.tanh
  pow := Float.pow
  modulus := Arithmetic.abs
  direction := Arithmetic.sign
  realPart := id
  angle := fun x => if x < 0.0 then halfTurn else 0.0
  infinity := 1.0 / 0.0
  isFinite := Float.isFinite
  toFloat := id

end Galerkin
