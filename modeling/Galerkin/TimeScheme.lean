import Galerkin.Grid
import Galerkin.Linear.Vector

/-!
One-step time schemes. A scheme gives the rate that belongs to a new state, and the derivative of that
rate by the state. With share `theta` of the new rate, a step of size `dt` obeys
`x - xPrev = dt * (theta * rate + (1 - theta) * ratePrev)`.
-/

namespace Galerkin

inductive TimeScheme (α : Type) where
  /-- Rates vanish. -/
  | static
  | backwardEuler
  | theta (share : α)
  deriving Repr

namespace TimeScheme

/-- The scheme with a share that must be positive and at most one. -/
def ofTheta (share : Number) : Except Failure (TimeScheme Float) :=
  if 0.0 < share.toFloat ∧ share.toFloat ≤ 1.0 then pure (.theta share.toFloat)
  else throw (.invalid (.theta share))

def text : TimeScheme Float → String
  | static => "Static()"
  | backwardEuler => "BackwardEuler()"
  | theta share => s!"ThetaScheme(theta={Decimal.literalText share})"

section Arithmetic

variable {α : Type} [Arithmetic α]

open Linear

/-- The share of the new rate in a step, unless rates vanish. -/
def share? : TimeScheme α → Option α
  | static => none
  | backwardEuler => some 1
  | theta share => some share

/-- The rate at the new state `x` after a step of size `dt` from a state with a rate. -/
def rate (s : TimeScheme α) (x xPrev ratePrev : Vec α) (dt : α) : Vec α :=
  match s.share? with
  | none => Vec.zeros x.length
  | some share =>
    let slope := (Vec.sub x xPrev).map (· / (share * dt))
    if share < 1 then Vec.sub slope (Vec.scale ((1 - share) / share) ratePrev) else slope

/-- The derivative of the rate by the new state. -/
def weight (s : TimeScheme α) (dt : α) : Except Failure α :=
  match s.share? with
  | none => pure 0
  | some share =>
    if Arithmetic.isZero (share * dt) then throw .divisionByZero else pure (1 / (share * dt))

/-- The rate of states that are arrays, which are aligned first. The old rate may add sides to a single
slope only. -/
def rateOfGrids (s : TimeScheme α) (x xPrev ratePrev : Grid α) (dt : α) :
    Except Failure (Grid α) := do
  match s.share? with
  | none => pure (x.map fun _ => 0)
  | some share =>
    let sides ← Grid.commonSides x.sides xPrev.sides
    let sides := if sides.isEmpty ∧ share < 1 then ratePrev.sides else sides
    let ratePrev ← if share < 1 then ratePrev.stretch sides else pure ratePrev
    pure ⟨sides, s.rate (← x.stretch sides).entries (← xPrev.stretch sides).entries ratePrev.entries dt⟩

end Arithmetic

end TimeScheme

end Galerkin
