import Galerkin.Cell
import Galerkin.Scalar

/-!
Quadrature on the reference cells. Cubes take products of a rule for the interval [-1, 1]; simplices
take the image of such a product under the map that collapses a cube, weighted with its Jacobian.
The rule for the interval is a parameter, and `gaussLegendre` computes the one that is used.
-/

namespace Galerkin

structure QuadraturePoint (α : Type) where
  position : List α
  weight : α
  deriving Repr

abbrev Rule (α : Type) := List (QuadraturePoint α)

/-- Points and weights on an interval, for every number of points. -/
abbrev LineRules (α : Type) := Nat → List (α × α)

namespace Quadrature

/-- The number of Gauss points that integrates degree `degree + extra` exactly, at least one. -/
def pointsPerAxis (degree : Int) (extra : Nat) : Nat :=
  Nat.max 1 (Int.fdiv (degree + extra + 2) 2).toNat

section Rules

variable {α : Type} [Arithmetic α]

open Arithmetic

/-- A rule for [-1, 1] carried over to [0, 1]. -/
def onUnit (line : List (α × α)) : List (α × α) :=
  line.map fun (x, w) => (half * (x + 1), half * w)

def lineRule (line : List (α × α)) : Rule α := line.map fun (x, w) => ⟨[x], w⟩

def quadRule (line : List (α × α)) : Rule α :=
  line.flatMap fun (x, wx) => line.map fun (y, wy) => ⟨[x, y], wx * wy⟩

def hexRule (line : List (α × α)) : Rule α :=
  line.flatMap fun (x, wx) => line.flatMap fun (y, wy) => line.map fun (z, wz) =>
    ⟨[x, y, z], wx * wy * wz⟩

def triRule (unit : List (α × α)) : Rule α :=
  unit.flatMap fun (u, wu) => unit.map fun (v, wv) =>
    ⟨[u, v * (1 - u)], wu * wv * (1 - u)⟩

def tetRule (unit : List (α × α)) : Rule α :=
  unit.flatMap fun (u, wu) => unit.flatMap fun (v, wv) => unit.map fun (w, ww) =>
    ⟨[u, v * (1 - u), w * (1 - u) * (1 - v)],
      wu * wv * ww * ((1 - u) * (1 - u)) * (1 - v)⟩

/-- The rule of a cell that is exact up to a total degree when the interval's rules are Gauss rules. -/
def ofCell (lines : LineRules α) (c : Cell) (degree : Int) : Rule α :=
  match c with
  | .point => [⟨[], 1⟩]
  | .line => lineRule (lines (pointsPerAxis degree 0))
  | .quad => quadRule (lines (pointsPerAxis degree 0))
  | .hex => hexRule (lines (pointsPerAxis degree 0))
  | .tri => triRule (onUnit (lines (pointsPerAxis degree 1)))
  | .tet => tetRule (onUnit (lines (pointsPerAxis degree 2)))

def ofName (lines : LineRules α) (shape : String) (degree : Int) : Except Failure (Rule α) :=
  match (Cell.point :: Cell.bodies).find? fun c => c.name == shape with
  | some c => pure (ofCell lines c degree)
  | none => throw (.missing (.quadrature shape))

end Rules

section Gauss

variable {α : Type} [Scalar α]

open Arithmetic

/-- The Legendre polynomials of degree `n` and `n - 1` at `x`. -/
def legendre (x : α) : Nat → α × α
  | 0 => (1, 0)
  | n + 1 =>
    let (p, q) := legendre x n
    ((ofNat (2 * n + 1) * x * p - ofNat n * q) / ofNat (n + 1), p)

/-- The derivative of the Legendre polynomial of degree `n` inside the interval. -/
def legendreSlope (n : Nat) (x : α) : α :=
  let (p, q) := legendre x n
  ofNat n * (q - x * p) / (1 - x * x)

/-- Newton steps towards a zero of a Legendre polynomial. -/
def refine (n : Nat) : Nat → α → α
  | 0, x => x
  | steps + 1, x => refine n steps (x - (legendre x n).1 / legendreSlope n x)

def newtonSteps : Nat := 12

/-- The asymptotic place of the zero numbered `i` from the upper end. -/
def guess (n i : Nat) : α :=
  Scalar.cos (ofRat (mkRat 3141592653589793 1000000000000000) * ofRat (mkRat (4 * i + 3) (4 * n + 2)))

def gaussPoint (n i : Nat) : α × α :=
  let x := if 2 * i + 1 = n then 0 else refine n newtonSteps (guess n i)
  let slope := legendreSlope n x
  (x, ofNat 2 / ((1 - x * x) * slope * slope))

/-- The Gauss–Legendre rule with `n` points, in ascending order and symmetric about zero. -/
def gaussLegendre : LineRules α := fun n =>
  let upper : List (α × α) := (List.range (n / 2)).map (gaussPoint n)
  let lower := upper.map fun (x, w) => (-x, w)
  let middle := if n % 2 = 1 then [gaussPoint n (n / 2)] else []
  lower ++ middle ++ upper.reverse

/-- The rule with a given number of points, at least one. -/
def gauss (n : Number) : Except Failure (List (α × α)) :=
  if n.toFloat < 1.0 then throw (.invalid (.gaussPoints n))
  else match n with
    | .int n => pure (gaussLegendre n.toNat)
    | .bool _ => pure (gaussLegendre 1)
    | .real _ => throw .unsupported

end Gauss

end Quadrature

end Galerkin
