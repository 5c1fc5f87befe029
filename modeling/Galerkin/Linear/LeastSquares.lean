import Galerkin.Linear.Vector

/-!
Least squares. Of all coefficients for which a combination of columns comes nearest to a target, the
shortest ones are wanted. `shortest` finds them by rotating pairs of columns until all are
orthogonal; columns that are negligible against the longest then count as zero.
-/

namespace Galerkin.Linear

/-- A method that finds coefficients for some columns and a target. -/
abbrev LeastSquares (α : Type) := List (Vec α) → Vec α → List α

namespace LeastSquares

variable {α : Type} [Scalar α]

open Arithmetic

/-- A column, and the combination of the given columns that it is. -/
structure Column (α : Type) where
  vector : Vec α
  combination : Vec α

def Column.rotate (c s : α) (p q : Column α) : Column α × Column α :=
  let turn := fun (a b : Vec α) =>
    (List.zipWith (fun x y => c * x - s * y) a b, List.zipWith (fun x y => s * x + c * y) a b)
  let (v, w) := turn p.vector q.vector
  let (a, b) := turn p.combination q.combination
  (⟨v, a⟩, ⟨w, b⟩)

/-- Rotates two columns so that they become orthogonal. -/
def orthogonalize (p q : Column α) : Column α × Column α :=
  let alpha := dot p.vector p.vector
  let beta := dot q.vector q.vector
  let gamma := dot p.vector q.vector
  if isZero gamma then (p, q)
  else
    let zeta := (beta - alpha) / (ofNat 2 * gamma)
    let t := (if zeta < 0 then -1 else 1) / (abs zeta + Scalar.sqrt (1 + zeta * zeta))
    let c := 1 / Scalar.sqrt (1 + t * t)
    Column.rotate c (c * t) p q

/-- Makes one column orthogonal to each of some others in turn. -/
def sweepOne (p : Column α) : List (Column α) → Column α × List (Column α)
  | [] => (p, [])
  | q :: rest =>
    let (p, q) := orthogonalize p q
    let (p, rest) := sweepOne p rest
    (p, q :: rest)

theorem length_sweepOne (p : Column α) (qs : List (Column α)) :
    (sweepOne p qs).2.length = qs.length := by
  induction qs generalizing p with
  | nil => rfl
  | cons q rest ih => simp [sweepOne, ih]

/-- One round over all pairs of columns. -/
def sweep : List (Column α) → List (Column α)
  | [] => []
  | p :: rest =>
    let swept := sweepOne p rest
    swept.1 :: sweep swept.2
termination_by columns => columns.length
decreasing_by simp [length_sweepOne]

def sweeps : Nat → List (Column α) → List (Column α)
  | 0, columns => columns
  | n + 1, columns => sweeps n (sweep columns)

/-- Enough rounds for the column counts that occur. -/
def rounds : Nat := 40

/-- The distance of one from the next double. -/
def epsilon : α := ofRat (mkRat 1 (Nat.pow 2 52))

def units (n : Nat) : List (Vec α) :=
  (List.range n).map fun i => (List.range n).map fun j => if i = j then 1 else 0

/-- The shortest coefficients for columns and a target of moderate size. -/
def shortestScaled (columns : List (Vec α)) (target : Vec α) : List α :=
  let n := columns.length
  let turned := sweeps rounds (List.zipWith Column.mk columns (units n))
  let sizes := turned.map fun c => Vec.norm c.vector
  let cutoff := epsilon * ofNat (Nat.max n target.length) * largest sizes
  let shares := List.zipWith (fun (c : Column α) size =>
    if size ≤ cutoff then 0 else dot c.vector target / (size * size)) turned sizes
  Vec.addCombination (Vec.zeros n) shares (turned.map (·.combination))

/-- The size of the largest entry, one if all are zero. -/
def unitOf (entries : List α) : α :=
  let size := largest entries
  if isZero size then 1 else size

/-- The shortest coefficients with the least error. Columns and target are measured in units of their largest entries, so that squares stay in range. -/
def shortest : LeastSquares α := fun columns target =>
  let columnUnit := unitOf columns.flatten
  let targetUnit := unitOf target
  let coeffs := shortestScaled (columns.map fun c => c.map (· / columnUnit)) (target.map (· / targetUnit))
  coeffs.map fun c => c * (targetUnit / columnUnit)

end LeastSquares

end Galerkin.Linear
