import Galerkin.Grid
import Galerkin.Mesh.Basic

/-!
Tests that pick facets by one coordinate of their centroids.
-/

namespace Galerkin

/-- Is a coordinate near a value, or below a bound? -/
inductive CoordinateTest (α : Type) where
  | near (value tolerance : α)
  | below (bound : α)
  deriving Repr

/-- A test that judges the centroids of facets all at once. -/
inductive CentroidTest (α : Type) where
  | coordinate (axis : Int) (test : CoordinateTest α)
  /-- A test that gives one answer too many. -/
  | miscounting
  deriving Repr

variable {α : Type} [Arithmetic α]

def CoordinateTest.holds (x : α) : CoordinateTest α → Bool
  | near value tolerance => Arithmetic.abs (x - value) < tolerance
  | below bound => x < bound

namespace CentroidTest

/-- The answers for some centroids; the axis may be counted from the end. -/
def answers (test : CentroidTest α) (centroids : List (List α)) : Except Failure (List Bool) :=
  match test with
  | miscounting => pure (List.replicate (centroids.length + 1) true)
  | coordinate axis test => centroids.mapM fun c =>
    match entry? c axis with
    | some x => pure (test.holds x)
    | none => throw .outOfRange

end CentroidTest

/-- Facets by number, or by a test of the boundary facets or of some others. -/
inductive FacetChoice (α : Type) where
  | listed (facets : Grid Int)
  | tested (test : CentroidTest α) (among : Option (Grid Int))
  deriving Repr

/-- The chosen facets. Listed ones are left as they are; tested ones must be a plain list unless there
are none. -/
def Mesh.choose (m : Mesh α) : FacetChoice α → Except Failure (Grid Int)
  | .listed facets => pure facets
  | .tested test none => do pure (.vector (← m.select test.answers none))
  | .tested test (some among) => do
    if among.entries.isEmpty then pure among
    else if among.sides.length ≠ 1 then throw .unsupported
    else pure (.vector (← m.select test.answers (some among.entries)))

end Galerkin
