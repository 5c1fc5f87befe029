import Galerkin.Arithmetic
import Galerkin.Failure

/-!
Reference cells. Lines, quadrilaterals and hexahedra are cubes over [-1, 1], triangles and
tetrahedra are unit simplices; the point is the facet of a line. A facet is given by its corners in
an order that parametrises it.
-/

namespace Galerkin

inductive Cell where
  | point | line | tri | quad | tet | hex
  deriving DecidableEq, Repr, Inhabited

namespace Cell

def name : Cell → String
  | point => "point" | line => "line" | tri => "tri" | quad => "quad" | tet => "tet" | hex => "hex"

/-- The cells that a mesh may consist of. -/
def bodies : List Cell := [line, tri, quad, tet, hex]

def ofName? (s : String) : Option Cell := bodies.find? fun c => c.name == s

def ofName (s : String) : Except Failure Cell :=
  match ofName? s with
  | some c => pure c
  | none => throw (.missing (.shape s))

def dim : Cell → Nat
  | point => 0 | line => 1 | tri => 2 | quad => 2 | tet => 3 | hex => 3

def isSimplex : Cell → Bool
  | tri | tet => true
  | _ => false

/-- The corners; the upper corners of a hexahedron follow the lower ones in the same turn. -/
def corners : Cell → List (List Int)
  | point => [[]]
  | line => [[-1], [1]]
  | tri => [[0, 0], [1, 0], [0, 1]]
  | quad => [[-1, -1], [1, -1], [1, 1], [-1, 1]]
  | tet => [[0, 0, 0], [1, 0, 0], [0, 1, 0], [0, 0, 1]]
  | hex => [[-1, -1, -1], [1, -1, -1], [1, 1, -1], [-1, 1, -1],
      [-1, -1, 1], [1, -1, 1], [1, 1, 1], [-1, 1, 1]]

def cornerCount (c : Cell) : Nat := c.corners.length

/-- The facets, each by the numbers of its corners. -/
def facets : Cell → List (List Nat)
  | point => []
  | line => [[0], [1]]
  | tri => [[0, 1], [1, 2], [2, 0]]
  | quad => [[0, 1], [1, 2], [2, 3], [3, 0]]
  | tet => [[0, 2, 1], [0, 1, 3], [1, 2, 3], [0, 3, 2]]
  | hex => [[0, 3, 2, 1], [4, 5, 6, 7], [0, 1, 5, 4], [1, 2, 6, 5], [2, 3, 7, 6], [3, 0, 4, 7]]

/-- The reference cell of the facets. -/
def facetCell : Cell → Cell
  | point => point | line => point | tri => line | quad => line | tet => tri | hex => quad

section Geometry

variable {α : Type} [Arithmetic α]

open Arithmetic

/-- The barycentric coordinates of a point in a unit simplex. -/
def barycentric (x : List α) : List α := (1 - total x) :: x

/-- The corners of the smallest face of the cell that holds a point, up to a tolerance. A cube's face is told by the coordinates that are one in size. -/
def supporting (c : Cell) (tol : α) (x : List α) : List Nat :=
  if c.isSimplex then
    ((barycentric x).zipIdx.filter fun l => tol < l.1).map (·.2)
  else
    let onFace := fun (t : α) => abs (abs t - 1) < tol
    let agrees := fun (corner : List Int) =>
      (corner.zip x).all fun (k, t) => !onFace t || abs (ofInt k - t) < tol
    (c.corners.zipIdx.filter fun k => agrees k.1).map (·.2)

/-- The weights of a cell's corners at a point, linear or bilinear in its coordinates; a point needs as many coordinates as the cell has axes, and only a triangle minds further ones. -/
def cornerWeights (c : Cell) (x : List α) : Except Failure (List α) :=
  match c, x with
  | point, _ => pure [1]
  | line, s :: _ => pure [half * (1 - s), half * (1 + s)]
  | quad, s :: t :: _ =>
    let quarter : α := half * half
    pure [quarter * ((1 - s) * (1 - t)), quarter * ((1 + s) * (1 - t)),
      quarter * ((1 + s) * (1 + t)), quarter * ((1 - s) * (1 + t))]
  | tri, [s, t] => pure (barycentric [s, t])
  | tri, _ => throw .misshapen
  | _, _ => throw .outOfRange

/-- The weighted sum of some corners. -/
def cornerSum (c : Cell) (corners : List Nat) (weights : List α) : List α :=
  (List.range c.dim).map fun axis =>
    total ((corners.zip weights).map fun (k, w) => w * ofInt ((c.corners.getD k []).getD axis 0))

/-- The point of the cell that a point of a facet's reference cell stands for. -/
def facetPoint (c : Cell) (facet : List Nat) (x : List α) : Except Failure (List α) := do
  pure (c.cornerSum facet (← c.facetCell.cornerWeights x))

def edgeVector (c : Cell) (i j : Nat) : List α :=
  List.zipWith (fun a b => ofInt b - ofInt a) (c.corners.getD i []) (c.corners.getD j [])

/-- The derivatives of a facet's parametrisation. -/
def facetTangents (c : Cell) (facet : List Nat) : List (List α) :=
  match c.facetCell, facet with
  | line, [i, j] => [(c.edgeVector i j).map (half * ·)]
  | tri, [i, j, k] => [c.edgeVector i j, c.edgeVector i k]
  | quad, [i, j, _, l] => [(c.edgeVector i j).map (half * ·), (c.edgeVector i l).map (half * ·)]
  | _, _ => []

end Geometry

end Cell

end Galerkin
