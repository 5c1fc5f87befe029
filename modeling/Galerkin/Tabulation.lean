import Galerkin.Element
import Galerkin.Indexing
import Galerkin.Quadrature

/-!
Shape functions tabulated at quadrature points of elements and of their facets. Geometry is mapped
with the same basis as the fields, and facet normals point away from the element's centroid.
-/

namespace Galerkin

/-- The control points of several elements, `points` to each element. -/
structure ControlNets (α : Type) where
  points : Nat
  dim : Nat
  nets : List (List (List α))
  deriving Repr

/-- What a kernel needs to know at one quadrature point. -/
structure PointData (α : Type) where
  basis : List α
  gradients : List (List α)
  /-- The quadrature weight times the measure of the map. -/
  weight : α
  position : List α
  /-- The outward unit normal, on facets only. -/
  normal : List α
  deriving Repr

structure Tabulation (α : Type) where
  dim : Nat
  pointCount : Nat
  basisCount : Nat
  /-- Do the points lie on facets, where they have normals? -/
  hasNormals : Bool
  entities : List (List (PointData α))
  deriving Repr

namespace Tabulation

section Arithmetic

variable {α : Type} [Arithmetic α]

open Arithmetic

/-- The derivatives of a map: a row for each coordinate, a column for each reference axis. -/
def jacobian (dim axes : Nat) (net gradients : List (List α)) : List (List α) :=
  (List.range dim).map fun i => (List.range axes).map fun j =>
    total (List.zipWith (fun x g => x.getD i 0 * g.getD j 0) net gradients)

def determinant? : List (List α) → Option α
  | [[a]] => some a
  | [[a, b], [c, d]] => some (a * d - b * c)
  | [[a, b, c], [d, e, f], [g, h, i]] =>
    some (a * (e * i - f * h) - b * (d * i - f * g) + c * (d * h - e * g))
  | _ => none

/-- The inverse of a square matrix of up to three rows with determinant `det`. -/
def inverse (det : α) : List (List α) → List (List α)
  | [[_]] => [[1 / det]]
  | [[a, b], [c, d]] => [[d / det, -b / det], [-c / det, a / det]]
  | [[a, b, c], [d, e, f], [g, h, i]] =>
    [[(e * i - f * h) / det, (c * h - b * i) / det, (b * f - c * e) / det],
      [(f * g - d * i) / det, (a * i - c * g) / det, (c * d - a * f) / det],
      [(d * h - e * g) / det, (b * g - a * h) / det, (a * e - b * d) / det]]
  | _ => []

/-- A gradient in reference coordinates as a gradient in space. -/
def physical (inverse : List (List α)) (dim : Nat) (gradient : List α) : List α :=
  (List.range dim).map fun i =>
    total (List.zipWith (fun g row => g * row.getD i 0) gradient inverse)

/-- The weighted sum of control points. -/
def interpolate (dim : Nat) (weights : List α) (net : List (List α)) : List α :=
  (List.range dim).map fun i => total (List.zipWith (fun w x => w * x.getD i 0) weights net)

def centroid (dim : Nat) (net : List (List α)) : List α :=
  (List.range dim).map fun i => sumOf net (·.getD i 0) / ofNat net.length

/-- The basis of an element at one quadrature point, before it is mapped. -/
structure ReferencePoint (α : Type) where
  values : List α
  gradients : List (List α)
  weight : α

def referencePoint (e : Element) (position : List α) (weight : α) : ReferencePoint α :=
  ⟨e.values position, e.gradients position, weight⟩

/-- A quadrature point in one element: its Jacobian, the determinant of that, and its data; `measure` weighs the point. -/
def mapped (axes dim : Nat) (net : List (List α)) (p : ReferencePoint α) :
    Except Failure (List (List α) × α × PointData α) :=
  let j := jacobian dim axes net p.gradients
  match determinant? j with
  | none => throw .noInverse
  | some det =>
    let inv := inverse det j
    pure (j, det, ⟨p.values, p.gradients.map (physical inv dim), p.weight * det,
      interpolate dim p.values net, []⟩)

def jacobianFailure (id : Int) : Failure := .assembly ⟨.jacobian, none, none, id⟩

/-- The number under which entity `k` is reported. -/
def reportedId (ids : Option (List Int)) (k : Nat) : Except Failure Int :=
  match ids with
  | none => pure k
  | some ids => match ids[k]? with
    | some id => pure id
    | none => throw .outOfRange

/-- The quadrature points of one entity, whose Jacobians must be positive. -/
def mapEntity (axes dim : Nat) (ids : Option (List Int)) (k : Nat) (net : List (List α))
    (points : List (ReferencePoint α)) : Except Failure (List (List (List α) × PointData α)) := do
  let all ← points.mapM (mapped axes dim net)
  if all.any fun (_, det, _) => det ≤ 0 then throw (jacobianFailure (← reportedId ids k))
  pure (all.map fun (j, _, d) => (j, d))

/-- The basis of an element at the points of a rule inside every net. -/
def onVolumes (e : Element) (nets : ControlNets α) (rule : Rule α) (ids : Option (List Int)) :
    Except Failure (Tabulation α) := do
  if nets.dim ≠ e.dim || nets.points ≠ e.size then
    throw (.invalid (.controlPointShape [nets.nets.length, nets.points, nets.dim] e.text))
  let points := rule.map fun q => referencePoint e q.position q.weight
  let entities ← nets.nets.zipIdx.mapM fun (net, k) => do
    pure ((← mapEntity e.dim nets.dim ids k net points).map (·.2))
  pure ⟨nets.dim, rule.length, nets.points, false, entities⟩

end Arithmetic

section Facets

variable {α : Type} [Scalar α]

open Arithmetic

def norm (v : List α) : α := Scalar.sqrt (dot v v)

/-- A vector that is orthogonal to the images of a facet's tangents, and the facet's measure. -/
def facetNormal (dim : Nat) : List (List α) → List α × α
  | [[a, b]] => ([b, -a], norm [b, -a])
  | [[a, b, c], [d, e, f]] =>
    let n := [b * f - c * e, c * d - a * f, a * e - b * d]
    (n, norm n)
  | _ => (List.replicate dim 1, 1)

/-- The unit vector along `n` that does not point back to the centroid. -/
def outward (n position centroid : List α) : List α :=
  let size := norm n
  let n := n.map (· / size)
  if dot n (List.zipWith (· - ·) position centroid) < 0 then n.map (-·) else n

def onFacet (dim : Nat) (tangents : List (List α)) (centroid : List α) (weight : α)
    (j : List (List α)) (d : PointData α) : PointData α :=
  let images := tangents.map fun t => j.map fun row => dot row t
  let (n, measure) := facetNormal dim images
  { d with weight := measure * weight, normal := outward n d.position centroid }

def blank (dim basisCount : Nat) : PointData α :=
  ⟨List.replicate basisCount 0, List.replicate basisCount (List.replicate dim 0), 0,
    List.replicate dim 0, List.replicate dim 0⟩

/-- The data of all facets that are facet `local` of their element, by row. -/
def facetGroup (e : Element) (nets : ControlNets α) (rule : Rule α) (ids : Option (List Int))
    (localFacet : Int) (rows : List Nat) : Except Failure (List (Nat × List (PointData α))) := do
  let some facet := entry? e.cell.facets localFacet | throw .outOfRange
  let positions ← rule.mapM fun q => e.cell.facetPoint facet q.position
  let points := List.zipWith (fun x q => referencePoint e x q.weight) positions rule
  let tangents := e.cell.facetTangents facet
  let chosen ← rows.mapM fun k =>
    match nets.nets[k]? with
    | some net => pure (k, net)
    | none => throw .outOfRange
  if nets.points ≠ e.size then throw .misshapen
  chosen.mapM fun (k, net) => do
    let mapped ← mapEntity e.dim nets.dim ids k net points
    let center := centroid nets.dim net
    pure (k, List.zipWith (fun (j, d) q => onFacet nets.dim tangents center q.weight j d) mapped rule)

/-- The distinct entries in ascending order. -/
def ascending (xs : List Int) : List Int := (xs.mergeSort (· ≤ ·)).eraseDups

def rowsOf (locals : List Int) (localFacet : Int) : List Nat :=
  (locals.zipIdx.filter fun l => l.1 = localFacet).map (·.2)

/-- The basis of the owner elements at the points of a rule on their facets; row `k` of the nets belongs to `locals[k]`. -/
def onFacets (e : Element) (nets : ControlNets α) (locals : List Int) (rule : Rule α)
    (ids : Option (List Int)) : Except Failure (Tabulation α) := do
  let groups ← (ascending locals).mapM fun f => facetGroup e nets rule ids f (rowsOf locals f)
  let found := groups.flatten
  let unused := rule.map fun _ => blank nets.dim nets.points
  let entities := (List.range nets.nets.length).map fun k => (found.lookup k).getD unused
  pure ⟨nets.dim, rule.length, nets.points, true, entities⟩

end Facets

end Tabulation

end Galerkin
